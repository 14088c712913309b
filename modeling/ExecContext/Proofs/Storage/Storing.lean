import ExecContext.Proofs.Storage.Kept

set_option autoImplicit false

/-!
# What holding a pointer does to a process

A backend with a key creates it when it is first to hold a pointer, then stores the pointer behind
it; the platform may fail at both. `run_hold` says what comes of every use of every backend: either
the pointer is kept for the calling thread and nothing else is bound or unbound, or the use fails
and every binding is as it was.
-/

namespace ExecContext

namespace Process

variable {s s' : Process} {t : ThreadId}

/-! ## Creating a key -/

/-- The process after a key was created. -/
def keyMade (s : Process) : Process :=
  { s with
    platform :=
      { s.platform with
        keysMade := s.platform.keysMade + 1
        createCalls := s.platform.createCalls + 1 } }

/-- The process after a key was asked for and none was created. -/
def keyAsked (s : Process) : Process :=
  { s with platform := { s.platform with createCalls := s.platform.createCalls + 1 } }

/-- The key that was to be created next has been created, and so have those before it. -/
theorem created_keyMade_iff {k : Key} :
    s.keyMade.platform.Created k ↔ s.platform.Created k ∨ k = s.platform.nextKey := by
  constructor
  · rintro ⟨i, hi, rfl⟩
    rcases Nat.lt_succ_iff_lt_or_eq.mp hi with hi | rfl
    · exact Or.inl ⟨i, hi, rfl⟩
    · exact Or.inr rfl
  · rintro (⟨i, hi, rfl⟩ | rfl)
    · exact ⟨i, Nat.lt_succ_of_lt hi, rfl⟩
    · exact ⟨_, Nat.lt_succ_self _, rfl⟩

theorem Sound.steady_keyMade (h : s.Sound) : s.Steady s.keyMade :=
  h.steady_update _ _ _ (fun _ hk => created_keyMade_iff.mpr (Or.inl hk)) rfl rfl rfl

theorem Sound.steady_keyAsked (h : s.Sound) : s.Steady s.keyAsked :=
  h.steady_update _ _ _ (fun _ hk => hk) rfl rfl rfl

theorem run_failWith {α : Type} (h : s.LogFree) (failure : StorageFailure) :
    s.run t (Storage.failWith failure : Action α) =
      ⟨.failed (.storage failure), s.loaded, s.recordEvents t .error (.notHeld failure)⟩ := by
  unfold Storage.failWith
  rw [run_bind_of_returned (run_write h _ _)]
  simp [noted]

theorem run_createKey_of_made (h : s.LogFree) (hok : s.platform.createFault = 0) :
    s.run t Storage.createKey =
      ⟨.returned s.platform.nextKey, s.keyMade.loaded,
        s.keyMade.recordEvents t .debug (.keyCreated s.platform.nextKey)⟩ := by
  have hfree : s.keyMade.LogFree := ⟨h.settings, h.holder⟩
  have hperform : s.perform t .createKey = some ⟨.ok s.platform.nextKey, s.keyMade, []⟩ := by
    simp [perform, Process.createKey, hok, keyMade, Platform.nextKey]
  unfold Storage.createKey
  rw [Program.call_bind, run_call, hperform]
  simp only [Program.done_bind]
  rw [run_bind_of_returned (run_write hfree _ _)]
  simp [noted]

theorem run_createKey_of_fault (h : s.LogFree) (hfault : s.platform.createFault ≠ 0) :
    s.run t Storage.createKey =
      ⟨.failed (.storage (.noKey s.platform.createFault)), s.keyAsked.loaded,
        s.keyAsked.recordEvents t .error (.notHeld (.noKey s.platform.createFault))⟩ := by
  have hfree : s.keyAsked.LogFree := ⟨h.settings, h.holder⟩
  have hperform : s.perform t .createKey =
      some ⟨.error s.platform.createFault, s.keyAsked, []⟩ := by
    simp [perform, Process.createKey, hfault, keyAsked]
  unfold Storage.createKey
  rw [Program.call_bind, run_call, hperform]
  simp only [Program.done_bind]
  rw [run_failWith hfree, Finish.after_mk, List.nil_append]

/-! ## Filling a cell with a key -/

theorem keyMade_setCell (s : Process) (c : Cell) (state : Once c.Content) :
    (s.setCell c state).keyMade = s.keyMade.setCell c state := rfl

theorem keyAsked_setCell (s : Process) (c : Cell) (state : Once c.Content) :
    (s.setCell c state).keyAsked = s.keyAsked.setCell c state := rfl

/-- Emptying an empty cell changes nothing. -/
theorem setCell_eq_self {c : Cell} {state : Once c.Content} (h : s.cells c = state) :
    s.setCell c state = s := by
  have hcells : s.cells.set c state = s.cells := by
    funext d
    by_cases hd : d = c
    · subst hd
      simp [h]
    · exact Cells.set_other _ _ hd
  unfold setCell
  rw [hcells]

/-- A backend without a key may take one that no backend has. -/
theorem Sound.steady_fillKey (h : s.Sound) {b : Backend} {c : Cell} {value : c.Content} {k : Key}
    (hempty : s.cells c = .empty) (hnone : s.keyOf b = none)
    (hkey : ∀ b', (s.setCell c (.full value)).keyOf b' = if b' = b then some k else s.keyOf b')
    (hcreated : s.platform.Created k) (hfree : ∀ b', s.keyOf b' ≠ some k)
    (hprobed : ∀ slot, (s.setCell c (.full value)).cells .direct = .full slot →
      (s.setCell c (.full value)).cells .slotBase = .full slot.base)
    (haligned : ∀ n, (s.setCell c (.full value)).cells .slotBase = .full n → n % 8 = 0) :
    s.Steady (s.setCell c (.full value)) := by
  have hunused : s.specific k = .empty := h.unused k hfree
  have hbehind (b' : Backend) :
      (s.setCell c (.full value)).behind ((s.setCell c (.full value)).keyOf b') =
        s.behind (s.keyOf b') := by
    rw [hkey]
    by_cases hb : b' = b
    · subst hb
      simp [behind, hnone, hunused]
    · simp [hb, behind]
  refine h.steady_fill hempty ?_ ?_ ?_ hprobed haligned
  · funext b'
    cases b' with
    | native => rfl
    | spy => rfl
    | key => exact hbehind .key
    | direct => exact hbehind .direct
  · intro b' k' hk'
    rw [hkey] at hk'
    split at hk'
    · cases hk'
      exact hcreated
    · exact h.created b' k' hk'
  · intro k' hk' hk''
    rw [hkey] at hk' hk''
    split at hk' <;> split at hk''
    · rename_i hb hb'
      exact absurd (hb.trans hb'.symm) (by decide)
    · cases hk'
      exact hfree _ hk''
    · cases hk''
      exact hfree _ hk'
    · exact h.apart k' hk' hk''

/-- The process after the key backend got its key. -/
def withKey (s : Process) : Process :=
  s.keyMade.loaded.setCell .key (.full s.platform.nextKey)

/-- The process after the direct backend got its slot. -/
def withDirect (s : Process) : Process :=
  s.based.keyMade.loaded.setCell .direct (.full ⟨s.based.platform.nextKey, s.base⟩)

theorem keyOf_withKey (s : Process) (b : Backend) :
    s.withKey.keyOf b = if b = .key then some s.platform.nextKey else s.keyOf b := by
  cases b <;> simp [keyOf, withKey, setCell_other, loaded_cells, keyMade, Once.value?]

theorem keyOf_withDirect (s : Process) (b : Backend) :
    s.withDirect.keyOf b =
      if b = .direct then some s.based.platform.nextKey else s.keyOf b := by
  cases b <;>
    simp [keyOf, withDirect, setCell_other, loaded_cells, keyMade, based_cells, Once.value?]

namespace Sound

/-- A key that is not created yet is no backend's. -/
theorem keyOf_ne_nextKey (h : s.Sound) (b : Backend) : s.keyOf b ≠ some s.platform.nextKey := by
  intro hk
  exact s.platform.not_created_nextKey (h.created b _ hk)

theorem steady_withKey (h : s.Sound) (hnone : s.keyOf .key = none) : s.Steady s.withKey := by
  have hmade := h.steady_keyMade.trans h.steady_keyMade.sound.steady_loaded
  have hkeyOf (b : Backend) : s.keyMade.loaded.keyOf b = s.keyOf b := keyOf_loaded _ b
  refine hmade.trans (hmade.sound.steady_fillKey (b := .key) (k := s.platform.nextKey)
    (hmade.sound.key_empty ((hkeyOf .key).trans hnone)) ?_ ?_ ?_ ?_ ?_ ?_)
  · exact (hkeyOf .key).trans hnone
  · intro b
    rw [hkeyOf]
    exact s.keyOf_withKey b
  · rw [loaded_platform]
    exact created_keyMade_iff.mpr (Or.inr rfl)
  · intro b
    rw [hkeyOf]
    exact h.keyOf_ne_nextKey b
  · intro slot hslot
    rw [setCell_other _ _ _ (by decide)] at hslot ⊢
    exact hmade.sound.probed slot hslot
  · intro n hn
    rw [setCell_other _ _ _ (by decide)] at hn
    exact hmade.sound.aligned n hn

theorem steady_withDirect (h : s.Sound) (hnone : s.keyOf .direct = none) :
    s.Steady s.withDirect := by
  have hbased := h.steady_based
  have hmade := hbased.sound.steady_keyMade.trans hbased.sound.steady_keyMade.sound.steady_loaded
  have hkeyOf (b : Backend) : s.based.keyMade.loaded.keyOf b = s.keyOf b :=
    (keyOf_loaded _ b).trans (s.keyOf_based b)
  refine hbased.trans (hmade.trans (hmade.sound.steady_fillKey (b := .direct)
    (k := s.based.platform.nextKey) (hmade.sound.direct_empty ((hkeyOf .direct).trans hnone))
    ?_ ?_ ?_ ?_ ?_ ?_))
  · exact (hkeyOf .direct).trans hnone
  · intro b
    rw [hkeyOf]
    exact s.keyOf_withDirect b
  · rw [loaded_platform]
    exact created_keyMade_iff.mpr (Or.inr rfl)
  · intro b
    rw [hkeyOf, ← keyOf_based]
    exact hbased.sound.keyOf_ne_nextKey b
  · intro slot hslot
    rw [setCell_same] at hslot
    cases hslot
    rw [setCell_other _ _ _ (by decide), loaded_cells _ (by decide)]
    exact s.based_slotBase
  · intro n hn
    rw [setCell_other _ _ _ (by decide)] at hn
    exact hmade.sound.aligned n hn

end Sound

/-! ## Running the cells with keys -/

/-- What the direct backend computes for its slot. -/
def setUpDirect : Action DirectSlot := do
  let base ← Kernel.processBase
  let key ← Storage.createKey
  let slot : DirectSlot := ⟨key, base⟩
  Log.write .debug (.directReady slot)
  return slot

section Cells

variable (t)

theorem run_processKey_of_made (h : s.Sound) (hempty : s.cells .key = .empty)
    (hok : s.platform.createFault = 0) :
    ∃ events, s.run t Storage.processKey =
      ⟨.returned s.platform.nextKey, s.withKey, events⟩ := by
  have hfree := h.logFree.setCell (c := .key) (by decide) (.busy t)
  have hrun := run_getOrFill_of_returned (c := .key) hempty
    (run_createKey_of_made (t := t) hfree hok)
  rw [keyMade_setCell, loaded_setCell _ (by decide), setCell_setCell] at hrun
  exact ⟨_, hrun⟩

theorem run_processKey_of_fault (h : s.Sound) (hempty : s.cells .key = .empty)
    (hfault : s.platform.createFault ≠ 0) :
    ∃ events, s.run t Storage.processKey =
      ⟨.failed (.storage (.noKey s.platform.createFault)), s.keyAsked.loaded, events⟩ := by
  have hfree := h.logFree.setCell (c := .key) (by decide) (.busy t)
  have hcell : s.keyAsked.loaded.cells .key = .empty := by
    rw [loaded_cells _ (by decide)]
    exact hempty
  have hrun := run_getOrFill_of_failed (c := .key) hempty
    (run_createKey_of_fault (t := t) hfree hfault)
  rw [keyAsked_setCell, loaded_setCell _ (by decide), setCell_setCell,
    setCell_eq_self hcell] at hrun
  exact ⟨_, hrun⟩

/-- The direct backend probes first and creates its key then. -/
theorem run_directSlot_of_made (h : s.Sound) (hempty : s.cells .direct = .empty)
    (hok : s.platform.createFault = 0) :
    ∃ events, s.run t Storage.directSlot =
      ⟨.returned ⟨s.based.platform.nextKey, s.base⟩, s.withDirect, events⟩ := by
  have hfree := h.logFree.setCell (c := .direct) (by decide) (.busy t)
  have hidle (u : ThreadId) : (s.setCell .direct (.busy t)).cells .slotBase ≠ .busy u := by
    rw [setCell_other _ _ _ (by decide)]
    exact h.idle _ u
  obtain ⟨probing, hbase⟩ := run_processBase (t := t) hfree hidle
  rw [base_setCell _ (by decide), based_setCell _ (by decide) (by decide)] at hbase
  have hfree' := h.logFree.based.setCell (c := .direct) (by decide) (.busy t)
  have hcreate := run_createKey_of_made (t := t) hfree' (s.based_createFault.trans hok)
  have hmade : (s.based.setCell .direct (.busy t)).keyMade.LogFree :=
    ⟨hfree'.settings, hfree'.holder⟩
  obtain ⟨events, hcompute⟩ : ∃ events,
      (s.setCell .direct (.busy t)).run t setUpDirect =
        ⟨.returned ⟨s.based.platform.nextKey, s.base⟩,
          s.based.keyMade.loaded.setCell .direct (.busy t), events⟩ := by
    unfold setUpDirect
    rw [run_bind_of_returned hbase, run_bind_of_returned hcreate,
      run_bind_of_returned (run_write hmade.loaded _ _), keyMade_setCell,
      loaded_setCell _ (by decide)]
    simp [noted, loaded_setCell]
  have hrun := run_getOrFill_of_returned (c := .direct) hempty hcompute
  rw [setCell_setCell] at hrun
  exact ⟨_, hrun⟩

/-- An offset that was probed stays known when no key can be created. -/
theorem run_directSlot_of_fault (h : s.Sound) (hempty : s.cells .direct = .empty)
    (hfault : s.platform.createFault ≠ 0) :
    ∃ events, s.run t Storage.directSlot =
      ⟨.failed (.storage (.noKey s.platform.createFault)), s.based.keyAsked.loaded, events⟩ := by
  have hfree := h.logFree.setCell (c := .direct) (by decide) (.busy t)
  have hidle (u : ThreadId) : (s.setCell .direct (.busy t)).cells .slotBase ≠ .busy u := by
    rw [setCell_other _ _ _ (by decide)]
    exact h.idle _ u
  have hcell : s.based.keyAsked.loaded.cells .direct = .empty := by
    rw [loaded_cells _ (by decide)]
    exact (s.based_cells (by decide) (by decide)).trans hempty
  obtain ⟨probing, hbase⟩ := run_processBase (t := t) hfree hidle
  rw [base_setCell _ (by decide), based_setCell _ (by decide) (by decide)] at hbase
  have hfree' := h.logFree.based.setCell (c := .direct) (by decide) (.busy t)
  have hcreate := run_createKey_of_fault (t := t) hfree'
    (fun hzero => hfault (s.based_createFault.symm.trans hzero))
  obtain ⟨events, hcompute⟩ : ∃ events,
      (s.setCell .direct (.busy t)).run t setUpDirect =
        ⟨.failed (.storage (.noKey s.platform.createFault)),
          s.based.keyAsked.loaded.setCell .direct (.busy t), events⟩ := by
    unfold setUpDirect
    rw [run_bind_of_returned hbase, run_bind_of_failed hcreate, keyAsked_setCell,
      loaded_setCell _ (by decide)]
    simp [based_createFault]
  have hrun := run_getOrFill_of_failed (c := .direct) hempty hcompute
  rw [setCell_setCell, setCell_eq_self hcell] at hrun
  exact ⟨_, hrun⟩

end Cells

/-! ## Storing behind a key -/

/-- The process after a pointer of thread `t` was stored behind a key. -/
def stored (s : Process) (t : ThreadId) (k : Key) (p : Pointer) : Process :=
  { s with
    specific := fun k' => if k' = k then (s.specific k).set t p else s.specific k' }

theorem run_storeBehind_of_ok (s : Process) (t : ThreadId) (k : Key) (p : Pointer)
    (hok : s.platform.storeFault = 0) :
    s.run t (Storage.storeBehind k p) = ⟨.returned (), s.stored t k p, []⟩ := by
  simp [Storage.storeBehind, run_call, perform, setSpecific, hok, stored]

theorem run_storeBehind_of_fault (h : s.LogFree) (k : Key) (p : Pointer)
    (hfault : s.platform.storeFault ≠ 0) :
    s.run t (Storage.storeBehind k p) =
      ⟨.failed (.storage (.notStored s.platform.storeFault)), s.loaded,
        s.recordEvents t .error (.notHeld (.notStored s.platform.storeFault))⟩ := by
  simp [Storage.storeBehind, run_call, perform, setSpecific, hfault, Effect.read,
    run_failWith h]

/-- Storing behind the key of a backend changes what that backend keeps, and nothing else. -/
theorem Sound.holding_stored (h : s.Sound) {b : Backend} {k : Key} (hk : s.keyOf b = some k)
    (t : ThreadId) (p : Pointer) : s.Holding t b p (s.stored t k p) where
  sound :=
    { idle := h.idle
      holder := h.holder
      unused := by
        intro k' hk'
        have hne : k' ≠ k := by
          rintro rfl
          exact hk' b hk
        simpa [stored, hne] using h.unused k' hk'
      created := h.created
      apart := h.apart
      probed := h.probed
      aligned := h.aligned }
  roster := rfl
  activities := rfl
  calls := rfl
  full _ _ hc := hc
  createFault := rfl
  storeFault := rfl
  host := rfl
  kept := by
    intro b'
    have hkeyOf : (s.stored t k p).keyOf b' = s.keyOf b' := rfl
    by_cases hb : b' = b
    · subst hb
      rw [if_pos rfl, kept_of_keyOf (hkeyOf.trans hk), kept_of_keyOf hk]
      simp [stored]
    · rw [if_neg hb]
      cases hk' : s.keyOf b' with
      | none =>
        cases b' with
        | native => rfl
        | spy => rfl
        | key => rw [kept, kept, hkeyOf, hk', behind, behind]
        | direct => rw [kept, kept, hkeyOf, hk', behind, behind]
      | some k' =>
        have hne : k' ≠ k := by
          intro heq
          subst heq
          exact hb (h.keyOf_injective hk' hk)
        rw [kept_of_keyOf (hkeyOf.trans hk'), kept_of_keyOf hk']
        simp [stored, hne]

/-- A backend that has its key stores behind it at once. -/
theorem run_hold_of_ready {b : Backend} {k : Key} (hk : s.keyOf b = some k) (t : ThreadId)
    (p : Pointer) : s.run t (b.hold p) = s.run t (Storage.storeBehind k p) := by
  cases b with
  | native => cases hk
  | spy => cases hk
  | key =>
    have hrun : s.run t Storage.processKey = ⟨.returned k, s, []⟩ :=
      run_getOrFill_of_full (keyOf_key_iff.mp hk)
    exact run_bind_of_returned hrun (Storage.storeBehind · p)
  | direct =>
    obtain ⟨n, hcell⟩ := keyOf_direct_iff.mp hk
    have hrun : s.run t Storage.directSlot = ⟨.returned ⟨k, n⟩, s, []⟩ :=
      run_getOrFill_of_full hcell
    exact run_bind_of_returned hrun fun slot => Storage.storeBehind slot.key p

/-- A backend without a key has one made and stores behind it. -/
theorem run_hold_of_made {b : Backend} (h : s.Sound) (hb : b = .key ∨ b = .direct)
    (hnone : s.keyOf b = none) (hok : s.platform.createFault = 0) (t : ThreadId) (p : Pointer) :
    ∃ s' k events, s.Steady s' ∧ s.Apart b s' ∧ s'.keyOf b = some k ∧
      s.run t (b.hold p) = (s'.run t (Storage.storeBehind k p)).after events := by
  rcases hb with rfl | rfl
  · obtain ⟨events, hrun⟩ := run_processKey_of_made t h (h.key_empty hnone) hok
    refine ⟨_, _, events, h.steady_withKey hnone, fun b' hb' => ?_, s.keyOf_withKey .key,
      run_bind_of_returned hrun (Storage.storeBehind · p)⟩
    rw [keyOf_withKey, if_neg hb']
  · obtain ⟨events, hrun⟩ := run_directSlot_of_made t h (h.direct_empty hnone) hok
    refine ⟨_, _, events, h.steady_withDirect hnone, fun b' hb' => ?_,
      s.keyOf_withDirect .direct,
      run_bind_of_returned hrun fun slot => Storage.storeBehind slot.key p⟩
    rw [keyOf_withDirect, if_neg hb']

/-- A backend without a key stays without one when none can be made, and so does any other; what the
direct backend probed stays known. -/
theorem run_hold_of_noKey {b : Backend} (h : s.Sound) (hb : b = .key ∨ b = .direct)
    (hnone : s.keyOf b = none) (hfault : s.platform.createFault ≠ 0) (t : ThreadId)
    (p : Pointer) :
    ∃ s' events, s.Steady s' ∧ (∀ b', s'.keyOf b' = s.keyOf b') ∧
      (b = .direct → s'.cells .slotBase = .full s.base) ∧
      s.run t (b.hold p) =
        ⟨.failed (.storage (.noKey s.platform.createFault)), s', events⟩ := by
  rcases hb with rfl | rfl
  · obtain ⟨events, hrun⟩ := run_processKey_of_fault t h (h.key_empty hnone) hfault
    have hsteady := h.steady_keyAsked.trans h.steady_keyAsked.sound.steady_loaded
    exact ⟨_, events, hsteady, keyOf_loaded _, by simp,
      run_bind_of_failed hrun (Storage.storeBehind · p)⟩
  · obtain ⟨events, hrun⟩ := run_directSlot_of_fault t h (h.direct_empty hnone) hfault
    have hasked := h.steady_based.sound.steady_keyAsked
    have hsteady := h.steady_based.trans (hasked.trans hasked.sound.steady_loaded)
    refine ⟨_, events, hsteady, fun b' => (keyOf_loaded _ b').trans (s.keyOf_based b'),
      fun _ => ?_, run_bind_of_failed hrun fun slot => Storage.storeBehind slot.key p⟩
    rw [loaded_cells _ (by decide)]
    exact s.based_slotBase

/-! ## Every use of every backend -/

/-- Why a backend cannot hold a pointer now, if it cannot: it has no key and none can be created, or
nothing can be stored. -/
def fault? (s : Process) (b : Backend) : Option StorageFailure :=
  if b = .native ∨ b = .spy then
    none
  else if s.keyOf b = none ∧ s.platform.createFault ≠ 0 then
    some (.noKey s.platform.createFault)
  else if s.platform.storeFault ≠ 0 then
    some (.notStored s.platform.storeFault)
  else
    none

/-- What a use of a backend leaves of its key: there is one if the use got as far as storing, and
none if none could be created, though an offset that was probed stays known. -/
def Left (s : Process) (b : Backend) (s' : Process) : Option StorageFailure → Prop
  | some (.noKey _) => s'.keyOf b = none ∧ (b = .direct → s'.cells .slotBase = .full s.base)
  | _ => b = .key ∨ b = .direct → s'.keyOf b ≠ none

/-- A use that does not fail keeps the pointer and gives `value`; one that fails leaves every
binding as it was. -/
inductive Held {α : Type} (s : Process) (t : ThreadId) (b : Backend) (p : Pointer) (value : α) :
    Finish α → Prop where
  | kept {s' : Process} (events : List Event) (hfault : s.fault? b = none)
      (hs : s.Holding t b p s') (hapart : s.Apart b s') (hleft : s.Left b s' none) :
      Held s t b p value ⟨.returned value, s', events⟩
  | failed {s' : Process} {failure : StorageFailure} (events : List Event)
      (hfault : s.fault? b = some failure) (hs : s.Steady s') (hapart : s.Apart b s')
      (hleft : s.Left b s' (some failure)) :
      Held s t b p value ⟨.failed (.storage failure), s', events⟩

/-- Storing behind the key that a backend has. -/
theorem held_storeBehind {b : Backend} {k : Key} (h : s.Sound) (hb : b = .key ∨ b = .direct)
    (hk : s.keyOf b = some k) (t : ThreadId) (p : Pointer) :
    s.Held t b p () (s.run t (Storage.storeBehind k p)) := by
  have hfault : s.fault? b =
      if s.platform.storeFault ≠ 0 then some (.notStored s.platform.storeFault) else none := by
    rcases hb with rfl | rfl <;> simp [fault?, hk]
  by_cases hok : s.platform.storeFault = 0
  · rw [run_storeBehind_of_ok s t k p hok]
    refine .kept _ (by simp [hfault, hok]) (h.holding_stored hk t p) (fun _ _ => rfl) ?_
    simp [Left, (h.holding_stored hk t p).keyOf hk]
  · rw [run_storeBehind_of_fault h.logFree k p hok]
    refine .failed _ (by simp [hfault, hok]) h.steady_loaded (fun b' _ => s.keyOf_loaded b') ?_
    simp [Left, h.steady_loaded.keyOf hk]

theorem Holding.native (h : s.Sound) (t : ThreadId) (p : Pointer) :
    s.Holding t .native p { s with native := s.native.set t p } where
  sound := h.congr rfl rfl rfl (fun _ hk => hk)
  roster := rfl
  activities := rfl
  calls := rfl
  full _ _ hc := hc
  createFault := rfl
  storeFault := rfl
  host := rfl
  kept b' := by cases b' <;> rfl

theorem Holding.spy (h : s.Sound) (t : ThreadId) (p : Pointer) :
    s.Holding t .spy p { s with spy := s.spy.set t p } where
  sound := h.congr rfl rfl rfl (fun _ hk => hk)
  roster := rfl
  activities := rfl
  calls := rfl
  full _ _ hc := hc
  createFault := rfl
  storeFault := rfl
  host := rfl
  kept b' := by cases b' <;> rfl

/-- A steady change before a use of a backend is seen only in its events. -/
theorem Held.after {b : Backend} {p : Pointer} {f : Finish Unit} (hs : s.Steady s')
    (hapart : s.Apart b s') (hfault : s'.fault? b = s.fault? b)
    (hbase : s'.keyOf b = none → s'.base = s.base) (h : s'.Held t b p () f)
    (events : List Event) : s.Held t b p () (f.after events) := by
  have hboth {last : Process} (hrest : s'.Apart b last) : s.Apart b last := fun b' hb' =>
    (hrest b' hb').trans (hapart b' hb')
  cases h with
  | kept seen hnone hkept hrest hleft =>
    exact .kept _ (hfault.symm.trans hnone) (hs.holding hkept) (hboth hrest) hleft
  | @failed last failure seen hsome hsteady hrest hleft =>
    refine .failed _ (hfault.symm.trans hsome) (hs.trans hsteady) (hboth hrest) ?_
    cases failure with
    | notStored code => exact hleft
    | noKey code =>
      obtain ⟨hnone, hcell⟩ := hleft
      have hnone' : s'.keyOf b = none := by
        cases hk : s'.keyOf b with
        | none => rfl
        | some k =>
          rw [hsteady.keyOf hk] at hnone
          cases hnone
      refine ⟨hnone, fun hb => ?_⟩
      rw [← hbase hnone']
      exact hcell hb

/-- What is returned after a use of a backend may be another value. -/
theorem Held.returning {α : Type} {b : Backend} {p : Pointer} {action : Action Unit}
    (h : s.Held t b p () (s.run t action)) (value : α) :
    s.Held t b p value (s.run t (action >>= fun _ => .done value)) := by
  generalize hrun : s.run t action = f at h
  cases h with
  | kept events hfault hs hapart hleft =>
    rw [run_bind_of_returned hrun]
    exact .kept _ hfault hs hapart hleft
  | failed events hfault hs hapart hleft =>
    rw [run_bind_of_failed hrun]
    exact .failed _ hfault hs hapart hleft

/-- What comes of holding a pointer. -/
theorem held_run_hold (h : s.Sound) (t : ThreadId) (b : Backend) (p : Pointer) :
    s.Held t b p () (s.run t (b.hold p)) := by
  have hkeyed (hb : b = .key ∨ b = .direct) : s.Held t b p () (s.run t (b.hold p)) := by
    cases hk : s.keyOf b with
    | some k =>
      rw [run_hold_of_ready hk]
      exact held_storeBehind h hb hk t p
    | none =>
      by_cases hok : s.platform.createFault = 0
      · obtain ⟨s', k, events, hs, hapart, hk', hrun⟩ := run_hold_of_made h hb hk hok t p
        rw [hrun]
        refine .after hs hapart ?_ (by simp [hk']) (held_storeBehind hs.sound hb hk' t p) events
        simp [fault?, hk, hk', hok, hs.storeFault]
      · obtain ⟨s', events, hs, hkeys, hcell, hrun⟩ := run_hold_of_noKey h hb hk hok t p
        rw [hrun]
        refine .failed events ?_ hs (fun b' _ => hkeys b') ⟨(hkeys b).trans hk, hcell⟩
        rcases hb with rfl | rfl <;> simp [fault?, hk, hok]
  cases b with
  | native =>
    have hrun : s.run t (Backend.hold p .native) =
        ⟨.returned (), { s with native := s.native.set t p }, []⟩ := by
      simp [Backend.hold, run_call, perform, Effect.write]
    rw [hrun]
    exact .kept [] rfl (.native h t p) (fun _ _ => rfl) (by simp [Left])
  | key => exact hkeyed (Or.inl rfl)
  | direct => exact hkeyed (Or.inr rfl)
  | spy =>
    have hrun : s.run t (Backend.hold p .spy) =
        ⟨.returned (), { s with spy := s.spy.set t p }, [.observed t (.hold p)]⟩ := by
      simp [Backend.hold, run_call, perform, Effect.write, Effect.emit]
    rw [hrun]
    exact .kept _ rfl (.spy h t p) (fun _ _ => rfl) (by simp [Left])

/-! ## Giving a pointer back -/

/-- An action that changes nothing, and of which only requests are seen, gives `value`. -/
def Reads {α : Type} (s : Process) (t : ThreadId) (action : Action α) (value : α) : Prop :=
  ∃ seen : List Resolver.Query,
    s.run t action = ⟨.returned value, s, seen.map (.observed t)⟩

theorem Reads.done {α : Type} (s : Process) (t : ThreadId) (value : α) :
    s.Reads t (.done value) value := ⟨[], rfl⟩

theorem Reads.bind {α β : Type} {p : Action α} {value : α} {next : α → Action β} {result : β}
    (first : s.Reads t p value) (rest : s.Reads t (next value) result) :
    s.Reads t (p >>= next) result := by
  obtain ⟨seen, hfirst⟩ := first
  obtain ⟨more, hrest⟩ := rest
  refine ⟨seen ++ more, ?_⟩
  rw [run_bind_of_returned hfirst, hrest]
  simp

theorem reads_held (s : Process) (t : ThreadId) (b : Backend) :
    s.Reads t b.held (s.held b t) := by
  cases b with
  | native => exact ⟨[], by simp [Backend.held, run_call, perform, Effect.read, held, kept]⟩
  | key =>
    refine ⟨[], ?_⟩
    cases hcell : (s.cells .key).value? <;>
      simp [Backend.held, run_call, perform, Effect.read, held, kept, keyOf, hcell, behind,
        Slots.empty]
  | direct =>
    refine ⟨[], ?_⟩
    cases hcell : (s.cells .direct).value? <;>
      simp [Backend.held, run_call, perform, Effect.read, held, hcell]
  | spy =>
    exact ⟨[.held], by
      simp [Backend.held, run_call, perform, Effect.read, Effect.emit, held, kept]⟩

end Process

end ExecContext
