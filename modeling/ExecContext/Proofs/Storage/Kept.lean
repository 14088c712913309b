import ExecContext.Storage.Holding
import ExecContext.Proofs.Kernel.Probing

set_option autoImplicit false

/-!
# What a process keeps for its threads

`Process.kept` is the pointer that a backend has stored for a thread, `Process.held` the one that it
gives back; the two differ only where the direct backend reads at the wrong place. A process is
`Sound` between two operations: no cell is being filled, no key is used twice, and nothing is stored
behind a key that no backend has. `Steady` relates a process to a later one in which every binding
is as it was, although settings may have been loaded, offsets probed and keys created meanwhile.
-/

namespace ExecContext

/-- The byte address to which a slot leads. -/
def DirectSlot.place (slot : DirectSlot) : Nat :=
  Host.slotFrom slot.base slot.key

namespace Process

variable {s s' : Process} {t : ThreadId}

/-! ## Views -/

/-- The key behind which a backend stores its pointers, if it has one already. -/
def keyOf (s : Process) : Backend → Option Key
  | .native => none
  | .key => (s.cells .key).value?
  | .direct => (s.cells .direct).value?.map DirectSlot.key
  | .spy => none

/-- No backend but `b` has got a key meanwhile. -/
def Apart (s : Process) (b : Backend) (s' : Process) : Prop :=
  ∀ b', b' ≠ b → s'.keyOf b' = s.keyOf b'

/-- The cell in which a backend has its key is empty. -/
def unready (s : Process) : Backend → Prop
  | .key => s.cells .key = .empty
  | .direct => s.cells .direct = .empty
  | _ => False

/-- What is stored behind a key, nothing if there is no key. -/
def behind (s : Process) : Option Key → Slots
  | some k => s.specific k
  | none => .empty

/-- The pointers that a backend has stored. -/
def kept (s : Process) : Backend → Slots
  | .native => s.native
  | .spy => s.spy
  | .key => s.behind (s.keyOf .key)
  | .direct => s.behind (s.keyOf .direct)

theorem keyOf_loaded (s : Process) (b : Backend) : s.loaded.keyOf b = s.keyOf b := by
  cases b <;> simp [keyOf, loaded_cells]

theorem keyOf_key_iff {k : Key} : s.keyOf .key = some k ↔ s.cells .key = .full k := by
  cases h : s.cells .key <;> simp [keyOf, h, Once.value?]

theorem keyOf_direct_iff {k : Key} :
    s.keyOf .direct = some k ↔ ∃ n, s.cells .direct = .full ⟨k, n⟩ := by
  cases h : s.cells .direct with
  | empty => simp [keyOf, h, Once.value?]
  | busy u => simp [keyOf, h, Once.value?]
  | full slot =>
    obtain ⟨key, n⟩ := slot
    simp [keyOf, h, Once.value?]

theorem keyOf_of_full (hfull : ∀ c value, s.cells c = .full value → s'.cells c = .full value)
    {b : Backend} {k : Key} (hk : s.keyOf b = some k) : s'.keyOf b = some k := by
  cases b with
  | native => cases hk
  | spy => cases hk
  | key => exact keyOf_key_iff.mpr (hfull _ _ (keyOf_key_iff.mp hk))
  | direct =>
    obtain ⟨n, hcell⟩ := keyOf_direct_iff.mp hk
    exact keyOf_direct_iff.mpr ⟨n, hfull _ _ hcell⟩

/-- A backend with a key stores behind it. -/
theorem kept_of_keyOf {b : Backend} {k : Key} (hk : s.keyOf b = some k) :
    s.kept b = s.specific k := by
  cases b with
  | native => cases hk
  | spy => cases hk
  | key => rw [kept, hk, behind]
  | direct => rw [kept, hk, behind]

/-- A backend with a key has stored nothing before it got it. -/
theorem kept_of_keyless {b : Backend} {k : Key} (hk : s'.keyOf b = some k)
    (hnone : s.keyOf b = none) : s.kept b = .empty := by
  cases b with
  | native => cases hk
  | spy => cases hk
  | key => rw [kept, hnone, behind]
  | direct => rw [kept, hnone, behind]

/-- The pointer that a backend gives back to a thread. -/
def held (s : Process) (b : Backend) (t : ThreadId) : Pointer :=
  match b with
  | .direct =>
    match (s.cells .direct).value? with
    | some slot => s.readSlot t slot.base slot.key
    | none => none
  | b => s.kept b t

theorem held_of_ne_direct {b : Backend} (h : b ≠ .direct) (t : ThreadId) :
    s.held b t = s.kept b t := by
  cases b <;> first | rfl | contradiction

/-- Without a key the key backend has stored nothing. -/
theorem kept_key_of_not_full (hcell : ∀ k, s.cells .key ≠ .full k) (t : ThreadId) :
    s.kept .key t = none := by
  cases h : s.cells .key with
  | full k => exact absurd h (hcell k)
  | empty => simp [kept, keyOf, h, Once.value?, behind, Slots.empty]
  | busy u => simp [kept, keyOf, h, Once.value?, behind, Slots.empty]

/-- The direct backend gives back the word at the place to which its slot leads. -/
theorem held_direct_of_full {slot : DirectSlot} (hcell : s.cells .direct = .full slot)
    (t : ThreadId) : s.held .direct t = s.wordAt t slot.place := by
  simp [held, hcell, Once.value?, readSlot, DirectSlot.place]

/-- What is stored behind a key is the word in its slot. -/
theorem wordAt_slotFrom (s : Process) (t : ThreadId) (k : Key) :
    s.wordAt t (Host.slotFrom s.platform.host.slotsAt k) = s.specific k t := by
  rw [wordAt, Host.keyAt?_slotFrom]

/-- The direct backend, once it has a slot, reads where the slots are. -/
def InPlace (s : Process) : Prop :=
  ∀ slot, s.cells .direct = .full slot → slot.base = s.platform.host.slotsAt

theorem inPlace_of_full {slot : DirectSlot} (hcell : s.cells .direct = .full slot)
    (hbase : slot.base = s.platform.host.slotsAt) : s.InPlace := by
  intro slot' hcell'
  rw [hcell] at hcell'
  cases hcell'
  exact hbase

/-- Without a slot the direct backend has stored nothing and gives nothing back. -/
theorem held_direct_of_not_full (hcell : ∀ slot, s.cells .direct ≠ .full slot) (t : ThreadId) :
    s.held .direct t = none ∧ s.kept .direct t = none := by
  cases h : s.cells .direct with
  | full slot => exact absurd h (hcell slot)
  | empty => simp [held, kept, keyOf, h, Once.value?, behind, Slots.empty]
  | busy u => simp [held, kept, keyOf, h, Once.value?, behind, Slots.empty]

/-- In place, the direct backend gives back what it has stored. -/
theorem held_of_inPlace {b : Backend} (h : b = .direct → s.InPlace) (t : ThreadId) :
    s.held b t = s.kept b t := by
  by_cases hb : b = .direct
  · subst hb
    by_cases hcell : ∃ slot, s.cells .direct = .full slot
    · obtain ⟨slot, hslot⟩ := hcell
      have hkey : s.keyOf .direct = some slot.key := keyOf_direct_iff.mpr ⟨slot.base, hslot⟩
      rw [held_direct_of_full hslot, DirectSlot.place, h rfl slot hslot, wordAt_slotFrom,
        kept_of_keyOf hkey]
    · have hnone := held_direct_of_not_full (fun slot hslot => hcell ⟨slot, hslot⟩) t
      rw [hnone.1, hnone.2]
  · exact held_of_ne_direct hb t

/-- A backend that gives back what it has stored does so later, for a slot is never replaced. -/
theorem held_congr {b : Backend} (hplace : b = .direct → s'.InPlace)
    (hfull : ∀ slot, s.cells .direct = .full slot → s'.cells .direct = .full slot)
    (hhost : s'.platform.host = s.platform.host) (hkept : s'.kept b t = s.kept b t) :
    s'.held b t = s.held b t := by
  have hbefore : b = .direct → s.InPlace := by
    intro hb slot hslot
    rw [← hhost]
    exact hplace hb slot (hfull slot hslot)
  rw [held_of_inPlace hplace, held_of_inPlace hbefore, hkept]

/-! ## Processes between two operations -/

/-- No cell is being filled and the log is free; a key that no backend has holds nothing, and the
two backends with keys have different ones. -/
structure Sound (s : Process) : Prop where
  idle : ∀ c u, s.cells c ≠ .busy u
  holder : s.logHolder = none
  unused : ∀ k, (∀ b, s.keyOf b ≠ some k) → s.specific k = .empty
  created : ∀ b k, s.keyOf b = some k → s.platform.Created k
  apart : ∀ k, s.keyOf .key = some k → s.keyOf .direct ≠ some k
  probed : ∀ slot, s.cells .direct = .full slot → s.cells .slotBase = .full slot.base
  aligned : ∀ n, s.cells .slotBase = .full n → n % 8 = 0

namespace Sound

/-- Only the cells, the log and what is stored behind keys matter; unused keys may be created. -/
theorem congr (h : s.Sound) (hcells : s'.cells = s.cells) (hholder : s'.logHolder = s.logHolder)
    (hspecific : s'.specific = s.specific)
    (hcreated : ∀ k, s.platform.Created k → s'.platform.Created k) : s'.Sound := by
  have hkeyOf (b : Backend) : s'.keyOf b = s.keyOf b := by
    unfold keyOf
    rw [hcells]
  exact {
    idle := fun c u => by
      rw [hcells]
      exact h.idle c u
    holder := hholder.trans h.holder
    unused := fun k hk => by
      rw [hspecific]
      exact h.unused k fun b => hkeyOf b ▸ hk b
    created := fun b k hk => by
      rw [hkeyOf] at hk
      exact hcreated k (h.created b k hk)
    apart := fun k hk => by
      rw [hkeyOf] at hk ⊢
      exact h.apart k hk
    probed := fun slot hslot => by
      rw [hcells] at hslot ⊢
      exact h.probed slot hslot
    aligned := fun n hn => by
      rw [hcells] at hn
      exact h.aligned n hn }

theorem logFree (h : s.Sound) : s.LogFree := ⟨h.idle .settings, h.holder⟩

/-- No two backends have the same key. -/
theorem keyOf_injective (h : s.Sound) {b b' : Backend} {k : Key} (hk : s.keyOf b = some k)
    (hk' : s.keyOf b' = some k) : b = b' := by
  cases b <;> cases b' <;> first
    | rfl
    | exact absurd hk' (h.apart k hk)
    | exact absurd hk (h.apart k hk')
    | cases hk
    | cases hk'

/-- A cell that is not full is empty. -/
theorem empty_of_value? (h : s.Sound) {c : Cell} (hc : (s.cells c).value? = none) :
    s.cells c = .empty := by
  cases hcell : s.cells c with
  | empty => rfl
  | busy u => exact absurd hcell (h.idle c u)
  | full value => simp [hcell, Once.value?] at hc

theorem key_empty (h : s.Sound) (hnone : s.keyOf .key = none) : s.cells .key = .empty :=
  h.empty_of_value? hnone

theorem direct_empty (h : s.Sound) (hnone : s.keyOf .direct = none) :
    s.cells .direct = .empty :=
  h.empty_of_value? (Option.map_eq_none_iff.mp hnone)

theorem unready_iff (h : s.Sound) {b : Backend} (hb : b = .key ∨ b = .direct) :
    s.unready b ↔ s.keyOf b = none := by
  rcases hb with rfl | rfl
  · exact ⟨fun hempty => by simp [keyOf, show s.cells .key = .empty from hempty, Once.value?],
      h.key_empty⟩
  · exact ⟨fun hempty => by simp [keyOf, show s.cells .direct = .empty from hempty, Once.value?],
      h.direct_empty⟩

/-- What the direct backend finds where its slot does not lead to its own: what the key backend has
stored, if it is that one's slot, and nothing in the slot of any other key. -/
theorem held_astray (h : s.Sound) {slot : DirectSlot} (hcell : s.cells .direct = .full slot)
    (hbase : slot.base ≠ s.platform.host.slotsAt) (t : ThreadId) :
    (∀ k, s.platform.host.keyAt? slot.place = some k →
      k ≠ slot.key ∧ (s.keyOf .key = some k → s.held .direct t = s.kept .key t) ∧
      (s.keyOf .key ≠ some k → s.held .direct t = none)) ∧
    (s.platform.host.keyAt? slot.place = none →
      s.held .direct t = s.platform.host.otherWord t slot.place) := by
  rw [held_direct_of_full hcell, wordAt]
  refine ⟨fun k hk => ?_, fun hnone => by rw [hnone]⟩
  have hne : k ≠ slot.key := by
    rintro rfl
    exact hbase (Host.slotFrom_inj.mp (Host.keyAt?_eq_some_iff.mp hk))
  rw [hk]
  refine ⟨hne, fun hkey => by rw [kept_of_keyOf hkey], fun hkey => ?_⟩
  have hunused : ∀ b, s.keyOf b ≠ some k := by
    intro b hb
    cases b with
    | native => cases hb
    | spy => cases hb
    | key => exact hkey hb
    | direct =>
      have hown : s.keyOf .direct = some slot.key := keyOf_direct_iff.mpr ⟨slot.base, hcell⟩
      exact hne (Option.some.inj (hb.symm.trans hown))
  exact congrFun (h.unused k hunused) t

/-- Where its slot does not lead to that of the key backend either, the direct backend finds what it
would find with nothing stored behind any key. -/
theorem held_idle (h : s.Sound) {slot : DirectSlot} (hcell : s.cells .direct = .full slot)
    (hbase : slot.base ≠ s.platform.host.slotsAt)
    (hkey : ∀ k, s.platform.host.keyAt? slot.place = some k → s.keyOf .key ≠ some k)
    {t : ThreadId} : s.held .direct t = s.platform.host.idleWord t slot.place := by
  obtain ⟨hslot, hother⟩ := h.held_astray hcell hbase t
  unfold Host.idleWord
  split
  · rename_i k hk
    exact (hslot k hk).2.2 (hkey k hk)
  · rename_i hnone
    exact hother hnone

end Sound

/-- A process in which nothing has been used is sound. -/
theorem sound_fresh (os : Platform) : (Process.fresh os).Sound where
  idle c u h := by cases h
  holder := rfl
  unused _ _ := rfl
  created b k h := by cases b <;> cases h
  apart k h := by cases h
  probed slot h := by cases h
  aligned n h := by cases h

/-- What no use of a backend changes: threads, schedulers, counters, and what full cells hold. -/
structure Grows (s s' : Process) : Prop where
  sound : s'.Sound
  roster : s'.roster = s.roster
  activities : s'.activities = s.activities
  calls : s'.calls = s.calls
  full : ∀ c value, s.cells c = .full value → s'.cells c = .full value
  createFault : s'.platform.createFault = s.platform.createFault
  storeFault : s'.platform.storeFault = s.platform.storeFault
  host : s'.platform.host = s.platform.host

/-- Every binding is as it was. -/
structure Steady (s s' : Process) : Prop extends Grows s s' where
  kept : s'.kept = s.kept

/-- A pointer is kept for a thread, and every other binding is as it was. -/
structure Holding (s : Process) (t : ThreadId) (b : Backend) (p : Pointer) (s' : Process) : Prop
    extends Grows s s' where
  kept : ∀ b', s'.kept b' = if b' = b then (s.kept b).set t p else s.kept b'

theorem Grows.trans {s'' : Process} (first : s.Grows s') (rest : s'.Grows s'') : s.Grows s'' where
  sound := rest.sound
  roster := rest.roster.trans first.roster
  activities := rest.activities.trans first.activities
  calls := rest.calls.trans first.calls
  full c value hc := rest.full c value (first.full c value hc)
  createFault := rest.createFault.trans first.createFault
  storeFault := rest.storeFault.trans first.storeFault
  host := rest.host.trans first.host

/-- A key that a backend has is the key that it has later. -/
theorem Grows.keyOf (h : s.Grows s') {b : Backend} {k : Key} (hk : s.keyOf b = some k) :
    s'.keyOf b = some k :=
  keyOf_of_full h.full hk

namespace Steady

theorem refl (h : s.Sound) : s.Steady s where
  sound := h
  roster := rfl
  activities := rfl
  calls := rfl
  full _ _ hc := hc
  createFault := rfl
  storeFault := rfl
  host := rfl
  kept := rfl

theorem trans {s'' : Process} (first : s.Steady s') (rest : s'.Steady s'') : s.Steady s'' :=
  { first.toGrows.trans rest.toGrows with kept := rest.kept.trans first.kept }

theorem held (h : s.Steady s') {b : Backend} (hplace : b = .direct → s'.InPlace) (t : ThreadId) :
    s'.held b t = s.held b t :=
  held_congr hplace (fun slot => h.full .direct slot) h.host (by rw [h.kept])

/-- What is stored behind each key is as it was, for a key that a backend has got meanwhile holds
nothing. -/
theorem specific (h : s.Steady s') (hs : s.Sound) : s'.specific = s.specific := by
  funext k
  by_cases hk : ∃ b, s.keyOf b = some k
  · obtain ⟨b, hb⟩ := hk
    rw [← kept_of_keyOf hb, ← kept_of_keyOf (h.keyOf hb), h.kept]
  · have hbefore : s.specific k = .empty := hs.unused k fun b hb => hk ⟨b, hb⟩
    by_cases hk' : ∃ b, s'.keyOf b = some k
    · obtain ⟨b, hb'⟩ := hk'
      have hnone : s.keyOf b = none := by
        cases hb : s.keyOf b with
        | none => rfl
        | some k₀ =>
          rw [h.keyOf hb] at hb'
          cases hb'
          exact absurd ⟨b, hb⟩ hk
      rw [← kept_of_keyOf hb', h.kept, hbefore, kept_of_keyless hb' hnone]
    · rw [hbefore]
      exact h.sound.unused k fun b hb => hk' ⟨b, hb⟩

/-- A slot that the direct backend has already leads to what it led to. -/
theorem held_of_full (h : s.Steady s') (hs : s.Sound) {slot : DirectSlot}
    (hcell : s.cells .direct = .full slot) (t : ThreadId) :
    s'.held .direct t = s.held .direct t := by
  rw [held_direct_of_full hcell, held_direct_of_full (h.full _ _ hcell), wordAt, wordAt, h.host,
    h.specific hs]

/-- A backend gives back what it did, unless it is the direct one and has got a slot that leads
astray. -/
theorem held_unless_astray (h : s.Steady s') (hs : s.Sound) {b : Backend}
    (hplace : b = .direct → s.unready .direct → s'.InPlace) (t : ThreadId) :
    s'.held b t = s.held b t := by
  cases hcell : s.cells .direct with
  | empty => exact h.held (fun hb => hplace hb hcell) t
  | busy u => exact absurd hcell (hs.idle _ u)
  | full slot =>
    by_cases hb : b = .direct
    · subst hb
      exact h.held_of_full hs hcell t
    · exact h.held (fun hdirect => absurd hdirect hb) t

theorem holding {s'' : Process} {b : Backend} {p : Pointer} (first : s.Steady s')
    (rest : s'.Holding t b p s'') : s.Holding t b p s'' :=
  { first.toGrows.trans rest.toGrows with kept := by simpa [first.kept] using rest.kept }

end Steady

/-! ## Steady changes -/

namespace Sound

/-- Settings may change, and keys may be created that no backend uses. -/
theorem steady_update (h : s.Sound) (level : Log.Level) (flush : Bool) (os : Platform)
    (hcreated : ∀ k, s.platform.Created k → os.Created k)
    (hcreate : os.createFault = s.platform.createFault)
    (hstore : os.storeFault = s.platform.storeFault) (hhost : os.host = s.platform.host) :
    s.Steady { s with level := level, flush := flush, platform := os } where
  sound := h.congr rfl rfl rfl hcreated
  roster := rfl
  kept := rfl
  activities := rfl
  calls := rfl
  full _ _ hc := hc
  createFault := hcreate
  storeFault := hstore
  host := hhost

section Fill

variable {c : Cell} {value : c.Content}

/-- Filling an empty cell leaves the full ones as they were. -/
theorem full_setCell_of_empty (hempty : s.cells c = .empty) (state : Once c.Content) (d : Cell)
    (v : d.Content) (hd : s.cells d = .full v) : (s.setCell c state).cells d = .full v := by
  by_cases hc : d = c
  · subst hc
    rw [hempty] at hd
    cases hd
  · rw [setCell_other s c _ hc, hd]

/-- A cell may be filled once, if no binding depends on what it holds. -/
theorem steady_fill (h : s.Sound) (hempty : s.cells c = .empty)
    (hkept : (s.setCell c (.full value)).kept = s.kept)
    (hcreated : ∀ b k, (s.setCell c (.full value)).keyOf b = some k → s.platform.Created k)
    (hapart : ∀ k, (s.setCell c (.full value)).keyOf .key = some k →
      (s.setCell c (.full value)).keyOf .direct ≠ some k)
    (hprobed : ∀ slot, (s.setCell c (.full value)).cells .direct = .full slot →
      (s.setCell c (.full value)).cells .slotBase = .full slot.base)
    (haligned : ∀ n, (s.setCell c (.full value)).cells .slotBase = .full n → n % 8 = 0) :
    s.Steady (s.setCell c (.full value)) where
  sound :=
    { idle := by
        intro d u
        by_cases hd : d = c
        · subst hd
          simp
        · rw [setCell_other s c _ hd]
          exact h.idle d u
      holder := h.holder
      unused := fun k hk => h.unused k fun b hb =>
        hk b (keyOf_of_full (full_setCell_of_empty hempty _) hb)
      created := hcreated
      apart := hapart
      probed := hprobed
      aligned := haligned }
  roster := rfl
  kept := hkept
  activities := rfl
  calls := rfl
  full := full_setCell_of_empty hempty _
  createFault := rfl
  storeFault := rfl
  host := rfl

end Fill

/-- Loading the settings touches no binding. -/
theorem steady_loaded (h : s.Sound) : s.Steady s.loaded := by
  cases hcell : s.cells .settings with
  | full value =>
    rw [loaded_of_full s hcell]
    exact .refl h
  | busy u => exact absurd hcell (h.idle _ u)
  | empty =>
    have hfill : s.Steady (s.setCell .settings (.full ())) :=
      h.steady_fill hcell rfl h.created h.apart h.probed h.aligned
    have hloaded : s.loaded =
        { s.setCell .settings (.full ()) with
          level := s.environmentSettings.level
          flush := s.environmentSettings.flush } := by
      simp [loaded, hcell, setCell]
    rw [hloaded]
    exact hfill.trans
      (hfill.sound.steady_update _ _ _ (fun _ hk => hk) rfl rfl rfl)

theorem steady_unameAsked (h : s.Sound) : s.Steady s.unameAsked :=
  h.steady_update _ _ _ (fun _ hk => hk) rfl rfl rfl

/-- Probing the kernel touches no binding. -/
theorem steady_based (h : s.Sound) : s.Steady s.based := by
  unfold based
  cases hcell : s.cells .slotBase with
  | full n => exact .refl h
  | busy u => exact absurd hcell (h.idle _ u)
  | empty =>
    have hasked := h.steady_unameAsked.trans h.steady_unameAsked.sound.steady_loaded
    have hempty : s.unameAsked.loaded.cells .slotBase = .empty := by
      rw [loaded_cells _ (by decide)]
      exact hcell
    -- no slot is full yet, for its offset would be known
    have hdirect (slot : DirectSlot) : s.unameAsked.loaded.cells .direct ≠ .full slot := by
      intro hslot
      rw [hasked.sound.probed slot hslot] at hempty
      cases hempty
    refine hasked.trans (hasked.sound.steady_fill hempty rfl hasked.sound.created
      hasked.sound.apart (fun slot hslot => absurd hslot (hdirect slot)) ?_)
    intro n hn
    rw [setCell_same] at hn
    cases hn
    exact s.probe.base_aligned

end Sound

theorem based_slotBase (s : Process) : s.based.cells .slotBase = .full s.base := by
  unfold based base
  split
  · assumption
  · simp

theorem based_cells (s : Process) {c : Cell} (hsettings : c ≠ .settings)
    (hbase : c ≠ .slotBase) : s.based.cells c = s.cells c := by
  unfold based
  split
  · rfl
  · rw [setCell_other _ _ _ hbase, loaded_cells _ hsettings]
    rfl

theorem keyOf_based (s : Process) (b : Backend) : s.based.keyOf b = s.keyOf b := by
  cases b <;> simp [keyOf, based_cells]

end Process

end ExecContext
