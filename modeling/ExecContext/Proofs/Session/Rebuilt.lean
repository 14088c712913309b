import ExecContext.Proofs.Process.SideBySide
import ExecContext.Proofs.Process.Silent
import ExecContext.Proofs.Storage.Storing

set_option autoImplicit false

/-!
# Processes of two builds

Where the one build keeps the platform's pointers in a thread-local variable, the other keeps them
behind a key that it creates when it first holds one. `Rebuilt` relates the processes of the two
between two operations. There is one way to see the key: a direct backend whose slot leads astray
may come upon it. `SameSight` says that it does not.
-/

namespace ExecContext

/-- The backend that takes the place of another where the platform's backend is the key backend. -/
def Backend.keyed : Backend → Backend
  | .native => .key
  | b => b

theorem Backend.keyed_eq_iff {b b' : Backend} (hb : b ≠ .key) (hb' : b' ≠ .key) :
    b'.keyed = b.keyed ↔ b' = b := by
  cases b <;> cases b' <;> simp_all [keyed]

/-- The resolver over the backend that takes the place of its own. -/
def Resolver.keyed (r : Resolver) : Resolver := { r with backend := r.backend.keyed }

/-! ## Events that look the same -/

/-- The same requests are observed and the same lines are printed. -/
structure Event.SameView (events events' : List Event) : Prop where
  observed : Event.observedQueries events' = Event.observedQueries events
  printed : Event.printedLines events' = Event.printedLines events

theorem Event.SameView.refl (events : List Event) : Event.SameView events events := ⟨rfl, rfl⟩

namespace Process

variable {s s' u u' : Process} {t : ThreadId}

/-- Between two operations, what the first process holds natively the second one holds behind its
key, and all that can be asked for is the same in both. The second one may have loaded its settings
earlier and have asked for more keys. -/
structure Rebuilt (s s' : Process) : Prop where
  keyless : s.keyOf .key = none
  sound : s.Sound
  sound' : s'.Sound
  roster : s'.roster = s.roster
  activities : s'.activities = s.activities
  calls : s'.calls = s.calls
  kept : ∀ b, b ≠ .key → s'.kept b.keyed = s.kept b
  slot : (s'.cells .direct).value?.map DirectSlot.base =
    (s.cells .direct).value?.map DirectSlot.base
  probed : s'.cells .slotBase = s.cells .slotBase
  level : s'.loaded.level = s.loaded.level
  platform : ∃ made calls, s'.platform =
    { s.platform with keysMade := made, createCalls := calls }
  createFault : s.platform.createFault = 0
  storeFault : s.platform.storeFault = 0

/-- The slots of the direct backends of the two processes, once there, lead to where the slots are,
or the second process does not come upon the slot of its key, and either finds the same where
nothing is stored. -/
def SameSight (s s' : Process) : Prop :=
  ∀ slot slot', s.cells .direct = .full slot → s'.cells .direct = .full slot' →
    slot.base = s.platform.host.slotsAt ∨
      (∀ k, s'.keyOf .key = some k → s.platform.host.keyAt? slot'.place ≠ some k) ∧
      ∀ t, s.platform.host.idleWord t slot'.place = s.platform.host.idleWord t slot.place

/-- What was not told apart later was not told apart before. -/
theorem SameSight.before (h : SameSight u u')
    (hfull : ∀ c value, s.cells c = .full value → u.cells c = .full value)
    (hfull' : ∀ c value, s'.cells c = .full value → u'.cells c = .full value)
    (hhost : u.platform.host = s.platform.host) : SameSight s s' := by
  intro slot slot' hcell hcell'
  have hlater := h slot slot' (hfull _ _ hcell) (hfull' _ _ hcell')
  rw [hhost] at hlater
  exact hlater.imp_right fun ⟨hkey, hidle⟩ =>
    ⟨fun k hk => hkey k (keyOf_of_full hfull' hk), hidle⟩

namespace Rebuilt

/-! ### What is the same -/

theorem uname (h : Rebuilt s s') : s'.platform.uname = s.platform.uname := by
  obtain ⟨made, calls, hplatform⟩ := h.platform
  rw [hplatform]

theorem environmentSettings (h : Rebuilt s s') :
    s'.environmentSettings = s.environmentSettings := by
  obtain ⟨made, calls, hplatform⟩ := h.platform
  unfold Process.environmentSettings
  rw [hplatform]
  rfl

theorem base (h : Rebuilt s s') : s'.base = s.base := by
  unfold Process.base
  rw [h.probed, probe, h.uname]
  rfl

theorem host (h : Rebuilt s s') : s'.platform.host = s.platform.host := by
  obtain ⟨made, calls, hplatform⟩ := h.platform
  rw [hplatform]

/-- What a backend gives back is the same, if no slot leads to anything that tells the builds
apart. -/
theorem held (h : Rebuilt s s') (hsight : SameSight s s') {b : Backend} (hb : b ≠ .key)
    (t : ThreadId) : s'.held b.keyed t = s.held b t := by
  cases b with
  | native => exact congrFun (h.kept .native hb) t
  | key => exact absurd rfl hb
  | spy => exact congrFun (h.kept .spy hb) t
  | direct =>
    have hslot := h.slot
    have hkept : s'.kept .direct t = s.kept .direct t := congrFun (h.kept .direct hb) t
    rw [show Backend.direct.keyed = .direct from rfl]
    cases hcell : s.cells .direct with
    | full slot =>
      rw [hcell] at hslot
      obtain ⟨slot', hvalue, hbase⟩ := Option.map_eq_some_iff.mp hslot
      have hcell' : s'.cells .direct = .full slot' := by
        cases hstate : s'.cells .direct <;> simp_all [Once.value?]
      by_cases hplace : slot.base = s.platform.host.slotsAt
      · have hplace' : slot'.base = s'.platform.host.slotsAt := by
          rw [hbase, h.host, hplace]
        rw [held_of_inPlace fun _ => inPlace_of_full hcell hplace,
          held_of_inPlace fun _ => inPlace_of_full hcell' hplace', hkept]
      · have hplace' : slot'.base ≠ s'.platform.host.slotsAt := by
          rw [hbase, h.host]
          exact hplace
        obtain ⟨hkey, hidle⟩ := (hsight slot slot' hcell hcell').resolve_left hplace
        have hnone (k : Key) : s.keyOf .key ≠ some k := by
          simp [h.keyless]
        have hnone' (k : Key) (hk : s'.platform.host.keyAt? slot'.place = some k) :
            s'.keyOf .key ≠ some k := by
          rw [h.host] at hk
          exact fun hown => hkey k hown hk
        rw [h.sound.held_idle hcell hplace (fun k _ => hnone k),
          h.sound'.held_idle hcell' hplace' hnone', h.host, hidle t]
    | empty =>
      have hnone : ∀ slot, s'.cells .direct ≠ .full slot := by
        intro slot hfull
        simp [hcell, hfull, Once.value?] at hslot
      rw [(held_direct_of_not_full hnone t).1, (held_direct_of_not_full (by simp [hcell]) t).1]
    | busy v => exact absurd hcell (h.sound.idle _ v)

/-! ### Changes -/

/-- Steady changes keep the relation, if they agree in what was probed and logged. -/
theorem of_steady (h : Rebuilt s s') (hs : s.Steady u) (hs' : s'.Steady u')
    (hkeyless : u.keyOf .key = s.keyOf .key)
    (hslot : (u'.cells .direct).value?.map DirectSlot.base =
      (u.cells .direct).value?.map DirectSlot.base)
    (hprobed : u'.cells .slotBase = u.cells .slotBase) (hlevel : u'.loaded.level = u.loaded.level)
    (hplatform : ∃ made calls, u'.platform =
      { u.platform with keysMade := made, createCalls := calls }) : Rebuilt u u' where
  keyless := hkeyless.trans h.keyless
  sound := hs.sound
  sound' := hs'.sound
  roster := hs'.roster.trans (h.roster.trans hs.roster.symm)
  activities := hs'.activities.trans (h.activities.trans hs.activities.symm)
  calls := hs'.calls.trans (h.calls.trans hs.calls.symm)
  kept b hb := by rw [hs'.kept, hs.kept, h.kept b hb]
  slot := hslot
  probed := hprobed
  level := hlevel
  platform := hplatform
  createFault := hs.createFault.trans h.createFault
  storeFault := hs.storeFault.trans h.storeFault

/-- Both hold the pointer, and nothing else changes. -/
theorem of_holding (h : Rebuilt s s') {b : Backend} (hb : b ≠ .key) {p : Pointer}
    (hs : s.Holding t b p u) (hs' : s'.Holding t b.keyed p u') (hcells : u.cells = s.cells)
    (hcells' : u'.cells = s'.cells) (hlevel : u.loaded.level = s.loaded.level)
    (hlevel' : u'.loaded.level = s'.loaded.level) (hplatform : u.platform = s.platform)
    (hplatform' : u'.platform = s'.platform) : Rebuilt u u' where
  keyless := by
    unfold keyOf
    rw [hcells]
    exact h.keyless
  sound := hs.sound
  sound' := hs'.sound
  roster := hs'.roster.trans (h.roster.trans hs.roster.symm)
  activities := hs'.activities.trans (h.activities.trans hs.activities.symm)
  calls := hs'.calls.trans (h.calls.trans hs.calls.symm)
  kept b' hb' := by
    rw [hs'.kept, hs.kept, h.kept b hb, h.kept b' hb']
    simp only [Backend.keyed_eq_iff hb hb']
  slot := by
    rw [hcells, hcells']
    exact h.slot
  probed := by
    rw [hcells, hcells']
    exact h.probed
  level := hlevel'.trans (h.level.trans hlevel.symm)
  platform := by
    rw [hplatform, hplatform']
    exact h.platform
  createFault := hs.createFault.trans h.createFault
  storeFault := hs.storeFault.trans h.storeFault

/-- Where neither the cells nor the log's settings change, the level in force is the same. -/
theorem level_of_logSame (h : Rebuilt s s') (hs : s.LogSame u) (hs' : s'.LogSame u') :
    u'.loaded.level = u.loaded.level :=
  hs'.loaded_level.trans (h.level.trans hs.loaded_level.symm)

theorem loaded (h : Rebuilt s s') : Rebuilt s.loaded s'.loaded := by
  refine h.of_steady h.sound.steady_loaded h.sound'.steady_loaded (s.keyOf_loaded .key) ?_ ?_ ?_ ?_
  · simpa only [loaded_cells _ (show Cell.direct ≠ .settings by decide)] using h.slot
  · simpa only [loaded_cells _ (show Cell.slotBase ≠ .settings by decide)] using h.probed
  · simpa only [loaded_loaded] using h.level
  · simpa only [loaded_platform] using h.platform

theorem noted (h : Rebuilt s s') (level : Log.Level) :
    Rebuilt (s.noted level) (s'.noted level) := by
  unfold Process.noted
  split
  · exact h
  · exact h.loaded

theorem unameAsked (h : Rebuilt s s') : Rebuilt s.unameAsked s'.unameAsked := by
  refine h.of_steady h.sound.steady_unameAsked h.sound'.steady_unameAsked rfl h.slot h.probed
    (h.level_of_logSame ⟨rfl, rfl, rfl, rfl⟩ ⟨rfl, rfl, rfl, rfl⟩) ?_
  obtain ⟨made, calls, hplatform⟩ := h.platform
  refine ⟨made, calls, ?_⟩
  simp only [Process.unameAsked, hplatform]

theorem based (h : Rebuilt s s') : Rebuilt s.based s'.based := by
  unfold Process.based
  rw [h.probed]
  cases hcell : s.cells .slotBase with
  | full n => exact h
  | busy v => exact absurd hcell (h.sound.idle _ v)
  | empty =>
    have hasked := h.unameAsked.loaded
    have hsteady := h.sound.steady_based
    have hsteady' := h.sound'.steady_based
    have hkeyless := s.keyOf_based .key
    unfold Process.based at hsteady hsteady' hkeyless
    rw [h.probed] at hsteady'
    rw [hcell] at hsteady hsteady' hkeyless
    refine h.of_steady hsteady hsteady' hkeyless hasked.slot ?_ ?_ hasked.platform
    · rw [setCell_same, setCell_same, probe, h.uname]
      rfl
    · rw [loaded_setCell _ (by decide), loaded_setCell _ (by decide), setCell_level, setCell_level]
      exact hasked.level

/-- The second process gets its key, which the first one never needs. -/
theorem withKey (h : Rebuilt s s') (hnone : s'.keyOf .key = none) : Rebuilt s s'.withKey := by
  have hcell {c : Cell} (hc : c ≠ .key) (hc' : c ≠ .settings) :
      s'.withKey.cells c = s'.cells c := by
    rw [Process.withKey, setCell_other _ _ _ hc, loaded_cells _ hc']
    rfl
  refine h.of_steady (.refl h.sound) (h.sound'.steady_withKey hnone) rfl ?_ ?_ ?_ ?_
  · rw [hcell (by decide) (by decide)]
    exact h.slot
  · rw [hcell (by decide) (by decide)]
    exact h.probed
  · rw [Process.withKey, loaded_setCell _ (by decide), setCell_level, loaded_loaded]
    have hmade : s'.LogSame s'.keyMade := ⟨rfl, rfl, rfl, rfl⟩
    exact hmade.loaded_level.trans h.level
  · obtain ⟨made, calls, hplatform⟩ := h.platform
    refine ⟨made + 1, calls + 1, ?_⟩
    simp [Process.withKey, keyMade, hplatform]

/-- Both direct backends get their slots, at the same offset. -/
theorem withDirect (h : Rebuilt s s') (hnone : s.keyOf .direct = none)
    (hnone' : s'.keyOf .direct = none) : Rebuilt s.withDirect s'.withDirect := by
  have hbased := h.based
  have hlevel (s : Process) : s.withDirect.loaded.level = s.based.loaded.level := by
    rw [Process.withDirect, loaded_setCell _ (by decide), setCell_level, loaded_loaded]
    exact LogSame.loaded_level ⟨rfl, rfl, rfl, rfl⟩
  refine h.of_steady (h.sound.steady_withDirect hnone) (h.sound'.steady_withDirect hnone')
    (s.keyOf_withDirect .key) ?_ ?_ ?_ ?_
  · simp [Process.withDirect, Once.value?, h.base]
  · have hcell (s : Process) : s.withDirect.cells .slotBase = s.based.cells .slotBase := by
      rw [Process.withDirect, setCell_other _ _ _ (by decide), loaded_cells _ (by decide)]
      rfl
    rw [hcell, hcell]
    exact hbased.probed
  · rw [hlevel, hlevel]
    exact hbased.level
  · obtain ⟨made, calls, hplatform⟩ := hbased.platform
    refine ⟨made + 1, calls + 1, ?_⟩
    simp [Process.withDirect, keyMade, hplatform]

theorem start (h : Rebuilt s s') (name : Option String) :
    Rebuilt (s.start name).2 (s'.start name).2 where
  keyless := h.keyless
  sound := h.sound.congr rfl rfl rfl (fun _ hk => hk)
  sound' := h.sound'.congr rfl rfl rfl (fun _ hk => hk)
  roster := by simp only [Process.start, h.roster]
  activities := h.activities
  calls := h.calls
  kept := h.kept
  slot := h.slot
  probed := h.probed
  level := h.level_of_logSame ⟨rfl, rfl, rfl, rfl⟩ ⟨rfl, rfl, rfl, rfl⟩
  platform := h.platform
  createFault := h.createFault
  storeFault := h.storeFault

theorem setUname (h : Rebuilt s s') (reply : Kernel.UnameReply) :
    Rebuilt (s.changePlatform (.setUname reply)) (s'.changePlatform (.setUname reply)) where
  keyless := h.keyless
  sound := h.sound.congr rfl rfl rfl (fun _ hk => hk)
  sound' := h.sound'.congr rfl rfl rfl (fun _ hk => hk)
  roster := h.roster
  activities := h.activities
  calls := h.calls
  kept := h.kept
  slot := h.slot
  probed := h.probed
  level := h.level_of_logSame ⟨rfl, rfl, rfl, rfl⟩ ⟨rfl, rfl, rfl, rfl⟩
  platform := by
    obtain ⟨made, calls, hplatform⟩ := h.platform
    refine ⟨made, calls, ?_⟩
    simp only [Process.changePlatform, Platform.change, hplatform]
  createFault := h.createFault
  storeFault := h.storeFault

end Rebuilt

end Process

end ExecContext
