import ExecContext.Proofs.Session.Retry

set_option autoImplicit false

/-!
# Unbinding a thread that is not bound

To end a binding is to let the backend hold null, which is a use of the backend like any other: a
backend with a key is set up by it if it is the first use. So it changes nothing where it is not the
first, and may fail even where there is nothing to end. `SetUp` says what the first use of a backend
asks of the platform.
-/

namespace ExecContext

/-- Replacing a pointer by itself changes nothing. -/
theorem Slots.set_eq_self {slots : Slots} {t : ThreadId} {p : Pointer} (h : slots t = p) :
    slots.set t p = slots := by
  funext u
  by_cases hu : u = t
  · subst hu
    rw [Slots.set_same, h]
  · exact Slots.set_other _ _ hu

namespace Process

variable {s s' s'' : Process} {b : Backend} {t : ThreadId}

/-! ## The first use of a backend -/

/-- What the first use of a backend with a key leaves behind. -/
structure SetUp (s : Process) (b : Backend) (s' : Process) : Prop where
  /-- a key was asked for once -/
  createCalls : s'.platform.createCalls = s.platform.createCalls + 1
  /-- the backend has a key if one could be created -/
  made : s'.keyOf b ≠ none ↔ s.platform.createFault = 0
  /-- no other backend has got one -/
  apart : s.Apart b s'
  /-- the kernel was asked once if the direct backend needed to know where the slots start, and not
  at all otherwise -/
  unameCalls : s'.platform.unameCalls =
    s.platform.unameCalls + if b = .direct ∧ s.cells .slotBase = .empty then 1 else 0
  /-- where the slots start is known from then on if the direct backend was used -/
  slotBase : s'.cells .slotBase = if b = .direct then .full s.base else s.cells .slotBase

/-- Only the platform, the keys and the offset matter. -/
theorem SetUp.congr (h : s.SetUp b s') (hplatform : s''.platform = s'.platform)
    (hkeyOf : ∀ b', s''.keyOf b' = s'.keyOf b') (hbase : s''.cells .slotBase = s'.cells .slotBase) :
    s.SetUp b s'' where
  createCalls := by rw [hplatform, h.createCalls]
  made := by rw [hkeyOf, h.made]
  apart b' hb' := (hkeyOf b').trans (h.apart b' hb')
  unameCalls := by rw [hplatform, h.unameCalls]
  slotBase := by rw [hbase, h.slotBase]

theorem SetUp.loaded (h : s.SetUp b s') : s.SetUp b s'.loaded :=
  h.congr s'.loaded_platform s'.keyOf_loaded (s'.loaded_cells (by decide))

/-- Storing behind a key is no matter of setting up. -/
theorem SetUp.storing (h : s.SetUp b s') (hfree : s'.LogFree) (t : ThreadId) (k : Key)
    (p : Pointer) : s.SetUp b (s'.run t (Storage.storeBehind k p)).process := by
  by_cases hok : s'.platform.storeFault = 0
  · rw [run_storeBehind_of_ok s' t k p hok]
    exact h.congr rfl (fun _ => rfl) rfl
  · rw [run_storeBehind_of_fault hfree k p hok]
    exact h.loaded

/-- Probing asks the kernel once, the first time. -/
theorem based_unameCalls (h : s.Sound) :
    s.based.platform.unameCalls =
      s.platform.unameCalls + if s.cells .slotBase = .empty then 1 else 0 := by
  unfold based
  cases hcell : s.cells .slotBase with
  | empty => simp [unameAsked]
  | busy u => exact absurd hcell (h.idle _ u)
  | full n => simp

theorem based_createCalls (s : Process) :
    s.based.platform.createCalls = s.platform.createCalls := by
  unfold based
  split <;> simp [unameAsked]

/-- The key backend asks for a key. -/
theorem setUp_withKey (hok : s.platform.createFault = 0) : s.SetUp .key s.withKey where
  createCalls := by simp [withKey, keyMade]
  made := by simp [keyOf_withKey, hok]
  apart b' hb' := by rw [keyOf_withKey, if_neg hb']
  unameCalls := by simp [withKey, keyMade]
  slotBase := by simp [withKey, setCell_other, loaded_cells, keyMade]

theorem setUp_keyAsked (hnone : s.keyOf .key = none) (hfault : s.platform.createFault ≠ 0) :
    s.SetUp .key s.keyAsked where
  createCalls := rfl
  made := by simp [show s.keyAsked.keyOf .key = none from hnone, hfault]
  apart _ _ := rfl
  unameCalls := rfl
  slotBase := rfl

/-- The direct backend asks where the slots start, then for a key. -/
theorem setUp_withDirect (h : s.Sound) (hok : s.platform.createFault = 0) :
    s.SetUp .direct s.withDirect where
  createCalls := by simp [withDirect, keyMade, based_createCalls]
  made := by simp [keyOf_withDirect, hok]
  apart b' hb' := by rw [keyOf_withDirect, if_neg hb']
  unameCalls := by simp [withDirect, keyMade, based_unameCalls h]
  slotBase := by simp [withDirect, setCell_other, loaded_cells, keyMade, based_slotBase]

theorem setUp_based_keyAsked (h : s.Sound) (hnone : s.keyOf .direct = none)
    (hfault : s.platform.createFault ≠ 0) : s.SetUp .direct s.based.keyAsked where
  createCalls := by simp [keyAsked, based_createCalls]
  made := by
    simp [show s.based.keyAsked.keyOf .direct = none from (s.keyOf_based .direct).trans hnone,
      hfault]
  apart b' _ := s.keyOf_based b'
  unameCalls := by simp [keyAsked, based_unameCalls h]
  slotBase := by simp [keyAsked, based_slotBase]

/-- Whatever it holds, the first use of a backend sets it up as far as it can. -/
theorem setUp_hold (h : s.Sound) (hunready : s.unready b) (t : ThreadId) (p : Pointer) :
    s.SetUp b (s.run t (b.hold p)).process := by
  cases b with
  | native => exact hunready.elim
  | spy => exact hunready.elim
  | key =>
    have hnone := (h.unready_iff (Or.inl rfl)).mp hunready
    by_cases hok : s.platform.createFault = 0
    · obtain ⟨events, hrun⟩ := run_processKey_of_made t h hunready hok
      rw [show s.run t (Backend.hold p .key) = _ from
        run_bind_of_returned hrun (Storage.storeBehind · p)]
      exact (setUp_withKey hok).storing (h.steady_withKey hnone).sound.logFree t _ p
    · obtain ⟨events, hrun⟩ := run_processKey_of_fault t h hunready hok
      rw [show s.run t (Backend.hold p .key) = _ from
        run_bind_of_failed hrun (Storage.storeBehind · p)]
      exact (setUp_keyAsked hnone hok).loaded
  | direct =>
    have hnone := (h.unready_iff (Or.inr rfl)).mp hunready
    by_cases hok : s.platform.createFault = 0
    · obtain ⟨events, hrun⟩ := run_directSlot_of_made t h hunready hok
      rw [show s.run t (Backend.hold p .direct) = _ from
        run_bind_of_returned hrun fun slot => Storage.storeBehind slot.key p]
      exact (setUp_withDirect h hok).storing (h.steady_withDirect hnone).sound.logFree t _ p
    · obtain ⟨events, hrun⟩ := run_directSlot_of_fault t h hunready hok
      rw [show s.run t (Backend.hold p .direct) = _ from
        run_bind_of_failed hrun fun slot => Storage.storeBehind slot.key p]
      exact (setUp_based_keyAsked h hnone hok).loaded

/-! ## Null over null -/

theorem stored_eq_self {k : Key} {p : Pointer} (h : s.specific k t = p) : s.stored t k p = s := by
  have hspecific : (fun k' => if k' = k then (s.specific k).set t p else s.specific k') =
      s.specific := by
    funext k'
    by_cases hk : k' = k
    · rw [if_pos hk, hk, Slots.set_eq_self h]
    · exact if_neg hk
  unfold stored
  rw [hspecific]

/-- Every binding is as it was if the backend is let hold what it keeps. -/
theorem Holding.steady {p : Pointer} (h : s.Holding t b p s') (hkept : s.kept b t = p) :
    s.Steady s' :=
  { h.toGrows with
    kept := by
      funext b'
      rw [h.kept, Slots.set_eq_self hkept]
      by_cases hb : b' = b
      · rw [if_pos hb, hb]
      · exact if_neg hb }

/-- A backend that needs no setting up, let hold for a thread what it keeps for it, leaves the
process as it was, but for the settings of the log if it reports a failure. -/
theorem hold_kept (h : s.Sound) (hready : ¬s.unready b) {p : Pointer} (hkept : s.kept b t = p) :
    (s.run t (b.hold p)).process = if s.fault? b = none then s else s.loaded := by
  have hkeyed (hb : b = .key ∨ b = .direct) :
      (s.run t (b.hold p)).process = if s.fault? b = none then s else s.loaded := by
    have hsome : s.keyOf b ≠ none := fun hnone => hready ((h.unready_iff hb).mpr hnone)
    obtain ⟨k, hk⟩ := Option.ne_none_iff_exists'.mp hsome
    have hnoKey : ¬(s.unready b ∧ s.platform.createFault ≠ 0) := fun hboth => hready hboth.1
    obtain ⟨-, hstore, hfaultless⟩ := Session.fault?_of_keyed h hb
    rw [run_hold_of_ready hk]
    by_cases hok : s.platform.storeFault = 0
    · rw [kept_of_keyOf hk] at hkept
      rw [run_storeBehind_of_ok s t k p hok, if_pos (hfaultless hnoKey hok)]
      exact stored_eq_self hkept
    · rw [run_storeBehind_of_fault h.logFree k p hok, hstore hnoKey hok, if_neg (by simp)]
  cases b with
  | native =>
    have hset : s.native.set t p = s.native := Slots.set_eq_self hkept
    simp [Backend.hold, run_call, perform, Effect.write, fault?, hset]
  | spy =>
    have hset : s.spy.set t p = s.spy := Slots.set_eq_self hkept
    simp [Backend.hold, run_call, perform, Effect.write, Effect.emit, fault?, hset]
  | key => exact hkeyed (Or.inl rfl)
  | direct => exact hkeyed (Or.inr rfl)

end Process

namespace Session

variable {setup : Setup} {session : Session} {history : List Entry} {r : Option Nat}
  {resolver : Resolver} {t : ThreadId}

/-- Ending a binding leaves the process as holding null does. -/
theorem next_unbind (hr : session.resolver? r = some resolver) (h : session.process.Sound)
    (t : ThreadId) :
    (session.doTask t (.resolver r (some .unbind))).next =
      { session with
        process := (session.process.run t (resolver.backend.hold none)).process } := by
  have hperform : resolver.perform Resolver.unbind = resolver.backend.hold none :=
    Process.perform_request resolver (.hold none)
  have hnext : (session.doTask t (.resolver r (some .unbind))).next =
      { session with
        process := (session.process.run t
          (Call.action session.setup.contexts resolver .unbind)).process } := by
    simp [doTask, hr, makeCall, namesNoContext, Call.context?, Call.followsPointer, perform]
  have haction : Call.action session.setup.contexts resolver .unbind =
      (resolver.backend.hold none >>= fun _ => .done .ok) := by
    rw [← hperform]
    rfl
  rw [hnext, haction]
  generalize hrun : session.process.run t (resolver.backend.hold none) = f
  have hheld := Process.held_run_hold h t resolver.backend none
  rw [hrun] at hheld
  cases hheld with
  | kept events _ _ _ _ =>
    rw [Process.run_bind_of_returned hrun]
    rfl
  | failed events _ _ _ _ =>
    rw [Process.run_bind_of_failed hrun]

/-- Ending a binding that there is not is answered by the fault that the backend meets. -/
theorem answer_unbind (hr : session.resolver? r = some resolver) (h : session.process.Sound)
    (hnone : session.process.kept resolver.backend t = none) :
    let part := session.doTask t (.resolver r (some .unbind))
    session.process.Steady part.next.process ∧ part.reports.answer =
      match session.process.fault? resolver.backend with
      | none => .ok
      | some failure => .panicked ("rtlocal: " ++ failure.message) := by
  intro part
  have hw : Call.unbind.written? = some none := rfl
  have hnames : session.namesNoContext .unbind = false := rfl
  cases hfault : session.process.fault? resolver.backend with
  | none =>
    obtain ⟨s', hanswer, hnext, hholding, -⟩ := holding_doTask hr h hw hnames hfault t
    refine ⟨?_, hanswer⟩
    simp only [part, hnext]
    exact hholding.steady hnone
  | some failure =>
    obtain ⟨s', hanswer, hnext, hsteady, -⟩ := steady_doTask hr h hw hnames hfault t
    refine ⟨?_, hanswer⟩
    simp only [part, hnext]
    exact hsteady

/-- **Unbinding a thread that is not bound.** At every moment of every session, on every thread for
which the backend keeps nothing: ending the binding succeeds unless the backend meets a fault, and
fails with that fault otherwise; either way nothing that any backend keeps changes, nor any
scheduler or counter, nor what a backend gives back, unless the direct backend has got its slot by
it and the slot leads astray. Where the backend needs no setting up, nothing else changes either,
except that the settings of the log may be loaded to report a fault. Where it does, this is its
first use and sets it up like any other. -/
theorem unbind_unbound (course : Course (start setup) history session)
    (hr : setup.resolver? r = some resolver)
    (hnone : session.process.kept resolver.backend t = none) :
    let s := session.process
    let b := resolver.backend
    let part := session.doTask t (.resolver r (some .unbind))
    let next := part.next
    (part.reports.answer =
      match s.fault? b with
      | none => .ok
      | some failure => .panicked ("rtlocal: " ++ failure.message)) ∧
    (∀ b' u, next.process.kept b' u = s.kept b' u ∧
      ((b' = .direct → s.unready .direct → next.process.InPlace) →
        next.heldBy u b' = session.heldBy u b')) ∧
    (next.process.activities = s.activities ∧ next.process.calls = s.calls) ∧
    (¬s.unready b → next.process.platform = s.platform ∧
      (∀ c, c ≠ .settings → next.process.cells c = s.cells c) ∧
      (s.fault? b = none → next = session)) ∧
    (s.unready b → s.SetUp b next.process) := by
  intro s b part next
  have h := follows_of_course course
  have hr' : session.resolver? r = some resolver := (h.resolver? r).trans hr
  have hnext : next = { session with process := (s.run t (b.hold none)).process } :=
    next_unbind hr' h.sound t
  obtain ⟨hsteady, hanswer⟩ := answer_unbind hr' h.sound hnone
  refine ⟨hanswer, ?bindings, ⟨hsteady.activities, hsteady.calls⟩, ?ready, ?unready⟩
  case bindings =>
    intro b' u
    rw [hsteady.kept, heldBy_eq, heldBy_eq]
    exact ⟨rfl, fun hplace => hsteady.held_unless_astray h.sound hplace u⟩
  case ready =>
    intro hready
    rw [hnext, Process.hold_kept h.sound hready hnone]
    refine ⟨?platform, ?cells, ?faultless⟩
    case platform =>
      split
      · rfl
      · exact s.loaded_platform
    case cells =>
      intro c hc
      split
      · rfl
      · exact s.loaded_cells hc
    case faultless =>
      intro hfault
      rw [if_pos hfault]
  case unready =>
    intro hunready
    rw [hnext]
    exact Process.setUp_hold h.sound hunready t none

/-- A thread that is not bound unbinds itself: at first no key can be created, and it fails; later,
when another thread is bound, it leaves the session as it is. -/
theorem unbind_unbound_pair :
    let faulty := ((start pair).steps
      [.act (some (.started 0)) (.change (.setFaults (some 12) none))]).2
    let bound := ((start pair).steps
      [.act (some (.started 1)) (.resolver (some 1) (some (.bind 0)))]).2
    let part := faulty.doTask 2 (.resolver (some 2) (some .unbind))
    part.reports.answer = .panicked ("rtlocal: " ++ (StorageFailure.noKey 12).message) ∧
      faulty.process.SetUp .direct part.next.process ∧
      (bound.doTask 2 (.resolver (some 0) (some .unbind))).next = bound := by
  intro faulty bound part
  have hfaulty : Course (start pair) _ faulty := course_steps _ _
  have hbound : Course (start pair) _ bound := course_steps _ _
  obtain ⟨hanswer, -, -, -, hsetUp⟩ := unbind_unbound hfaulty (r := some 2) (t := 2)
    (show pair.resolver? (some 2) = some ⟨⟨.absent, 2⟩, .direct⟩ from rfl) rfl
  obtain ⟨-, -, -, hready, -⟩ := unbind_unbound hbound (r := some 0) (t := 2)
    (show pair.resolver? (some 0) = some ⟨⟨.perThread, 0⟩, .key⟩ from rfl) rfl
  have hunready : faulty.process.unready .direct := rfl
  have hfull : bound.process.cells .key = .full 0 := rfl
  have hisready : ¬bound.process.unready .key := by
    intro hempty
    rw [show bound.process.cells .key = .empty from hempty] at hfull
    cases hfull
  exact ⟨hanswer, hsetUp hunready, (hready hisready).2.2 rfl⟩

/-- A process in which nothing was ever bound does not stay as it was when a thread unbinds itself:
a key is created and the kernel is asked where the slots start. If no key can be created, the thread
fails. -/
theorem unbinding_sets_up :
    let session := start pair
    let keyed := session.doTask 2 (.resolver (some 0) (some .unbind))
    let direct := session.doTask 2 (.resolver (some 2) (some .unbind))
    let faulty := ((start pair).steps
      [.act (some (.started 0)) (.change (.setFaults (some 12) none))]).2
    (session.process.kept .key 2 = none ∧ session.process.kept .direct 2 = none ∧
      faulty.process.kept .key 2 = none) ∧
    (session.process.keyOf .key = none ∧ keyed.next.process.keyOf .key = some 0 ∧
      session.process.platform.createCalls = 0 ∧ keyed.next.process.platform.createCalls = 1) ∧
    (session.process.cells .slotBase = .empty ∧ direct.next.process.cells .slotBase = .full 0 ∧
      session.process.platform.unameCalls = 0 ∧ direct.next.process.platform.unameCalls = 1) ∧
    (faulty.doTask 2 (.resolver (some 0) (some .unbind))).reports.answer =
      .panicked "rtlocal: pthread_key_create failed: error 12" :=
  ⟨⟨rfl, rfl, rfl⟩, ⟨rfl, rfl, rfl, rfl⟩, ⟨rfl, rfl, rfl, rfl⟩, rfl⟩

end Session

end ExecContext
