import ExecContext.Proofs.Session.DirectRead

set_option autoImplicit false

/-!
# Bindings that fail

A binding through a backend with a key can fail in two ways: no key can be created, or nothing can
be stored behind the one there is. Neither touches what is bound already, and neither stands in the
way of a later attempt, whoever makes it.
-/

namespace ExecContext

namespace Session

variable {setup : Setup} {session later : Session} {history done : List Entry} {t : ThreadId}
  {b : Backend} {p : Pointer}

/-- The backend gives `p` back to thread `t`. The direct backend has stored it behind the key of its
slot and gives back the word that the slot leads to, which is `p` where the slots are in place. -/
def ReadsBack (session : Session) (t : ThreadId) (b : Backend) (p : Pointer) : Prop :=
  match b with
  | .direct => ∃ slot, session.process.cells .direct = .full slot ∧
      session.process.specific slot.key t = p ∧
      session.heldBy t .direct = session.process.wordAt t slot.place ∧
      (slot.base = session.process.platform.host.slotsAt → session.heldBy t .direct = p)
  | b => session.heldBy t b = p

/-- What was held is read back. -/
theorem readsBack_of_holding {s s' : Process} (hs : s.Holding t b p s')
    (hleft : s.Left b s' none) : ReadsBack { session with process := s' } t b p := by
  have hkept : s'.kept b t = p := by
    rw [hs.kept, if_pos rfl, Slots.set_same]
  cases b with
  | direct =>
    have hready : s'.keyOf .direct ≠ none := hleft (Or.inr rfl)
    obtain ⟨k, hk⟩ := Option.ne_none_iff_exists'.mp hready
    obtain ⟨n, hcell⟩ := Process.keyOf_direct_iff.mp hk
    have hstored : s'.specific k t = p := by
      rw [← Process.kept_of_keyOf hk]
      exact hkept
    have hword : heldBy { session with process := s' } t .direct =
        s'.wordAt t (DirectSlot.place ⟨k, n⟩) :=
      (heldBy_eq _ _ _).trans (Process.held_direct_of_full hcell t)
    refine ⟨⟨k, n⟩, hcell, hstored, hword, fun hbase => ?_⟩
    rw [hword, DirectSlot.place, hbase, Process.wordAt_slotFrom, hstored]
  | native => exact (heldBy_eq _ _ _).trans hkept
  | key => exact (heldBy_eq _ _ _).trans hkept
  | spy => exact (heldBy_eq _ _ _).trans hkept

/-- The faults that a backend with a key meets. -/
theorem fault?_of_keyed {s : Process} (h : s.Sound) (hb : b = .key ∨ b = .direct) :
    (s.unready b ∧ s.platform.createFault ≠ 0 →
      s.fault? b = some (.noKey s.platform.createFault)) ∧
    (¬(s.unready b ∧ s.platform.createFault ≠ 0) → s.platform.storeFault ≠ 0 →
      s.fault? b = some (.notStored s.platform.storeFault)) ∧
    (¬(s.unready b ∧ s.platform.createFault ≠ 0) → s.platform.storeFault = 0 →
      s.fault? b = none) := by
  have hkeyed : ¬(b = .native ∨ b = .spy) := by
    rcases hb with rfl | rfl <;> decide
  rw [h.unready_iff hb]
  unfold Process.fault?
  rw [if_neg hkeyed]
  refine ⟨fun hnoKey => if_pos hnoKey, fun hkey hstore => ?_, fun hkey hstore => ?_⟩
  · rw [if_neg hkey, if_pos hstore]
  · rw [if_neg hkey, if_neg (not_not_intro hstore)]

/-- A key that a use of a backend left behind is the one it had, if it had one, and stays. -/
theorem key_stays {s' : Process} (h : session.process.Sound)
    (hgrows : session.process.Grows s') (hb : b = .key ∨ b = .direct)
    (hready : s'.keyOf b ≠ none) :
    ∃ k, (session.process.unready b ∨ session.process.keyOf b = some k) ∧
      ∀ done later, Course { session with process := s' } done later →
        later.process.keyOf b = some k := by
  obtain ⟨k, hk⟩ := Option.ne_none_iff_exists'.mp hready
  refine ⟨k, ?_, fun done later hlater => (hlater.lasts hgrows.sound).keyOf hk⟩
  cases hbefore : session.process.keyOf b with
  | none => exact Or.inl ((h.unready_iff hb).mpr hbefore)
  | some k' =>
    rw [hgrows.keyOf hbefore] at hk
    exact Or.inr hk

/-- **Bindings that fail.** At every moment of every session, a binding through a backend with a key
fails exactly where its cell is empty and no key can be created, or else nothing can be stored. A
failure leaves every binding, every scheduler and every counter as it was, and so what each backend
gives back, unless the direct backend has got its slot by it and the slot leads astray. A cell for
which no key could be created is empty still, though an offset that was probed stays; a key that
there is stays the backend's key. So whatever happens in between, a binding that meets no fault
succeeds and is read back. -/
theorem binding_fails_or_holds (course : Course (start setup) history session) {r : Option Nat}
    {resolver : Resolver} {call : Call} (hr : setup.resolver? r = some resolver)
    (hb : resolver.backend = .key ∨ resolver.backend = .direct) (hw : call.written? = some p)
    (hnames : session.namesNoContext call = false) (t : ThreadId) :
    let s := session.process
    let b := resolver.backend
    let answer := (session.doTask t (.resolver r (some call))).reports.answer
    let next := (session.doTask t (.resolver r (some call))).next
    let noKey := s.unready b ∧ s.platform.createFault ≠ 0
    (noKey → answer =
      .panicked ("rtlocal: " ++ (StorageFailure.noKey s.platform.createFault).message)) ∧
    (¬noKey → s.platform.storeFault ≠ 0 → answer =
      .panicked ("rtlocal: " ++ (StorageFailure.notStored s.platform.storeFault).message)) ∧
    (¬noKey → s.platform.storeFault = 0 → answer = .ok ∧ ReadsBack next t b p) ∧
    (noKey ∨ s.platform.storeFault ≠ 0 →
      (∀ b' u, (b' = .direct → s.unready .direct → next.process.InPlace) →
        next.heldBy u b' = session.heldBy u b') ∧
      next.process.kept = s.kept ∧ next.process.activities = s.activities ∧
      next.process.calls = s.calls) ∧
    (noKey → next.process.unready b ∧
      (b = .direct → ∀ done later, Course next done later →
        later.process.cells .slotBase = .full s.base)) ∧
    (¬noKey → ∃ k, (s.unready b ∨ s.keyOf b = some k) ∧
      ∀ done later, Course next done later → later.process.keyOf b = some k) ∧
    (∀ done later, Course next done later → later.process.platform.createFault = 0 →
      later.process.platform.storeFault = 0 →
      ∀ u r' resolver' call' q, setup.resolver? r' = some resolver' → resolver'.backend = b →
        call'.written? = some q → later.namesNoContext call' = false →
        (later.doTask u (.resolver r' (some call'))).reports.answer = .ok ∧
        ReadsBack (later.doTask u (.resolver r' (some call'))).next u b q) := by
  intro s b answer next noKey
  have h := follows_of_course course
  have hs : s.Sound := h.sound
  have hr' : session.resolver? r = some resolver := by
    rw [resolver?_eq, h.setup_eq]
    exact hr
  have hnext : Lasts session next := .move h.sound (.task session t _)
  obtain ⟨hcreate, hstore, hfaultless⟩ := fault?_of_keyed hs hb
  refine ⟨?noKey, ?notStored, ?held, ?unchanged, ?cell, ?key, ?mended⟩
  case noKey =>
    intro hno
    obtain ⟨s', hanswer, -⟩ := steady_doTask hr' hs hw hnames (hcreate hno) t
    exact hanswer
  case notStored =>
    intro hkey hfault
    obtain ⟨s', hanswer, -⟩ := steady_doTask hr' hs hw hnames (hstore hkey hfault) t
    exact hanswer
  case held =>
    intro hkey hok
    obtain ⟨s', hanswer, heq, hholding, hleft⟩ :=
      holding_doTask hr' hs hw hnames (hfaultless hkey hok) t
    refine ⟨hanswer, ?_⟩
    simp only [next, heq]
    exact readsBack_of_holding hholding hleft
  case unchanged =>
    intro hfault
    have hsome : ∃ failure, s.fault? b = some failure := by
      by_cases hno : noKey
      · exact ⟨_, hcreate hno⟩
      · exact ⟨_, hstore hno (hfault.resolve_left hno)⟩
    obtain ⟨failure, hsome⟩ := hsome
    obtain ⟨s', -, heq, hsteady, -⟩ := steady_doTask hr' hs hw hnames hsome t
    simp only [next, heq]
    refine ⟨fun b' u hplace => ?_, hsteady.kept, hsteady.activities, hsteady.calls⟩
    rw [heldBy_eq, heldBy_eq]
    exact hsteady.held_unless_astray hs hplace u
  case cell =>
    intro hno
    obtain ⟨s', -, heq, hsteady, hnone, hbase⟩ := steady_doTask hr' hs hw hnames (hcreate hno) t
    simp only [next, heq]
    refine ⟨(hsteady.sound.unready_iff hb).mpr hnone, ?_⟩
    intro hdirect done later hlater
    exact (hlater.lasts hsteady.sound).full _ _ (hbase hdirect)
  case key =>
    intro hkey
    by_cases hok : s.platform.storeFault = 0
    · obtain ⟨s', -, heq, hholding, hleft⟩ :=
        holding_doTask hr' hs hw hnames (hfaultless hkey hok) t
      simp only [next, heq]
      exact key_stays hs hholding.toGrows hb (hleft hb)
    · obtain ⟨s', -, heq, hsteady, hleft⟩ := steady_doTask hr' hs hw hnames (hstore hkey hok) t
      simp only [next, heq]
      exact key_stays hs hsteady.toGrows hb (hleft hb)
  case mended =>
    intro done later hlater hc hst u r' resolver' call' q hr'' hb' hw' hnames'
    have lasts := hlater.lasts hnext.sound
    have hchosen : later.resolver? r' = some resolver' := by
      rw [resolver?_eq, lasts.setup_eq, hnext.setup_eq, h.setup_eq]
      exact hr''
    have hnone : later.process.fault? resolver'.backend = none := by
      simp [Process.fault?, hc, hst]
    obtain ⟨s', hanswer, heq, hholding, hleft⟩ :=
      holding_doTask hchosen lasts.sound hw' hnames' hnone u
    refine ⟨hanswer, ?_⟩
    rw [heq, ← hb']
    exact readsBack_of_holding hholding hleft

/-- A binding for which no key can be created fails; once one can, another thread binds itself. -/
theorem binding_fails_or_holds_pair :
    let session := ((start pair).steps
      [.act (some (.started 0)) (.change (.setFaults (some 12) none))]).2
    let failed := session.doTask 2 (.resolver (some 2) (some (.bind 0)))
    let mended := (failed.next.doTask 2 (.change (.setFaults (some 0) none))).next
    failed.reports.answer = .panicked ("rtlocal: " ++ (StorageFailure.noKey 12).message) ∧
      ReadsBack (mended.doTask 3 (.resolver (some 2) (some (.bind 1)))).next 3 .direct
        (some (.context 1)) := by
  intro session failed mended
  have course : Course (start pair) _ session := course_steps _ _
  have hall := binding_fails_or_holds course (r := some 2) (p := some (.context 0))
    (show pair.resolver? (some 2) = some ⟨⟨.absent, 2⟩, .direct⟩ from rfl) (Or.inr rfl)
    (show (Call.bind 0).written? = _ from rfl) rfl 2
  obtain ⟨hfails, -, -, -, -, -, hmended⟩ := hall
  have hcourse : Course failed.next _ mended := .single (.task failed.next 2 _)
  have hcreate : mended.process.platform.createFault = 0 := by decide
  have hstore : mended.process.platform.storeFault = 0 := by decide
  have hnames : mended.namesNoContext (.bind 1) = false := rfl
  have hunready : session.process.unready .direct := rfl
  have hfault : session.process.platform.createFault ≠ 0 := by decide
  exact ⟨hfails ⟨hunready, hfault⟩,
    (hmended _ mended hcourse hcreate hstore 3 (some 2) ⟨⟨.absent, 2⟩, .direct⟩ (.bind 1) _
      rfl rfl rfl hnames).2⟩

/-- Where the kernel cannot be asked and the slots are not where they are assumed to be, a binding
that succeeds after one that failed is not read back through the direct backend. -/
theorem direct_unread_after_retry :
    let session := ((start { pair with uname := .failure 14 }).steps
      [.act (some (.started 0)) (.change (.setFaults (some 12) none)),
        .act (some (.started 0)) (.resolver (some 2) (some (.bind 0))),
        .act (some (.started 0)) (.change (.setFaults (some 0) none))]).2
    let part := session.doTask 2 (.resolver (some 2) (some (.bind 0)))
    session.process.platform.createFault = 0 ∧ session.process.platform.storeFault = 0 ∧
      part.reports.answer = .ok ∧ part.next.heldBy 2 .direct ≠ some (.context 0) :=
  ⟨rfl, rfl, rfl, by decide⟩

end Session

end ExecContext
