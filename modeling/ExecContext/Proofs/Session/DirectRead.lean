import ExecContext.Proofs.Segment.Bytes
import ExecContext.Proofs.Session.Twin

set_option autoImplicit false

/-!
# Reading straight from the segment

The direct backend reads at the place where it believes the key slots to start, which it settles
once, when its slot is set up. If that is where they are, it reads what is stored behind its key. If
not, it reads whatever stands at the place to which its slot leads: the slot of another key, or a
word that is no key's slot.
-/

namespace ExecContext

/-! ## The segment of a thread -/

namespace Process

variable (s : Process) (t : ThreadId) (word : Pointer → UInt64)

/-- The first words of a thread's segment, for a way to write pointers as words. -/
def segment (length : Nat) : Segment :=
  ⟨(List.range length).map fun i => word (s.wordAt t (8 * i))⟩

theorem wordAt_segment {length i : Nat} (hi : i < length) :
    (s.segment t word length).wordAt i = word (s.wordAt t (8 * i)) := by
  simp [segment, Segment.wordAt, hi]

/-- A slot of the segment is the word that is read for its key. -/
theorem slot_segment {length base : Nat} {k : Key} (hbase : base % 8 = 0)
    (hlength : Host.slotFrom base k < 8 * length) :
    (s.segment t word length).slot base k = word (s.wordAt t (Host.slotFrom base k)) := by
  obtain ⟨q, rfl⟩ : ∃ q, base = 8 * q := ⟨base / 8, by omega⟩
  have hplace : Host.slotFrom (8 * q) k = 8 * (q + k) := by
    unfold Host.slotFrom
    omega
  rw [hplace] at hlength ⊢
  rw [Segment.slot_aligned, s.wordAt_segment t word (by omega)]

end Process

namespace Session

variable {setup : Setup} {session later : Session} {history done : List Entry} {slot : DirectSlot}

/-! ## What the direct backend reads -/

/-- What becomes of the slot of the direct backend once it is set up. -/
theorem Lasts.direct (lasts : Lasts session later)
    (hcell : session.process.cells .direct = .full slot) :
    later.process.cells .direct = .full slot ∧
      later.process.cells .slotBase = .full slot.base := by
  have hlater := lasts.full _ _ hcell
  exact ⟨hlater, lasts.sound.probed slot hlater⟩

/-- It reads the word of the thread's segment that its slot leads to. -/
theorem Follows.direct_word (h : Follows setup history session)
    (hcell : session.process.cells .direct = .full slot) (t : ThreadId)
    (word : Pointer → UInt64) {length : Nat} (hlength : slot.place < 8 * length) :
    (session.process.segment t word length).slot slot.base slot.key =
      word (session.heldBy t .direct) := by
  have haligned : slot.base % 8 = 0 := h.sound.aligned _ (h.sound.probed slot hcell)
  rw [heldBy_eq, Process.held_direct_of_full hcell]
  exact session.process.slot_segment t word haligned hlength

/-- In place, it reads what it was last let hold. -/
theorem Follows.direct_inPlace (h : Follows setup history session)
    (hcell : session.process.cells .direct = .full slot) (hbase : slot.base = setup.host.slotsAt)
    (t : ThreadId) :
    session.heldBy t .direct = session.process.specific slot.key t ∧
      session.heldBy t .direct = latest setup .direct t history := by
  have hplace : session.process.InPlace :=
    Process.inPlace_of_full hcell (hbase.trans (congrArg Host.slotsAt h.host.symm))
  have hkey : session.process.keyOf .direct = some slot.key :=
    Process.keyOf_direct_iff.mpr ⟨slot.base, hcell⟩
  rw [heldBy_eq, Process.held_of_inPlace fun _ => hplace]
  exact ⟨congrFun (Process.kept_of_keyOf hkey) t, h.kept .direct t⟩

/-- Elsewhere, it reads what the key backend was last let hold, or null, or what is no slot. -/
theorem Follows.direct_astray (h : Follows setup history session)
    (hcell : session.process.cells .direct = .full slot) (hbase : slot.base ≠ setup.host.slotsAt)
    (t : ThreadId) :
    (∀ k, setup.host.keyAt? slot.place = some k →
      k ≠ slot.key ∧
      (session.process.keyOf .key = some k →
        session.heldBy t .direct = latest setup .key t history) ∧
      (session.process.keyOf .key ≠ some k → session.heldBy t .direct = none)) ∧
    (setup.host.keyAt? slot.place = none →
      session.heldBy t .direct = setup.host.otherWord t slot.place) := by
  have hbase' : slot.base ≠ session.process.platform.host.slotsAt := by
    rw [h.host]
    exact hbase
  have hastray := h.sound.held_astray hcell hbase' t
  rwa [h.host, h.kept .key t, ← heldBy_eq] at hastray

/-- A thread that lets the direct backend hold a pointer, once it has its slot, is told so unless
nothing can be stored. -/
theorem Lasts.direct_holds (lasts : Lasts session later)
    (hcell : session.process.cells .direct = .full slot) {r : Option Nat} {resolver : Resolver}
    {call : Call} {p : Pointer} (hr : session.setup.resolver? r = some resolver)
    (hb : resolver.backend = .direct) (hw : call.written? = some p)
    (hnames : later.namesNoContext call = false)
    (hstore : later.process.platform.storeFault = 0) (t : ThreadId) :
    (later.doTask t (.resolver r (some call))).reports.answer = .ok := by
  have hkey : later.process.keyOf resolver.backend = some slot.key := by
    rw [hb]
    exact Process.keyOf_direct_iff.mpr ⟨slot.base, lasts.full _ _ hcell⟩
  have hr' : later.resolver? r = some resolver := by
    rw [resolver?_eq, lasts.setup_eq]
    exact hr
  have hfault : later.process.fault? resolver.backend = none := by
    simp [Process.fault?, hkey, hstore]
  obtain ⟨s', hanswer, -⟩ := holding_doTask hr' lasts.sound hw hnames hfault t
  exact hanswer

/-- **The direct read.** At every moment of every session, on every thread: without a slot the
direct backend reads null. With one it reads the word of the thread's segment that its slot leads
to. Where the offset of the slot is that of the slots, this is what is stored behind the slot's key:
the pointer that the thread last let the direct backend hold. With any other offset it is another
word: the slot of the key backend's key, and then the pointer that the thread last let that backend
hold; the slot of a key that no backend has, and then null; or no slot, and then what the platform
has there. The slot and its offset never change, and pointers are held without failure wherever it
leads. What one backend is let hold is nothing to another, to the direct one where it reads in
place. The key backend reads the pointer that the thread last let it hold; and in the session in
which the two backends are exchanged and the same steps are taken, it reads for each thread what the
direct backend reads in place. A thread that asks a resolver for the pointer held is told what the
resolver's backend reads for it. -/
theorem direct_read (setup : Setup) :
    (∀ history session, Course (start setup) history session →
      ((∀ slot, session.process.cells .direct ≠ .full slot) →
        ∀ t, session.heldBy t .direct = none) ∧
      (∀ slot, session.process.cells .direct = .full slot →
        (∀ t word length, slot.place < 8 * length →
          (session.process.segment t word length).slot slot.base slot.key =
            word (session.heldBy t .direct)) ∧
        (slot.base = setup.host.slotsAt → ∀ t,
          session.heldBy t .direct = session.process.specific slot.key t ∧
          session.heldBy t .direct = latest setup .direct t history) ∧
        (slot.base ≠ setup.host.slotsAt → ∀ t,
          (∀ k, setup.host.keyAt? slot.place = some k →
            k ≠ slot.key ∧
            (session.process.keyOf .key = some k →
              session.heldBy t .direct = latest setup .key t history) ∧
            (session.process.keyOf .key ≠ some k → session.heldBy t .direct = none)) ∧
          (setup.host.keyAt? slot.place = none →
            session.heldBy t .direct = setup.host.otherWord t slot.place)) ∧
        ∀ done later, Course session done later →
          later.process.cells .direct = .full slot ∧
          later.process.cells .slotBase = .full slot.base ∧
          ∀ t r resolver call p, setup.resolver? r = some resolver → resolver.backend = .direct →
            call.written? = some p → later.namesNoContext call = false →
            later.process.platform.storeFault = 0 →
            (later.doTask t (.resolver r (some call))).reports.answer = .ok) ∧
      (∀ t, session.heldBy t .key = latest setup .key t history) ∧
      (∀ t r resolver, setup.resolver? r = some resolver →
        (session.doTask t (.resolver r (some .held))).reports.answer =
          .pointer (session.heldBy t resolver.backend)) ∧
      (∀ t task b u, session.Spares b task → (b = .direct → session.process.InPlace) →
        (session.doTask t task).next.heldBy u b = session.heldBy u b)) ∧
    (∀ list t,
      let session := ((start setup).steps list).2
      let exchanged := ((start setup.twin).steps list).2
      ∀ slot, session.process.cells .direct = .full slot → slot.base = setup.host.slotsAt →
        session.heldBy t .direct = exchanged.heldBy t .key) := by
  constructor
  case left =>
    intro history session course
    have h := follows_of_course course
    refine ⟨?none, ?slot, ?key, ?told, ?spared⟩
    case none =>
      intro hnone t
      rw [heldBy_eq]
      exact (Process.held_direct_of_not_full hnone t).1
    case slot =>
      intro slot hcell
      refine ⟨?word, ?inPlace, ?astray, ?later⟩
      case word =>
        intro t word length hlength
        exact h.direct_word hcell t word hlength
      case inPlace =>
        intro hbase t
        exact h.direct_inPlace hcell hbase t
      case astray =>
        intro hbase t
        exact h.direct_astray hcell hbase t
      case later =>
        intro done later hlater
        have lasts := hlater.lasts h.sound
        obtain ⟨hslot, hprobed⟩ := lasts.direct hcell
        refine ⟨hslot, hprobed, ?_⟩
        intro t r resolver call p hr hb hw hnames hstore
        rw [← h.setup_eq] at hr
        exact lasts.direct_holds hcell hr hb hw hnames hstore t
    case key =>
      intro t
      rw [heldBy_eq]
      exact h.held (by decide) t
    case told =>
      intro t r resolver hr
      rw [← h.setup_eq, ← resolver?_eq] at hr
      rw [heldBy_eq]
      exact answer_held hr t
    case spared =>
      intro t task b u hspares hplace
      obtain ⟨s', hnext, does⟩ := does_doTask h.sound t task
      rw [heldBy_eq, heldBy_eq, hnext]
      exact does.held_same hplace hspares u
  case right =>
    intro list t session exchanged slot hcell hbase
    have h := follows_of_course (course_steps (start setup) list)
    have htwins := twins_steps setup list
    have hkey : exchanged.process.kept .key = session.process.kept .direct := htwins.kept .direct
    rw [(h.direct_inPlace hcell hbase t).2, ← h.kept .direct t, heldBy_eq,
      Process.held_of_ne_direct (by decide), hkey]

/-- The same two bindings, the key backend's first, where the offset is that of the slots, and where
the slots start one word further on: there the direct backend reads what the other one holds. -/
theorem direct_read_pair :
    let binds := [Step.act (some (.started 0)) (.resolver (some 0) (some (.bind 1))),
      .act (some (.started 0)) (.resolver (some 2) (some (.bind 0)))]
    let right := ((start pair).steps binds).2
    let wrong := ((start { pair with host := .plain 1 }).steps binds).2
    right.heldBy 2 .direct = some (.context 0) ∧ right.heldBy 2 .key = some (.context 1) ∧
      wrong.heldBy 2 .direct = some (.context 1) ∧ wrong.heldBy 3 .direct = none := by
  intro binds right wrong
  have hright : Course (start pair) _ right := course_steps _ _
  have hwrong : Course (start { pair with host := .plain 1 }) _ wrong := course_steps _ _
  obtain ⟨-, hslot, hkey, -⟩ := (direct_read _).1 _ right hright
  obtain ⟨-, hslot', -⟩ := (direct_read _).1 _ wrong hwrong
  obtain ⟨-, hreads, -⟩ := hslot ⟨1, 0⟩ (show right.process.cells .direct = _ from rfl)
  obtain ⟨-, -, hastray, -⟩ := hslot' ⟨1, 0⟩ (show wrong.process.cells .direct = _ from rfl)
  have hother (t : ThreadId) :
      wrong.heldBy t .direct = latest { pair with host := .plain 1 } .key t _ :=
    ((hastray (by decide) t).1 0 rfl).2.1 rfl
  exact ⟨(hreads rfl 2).2, hkey 2, hother 2, hother 3⟩

/-- With an offset that is not that of the slots, the direct backend need not read null, and it may
fail to hold a pointer. -/
theorem direct_reads_other_slot :
    let session := ((start { pair with host := .plain 1 }).steps
      [.act (some (.started 0)) (.resolver (some 0) (some (.bind 0))),
        .act (some (.started 0)) (.resolver (some 2) (some (.bind 1)))]).2
    let faulty := (session.doTask 2 (.change (.setFaults none (some 5)))).next
    (∃ slot, session.process.cells .direct = .full slot ∧
      slot.base ≠ session.setup.host.slotsAt) ∧
    (session.doTask 2 (.resolver (some 2) (some .held))).reports.answer =
      .pointer (some (.context 0)) ∧
    (faulty.doTask 2 (.resolver (some 2) (some (.bind 0)))).reports.answer =
      .panicked ("rtlocal: " ++ (StorageFailure.notStored 5).message) :=
  ⟨⟨⟨1, 0⟩, rfl, by decide⟩, rfl, rfl⟩

end Session

end ExecContext
