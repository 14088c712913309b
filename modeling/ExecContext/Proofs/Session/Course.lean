import ExecContext.Session.Run
import ExecContext.Proofs.Resolver.Resolving

set_option autoImplicit false

/-!
# The course of a session

A session is seen from outside as a list of entries: which thread was given which task and what was
answered. `Session.history` reads the entries of a list of steps off the reports, those of racers
included. `Session.Course` relates a session to any that it may become while threads start, end and
do tasks one after another; taking steps is such a course (`course_steps`), so what holds along
every course holds between any two steps and within every race.
-/

namespace ExecContext

namespace Session

/-! ## Entries -/

/-- A task that a thread was given. -/
structure Entry where
  thread : ThreadId
  /-- the name of the thread, if it has one -/
  name : Option String
  task : Task
  answer : Answer

/-- What a thread does now, given a task. -/
def entry (session : Session) (t : ThreadId) (task : Task) : Entry where
  thread := t
  name := session.process.nameOf t
  task := task
  answer := (session.doTask t task).reports.answer

/-- The entries of racers that are given the same task, the first of them being thread `t`. -/
def racerEntries (task : Task) (t : ThreadId) : List Report → List Entry
  | [] => []
  | report :: rest =>
    ⟨t, some racerName, task, report.answer⟩ :: racerEntries task (t + 1) rest

/-- The entries of racers that bind themselves to the contexts in turn and then ask for their own.
-/
def bindingEntries (contexts : Nat) (r : Option Nat) (t : ThreadId) (first : Nat) :
    List (Report × Report) → List Entry
  | [] => []
  | (bound, found) :: rest =>
    ⟨t, some racerName, .resolver r (some (.bind (first % contexts))), bound.answer⟩ ::
      ⟨t, some racerName, .resolver r (some .current?), found.answer⟩ ::
      bindingEntries contexts r (t + 1) (first + 1) rest

/-- The entries of a step, as its reports tell them. -/
def entries (session : Session) (s : Step) : List Entry :=
  let firstRacer := session.process.roster.length + 1
  match s with
  | .act ref task =>
    match session.thread? ref, (session.step s).1.reply with
    | some t, .single report => [⟨t, session.process.nameOf t, task, report.answer⟩]
    | _, _ => []
  | .race _ task =>
    match (session.step s).1.reply with
    | .race reports => racerEntries task firstRacer reports
    | _ => []
  | .raceBind _ r =>
    match (session.step s).1.reply with
    | .bindings reports => bindingEntries session.setup.contexts.length r firstRacer 0 reports
    | _ => []
  | _ => []

/-- The entries of steps taken one after another. -/
def history (session : Session) : List Step → List Entry
  | [] => []
  | s :: rest => session.entries s ++ (session.step s).2.history rest

/-! ## Courses -/

/-- What may come of a session next, with the entries of it. -/
inductive Move : Session → List Entry → Session → Prop where
  /-- a thread does a task -/
  | task (session : Session) (t : ThreadId) (task : Task) :
    Move session [session.entry t task] (session.doTask t task).next
  /-- a thread is started -/
  | start (session : Session) (name : Option String) (seats : List Seat) :
    Move session []
      { session with process := (session.process.start name).2, seats := seats }
  /-- a thread ends -/
  | exit (session : Session) (seats : List Seat) : Move session [] { session with seats := seats }

/-- What may come of a session in any number of moves. -/
inductive Course : Session → List Entry → Session → Prop where
  | refl (session : Session) : Course session [] session
  | move {session next last : Session} {done more : List Entry} (first : Course session done next)
      (move : Move next more last) : Course session (done ++ more) last

theorem Course.single {session next : Session} {done : List Entry} (move : Move session done next) :
    Course session done next :=
  .move (.refl session) move

theorem Course.trans {session next last : Session} {done more : List Entry}
    (first : Course session done next) (rest : Course next more last) :
    Course session (done ++ more) last := by
  induction rest with
  | refl => simpa using first
  | move _ move ih =>
    rw [← List.append_assoc]
    exact .move ih move

/-- Whatever was done was done at some moment of the course. -/
theorem Course.split {session last : Session} {all before after : List Entry} {d : Entry}
    (course : Course session all last) (h : all = before ++ d :: after) :
    ∃ now : Session, Course session before now ∧ ∃ t task, d = now.entry t task := by
  induction course generalizing after with
  | refl => simp at h
  | @move next last done more first move ih =>
    cases move with
    | task t task =>
      rcases after.eq_nil_or_concat with rfl | ⟨others, e, rfl⟩
      · obtain ⟨rfl, hd⟩ := List.append_inj' h rfl
        refine ⟨next, first, t, task, ?_⟩
        simpa using hd.symm
      · have h' : done ++ [next.entry t task] = (before ++ d :: others) ++ [e] := by
          simpa using h
        exact ih (List.append_inj' h' rfl).1
    | start name seats => exact ih (by simpa using h)
    | exit seats => exact ih (by simpa using h)

/-! ## Steps are a course -/

/-- A part of a step of which only the process may have changed, and no thread was started. -/
structure Part.Local {α : Type} (session : Session) (part : Part α) : Prop where
  setup : part.next.setup = session.setup
  seats : part.next.seats = session.seats
  roster : part.next.process.roster = session.process.roster

theorem local_tell (session : Session) (answer : Answer) :
    Part.Local session (session.tell answer) := ⟨rfl, rfl, rfl⟩

theorem local_perform (session : Session) (t : ThreadId) (action : Action Answer) :
    Part.Local session (session.perform t action) :=
  ⟨rfl, rfl, Process.run_roster _ _ _⟩

theorem local_makeCall (session : Session) (t : ThreadId) (r : Resolver) (call : Call) :
    Part.Local session (session.makeCall t r call) := by
  unfold makeCall
  split
  · exact local_tell session _
  · split
    · exact local_tell session _
    · exact local_perform session t _

/-- No task starts or ends a thread. -/
theorem local_doTask (session : Session) (t : ThreadId) (task : Task) :
    Part.Local session (session.doTask t task) := by
  cases task with
  | unreadable reason => exact local_tell session _
  | service s => exact local_perform session t _
  | change c =>
    simp only [doTask]
    split
    · exact ⟨rfl, rfl, rfl⟩
    · exact local_tell session _
  | counts => exact local_tell session _
  | resolver r call =>
    simp only [doTask]
    split
    · exact local_tell session _
    · exact local_tell session _
    · exact local_makeCall session t _ _

/-- A thread that is started last has the name given. -/
theorem nameOf_start (s : Process) (name : Option String) :
    (s.start name).2.nameOf (s.start name).1 = name := by
  simp [Process.start, Process.nameOf]

/-- A racer that is given a task. -/
theorem course_racer (session : Session) (task : Task) :
    Course session
      [⟨session.process.roster.length + 1, some racerName, task,
        (session.startRacer.2.doTask session.startRacer.1 task).reports.answer⟩]
      (session.startRacer.2.doTask session.startRacer.1 task).next := by
  have hstart := Move.start session (some racerName) session.seats
  have htask := Move.task session.startRacer.2 session.startRacer.1 task
  have hname : session.startRacer.2.process.nameOf session.startRacer.1 = some racerName :=
    nameOf_start session.process (some racerName)
  have hboth := (Course.single hstart).trans (Course.single htask)
  rw [entry, hname] at hboth
  exact hboth

theorem course_raceTask (session : Session) (task : Task) (n : Nat) :
    Course session
      (racerEntries task (session.process.roster.length + 1) (session.raceTask task n).reports)
      (session.raceTask task n).next := by
  induction n generalizing session with
  | zero => exact .refl session
  | succ n ih =>
    have hlocal := local_doTask session.startRacer.2 session.startRacer.1 task
    have hroster : (session.startRacer.2.doTask session.startRacer.1 task).next.process.roster
        = session.process.roster ++ [some racerName] := hlocal.roster
    have hrest := ih (session.startRacer.2.doTask session.startRacer.1 task).next
    rw [hroster, List.length_append] at hrest
    exact (course_racer session task).trans hrest

theorem course_raceBind (session : Session) (r : Option Nat) (first n : Nat) :
    Course session
      (bindingEntries session.setup.contexts.length r (session.process.roster.length + 1) first
        (session.raceBind r first n).reports)
      (session.raceBind r first n).next := by
  induction n generalizing session first with
  | zero => exact .refl session
  | succ n ih =>
    let c := first % session.setup.contexts.length
    let t := session.startRacer.1
    let bound := session.startRacer.2.doTask t (.resolver r (some (.bind c)))
    let found := bound.next.doTask t (.resolver r (some .current?))
    have hbound : Part.Local session.startRacer.2 bound := local_doTask _ _ _
    have hfound : Part.Local bound.next found := local_doTask _ _ _
    have hname : bound.next.process.nameOf t = some racerName := by
      have hstart : session.startRacer.2.process.nameOf t = some racerName :=
        nameOf_start session.process (some racerName)
      unfold Process.nameOf at hstart ⊢
      rw [hbound.roster]
      exact hstart
    have hown := (course_racer session (.resolver r (some (.bind c)))).trans
      (.single (.task bound.next t (.resolver r (some .current?))))
    rw [entry, hname] at hown
    have hroster : found.next.process.roster = session.process.roster ++ [some racerName] :=
      hfound.roster.trans hbound.roster
    have hsetup : found.next.setup = session.setup := hfound.setup.trans hbound.setup
    have hrest := ih found.next (first + 1)
    rw [hroster, hsetup, List.length_append] at hrest
    exact hown.trans hrest

/-- A step is a course, and its reports tell the entries of it. -/
theorem course_step (session : Session) (s : Step) :
    Course session (session.entries s) (session.step s).2 := by
  cases s with
  | act ref task =>
    cases hthread : session.thread? ref with
    | none =>
      simp only [entries, step, hthread]
      exact .refl session
    | some t =>
      simp only [entries, step, hthread]
      exact .single (.task session t task)
  | spawn name => exact .single (.start session name _)
  | exit ref =>
    cases ref with
    | none => exact .refl session
    | some ref =>
      cases ref with
      | main => exact .refl session
      | started n =>
        cases hthread : session.thread? (some (.started n)) with
        | none =>
          simp only [entries, step, hthread]
          exact .refl session
        | some t =>
          simp only [entries, step, hthread]
          exact .single (.exit session _)
  | race n task =>
    by_cases hlimit : raceLimit < n
    · simp only [entries, step, if_pos hlimit]
      exact .refl session
    · simp only [entries, step, if_neg hlimit]
      exact course_raceTask session task n
  | raceBind n r =>
    by_cases hlimit : raceLimit < n
    · simp only [entries, step, if_pos hlimit]
      exact .refl session
    · simp only [entries, step, if_neg hlimit]
      exact course_raceBind session r 0 n
  | unreadable reason => exact .refl session

/-- Taking steps is a course. -/
theorem course_steps (session : Session) (list : List Step) :
    Course session (session.history list) (session.steps list).2 := by
  induction list generalizing session with
  | nil => exact .refl session
  | cons s rest ih => exact (course_step session s).trans (ih (session.step s).2)

/-- Starting the threads of a session is a course without entries. -/
theorem course_start (setup : Setup) :
    Course ⟨setup, setup.process, []⟩ [] (start setup) := by
  unfold start
  generalize (⟨setup, setup.process, []⟩ : Session) = session
  induction setup.threads generalizing session with
  | nil => exact .refl session
  | cons name rest ih =>
    exact (Course.single (.start session name _)).trans (ih (session.spawn name))

end Session

end ExecContext
