import ExecContext.Proofs.Process.SideBySide
import ExecContext.Session.Run
import Mathlib.Data.List.Forall2

set_option autoImplicit false

/-!
# Two sessions abreast

Two sessions with the same threads and contexts take the same steps, each in a process of its own. A
`Comparison` says what relates the two processes between steps, what relates the events of the same
step, and what counts of an answer. Where every task that is admitted keeps to it, in all processes
that meet a condition, so does every list of steps before each of which it is met
(`Comparison.run`).
-/

namespace ExecContext

namespace Session

/-! ## What counts of a result -/

/-- The report with its answer changed. -/
def Report.map (f : Answer → Answer) (report : Report) : Report :=
  { report with answer := f report.answer }

/-- The reply with its answers changed. -/
def Reply.map (f : Answer → Answer) : Reply → Reply
  | .single report => .single (report.map f)
  | .race reports => .race (reports.map (Report.map f))
  | .bindings reports => .bindings (reports.map fun pair => (pair.1.map f, pair.2.map f))

@[simp] theorem Reply.map_id (reply : Reply) : reply.map id = reply := by
  have hreport : Report.map id = id := rfl
  cases reply <;> simp [Reply.map, hreport]

/-! ## Comparisons -/

/-- How two sessions are compared. -/
structure Comparison where
  left : Setup
  right : Setup
  /-- what relates the processes between two steps -/
  related : Process → Process → Prop
  /-- what relates the events of the same step -/
  shown : List Event → List Event → Prop
  /-- what counts of an answer -/
  view : Answer → Answer
  scope : right.scope = left.scope
  contexts : right.contexts = left.contexts
  threads : right.threads = left.threads
  gathers : Gathers shown
  observed : ∀ {events events'}, shown events events' →
    Event.observedQueries events' = Event.observedQueries events
  roster : ∀ {s s'}, related s s' → s'.roster = s.roster
  start : ∀ {s s'} (name : Option String), related s s' →
    related (s.start name).2 (s'.start name).2
  begins : related left.process right.process

/-- The step is no race, and a thread is asked only for a task that is admitted. -/
def Step.Plain (admitted : Task → Prop) : Step → Prop
  | .act _ task => admitted task
  | .race .. => False
  | .raceBind .. => False
  | _ => True

namespace Comparison

/-- The two sessions between two steps. -/
structure Abreast (c : Comparison) (session other : Session) : Prop where
  left : session.setup = c.left
  right : other.setup = c.right
  seats : other.seats = session.seats
  process : c.related session.process other.process

/-- What the two sessions make of the same task. -/
structure Alike (c : Comparison) (part part' : Part Report) : Prop where
  reports : part'.reports.map c.view = part.reports.map c.view
  events : c.shown part.events part'.events
  next : c.Abreast part.next part'.next

/-- What the two sessions make of the same step. -/
structure Agree (c : Comparison) (result result' : Result) : Prop where
  reply : result'.reply.map c.view = result.reply.map c.view
  events : c.shown result.events result'.events

/-- Every admitted task is done alike in sessions that meet a condition on their processes. -/
def Keeps (c : Comparison) (meets : Process → Process → Prop) (admitted : Task → Prop) : Prop :=
  ∀ session other, c.Abreast session other → meets session.process other.process →
    ∀ (t : ThreadId) (task : Task), admitted task →
      c.Alike (session.doTask t task) (other.doTask t task)

variable {c : Comparison} {session other : Session}

namespace Abreast

/-! ## Parts of tasks -/

theorem nameOf (h : c.Abreast session other) (t : ThreadId) :
    other.process.nameOf t = session.process.nameOf t := by
  unfold Process.nameOf
  rw [c.roster h.process]

theorem thread? (h : c.Abreast session other) (ref : Option ThreadRef) :
    other.thread? ref = session.thread? ref := by
  unfold Session.thread?
  rw [h.left, h.right, c.scope, h.seats]

theorem namesNoContext (h : c.Abreast session other) (call : Call) :
    other.namesNoContext call = session.namesNoContext call := by
  unfold Session.namesNoContext
  rw [h.left, h.right, c.contexts]

/-- Answers that count as the same are told alike. -/
theorem tell (h : c.Abreast session other) {answer answer' : Answer}
    (hview : c.view answer' = c.view answer) :
    c.Alike (session.tell answer) (other.tell answer') where
  reports := by simp only [Session.tell, Report.map, hview]
  events := c.gathers.nil
  next := h

theorem refuse (h : c.Abreast session other) (reason : Refusal) :
    c.Alike (session.refuse reason) (other.refuse reason) :=
  h.tell rfl

/-- Actions that run alike are reported alike. -/
theorem perform (h : c.Abreast session other) {t : ThreadId} {p q : Action Answer}
    (hpq : (session.process.run t p).Alike c.related c.shown (other.process.run t q)) :
    c.Alike (session.perform t p) (other.perform t q) := by
  obtain ⟨houtcome, hprocess, hevents⟩ := hpq
  have hobserved := c.observed hevents
  refine ⟨?_, hevents, ⟨h.left, h.right, h.seats, hprocess⟩⟩
  simp only [Session.perform, h.nameOf, Report.ofFinish, houtcome, hobserved]

/-- A call is refused in both sessions or made in both. -/
theorem makeCall (h : c.Abreast session other) {t : ThreadId} {r r' : Resolver} {call : Call}
    (hheld : (other.process.run t r'.backend.held).outcome =
      (session.process.run t r.backend.held).outcome)
    (haction : c.Alike (session.perform t (call.action session.setup.contexts r))
      (other.perform t (call.action other.setup.contexts r'))) :
    c.Alike (session.makeCall t r call) (other.makeCall t r' call) := by
  have hsame : other.heldBy t r'.backend = session.heldBy t r.backend := by
    unfold Session.heldBy
    rw [hheld]
  unfold Session.makeCall
  rw [h.namesNoContext, hsame]
  split
  · exact h.refuse _
  · split
    · exact h.refuse _
    · exact haction

/-- A change of both platforms that keeps the processes related. -/
theorem changePlatform (h : c.Abreast session other) {change : Platform.Change}
    (hchange : c.related (session.process.changePlatform change)
      (other.process.changePlatform change)) :
    c.Abreast (session.changePlatform change) (other.changePlatform change) :=
  ⟨h.left, h.right, h.seats, hchange⟩

/-! ## Steps -/

theorem spawn (h : c.Abreast session other) (name : Option String) :
    c.Abreast (session.spawn name) (other.spawn name) := by
  refine ⟨h.left, h.right, ?_, c.start name h.process⟩
  simp only [Session.spawn, Process.start, c.roster h.process, h.seats]

theorem answer (answer : Answer) : c.Agree (.ofAnswer answer) (.ofAnswer answer) :=
  ⟨rfl, c.gathers.nil⟩

variable {meets : Process → Process → Prop} {admitted : Task → Prop}

/-- The same step. -/
theorem step (h : c.Abreast session other) (hkeeps : c.Keeps meets admitted)
    (hmeets : meets session.process other.process) {s : Step} (hs : s.Plain admitted) :
    c.Agree (session.step s).1 (other.step s).1 ∧
      c.Abreast (session.step s).2 (other.step s).2 := by
  cases s with
  | act ref task =>
    simp only [Session.step, h.thread?]
    split
    · exact ⟨answer _, h⟩
    · rename_i t _
      obtain ⟨hreports, hevents, hnext⟩ := hkeeps _ _ h hmeets t task hs
      exact ⟨⟨congrArg Reply.single hreports, hevents⟩, hnext⟩
  | spawn name =>
    simp only [Session.step, h.seats]
    exact ⟨answer _, h.spawn name⟩
  | exit ref =>
    cases ref with
    | none => exact ⟨answer _, h⟩
    | some ref =>
      cases ref with
      | main => exact ⟨answer _, h⟩
      | started n =>
        simp only [Session.step, h.thread?]
        split
        · exact ⟨answer _, h⟩
        · exact ⟨answer _, h.left, h.right, by rw [h.seats], h.process⟩
  | race n task => exact hs.elim
  | raceBind n r => exact hs.elim
  | unreadable reason => exact ⟨answer _, h⟩

/-- Every step is the same where the condition is met before each. -/
theorem steps (h : c.Abreast session other) (hkeeps : c.Keeps meets admitted) {list : List Step}
    (hlist : ∀ s ∈ list, s.Plain admitted)
    (hmeets : ∀ done rest, list = done ++ rest →
      meets (session.steps done).2.process (other.steps done).2.process) :
    List.Forall₂ c.Agree (session.steps list).1 (other.steps list).1 := by
  induction list generalizing session other with
  | nil => exact .nil
  | cons s rest ih =>
    have hnow : meets session.process other.process := hmeets [] (s :: rest) rfl
    obtain ⟨hresult, hnext⟩ := h.step hkeeps hnow (hlist s List.mem_cons_self)
    refine .cons hresult (ih hnext (fun s' hs' => hlist s' (List.mem_cons_of_mem s hs')) ?_)
    rintro done others rfl
    exact hmeets (s :: done) others rfl

end Abreast

/-- The two sessions start with the same threads. -/
theorem abreast_start (c : Comparison) :
    c.Abreast (Session.start c.left) (Session.start c.right) := by
  unfold Session.start
  rw [c.threads]
  suffices hfold : ∀ (names : List (Option String)) {session other : Session},
      c.Abreast session other →
        c.Abreast (names.foldl Session.spawn session) (names.foldl Session.spawn other) from
    hfold _ ⟨rfl, rfl, rfl, c.begins⟩
  intro names
  induction names with
  | nil => exact fun h => h
  | cons name rest ih => exact fun h => ih (h.spawn name)

/-- Where every admitted task is done alike, so is every step of two whole sessions. -/
theorem run (c : Comparison) {meets : Process → Process → Prop} {admitted : Task → Prop}
    (hkeeps : c.Keeps meets admitted) {list : List Step} (hlist : ∀ s ∈ list, s.Plain admitted)
    (hmeets : ∀ done rest, list = done ++ rest →
      meets ((Session.start c.left).steps done).2.process
        ((Session.start c.right).steps done).2.process) :
    List.Forall₂ c.Agree (Session.run c.left list) (Session.run c.right list) :=
  c.abreast_start.steps hkeeps hlist hmeets

end Comparison

end Session

end ExecContext
