import ExecContext.Process.Access

set_option autoImplicit false

/-!
# Running an action

An action goes on by one access at a time (`NextAccess`), so other threads may run between any two
of them. Run alone, it goes on from start to end while no other thread does. Running a sequence is
running its parts one after another (`runFrom_bind`), and what was seen before an action started
does not change what it does (`runFrom_eq`).
-/

namespace ExecContext

/-! ## One access -/

/-- In process `s`, thread `t` makes the next access of an action: the effect of the access, and
what then remains to be run. -/
def NextAccess {α : Type} (s : Process) (t : ThreadId) (action : Action α) {a : Access}
    (effect : Effect a.Answer) (rest : Action α) : Prop :=
  ∃ resume, action = .call a resume ∧ s.perform t a = some effect ∧ rest = resume effect.answer

theorem NextAccess.made {α : Type} {s : Process} {t : ThreadId} {a : Access}
    {resume : a.Answer → Action α} {effect : Effect a.Answer}
    (heffect : s.perform t a = some effect) :
    NextAccess s t (.call a resume) effect (resume effect.answer) :=
  ⟨resume, rfl, heffect, rfl⟩

/-! ## Running alone -/

/-- How an action ended. -/
inductive Outcome (α : Type) where
  /-- it returned -/
  | returned (value : α)
  /-- it failed -/
  | failed (cause : Cause)
  /-- it waits for another thread -/
  | blocked
  deriving DecidableEq, Repr, Inhabited

/-- The end of a run: how the action ended, what it left, and what was seen of it. -/
structure Finish (α : Type) where
  outcome : Outcome α
  process : Process
  events : List Event

namespace Finish

variable {α β : Type}

/-- The action returned. -/
def hasReturned (f : Finish α) : Bool :=
  match f.outcome with
  | .returned _ => true
  | _ => false

/-- Goes on after an action that returned. -/
def andThen (f : Finish α) (next : α → Process → List Event → Finish β) : Finish β :=
  match f.outcome with
  | .returned value => next value f.process f.events
  | .failed cause => ⟨.failed cause, f.process, f.events⟩
  | .blocked => ⟨.blocked, f.process, f.events⟩

/-- The same end after something else was seen first. -/
def after (seen : List Event) (f : Finish α) : Finish α :=
  { f with events := seen ++ f.events }

end Finish

namespace Process

variable {α β : Type}

/-- Runs an action of thread `t`; `seen` is what was seen before it. -/
def runFrom (t : ThreadId) : Action α → Process → List Event → Finish α
  | .done value, s, seen => ⟨.returned value, s, seen⟩
  | .fail cause, s, seen => ⟨.failed cause, s, seen⟩
  | .call access resume, s, seen =>
    match s.perform t access with
    | none => ⟨.blocked, s, seen⟩
    | some effect => runFrom t (resume effect.answer) effect.process (seen ++ effect.events)

/-- Runs an action of thread `t`. -/
def run (s : Process) (t : ThreadId) (action : Action α) : Finish α :=
  runFrom t action s []

/-! ## Laws -/

theorem runFrom_bind (t : ThreadId) (p : Action α) (next : α → Action β) (s : Process)
    (seen : List Event) :
    runFrom t (p >>= next) s seen =
      (runFrom t p s seen).andThen fun value => runFrom t (next value) := by
  induction p generalizing s seen with
  | done value => rfl
  | fail cause => rfl
  | call access resume ih =>
    simp only [Program.call_bind, runFrom]
    cases s.perform t access with
    | none => rfl
    | some effect => exact ih effect.answer effect.process (seen ++ effect.events)

theorem runFrom_eq (t : ThreadId) (p : Action α) (s : Process) (seen : List Event) :
    runFrom t p s seen = (s.run t p).after seen := by
  suffices h : ∀ first more : List Event,
      runFrom t p s (first ++ more) = (runFrom t p s more).after first by
    simpa [run] using h seen []
  induction p generalizing s with
  | done value => intro first more; rfl
  | fail cause => intro first more; rfl
  | call access resume ih =>
    intro first more
    simp only [runFrom]
    cases s.perform t access with
    | none => rfl
    | some effect =>
      simpa [List.append_assoc] using
        ih effect.answer effect.process first (more ++ effect.events)

end Process

end ExecContext
