import ExecContext.Proofs.Process.Alone
import ExecContext.Proofs.Process.Paths
import ExecContext.Resolver.Serve

set_option autoImplicit false

/-!
# Two actions side by side

An action is compared with another one, each run alone in its own process. Where the two processes
are related before, the actions are to end in the same way, to leave related processes behind and to
show related events. There is one rule for each way of building an action, so a comparison is
carried over from single accesses to whole uses of a process.
-/

namespace ExecContext

variable {α β : Type} {R : Process → Process → Prop} {E : List Event → List Event → Prop}
  {t : ThreadId}

/-! ## Runs that end alike -/

/-- Related events may be shown one after another. -/
structure Gathers (E : List Event → List Event → Prop) : Prop where
  nil : E [] []
  append : ∀ {first first' rest rest'}, E first first' → E rest rest' →
    E (first ++ rest) (first' ++ rest')

/-- Two runs ended in the same way, left related processes and showed related events. -/
structure Finish.Alike (R : Process → Process → Prop) (E : List Event → List Event → Prop)
    (f g : Finish α) : Prop where
  outcome : g.outcome = f.outcome
  process : R f.process g.process
  events : E f.events g.events

theorem Finish.Alike.after {f g : Finish α} (hE : Gathers E) (h : f.Alike R E g)
    {seen seen' : List Event} (hseen : E seen seen') : (f.after seen).Alike R E (g.after seen') :=
  ⟨h.outcome, h.process, hE.append hseen h.events⟩

namespace Process

theorem run_bind (s : Process) (t : ThreadId) (p : Action α) (next : α → Action β) :
    s.run t (p >>= next) =
      match (s.run t p).outcome with
      | .returned value =>
        ((s.run t p).process.run t (next value)).after (s.run t p).events
      | .failed cause => ⟨.failed cause, (s.run t p).process, (s.run t p).events⟩
      | .blocked => ⟨.blocked, (s.run t p).process, (s.run t p).events⟩ := by
  unfold run
  rw [runFrom_bind, Finish.andThen]
  cases (runFrom t p s []).outcome with
  | returned value => exact runFrom_eq t (next value) _ _
  | failed cause => rfl
  | blocked => rfl

theorem run_onFailure (s : Process) (t : ThreadId) (p : Action α) (cleanup : Action Unit) :
    s.run t (p.onFailure cleanup) =
      match (s.run t p).outcome with
      | .failed cause =>
        ((s.run t p).process.run t (cleanup >>= fun _ => .fail cause)).after (s.run t p).events
      | _ => s.run t p := by
  unfold run
  rw [runFrom_onFailure]
  cases (runFrom t p s []).outcome with
  | returned value => rfl
  | failed cause => exact runFrom_eq t _ _ _
  | blocked => rfl

end Process

/-! ## Actions that run alike -/

/-- Run by thread `t` in related processes, the two actions end alike. -/
def SideBySide (R : Process → Process → Prop) (E : List Event → List Event → Prop) (t : ThreadId)
    (p q : Action α) : Prop :=
  ∀ s s', R s s' → (s.run t p).Alike R E (s'.run t q)

/-- In related processes the access is made in both, or has to wait in both. If it is made it is
given the same answer, leaves related processes and shows related events. -/
def Access.Shared (R : Process → Process → Prop) (E : List Event → List Event → Prop) (t : ThreadId)
    (a : Access) : Prop :=
  ∀ s s', R s s' →
    (s.perform t a = none ∧ s'.perform t a = none) ∨
      ∃ answer s₁ s₁' events events', s.perform t a = some ⟨answer, s₁, events⟩ ∧
        s'.perform t a = some ⟨answer, s₁', events'⟩ ∧ R s₁ s₁' ∧ E events events'

namespace SideBySide

variable (hE : Gathers E)
include hE

theorem done (value : α) : SideBySide R E t (.done value) (.done value) :=
  fun _ _ h => ⟨rfl, h, hE.nil⟩

theorem fail (cause : Cause) : SideBySide R E t (.fail cause : Action α) (.fail cause) :=
  fun _ _ h => ⟨rfl, h, hE.nil⟩

/-- Related parts make related sequences. -/
theorem bind {p q : Action α} {next next' : α → Action β} (hp : SideBySide R E t p q)
    (hnext : ∀ value, SideBySide R E t (next value) (next' value)) :
    SideBySide R E t (p >>= next) (q >>= next') := by
  intro s s' h
  obtain ⟨houtcome, hprocess, hevents⟩ := hp s s' h
  rw [s.run_bind, s'.run_bind, houtcome]
  cases (s.run t p).outcome with
  | returned value => exact (hnext value _ _ hprocess).after hE hevents
  | failed cause => exact ⟨rfl, hprocess, hevents⟩
  | blocked => exact ⟨rfl, hprocess, hevents⟩

/-- The same access, then related actions. -/
theorem call {a : Access} {resume resume' : a.Answer → Action α} (ha : a.Shared R E t)
    (hresume : ∀ answer, SideBySide R E t (resume answer) (resume' answer)) :
    SideBySide R E t (.call a resume) (.call a resume') := by
  intro s s' h
  rw [Process.run_call, Process.run_call]
  rcases ha s s' h with ⟨hs, hs'⟩ | ⟨answer, s₁, s₁', events, events', hs, hs', hR, hevents⟩
  · rw [hs, hs']
    exact ⟨rfl, h, hE.nil⟩
  · rw [hs, hs']
    exact (hresume answer s₁ s₁' hR).after hE hevents

theorem onFailure {p q : Action α} {cleanup cleanup' : Action Unit} (hp : SideBySide R E t p q)
    (hclean : SideBySide R E t cleanup cleanup') :
    SideBySide R E t (p.onFailure cleanup) (q.onFailure cleanup') := by
  intro s s' h
  have hboth := hp s s' h
  rw [s.run_onFailure, s'.run_onFailure, hboth.outcome]
  cases hcase : (s.run t p).outcome with
  | returned value => exact hboth
  | blocked => exact hboth
  | failed cause =>
    exact (bind hE hclean (fun _ => fail hE cause) _ _ hboth.process).after hE hboth.events

/-- An operation whose requests are served alike is carried out alike. -/
theorem perform {P : Resolver.Query → Prop} {r r' : Resolver}
    (hanswer : ∀ q, P q → SideBySide R E t (r.answer q) (r'.answer q))
    {operation : Resolver.Operation α} (h : operation.Only P) :
    SideBySide R E t (r.perform operation) (r'.perform operation) := by
  induction operation with
  | done value => exact done hE value
  | fail cause => exact fail hE cause
  | call q resume ih => exact bind hE (hanswer q h.1) fun answer => ih answer (h.2 answer)

end SideBySide

end ExecContext
