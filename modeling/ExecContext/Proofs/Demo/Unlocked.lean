import ExecContext.Proofs.Demo.ThreadState
import ExecContext.Proofs.Interleaving.Tidy
import ExecContext.Proofs.Process.Silent

set_option autoImplicit false

/-!
# Workers print without locks

A worker takes locks in their order and gives all of them back, and it prints its lines and touches
its scheduler and its counters while it holds none (`frees_worker`).
-/

namespace ExecContext.Demo.Workers

/-! ## Printing without locks -/

/-- The access prints no line. -/
def Mute (a : Access) : Prop := a.lines = []

/-- The rules of the locks, by which moreover no line is printed under a lock. -/
def openRules : Discipline LockState where
  permits φ a := (rules (.service .load)).permits φ a ∧ (Mute a ∨ φ.holds = [])
  moves := (rules (.service .load)).moves

/-- A thread that begins this without a lock ends it without one. -/
def Frees {α : Type} (p : Action α) : Prop :=
  ∀ φ, φ.holds = [] → openRules.Obeys (fun φ' _ => φ'.holds = []) p φ

section Frees

variable {α β : Type} {build : Build} {w : Nat}

theorem obeys_open {post : LockState → Except Cause α → Prop} {p : Action α} {φ : LockState}
    (hp : p.Only Mute) (h : (rules (.service .load)).Obeys post p φ) :
    openRules.Obeys post p φ := by
  induction p generalizing φ with
  | done value => exact h
  | fail cause => exact h
  | call a resume ih =>
    exact ⟨⟨h.1, Or.inl hp.1⟩, fun answer φ' hmove =>
      ih answer (hp.2 answer) (h.2 answer φ' hmove)⟩

/-- What is tidy frees all its locks. -/
theorem frees_of_tidy {p : Action α} (hp : p.Only Mute)
    (h : ∀ φ, φ.Under 0 → Tidy (.service .load) Anywhere p φ) : Frees p := by
  intro φ hφ
  have hunder : φ.Under 0 := by simp [LockState.Under, LockState.locks, hφ]
  have hfollows : Follows φ.holds p := by
    rw [hφ]
    intro c made hmem
    cases hmem
  refine (obeys_open hp (h φ hunder hfollows)).mono ?_
  rintro φ' result ⟨⟨made, -, hholds⟩, -, -⟩
  rw [hholds, LockState.extend, hφ]
  rfl

theorem Frees.done (value : α) : Frees (.done value) := fun _ h => h

theorem Frees.bind {p : Action α} {next : α → Action β} (hp : Frees p)
    (hnext : ∀ value, Frees (next value)) : Frees (p >>= next) := by
  intro φ h
  refine .bind ((hp φ h).mono ?_)
  rintro φ' (cause | value) hφ'
  · exact hφ'
  · exact hnext value φ' hφ'

/-- An access that concerns no lock, made without one. -/
theorem Frees.call {a : Access} {resume : a.Answer → Action α}
    (hallowed : ∀ φ, Allowed (.service .load) φ a) (htakes : ∀ answer, a.takes? answer = none)
    (hleaves : a.leaves? = none) (h : ∀ answer, Frees (resume answer)) :
    Frees (.call a resume) := by
  intro φ hφ
  have hpath : OnPath φ.holds := by
    rw [hφ]
    intro c made hmem
    cases hmem
  refine ⟨⟨⟨hallowed φ, hpath⟩, Or.inr hφ⟩, fun answer φ' hmove => h answer φ' ?_⟩
  obtain rfl := hmove
  simp [LockState.record, htakes, hleaves, LockState.extend, hφ]

/-! ## The parts of a worker -/

theorem Silent.mute {a : Access} (h : a.Silent) : Mute a := by
  cases a with
  | print line => exact h.elim
  | _ => rfl

theorem mute_perform (operation : Resolver.Operation α) :
    ((resolver build).perform operation).Only Mute := by
  have hbackend : (resolver build).backend ≠ .spy := by
    unfold resolver Build.platform
    split <;> simp
  have hany : operation.Only fun _ => True := by
    induction operation with
    | done value => trivial
    | fail cause => trivial
    | call q resume ih => exact ⟨trivial, ih⟩
  refine hany.serve fun q _ => ?_
  cases q with
  | ownsThread => exact ⟨rfl, fun _ => ⟨rfl, fun _ => trivial⟩⟩
  | runningFiber => exact ⟨rfl, fun _ => ⟨rfl, fun _ => trivial⟩⟩
  | contextOf f => exact ⟨rfl, fun _ => trivial⟩
  | held => exact (silent_held hbackend).mono fun _ => Silent.mute
  | hold p => exact (silent_hold hbackend p).mono fun _ => Silent.mute
  | announce address => exact (silent_write _ _).mono fun _ => Silent.mute

theorem frees_perform (operation : Resolver.Operation α) :
    Frees ((resolver build).perform operation) :=
  frees_of_tidy (mute_perform operation) fun _ h => tidy_perform h _ operation

theorem frees_write (level : Log.Level) (message : Log.Message) :
    Frees (Log.write level message) :=
  frees_of_tidy ((silent_write level message).mono fun _ => Silent.mute) fun _ h =>
    tidy_write (h.mono (by decide)) level message

theorem frees_callEngine (label : String) : Frees (callEngine (resolver build) label) := by
  have hcount : Frees ((resolver build).countCalls 1) := by
    refine (frees_perform _).bind fun address => ?_
    cases address with
    | context c =>
      exact .call (fun _ => trivial) (fun _ => rfl) rfl fun _ => .done _
    | foreign word => exact .done _
  exact hcount.bind fun _ => .call (fun _ => trivial) (fun _ => rfl) rfl fun _ =>
    .call (fun _ => trivial) (fun _ => rfl) rfl .done

theorem frees_setActivity (a : Activity) :
    Frees (.call (Access.setActivity (resolver build).scheduler a) .done) :=
  .call (fun _ => trivial) (fun _ => rfl) rfl .done

theorem frees_runFibers (f count : Nat) : Frees (runFibers (resolver build) w f count) := by
  induction count generalizing f with
  | zero => exact .done ()
  | succ count ih =>
    have hfiber : Frees (runFiber (resolver build) w f) :=
      (frees_setActivity _).bind fun _ => (frees_callEngine _).bind fun _ =>
        (frees_callEngine _).bind fun _ => frees_setActivity _
    exact hfiber.bind fun _ => ih (f + 1)

theorem frees_worker : Frees (worker (resolver build) w) :=
  (frees_perform _).bind fun _ => (frees_write _ _).bind fun _ =>
    (frees_callEngine _).bind fun _ => (frees_runFibers 0 fiberCount).bind fun _ =>
      (frees_callEngine _).bind fun _ => .call (fun _ => trivial) (fun _ => rfl) rfl .done

end Frees

end ExecContext.Demo.Workers
