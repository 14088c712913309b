import ExecContext.Process.Action
import ExecContext.Process.Run

set_option autoImplicit false

/-!
# Disciplines

A discipline says which accesses a thread may make at each stage of its work, and what it may rely
on in return: the answer that it is given and the stage that it is then at. Whether a program keeps
to a discipline (`Discipline.Obeys`) is a matter of that program alone, and whether every permitted
access is answered as the discipline promises (`Discipline.Keeps`) is a matter of one access at a
time. From the two follows what holds of any number of threads under every schedule.
-/

namespace ExecContext

/-! ## Programs that only make certain requests -/

namespace Program

variable {σ : Signature} {ε α β : Type}

/-- The program never fails, and all its requests satisfy `P`. -/
def Within (P : σ.Request → Prop) : Program σ ε α → Prop
  | .done _ => True
  | .fail _ => False
  | .call request resume => P request ∧ ∀ answer, (resume answer).Within P

theorem Within.mono {P Q : σ.Request → Prop} {p : Program σ ε α} (hp : p.Within P)
    (hPQ : ∀ request, P request → Q request) : p.Within Q := by
  induction p with
  | done value => trivial
  | fail cause => exact hp.elim
  | call request resume ih => exact ⟨hPQ _ hp.1, fun answer => ih answer (hp.2 answer)⟩

theorem Within.bind {P : σ.Request → Prop} {p : Program σ ε α} {next : α → Program σ ε β}
    (hp : p.Within P) (hnext : ∀ value, (next value).Within P) : (p >>= next).Within P := by
  induction p with
  | done value => exact hnext value
  | fail cause => exact hp.elim
  | call request resume ih => exact ⟨hp.1, fun answer => ih answer (hp.2 answer)⟩

theorem Within.onFailure {P : σ.Request → Prop} {p : Program σ ε α} (hp : p.Within P)
    (cleanup : Program σ ε Unit) : (p.onFailure cleanup).Within P := by
  induction p with
  | done value => trivial
  | fail cause => exact hp.elim
  | call request resume ih => exact ⟨hp.1, fun answer => ih answer (hp.2 answer)⟩

/-- What never fails needs no cleanup. -/
theorem Within.bind_onFailure {P : σ.Request → Prop} {p : Program σ ε α} (hp : p.Within P)
    (next : α → Program σ ε β) (cleanup : Program σ ε Unit) :
    (p >>= next).onFailure cleanup = (p >>= fun value => (next value).onFailure cleanup) := by
  induction p with
  | done value => rfl
  | fail cause => exact hp.elim
  | call request resume ih =>
    exact congrArg (Program.call request) (funext fun answer => ih answer (hp.2 answer))

end Program

/-! ## Programs that obey a discipline -/

/-- What a thread at stage `φ` may do, and what it may rely on. -/
structure Discipline (Φ : Type) where
  /-- the thread may make this access -/
  permits : Φ → Access → Prop
  /-- the access may be given this answer, and leads to this stage -/
  moves : Φ → (a : Access) → a.Answer → Φ → Prop

namespace Discipline

variable {Φ α β : Type} (d : Discipline Φ)

/-- A program obeys the discipline from stage `φ` on, and ends as `post` says. -/
def Obeys (post : Φ → Except Cause α → Prop) : Action α → Φ → Prop
  | .done value, φ => post φ (.ok value)
  | .fail cause, φ => post φ (.error cause)
  | .call access resume, φ =>
    d.permits φ access ∧
      ∀ answer φ', d.moves φ access answer φ' → Obeys post (resume answer) φ'

variable {d} {φ : Φ}

theorem Obeys.mono {post post' : Φ → Except Cause α → Prop} {p : Action α}
    (h : d.Obeys post p φ) (hpost : ∀ φ' result, post φ' result → post' φ' result) :
    d.Obeys post' p φ := by
  induction p generalizing φ with
  | done value => exact hpost _ _ h
  | fail cause => exact hpost _ _ h
  | call access resume ih =>
    exact ⟨h.1, fun answer φ' hmove => ih answer (h.2 answer φ' hmove)⟩

/-- A sequence obeys if its second part does from wherever the first one returns. -/
theorem Obeys.bind {post : Φ → Except Cause β → Prop} {p : Action α} {next : α → Action β}
    (h : d.Obeys (fun φ' result =>
      match result with
      | .ok value => d.Obeys post (next value) φ'
      | .error cause => post φ' (.error cause)) p φ) :
    d.Obeys post (p >>= next) φ := by
  induction p generalizing φ with
  | done value => exact h
  | fail cause => exact h
  | call access resume ih =>
    exact ⟨h.1, fun answer φ' hmove => ih answer (h.2 answer φ' hmove)⟩

/-- A cleanup obeys from wherever the program fails. -/
theorem Obeys.onFailure {post : Φ → Except Cause α → Prop} {p : Action α}
    {cleanup : Action Unit}
    (h : d.Obeys (fun φ' result =>
      match result with
      | .ok value => post φ' (.ok value)
      | .error cause =>
        d.Obeys post (cleanup >>= fun _ => .fail cause) φ') p φ) :
    d.Obeys post (p.onFailure cleanup) φ := by
  induction p generalizing φ with
  | done value => exact h
  | fail cause => exact h
  | call access resume ih =>
    exact ⟨h.1, fun answer φ' hmove => ih answer (h.2 answer φ' hmove)⟩

/-- A program that never fails returns, whatever else it promises. -/
theorem Obeys.returns {P : Access → Prop} {post : Φ → Except Cause α → Prop} {p : Action α}
    (h : d.Obeys post p φ) (hp : p.Within P) :
    d.Obeys (fun φ' result => post φ' result ∧ ∃ value, result = .ok value) p φ := by
  induction p generalizing φ with
  | done value => exact ⟨h, value, rfl⟩
  | fail cause => exact hp.elim
  | call access resume ih =>
    exact ⟨h.1, fun answer φ' hmove => ih answer (h.2 answer φ' hmove) (hp.2 answer)⟩

/-- A program whose accesses are permitted and lead nowhere else returns at the stage at which it
began. -/
theorem Obeys.of_within {p : Action α} (hp : p.Within fun a =>
      d.permits φ a ∧ ∀ answer φ', d.moves φ a answer φ' → φ' = φ) :
    d.Obeys (fun φ' result => φ' = φ ∧ ∃ value, result = .ok value) p φ := by
  induction p with
  | done value => exact ⟨rfl, value, rfl⟩
  | fail cause => exact hp.elim
  | call access resume ih =>
    refine ⟨hp.1.1, fun answer φ' hmove => ?_⟩
    rw [hp.1.2 answer φ' hmove]
    exact ih answer (hp.2 answer)

/-! ## Two disciplines at once -/

section Both

variable {Ψ : Type} {ψ : Ψ}

/-- What both disciplines permit, and all that either promises. -/
def both (d : Discipline Φ) (d' : Discipline Ψ) : Discipline (Φ × Ψ) where
  permits φ a := d.permits φ.1 a ∧ d'.permits φ.2 a
  moves φ a answer φ' := d.moves φ.1 a answer φ'.1 ∧ d'.moves φ.2 a answer φ'.2

theorem Obeys.both {d' : Discipline Ψ} {post : Φ → Except Cause α → Prop}
    {post' : Ψ → Except Cause α → Prop} {p : Action α} (h : d.Obeys post p φ)
    (h' : d'.Obeys post' p ψ) :
    (d.both d').Obeys (fun φ' result => post φ'.1 result ∧ post' φ'.2 result) p (φ, ψ) := by
  induction p generalizing φ ψ with
  | done value => exact ⟨h, h'⟩
  | fail cause => exact ⟨h, h'⟩
  | call access resume ih =>
    exact ⟨⟨h.1, h'.1⟩, fun answer φ' hmove =>
      ih answer (h.2 answer φ'.1 hmove.1) (h'.2 answer φ'.2 hmove.2)⟩

end Both

/-! ## The stages of all threads -/

/-- The stages after one thread's is replaced. -/
def setStage (stages : ThreadId → Φ) (t : ThreadId) (φ : Φ) : ThreadId → Φ :=
  fun u => if u = t then φ else stages u

@[simp] theorem setStage_same (stages : ThreadId → Φ) (t : ThreadId) (φ : Φ) :
    setStage stages t φ t = φ := by
  simp [setStage]

theorem setStage_other (stages : ThreadId → Φ) {t u : ThreadId} (φ : Φ) (h : u ≠ t) :
    setStage stages t φ u = stages u := by
  simp [setStage, h]

/-- What is true of the new stage and of the stages of the others is true of all. -/
theorem forall_setStage {P : ThreadId → Φ → Prop} {stages : ThreadId → Φ} {t : ThreadId} {φ : Φ}
    (hown : P t φ) (hothers : ∀ u, u ≠ t → P u (stages u)) (u : ThreadId) :
    P u (setStage stages t φ u) := by
  by_cases hu : u = t
  · subst hu
    rw [setStage_same]
    exact hown
  · rw [setStage_other stages φ hu]
    exact hothers u hu

/-- A part of the new stage replaces that part of the old one. -/
theorem map_setStage {Ψ : Type} (f : Φ → Ψ) (stages : ThreadId → Φ) (t : ThreadId) (φ : Φ) :
    (fun u => f (setStage stages t φ u)) = setStage (fun u => f (stages u)) t (f φ) := by
  funext u
  unfold setStage
  split <;> rfl

theorem setStage_self (stages : ThreadId → Φ) (t : ThreadId) :
    setStage stages t (stages t) = stages :=
  funext (forall_setStage (P := fun u φ => φ = stages u) rfl fun _ _ => rfl)

variable (d) in
/-- Every permitted access is answered as promised, and keeps a relation between the process and the
stages of its threads. -/
structure Keeps (inv : Process → (ThreadId → Φ) → Prop) : Prop where
  access : ∀ {s : Process} {stages : ThreadId → Φ} {t : ThreadId} {a : Access}
    {effect : Effect a.Answer}, inv s stages → d.permits (stages t) a →
    s.perform t a = some effect →
    ∃ φ, d.moves (stages t) a effect.answer φ ∧ inv effect.process (setStage stages t φ)
  platform : ∀ {s : Process} {stages : ThreadId → Φ} (c : Platform.Change), inv s stages →
    inv (s.changePlatform c) stages

end Discipline

end ExecContext
