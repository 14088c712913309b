set_option autoImplicit false

/-!
# Programs

A program is a tree of requests: it is done with a value, it fails with a cause, or it makes one
request and goes on with the answer. What a request does is not a part of the program. The same
program can therefore be run alone, be interleaved with others one request at a time, have its
requests recorded, or be served by a program over another signature.
-/

namespace ExecContext

/-- The requests that a program may make, with the type of each one's answer. -/
structure Signature where
  Request : Type
  Answer : Request → Type

/-- A program over the requests of `σ`, with failures in `ε` and results in `α`. -/
inductive Program (σ : Signature) (ε α : Type) where
  /-- the program returned -/
  | done (value : α)
  /-- the program failed -/
  | fail (cause : ε)
  /-- the program makes a request and resumes with its answer -/
  | call (request : σ.Request) (resume : σ.Answer request → Program σ ε α)

namespace Program

variable {σ τ : Signature} {ε α β γ : Type}

/-! ## Sequencing -/

/-- The first program, then the one that its result selects. -/
def bind (p : Program σ ε α) (next : α → Program σ ε β) : Program σ ε β :=
  match p with
  | .done value => next value
  | .fail cause => .fail cause
  | .call request resume => .call request fun answer => (resume answer).bind next

instance : Monad (Program σ ε) where
  pure := .done
  bind := bind

@[simp] theorem pure_eq_done (value : α) : (pure value : Program σ ε α) = .done value := rfl

@[simp] theorem done_bind (value : α) (next : α → Program σ ε β) :
    (Program.done value >>= next) = next value := rfl

@[simp] theorem fail_bind (cause : ε) (next : α → Program σ ε β) :
    (Program.fail cause >>= next) = .fail cause := rfl

@[simp] theorem call_bind (request : σ.Request) (resume : σ.Answer request → Program σ ε α)
    (next : α → Program σ ε β) :
    (Program.call request resume >>= next) = .call request fun answer => resume answer >>= next :=
  rfl

theorem bind_done (p : Program σ ε α) : (p >>= Program.done) = p := by
  induction p with
  | done value => rfl
  | fail cause => rfl
  | call request resume ih => rw [call_bind]; congr 1; funext answer; exact ih answer

theorem bind_bind (p : Program σ ε α) (f : α → Program σ ε β) (g : β → Program σ ε γ) :
    ((p >>= f) >>= g) = (p >>= fun value => f value >>= g) := by
  induction p with
  | done value => rfl
  | fail cause => rfl
  | call request resume ih =>
    simp only [call_bind]; congr 1; funext answer; exact ih answer

/-! ## Failures -/

/-- A program that cleans up before it fails: `cleanup` runs between the failure and its report. -/
def onFailure (p : Program σ ε α) (cleanup : Program σ ε Unit) : Program σ ε α :=
  match p with
  | .done value => .done value
  | .fail cause => cleanup >>= fun _ => .fail cause
  | .call request resume => .call request fun answer => (resume answer).onFailure cleanup

/-! ## Serving requests -/

/-- The program with every request served by a program over another signature. -/
def serve (handler : (request : σ.Request) → Program τ ε (σ.Answer request)) :
    Program σ ε α → Program τ ε α
  | .done value => .done value
  | .fail cause => .fail cause
  | .call request resume => handler request >>= fun answer => (resume answer).serve handler

theorem serve_bind (handler : (request : σ.Request) → Program τ ε (σ.Answer request))
    (p : Program σ ε α) (next : α → Program σ ε β) :
    (p >>= next).serve handler = (p.serve handler >>= fun value => (next value).serve handler) := by
  induction p with
  | done value => rfl
  | fail cause => rfl
  | call request resume ih =>
    simp only [call_bind, serve, bind_bind]; congr 1; funext answer; exact ih answer

/-- The result of a program whose requests have fixed answers, with the requests in order. -/
def answered (answer : (request : σ.Request) → σ.Answer request) :
    Program σ ε α → Except ε α × List σ.Request
  | .done value => (.ok value, [])
  | .fail cause => (.error cause, [])
  | .call request resume =>
    let rest := (resume (answer request)).answered answer
    (rest.1, request :: rest.2)

end Program

end ExecContext
