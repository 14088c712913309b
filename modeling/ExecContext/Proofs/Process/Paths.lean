import ExecContext.Proofs.Interleaving.Discipline

set_option autoImplicit false

/-!
# What a program has done so far

A path of a program is the list of the requests that it makes one after another, each with its
answer, up to some point, with what then remains to be run. What a thread does under a schedule is a
path of its program, whatever the others do in between.
-/

namespace ExecContext

/-- A request with the answer that was given to it. -/
structure Signature.Exchange (σ : Signature) where
  request : σ.Request
  answer : σ.Answer request

namespace Program

variable {σ : Signature} {ε α β : Type}

/-- The program makes these requests, is given these answers, and then remains to be run as
`rest`. -/
def Path (p : Program σ ε α) : List σ.Exchange → Program σ ε α → Prop
  | [], rest => rest = p
  | e :: more, rest => ∃ resume, p = .call e.request resume ∧ (resume e.answer).Path more rest

/-- How a program ended, if it did. -/
def result? : Program σ ε α → Option (Except ε α)
  | .done value => some (.ok value)
  | .fail cause => some (.error cause)
  | .call .. => none

/-- A program that has ended so. -/
def ended : Except ε α → Program σ ε α
  | .ok value => .done value
  | .error cause => .fail cause

theorem result?_eq_some {p : Program σ ε α} {result : Except ε α} :
    p.result? = some result ↔ p = ended result := by
  cases p <;> cases result <;> simp [result?, ended]

variable {p q rest : Program σ ε α} {first more : List σ.Exchange}

theorem path_append :
    p.Path (first ++ more) rest ↔ ∃ q, p.Path first q ∧ q.Path more rest := by
  induction first generalizing p with
  | nil => simp [Path]
  | cons e others ih =>
    constructor
    · rintro ⟨resume, rfl, hrest⟩
      obtain ⟨q, hothers, hmore⟩ := ih.mp hrest
      exact ⟨q, ⟨resume, rfl, hothers⟩, hmore⟩
    · rintro ⟨q, ⟨resume, rfl, hothers⟩, hmore⟩
      exact ⟨resume, rfl, ih.mpr ⟨q, hothers, hmore⟩⟩

/-- One more request. -/
theorem Path.concat {request : σ.Request} {resume : σ.Answer request → Program σ ε α}
    (h : p.Path first (.call request resume)) (answer : σ.Answer request) :
    p.Path (first ++ [⟨request, answer⟩]) (resume answer) :=
  path_append.mpr ⟨_, h, resume, rfl, rfl⟩

theorem path_done {value : α} : (done value : Program σ ε α).Path first rest ↔
    first = [] ∧ rest = .done value := by
  cases first with
  | nil => simp [Path]
  | cons e others => simp [Path]

theorem path_fail {cause : ε} : (fail cause : Program σ ε α).Path first rest ↔
    first = [] ∧ rest = .fail cause := by
  cases first with
  | nil => simp [Path]
  | cons e others => simp [Path]

/-- What has ended makes no requests. -/
theorem path_ended {own result : Except ε α} :
    (ended own : Program σ ε α).Path first (ended result) ↔ first = [] ∧ result = own := by
  cases own <;> cases result <;> simp [ended, path_done, path_fail]

/-- A program with a request to make has made none, or that one first. -/
theorem path_call {request : σ.Request} {resume : σ.Answer request → Program σ ε α} :
    (call request resume).Path first rest ↔
      (first = [] ∧ rest = .call request resume) ∨
        ∃ answer others, first = ⟨request, answer⟩ :: others ∧
          (resume answer).Path others rest := by
  cases first with
  | nil => simp [Path]
  | cons e others =>
    constructor
    · rintro ⟨resume', hcall, hrest⟩
      obtain ⟨request', answer⟩ := e
      cases hcall
      exact Or.inr ⟨answer, others, rfl, hrest⟩
    · rintro (⟨hnil, -⟩ | ⟨answer, others', heq, hrest⟩)
      · cases hnil
      · cases heq
        exact ⟨resume, rfl, hrest⟩

/-- A program that has ended has made its first request. -/
theorem path_call_ended {request : σ.Request} {resume : σ.Answer request → Program σ ε α}
    {result : Except ε α} :
    (call request resume).Path first (ended result) ↔
      ∃ answer others, first = ⟨request, answer⟩ :: others ∧
        (resume answer).Path others (ended result) := by
  rw [path_call]
  cases result <;> simp [ended]

/-- A program of two requests makes both, and ends with what their answers give. -/
theorem path_two_ended {request next : σ.Request} {value : σ.Answer request → σ.Answer next → α}
    {result : Except ε α} :
    (call request fun x => .call next fun y => .done (value x y)).Path first (ended result) ↔
      ∃ x y, first = [⟨request, x⟩, ⟨next, y⟩] ∧ result = .ok (value x y) := by
  constructor
  · intro h
    obtain ⟨x, others, rfl, hothers⟩ := path_call_ended.mp h
    obtain ⟨y, last, rfl, hlast⟩ := path_call_ended.mp hothers
    obtain ⟨rfl, hresult⟩ := path_done.mp hlast
    refine ⟨x, y, rfl, ?_⟩
    cases result <;> cases hresult
    rfl
  · rintro ⟨x, y, rfl, rfl⟩
    exact ⟨_, rfl, _, rfl, rfl⟩

/-- A program that never fails does not come to fail. -/
theorem Path.within {P : σ.Request → Prop} (h : p.Path first rest) (hp : p.Within P) :
    rest.Within P := by
  induction first generalizing p with
  | nil =>
    obtain rfl := h
    exact hp
  | cons e others ih =>
    obtain ⟨resume, rfl, hrest⟩ := h
    exact ih hrest (hp.2 e.answer)

/-- A sequence is in its first part, or that part returned. -/
theorem Path.of_bind {p : Program σ ε α} {next : α → Program σ ε β} {rest : Program σ ε β}
    (h : (p >>= next).Path first rest) :
    (∃ q, p.Path first q ∧ rest = (q >>= next)) ∨
    ∃ own others value, first = own ++ others ∧ p.Path own (.done value) ∧
      (next value).Path others rest := by
  induction p generalizing first with
  | done value => exact Or.inr ⟨[], first, value, rfl, rfl, h⟩
  | fail cause =>
    cases first with
    | nil => exact Or.inl ⟨_, rfl, h⟩
    | cons e others =>
      obtain ⟨resume, hcall, -⟩ := h
      cases hcall
  | call request resume ih =>
    cases first with
    | nil => exact Or.inl ⟨_, rfl, h⟩
    | cons e others =>
      obtain ⟨resume', hcall, hrest⟩ := h
      obtain ⟨request', answer⟩ := e
      cases hcall
      rcases ih answer hrest with ⟨q, hq, rfl⟩ | ⟨own, more, value, rfl, hown, hmore⟩
      · exact Or.inl ⟨q, ⟨resume, rfl, hq⟩, rfl⟩
      · exact Or.inr ⟨⟨_, answer⟩ :: own, more, value, rfl, ⟨resume, rfl, hown⟩, hmore⟩

/-! ## Programs inside others -/

/-- A place for a program inside another one, which goes on as soon as the inner one does. -/
structure Place (σ : Signature) (ε α β : Type) where
  fill : Program σ ε α → Program σ ε β
  fill_call : ∀ (request : σ.Request) (resume : σ.Answer request → Program σ ε α),
    fill (.call request resume) = .call request fun answer => fill (resume answer)

namespace Place

/-- The program itself. -/
def here : Place σ ε α α := ⟨id, fun _ _ => rfl⟩

/-- The first part of a sequence. -/
def before {γ : Type} (outer : Place σ ε β γ) (next : α → Program σ ε β) : Place σ ε α γ :=
  ⟨fun p => outer.fill (p >>= next), fun request _ => outer.fill_call request _⟩

/-- What a cleanup is provided for. -/
def guarded {γ : Type} (outer : Place σ ε α γ) (cleanup : Program σ ε Unit) : Place σ ε α γ :=
  ⟨fun p => outer.fill (p.onFailure cleanup), fun request _ => outer.fill_call request _⟩

theorem path {q r : Program σ ε α} (place : Place σ ε α β) (h : q.Path first r) :
    (place.fill q).Path first (place.fill r) := by
  induction first generalizing q with
  | nil =>
    obtain rfl := h
    rfl
  | cons e others ih =>
    obtain ⟨resume, rfl, hrest⟩ := h
    exact ⟨_, place.fill_call _ _, ih hrest⟩

end Place

/-! ## Sequences and cleanups -/

/-- The path of the first part of a sequence is one of the sequence. -/
theorem Path.bind {p rest : Program σ ε α} (h : p.Path first rest) (next : α → Program σ ε β) :
    (p >>= next).Path first (rest >>= next) :=
  (Place.here.before next).path h

/-- A cleanup changes the path only after a failure. -/
theorem Path.onFailure {p rest : Program σ ε α} (h : p.Path first rest)
    (cleanup : Program σ ε Unit) : (p.onFailure cleanup).Path first (rest.onFailure cleanup) :=
  (Place.here.guarded cleanup).path h

/-- A sequence that has ended failed in its first part, or ended in its second one. -/
theorem path_bind_ended {p : Program σ ε α} {next : α → Program σ ε β} {result : Except ε β} :
    (p >>= next).Path first (ended result) ↔
      (∃ cause, p.Path first (ended (.error cause)) ∧ result = .error cause) ∨
      ∃ own others value, first = own ++ others ∧ p.Path own (ended (.ok value)) ∧
        (next value).Path others (ended result) := by
  constructor
  · intro h
    rcases h.of_bind with ⟨q, hq, heq⟩ | hnext
    · cases q with
      | done value => exact Or.inr ⟨first, [], value, by simp, hq, heq⟩
      | fail cause =>
        cases result <;> cases heq
        exact Or.inl ⟨cause, hq, rfl⟩
      | call request resume => cases result <;> cases heq
    · exact Or.inr hnext
  · rintro (⟨cause, hp, rfl⟩ | ⟨own, others, value, rfl, hown, hothers⟩)
    · exact hp.bind next
    · exact path_append.mpr ⟨next value, hown.bind next, hothers⟩

/-- A program whose value is only changed ends where the program does. -/
theorem path_map_ended {p : Program σ ε α} {f : α → β} {result : Except ε β}
    (h : (p >>= fun value => .done (f value)).Path first (ended result)) :
    ∃ own, p.Path first (ended own) ∧ result = own.map f := by
  rcases path_bind_ended.mp h with ⟨cause, hcause, rfl⟩ | ⟨own, others, value, rfl, hown, hothers⟩
  · exact ⟨.error cause, hcause, rfl⟩
  · obtain ⟨rfl, hresult⟩ := path_done.mp hothers
    rw [List.append_nil]
    refine ⟨.ok value, hown, ?_⟩
    cases result <;> cases hresult
    rfl

/-- A program with a cleanup that has ended returned, or failed and cleaned up. -/
theorem path_onFailure_ended {p : Program σ ε α} {cleanup : Program σ ε Unit}
    {result : Except ε α} (h : (p.onFailure cleanup).Path first (ended result)) :
    (∃ value, result = .ok value ∧ p.Path first (ended (.ok value))) ∨
      ∃ own others cause, first = own ++ others ∧ p.Path own (ended (.error cause)) ∧
        (cleanup >>= fun _ => .fail cause : Program σ ε α).Path others (ended result) := by
  induction p generalizing first with
  | done value =>
    obtain ⟨rfl, hresult⟩ := path_done.mp h
    cases result <;> cases hresult
    exact Or.inl ⟨_, rfl, rfl⟩
  | fail cause => exact Or.inr ⟨[], first, cause, rfl, rfl, h⟩
  | call request resume ih =>
    obtain ⟨answer, others, rfl, hothers⟩ := path_call_ended.mp h
    rcases ih answer hothers with ⟨value, rfl, hvalue⟩ | ⟨own, more, cause, rfl, hown, hmore⟩
    · exact Or.inl ⟨value, rfl, resume, rfl, hvalue⟩
    · exact Or.inr ⟨⟨request, answer⟩ :: own, more, cause, rfl, ⟨resume, rfl, hown⟩, hmore⟩

/-! ## Served programs -/

section Served

variable {τ : Signature} {handler : (request : σ.Request) → Program τ ε (σ.Answer request)}

/-- What serves these requests made these requests of its own, one part after another, and gave
these answers. -/
def Served (handler : (request : σ.Request) → Program τ ε (σ.Answer request)) :
    List σ.Exchange → List τ.Exchange → Prop
  | [], made => made = []
  | e :: more, made => ∃ own others, made = own ++ others ∧
      (handler e.request).Path own (ended (.ok e.answer)) ∧ Served handler more others

/-- A served program that has ended is one that ended with all its requests served, or the serving
of a request failed. -/
theorem path_serve_ended {p : Program σ ε α} {made : List τ.Exchange} {result : Except ε α}
    (h : (p.serve handler).Path made (ended result)) :
    (∃ asked, p.Path asked (ended result) ∧ Served handler asked made) ∨
    ∃ asked request resume own others cause, p.Path asked (.call request resume) ∧
      made = own ++ others ∧ Served handler asked own ∧
      (handler request).Path others (ended (.error cause)) ∧ result = .error cause := by
  induction p generalizing made with
  | done value =>
    obtain ⟨rfl, hresult⟩ := path_done.mp h
    cases result <;> cases hresult
    exact Or.inl ⟨[], rfl, rfl⟩
  | fail cause =>
    obtain ⟨rfl, hresult⟩ := path_fail.mp h
    cases result <;> cases hresult
    exact Or.inl ⟨[], rfl, rfl⟩
  | call request resume ih =>
    rcases path_bind_ended.mp h with ⟨cause, hcause, rfl⟩ | ⟨own, others, answer, rfl, hown, hrest⟩
    · exact Or.inr ⟨[], request, resume, [], made, cause, rfl, rfl, rfl, hcause, rfl⟩
    · rcases ih answer hrest with ⟨asked, hasked, hserved⟩ |
        ⟨asked, last, resume', first, failed, cause, hasked, rfl, hserved, hfailed, rfl⟩
      · exact Or.inl ⟨⟨request, answer⟩ :: asked, ⟨resume, rfl, hasked⟩, own, others, rfl, hown,
          hserved⟩
      · exact Or.inr ⟨⟨request, answer⟩ :: asked, last, resume', own ++ first, failed, cause,
          ⟨resume, rfl, hasked⟩, (List.append_assoc ..).symm, ⟨own, first, rfl, hown, hserved⟩,
          hfailed, rfl⟩

end Served

/-! ## Programs that only make certain requests -/

/-- All requests of the program satisfy `P`. -/
def Only (P : σ.Request → Prop) : Program σ ε α → Prop
  | .done _ => True
  | .fail _ => True
  | .call request resume => P request ∧ ∀ answer, (resume answer).Only P

theorem Only.bind {P : σ.Request → Prop} {p : Program σ ε α} {next : α → Program σ ε β}
    (hp : p.Only P) (hnext : ∀ value, (next value).Only P) : (p >>= next).Only P := by
  induction p with
  | done value => exact hnext value
  | fail cause => trivial
  | call request resume ih => exact ⟨hp.1, fun answer => ih answer (hp.2 answer)⟩

theorem Only.mono {P Q : σ.Request → Prop} {p : Program σ ε α} (hp : p.Only P)
    (hPQ : ∀ request, P request → Q request) : p.Only Q := by
  induction p with
  | done value => trivial
  | fail cause => trivial
  | call request resume ih => exact ⟨hPQ _ hp.1, fun answer => ih answer (hp.2 answer)⟩

theorem Within.only {P : σ.Request → Prop} {p : Program σ ε α} (hp : p.Within P) : p.Only P := by
  induction p with
  | done value => trivial
  | fail cause => exact hp.elim
  | call request resume ih => exact ⟨hp.1, fun answer => ih answer (hp.2 answer)⟩

theorem Only.onFailure {P : σ.Request → Prop} {p : Program σ ε α} {cleanup : Program σ ε Unit}
    (hp : p.Only P) (hcleanup : cleanup.Only P) : (p.onFailure cleanup).Only P := by
  induction p with
  | done value => trivial
  | fail cause => exact hcleanup.bind fun _ => trivial
  | call request resume ih => exact ⟨hp.1, fun answer => ih answer (hp.2 answer)⟩

/-- A program is served by what serves its requests. -/
theorem Only.serve {τ : Signature} {P : σ.Request → Prop} {Q : τ.Request → Prop}
    {p : Program σ ε α} {handler : (request : σ.Request) → Program τ ε (σ.Answer request)}
    (hp : p.Only P) (hhandler : ∀ request, P request → (handler request).Only Q) :
    (p.serve handler).Only Q := by
  induction p with
  | done value => trivial
  | fail cause => trivial
  | call request resume ih =>
    exact (hhandler request hp.1).bind fun answer => ih answer (hp.2 answer)

theorem Path.only {P : σ.Request → Prop} (h : p.Path first rest) (hp : p.Only P) :
    rest.Only P := by
  induction first generalizing p with
  | nil =>
    obtain rfl := h
    exact hp
  | cons e others ih =>
    obtain ⟨resume, rfl, hrest⟩ := h
    exact ih hrest (hp.2 e.answer)

/-! ## Programs that only make certain requests at first -/

/-- All requests of the program satisfy `P` until an exchange satisfies `S`. -/
def Until (P : σ.Request → Prop) (S : σ.Exchange → Prop) : Program σ ε α → Prop
  | .done _ => True
  | .fail _ => True
  | .call request resume =>
    P request ∧ ∀ answer, S ⟨request, answer⟩ ∨ (resume answer).Until P S

section Until

variable {P : σ.Request → Prop} {S : σ.Exchange → Prop}

theorem Only.until {p : Program σ ε α} (hp : p.Only P) : p.Until P S := by
  induction p with
  | done value => trivial
  | fail cause => trivial
  | call request resume ih => exact ⟨hp.1, fun answer => Or.inr (ih answer (hp.2 answer))⟩

theorem Until.bind {p : Program σ ε α} {next : α → Program σ ε β} (hp : p.Until P S)
    (hnext : ∀ value, (next value).Until P S) : (p >>= next).Until P S := by
  induction p with
  | done value => exact hnext value
  | fail cause => trivial
  | call request resume ih => exact ⟨hp.1, fun answer => (hp.2 answer).imp id (ih answer)⟩

theorem Path.until (h : p.Path first rest) (hp : p.Until P S) :
    (∃ e ∈ first, S e) ∨ rest.Until P S := by
  induction first generalizing p with
  | nil =>
    obtain rfl := h
    exact Or.inr hp
  | cons e others ih =>
    obtain ⟨resume, rfl, hrest⟩ := h
    rcases hp.2 e.answer with hnow | hlater
    · exact Or.inl ⟨e, List.mem_cons_self, hnow⟩
    · exact (ih hrest hlater).imp (fun ⟨f, hf, hS⟩ => ⟨f, List.mem_cons_of_mem _ hf, hS⟩) id

end Until

/-! ## Programs that cannot do without a request -/

/-- However its requests are answered, the program returns only after an exchange that satisfies
`P`. -/
def Passes (P : σ.Exchange → Prop) : Program σ ε α → Prop
  | .done _ => False
  | .fail _ => True
  | .call request resume => ∀ answer, P ⟨request, answer⟩ ∨ (resume answer).Passes P

/-- It is enough that the second part of a sequence does. -/
theorem Passes.bind {P : σ.Exchange → Prop} (p : Program σ ε α) {next : α → Program σ ε β}
    (hnext : ∀ value, (next value).Passes P) : (p >>= next).Passes P := by
  induction p with
  | done value => exact hnext value
  | fail cause => trivial
  | call request resume ih => exact fun answer => Or.inr (ih answer)

/-- It is enough that the first part of a sequence does. -/
theorem Passes.before {P : σ.Exchange → Prop} {p : Program σ ε α} (hp : p.Passes P)
    (next : α → Program σ ε β) : (p >>= next).Passes P := by
  induction p with
  | done value => exact hp.elim
  | fail cause => trivial
  | call request resume ih => exact fun answer => (hp answer).imp id fun h => ih answer h

theorem Path.passes {P : σ.Exchange → Prop} {value : α} (h : p.Path first (ended (.ok value)))
    (hp : p.Passes P) : ∃ e ∈ first, P e := by
  induction p generalizing first with
  | done value => exact hp.elim
  | fail cause =>
    obtain ⟨-, heq⟩ := path_fail.mp h
    cases heq
  | call request resume ih =>
    obtain ⟨answer, others, rfl, hothers⟩ := path_call_ended.mp h
    rcases hp answer with hnow | hlater
    · exact ⟨_, List.mem_cons_self, hnow⟩
    · obtain ⟨e, he, hPe⟩ := ih answer hothers hlater
      exact ⟨e, List.mem_cons_of_mem _ he, hPe⟩

/-- However its requests are answered, the program comes to an end only after an exchange that
satisfies `P`. -/
def Meets (P : σ.Exchange → Prop) : Program σ ε α → Prop
  | .done _ => False
  | .fail _ => False
  | .call request resume => ∀ answer, P ⟨request, answer⟩ ∨ (resume answer).Meets P

theorem Meets.bind {P : σ.Exchange → Prop} {p : Program σ ε α} (hp : p.Meets P)
    (next : α → Program σ ε β) : (p >>= next).Meets P := by
  induction p with
  | done value => exact hp.elim
  | fail cause => exact hp.elim
  | call request resume ih => exact fun answer => (hp answer).imp id fun h => ih answer h

/-- It is enough that the second part does, if the first one never fails. -/
theorem Meets.bind_within {P : σ.Exchange → Prop} {Q : σ.Request → Prop} {p : Program σ ε α}
    {next : α → Program σ ε β} (hp : p.Within Q) (hnext : ∀ value, (next value).Meets P) :
    (p >>= next).Meets P := by
  induction p with
  | done value => exact hnext value
  | fail cause => exact hp.elim
  | call request resume ih => exact fun answer => Or.inr (ih answer (hp.2 answer))

theorem Path.meets {P : σ.Exchange → Prop} {result : Except ε α}
    (h : p.Path first (ended result)) (hp : p.Meets P) : ∃ e ∈ first, P e := by
  induction p generalizing first with
  | done value => exact hp.elim
  | fail cause => exact hp.elim
  | call request resume ih =>
    obtain ⟨answer, others, rfl, hothers⟩ := path_call_ended.mp h
    rcases hp answer with hnow | hlater
    · exact ⟨_, List.mem_cons_self, hnow⟩
    · obtain ⟨e, he, hPe⟩ := ih answer hothers hlater
      exact ⟨e, List.mem_cons_of_mem _ he, hPe⟩

end Program

end ExecContext
