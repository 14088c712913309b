import ExecContext.Proofs.Demo.ThreadState
import ExecContext.Proofs.Interleaving.KeyDiscipline
import ExecContext.Proofs.Resolver.Resolving

set_option autoImplicit false

/-!
# What one worker does

A worker obeys the discipline of the key and that of its state at once, whatever the others do
meanwhile: it returns the calls charged to its own context, which are those that it made outside its
fibers, and prints its lines in order (`does_worker`). There is one lemma for each part that a
worker is built of, from the accesses up.
-/

namespace ExecContext.Demo.Workers

/-! ## The lines of a worker -/

/-- The name of a worker's own context. -/
def ownName (w : Nat) : String := "thread-rt-" ++ toString w

/-- The name of the context of a worker's fiber. -/
def fiberName (w f : Nat) : String := "fiber-rt-" ++ toString w ++ "." ++ toString f

/-- The line that reports a call of a worker. -/
def callLine (w : Nat) (label name : String) : Line :=
  .text ("[" ++ workerName w ++ "] " ++ label ++ " -> runtime " ++ name)

/-- The lines of one fiber of a worker. -/
def fiberLines (w f : Nat) : List Line :=
  [callLine w ("fiber " ++ toString f) (fiberName w f),
    callLine w ("fiber " ++ toString f ++ " again") (fiberName w f)]

/-- The lines of a worker. -/
def workerLines (w : Nat) : List Line :=
  callLine w "before fibers" (ownName w) ::
    ((List.range fiberCount).flatMap (fiberLines w) ++ [callLine w "after fibers" (ownName w)])

example : workerLines 1 =
    [.text "[worker-1] before fibers -> runtime thread-rt-1",
      .text "[worker-1] fiber 0 -> runtime fiber-rt-1.0",
      .text "[worker-1] fiber 0 again -> runtime fiber-rt-1.0",
      .text "[worker-1] fiber 1 -> runtime fiber-rt-1.1",
      .text "[worker-1] fiber 1 again -> runtime fiber-rt-1.1",
      .text "[worker-1] fiber 2 -> runtime fiber-rt-1.2",
      .text "[worker-1] fiber 2 again -> runtime fiber-rt-1.2",
      .text "[worker-1] after fibers -> runtime thread-rt-1"] := by decide

/-! ## Contexts -/

theorem contextName_own (w : Nat) : contextName (ownContext w) = ownName w := by
  have hdiv : ownContext w / (fiberCount + 1) = w := by simp [ownContext, fiberCount]
  have hmod : ownContext w % (fiberCount + 1) = 0 := by simp [ownContext]
  simp [contextName, hdiv, hmod, ownName]

theorem contextName_fiber (w : Nat) {f : Nat} (hf : f < fiberCount) :
    contextName (fiberContext w f) = fiberName w f := by
  have hlt : f < 3 := hf
  have hdiv : fiberContext w f / (fiberCount + 1) = w := by
    show ((3 + 1) * w + 1 + f : Nat) / (3 + 1) = w
    omega
  have hmod : fiberContext w f % (fiberCount + 1) = f + 1 := by
    show ((3 + 1) * w + 1 + f : Nat) % (3 + 1) = f + 1
    omega
  simp [contextName, hdiv, hmod, fiberName]

theorem owner_own (w : Nat) : owner (ownContext w) = w + 2 := by
  simp [owner, ownContext, fiberCount]

theorem owner_fiber (w : Nat) {f : Nat} (hf : f < fiberCount) :
    owner (fiberContext w f) = w + 2 := by
  have hlt : f < 3 := hf
  show ((3 + 1) * w + 1 + f : Nat) / (3 + 1) + 2 = w + 2
  omega

theorem ownContext_ne_fiber (w f : Nat) : ownContext w ≠ fiberContext w f := by
  show ((3 + 1) * w : Nat) ≠ (3 + 1) * w + 1 + f
  omega

/-! ## Both disciplines -/

/-- What a worker keeps to: the discipline of the key and that of its state. -/
def workerDiscipline (k₀ : Key) : Discipline (KeyProgress × ThreadState) :=
  (keyDiscipline k₀).both threadDiscipline

/-- Every access that both permit may be answered so that both keep their promises. -/
theorem workerDiscipline_total (k₀ : Key) (φ : KeyProgress × ThreadState) (a : Access)
    (h : (workerDiscipline k₀).permits φ a) :
    ∃ answer φ', (workerDiscipline k₀).moves φ a answer φ' := by
  -- an access that is no matter of the key may be given any answer
  have haside (ha : Aside a) (answer : a.Answer) {state : ThreadState}
      (hmove : threadDiscipline.moves φ.2 a answer state) :
      ∃ answer φ', (workerDiscipline k₀).moves φ a answer φ' :=
    ⟨answer, (φ.1, state), ((keyDiscipline_aside k₀ φ.1 ha).2 _ _).mpr rfl, hmove⟩
  by_cases ha : Neutral a
  · obtain ⟨answer, progress, hmove⟩ := keyDiscipline_total k₀ φ.1 a h.1
    exact ⟨answer, (progress, φ.2), hmove, ((threadDiscipline_neutral φ.2 ha).2 _ _).mpr rfl⟩
  cases a with
  | createKey => exact ⟨.ok k₀, (_, φ.2), ⟨rfl, rfl⟩, ⟨k₀, rfl⟩, rfl⟩
  | setSpecific k p => exact ⟨0, (_, φ.2), rfl, rfl, rfl⟩
  | tag =>
    cases hname : φ.2.name with
    | none => exact haside trivial (.numbered 0) ⟨fun _ hsome => by simp [hname] at hsome, rfl⟩
    | some name =>
      exact haside trivial (.named name) ⟨fun _ hsome => by simpa [hname] using hsome, rfl⟩
  | loadNative => exact haside trivial _ ⟨rfl, rfl⟩
  | storeNative p => exact haside trivial () rfl
  | activity s => exact haside trivial _ ⟨fun _ => rfl, rfl⟩
  | setActivity s activity => exact haside trivial () rfl
  | addCalls c amount => exact haside trivial _ ⟨rfl, rfl⟩
  | print line => exact haside trivial () rfl
  | _ => exact (ha trivial).elim

/-- What a worker has to show at a point of its work. -/
structure Ledger where
  /-- what it is bound to -/
  bound : Pointer
  activity : Activity
  /-- the calls charged to its own context -/
  calls : Int64
  printed : List Line

/-- A worker has this to show. -/
structure Shows (build : Build) (w : Nat) (l : Ledger) (φ : KeyProgress × ThreadState) : Prop where
  idle : φ.1.Idle
  bound : (if build.keyed then φ.1.own else φ.2.native) = l.bound
  thread : φ.2.thread = w + 2
  name : φ.2.name = some (workerName w)
  activity : φ.2.activity = l.activity
  calls : φ.2.calls (ownContext w) = l.calls
  printed : φ.2.printed = l.printed

section Parts

variable {k₀ : Key} {build : Build} {w : Nat} {l : Ledger} {φ : KeyProgress × ThreadState}
  {α : Type}

/-- A part of a worker's program returns this value, and there is this to show then. -/
def Does (k₀ : Key) (build : Build) (w : Nat) (l : Ledger) (p : Action α) (value : α)
    (l' : Ledger) : Prop :=
  ∀ φ, Shows build w l φ →
    (workerDiscipline k₀).Obeys (fun φ' result => result = .ok value ∧ Shows build w l' φ') p φ

theorem Does.done (value : α) : Does k₀ build w l (.done value) value l :=
  fun _ h => ⟨rfl, h⟩

theorem Does.bind {β : Type} {p : Action α} {value : α} {l' l'' : Ledger} {next : α → Action β}
    {result : β} (hp : Does k₀ build w l p value l')
    (hnext : Does k₀ build w l' (next value) result l'') :
    Does k₀ build w l (p >>= next) result l'' := by
  intro φ h
  refine .bind ((hp φ h).mono ?_)
  rintro φ' _ ⟨rfl, h'⟩
  exact hnext φ' h'

/-- An access that concerns neither the key nor the state. -/
theorem Does.aside {a : Access} {resume : a.Answer → Action α} {value : α} {l' : Ledger}
    (ha : Aside a) (ha' : Neutral a) (h : ∀ answer, Does k₀ build w l (resume answer) value l') :
    Does k₀ build w l (.call a resume) value l' := by
  intro φ hφ
  obtain ⟨hpermits, hmoves⟩ := keyDiscipline_aside k₀ φ.1 ha
  obtain ⟨hpermits', hmoves'⟩ := threadDiscipline_neutral φ.2 ha'
  refine ⟨⟨hpermits, hpermits'⟩, fun answer φ' ⟨hmove, hmove'⟩ => ?_⟩
  obtain rfl : φ' = φ := Prod.ext ((hmoves answer _).mp hmove) ((hmoves' answer _).mp hmove')
  exact h answer φ' hφ

/-! ## Parts of a worker -/

/-- Logging leaves the state as it is. -/
theorem state_write (state : ThreadState) (level : Log.Level) (message : Log.Message) :
    threadDiscipline.Obeys (fun state' result => state' = state ∧ ∃ value, result = .ok value)
      (Log.write level message) state := by
  refine .of_within ((Log.within_write level message).mono fun a ha => ?_)
  by_cases ha' : Neutral a
  · obtain ⟨hpermits, hmoves⟩ := threadDiscipline_neutral state ha'
    exact ⟨hpermits, fun answer state' => (hmoves answer state').mp⟩
  · cases a with
    | tag => exact ⟨trivial, fun answer state' hmove => hmove.2⟩
    | _ => first | exact ha.elim | exact (ha' trivial).elim

theorem does_write (level : Log.Level) (message : Log.Message) :
    Does k₀ build w l (Log.write level message) () l := by
  intro φ h
  refine ((obeys_write level message).both (state_write φ.2 level message)).mono ?_
  rintro φ' result ⟨⟨hkey, -⟩, hstate, value, hresult⟩
  obtain rfl : φ' = φ := Prod.ext hkey hstate
  exact ⟨hresult, h⟩

/-- On a platform that never fails a key is created. -/
theorem state_createKey (state : ThreadState) :
    threadDiscipline.Obeys (fun state' result => state' = state ∧ ∃ k, result = .ok k)
      Storage.createKey state := by
  refine ⟨trivial, fun answer state' hmove => ?_⟩
  obtain ⟨⟨k, rfl⟩, rfl⟩ := hmove
  show threadDiscipline.Obeys _ (Log.write .debug (.keyCreated k) >>= fun _ => .done k) state'
  refine .bind ((state_write state' _ _).mono ?_)
  rintro _ result ⟨rfl, value, rfl⟩
  exact ⟨rfl, k, rfl⟩

theorem state_processKey (state : ThreadState) :
    threadDiscipline.Obeys (fun state' result => state' = state ∧ ∃ k, result = .ok k)
      Storage.processKey state := by
  refine ⟨trivial, fun answer state' hmove => ?_⟩
  obtain rfl : state' = state := hmove
  cases answer with
  | some k => exact ⟨rfl, k, rfl⟩
  | none =>
    refine .bind (.onFailure ((state_createKey state').mono ?_))
    rintro _ result ⟨rfl, k, rfl⟩
    exact ⟨trivial, fun _ state'' hmove => ⟨hmove, k, rfl⟩⟩

/-- On such a platform the key backend holds any pointer, and the state stays as it is. -/
theorem state_hold_key (state : ThreadState) (p : Pointer) :
    threadDiscipline.Obeys (fun state' result => state' = state ∧ result = .ok ())
      (Backend.hold p .key) state := by
  refine .bind ((state_processKey state).mono ?_)
  rintro _ result ⟨rfl, k, rfl⟩
  refine ⟨trivial, fun code state' hmove => ?_⟩
  obtain ⟨rfl, rfl⟩ := hmove
  exact ⟨rfl, rfl⟩

theorem does_hold (p : Pointer) :
    Does k₀ build w l (build.platform.hold p) () { l with bound := p } := by
  intro φ h
  cases hbuild : build.keyed with
  | true =>
    rw [show build.platform = .key from if_pos hbuild]
    refine ((obeys_hold h.idle p).both (state_hold_key φ.2 p)).mono ?_
    rintro ⟨progress, state⟩ _ ⟨⟨hidle, hown⟩, rfl, rfl⟩
    exact ⟨rfl, { h with idle := hidle, bound := (if_pos hbuild).trans hown }⟩
  | false =>
    rw [show build.platform = .native from if_neg (by simp [hbuild])]
    refine ⟨⟨trivial, trivial⟩, fun answer φ' hmove => ?_⟩
    obtain rfl : φ' = (φ.1, { φ.2 with native := p }) := Prod.ext hmove.1 hmove.2
    exact ⟨rfl, { h with idle := h.idle, bound := if_neg (by simp [hbuild]) }⟩

theorem state_held_key (state : ThreadState) :
    threadDiscipline.Obeys (fun state' _ => state' = state) (Backend.held .key) state := by
  refine ⟨trivial, fun answer state' hmove => ?_⟩
  obtain rfl : state' = state := hmove
  cases answer with
  | none => rfl
  | some k => exact ⟨trivial, fun p state'' hmove => hmove⟩

theorem does_held : Does k₀ build w l build.platform.held l.bound l := by
  intro φ h
  have hbound := h.bound
  cases hbuild : build.keyed with
  | true =>
    rw [show build.platform = .key from if_pos hbuild]
    rw [if_pos hbuild] at hbound
    refine ((obeys_held h.idle).both (state_held_key φ.2)).mono ?_
    rintro ⟨progress, state⟩ result ⟨⟨hidle, hown, hresult⟩, rfl⟩
    exact ⟨hbound ▸ hresult, { h with
      idle := hidle
      bound := (if_pos hbuild).trans (hown.trans hbound) }⟩
  | false =>
    rw [show build.platform = .native from if_neg (by simp [hbuild])]
    rw [if_neg (by simp [hbuild])] at hbound
    refine ⟨⟨trivial, trivial⟩, fun p φ' hmove => ?_⟩
    obtain rfl : φ' = φ := Prod.ext hmove.1 hmove.2.2
    exact ⟨congrArg Except.ok (hmove.2.1.trans hbound), h⟩

/-- The scheduler is found as the worker left it. -/
theorem does_activity {next : Activity → Action α} {value : α} {l' : Ledger}
    (h : Does k₀ build w l (next l.activity) value l') :
    Does k₀ build w l (.call (Access.activity fibers) next) value l' := by
  intro φ hφ
  refine ⟨⟨trivial, trivial⟩, fun a φ' hmove => ?_⟩
  obtain rfl : φ' = φ := Prod.ext hmove.1 hmove.2.2
  obtain rfl : a = l.activity := (hmove.2.1 rfl).trans hφ.activity
  exact h φ' hφ

theorem does_ownsThread :
    Does k₀ build w l (Scheduler.ownsThread fibers) l.activity.active l :=
  Does.aside (a := .observe .ownsThread) trivial trivial fun _ => does_activity (.done _)

theorem does_runningFiber : Does k₀ build w l (Scheduler.runningFiber fibers) l.activity.fiber l :=
  Does.aside (a := .observe .runningFiber) trivial trivial fun _ => does_activity (.done _)

theorem does_contextOf (f : Fiber) :
    Does k₀ build w l (Scheduler.contextOf fibers f) f.context l :=
  Does.aside (a := .observe (.contextOf f)) trivial trivial fun _ => .done _

/-! ## Resolving and binding -/

theorem does_request {q : Resolver.Query} {value : q.Answer} {l' : Ledger}
    (h : Does k₀ build w l ((resolver build).answer q) value l') :
    Does k₀ build w l ((resolver build).perform (.call q .done)) value l' := by
  rw [Process.perform_request]
  exact h

theorem does_sequence {β : Type} {p : Resolver.Operation α} {value : α} {l' l'' : Ledger}
    {next : α → Resolver.Operation β} {result : β}
    (hp : Does k₀ build w l ((resolver build).perform p) value l')
    (hnext : Does k₀ build w l' ((resolver build).perform (next value)) result l'') :
    Does k₀ build w l ((resolver build).perform (p >>= next)) result l'' := by
  rw [Process.perform_bind]
  exact hp.bind hnext

theorem does_resolveThread :
    Does k₀ build w l ((resolver build).perform Resolver.resolveThread) (.ofPointer l.bound) l :=
  does_sequence (does_request does_held) (.done _)

/-- A worker finds the context of its running fiber, or its own. -/
theorem does_resolve :
    Does k₀ build w l ((resolver build).perform Resolver.resolve)
      (Resolution.found l.activity l.bound) l := by
  refine does_sequence (does_request does_ownsThread) ?_
  generalize hactivity : l.activity = a
  obtain ⟨active, fiber⟩ := a
  cases active with
  | false => exact does_resolveThread
  | true =>
    refine does_sequence (does_request does_runningFiber) ?_
    rw [hactivity]
    cases fiber with
    | none => exact does_resolveThread
    | some f => exact does_sequence (does_request (does_contextOf f)) (.done _)

/-- A worker that is bound, or runs a fiber, has a current context. -/
theorem does_current {address : Address}
    (h : (Resolution.found l.activity l.bound).toPointer = some address) :
    Does k₀ build w l ((resolver build).perform Resolver.current) address l := by
  have hfound : Does k₀ build w l ((resolver build).perform Resolver.current?) (some address) l :=
    h ▸ does_sequence does_resolve (.done _)
  exact does_sequence hfound (.done _)

theorem does_bind (c : ContextId) :
    Does k₀ build w l ((resolver build).perform (Resolver.bind c)) ()
      { l with bound := some (.context c) } :=
  does_sequence (does_request (does_write _ _)) (does_request (does_hold _))

/-! ## Calls into the engine -/

theorem does_setActivity (a : Activity) :
    Does k₀ build w l (.call (Access.setActivity fibers a) .done) () { l with activity := a } := by
  intro φ h
  refine ⟨⟨trivial, rfl⟩, fun _ φ' hmove => ?_⟩
  obtain rfl : φ' = (φ.1, { φ.2 with activity := a }) := Prod.ext hmove.1 hmove.2
  exact ⟨rfl, { h with idle := h.idle, activity := rfl }⟩

/-- The calls charged to a worker's own context after some were charged to one of its contexts. -/
def Ledger.charged (l : Ledger) (w : Nat) (c : ContextId) (amount : Int64) : Int64 :=
  if ownContext w = c then l.calls + amount else l.calls

/-- What there is to show once something was added to the counter of a context of the worker's. -/
theorem Shows.count {c : ContextId} (h : Shows build w l φ) (amount : Int64) :
    Shows build w { l with calls := l.charged w c amount }
      (φ.1, { φ.2 with calls := φ.2.count c amount }) := by
  refine { h with idle := h.idle, calls := ?_ }
  by_cases hc : ownContext w = c
  · simp [ThreadState.count, Ledger.charged, ← hc, h.calls]
  · simp [ThreadState.count, Ledger.charged, hc, h.calls]

/-- A call is charged to the context that is found, and reported under the thread's name. -/
theorem does_callEngine {c : ContextId} (hc : owner c = w + 2)
    (hfound : (Resolution.found l.activity l.bound).toPointer = some (.context c))
    (label : String) :
    Does k₀ build w l (callEngine (resolver build) label) ()
      { l with
        calls := l.charged w c 1
        printed := l.printed ++ [callLine w label (contextName c)] } := by
  intro φ h
  refine .bind (.bind ((does_current hfound φ h).mono ?_))
  rintro φ₁ _ ⟨rfl, h₁⟩
  refine ⟨⟨trivial, hc.trans h₁.thread.symm⟩, fun sum φ₂ hcount => ?_⟩
  obtain rfl : φ₂ = (φ₁.1, { φ₁.2 with calls := φ₁.2.count c 1 }) :=
    Prod.ext hcount.1 hcount.2.2
  refine ⟨⟨trivial, trivial⟩, fun tag φ₃ htag => ?_⟩
  obtain rfl : tag = .named (workerName w) := htag.2.1 _ h₁.name
  obtain rfl : φ₃ = _ := Prod.ext htag.1 htag.2.2
  refine ⟨⟨trivial, trivial⟩, fun _ φ₄ hprint => ?_⟩
  obtain rfl : φ₄ = (φ₁.1, { φ₁.2 with
      calls := φ₁.2.count c 1
      printed := φ₁.2.printed ++ [callLine w label (contextName c)] }) :=
    Prod.ext hprint.1 hprint.2
  have hprinted : φ₁.2.printed ++ [callLine w label (contextName c)] =
      l.printed ++ [callLine w label (contextName c)] := by
    rw [h₁.printed]
  exact ⟨rfl, { h₁.count 1 with idle := h₁.idle, printed := hprinted }⟩

/-- Outside its fibers a worker is charged itself. -/
theorem does_call_outside (hactivity : l.activity = .idle)
    (hbound : l.bound = some (.context (ownContext w))) (label : String) :
    Does k₀ build w l (callEngine (resolver build) label) ()
      { l with
        calls := l.calls + 1
        printed := l.printed ++ [callLine w label (ownName w)] } := by
  have hfound : (Resolution.found l.activity l.bound).toPointer =
      some (.context (ownContext w)) := by
    rw [hactivity, hbound]
    rfl
  have hcharged : l.charged w (ownContext w) 1 = l.calls + 1 := if_pos rfl
  rw [← hcharged, ← contextName_own]
  exact does_callEngine (owner_own w) hfound label

/-- Within a fiber the fiber is charged. -/
theorem does_call_inside {f : Nat} (hf : f < fiberCount)
    (hactivity : l.activity = .running (fiberContext w f)) (label : String) :
    Does k₀ build w l (callEngine (resolver build) label) ()
      { l with printed := l.printed ++ [callLine w label (fiberName w f)] } := by
  have hfound : (Resolution.found l.activity l.bound).toPointer =
      some (.context (fiberContext w f)) := by
    rw [hactivity]
    rfl
  have hcharged : l.charged w (fiberContext w f) 1 = l.calls := if_neg (ownContext_ne_fiber w f)
  rw [← contextName_fiber w hf]
  exact hcharged ▸ does_callEngine (owner_fiber w hf) hfound label

theorem does_addCalls (amount : Int64) :
    Does k₀ build w l (.call (Access.addCalls (ownContext w) amount) .done) (l.calls + amount)
      { l with calls := l.calls + amount } := by
  intro φ h
  refine ⟨⟨trivial, (owner_own w).trans h.thread.symm⟩, fun sum φ' hmove => ?_⟩
  obtain rfl : φ' = (φ.1, { φ.2 with calls := φ.2.count (ownContext w) amount }) :=
    Prod.ext hmove.1 hmove.2.2
  have hshows := h.count (c := ownContext w) amount
  rw [Ledger.charged, if_pos rfl] at hshows
  exact ⟨congrArg Except.ok (hmove.2.1.trans (by rw [h.calls])), hshows⟩

/-! ## The whole worker -/

theorem does_runFiber {f : Nat} (hf : f < fiberCount) (hactivity : l.activity = .idle) :
    Does k₀ build w l (runFiber (resolver build) w f) ()
      { l with printed := l.printed ++ fiberLines w f } := by
  refine (does_setActivity _).bind ?_
  refine (does_call_inside hf rfl _).bind ?_
  refine (does_call_inside hf rfl _).bind ?_
  have hprinted : l.printed ++ [callLine w ("fiber " ++ toString f) (fiberName w f)] ++
      [callLine w ("fiber " ++ toString f ++ " again") (fiberName w f)] =
        l.printed ++ fiberLines w f := by
    simp [fiberLines]
  rw [← hprinted, ← hactivity]
  exact does_setActivity _

theorem does_runFibers (f count : Nat) (hcount : f + count ≤ fiberCount)
    (hactivity : l.activity = .idle) :
    Does k₀ build w l (runFibers (resolver build) w f count) ()
      { l with printed := l.printed ++ (List.range' f count).flatMap (fiberLines w) } := by
  induction count generalizing l f with
  | zero =>
    rw [List.range'_zero, List.flatMap_nil, List.append_nil]
    exact .done ()
  | succ count ih =>
    refine (does_runFiber (by omega) hactivity).bind ?_
    have hrest := ih (l := { l with printed := l.printed ++ fiberLines w f }) (f + 1) (by omega)
      hactivity
    simpa [List.range'_succ] using hrest

/-- A worker returns the calls that it made outside its fibers, and prints its lines. -/
theorem does_worker :
    Does k₀ build w ⟨none, .idle, 0, []⟩ (worker (resolver build) w) expectedCalls
      ⟨some (.context (ownContext w)), .idle, expectedCalls, workerLines w⟩ := by
  refine (does_bind _).bind ?_
  refine (does_write _ _).bind ?_
  refine (does_call_outside rfl rfl _).bind ?_
  refine (does_runFibers 0 fiberCount (Nat.le_refl _) rfl).bind ?_
  refine (does_call_outside rfl rfl _).bind ?_
  have hprinted : [] ++ [callLine w "before fibers" (ownName w)] ++
      (List.range' 0 fiberCount).flatMap (fiberLines w) ++
        [callLine w "after fibers" (ownName w)] = workerLines w := by
    simp [workerLines, List.range_eq_range']
  have hcalls : (0 + 1 + 1 + 0 : Int64) = expectedCalls := by decide
  rw [← hprinted, ← hcalls]
  exact does_addCalls 0

end Parts

end ExecContext.Demo.Workers
