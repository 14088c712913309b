import ExecContext.Proofs.Log.Accesses
import ExecContext.Proofs.Resolver.Reading
import ExecContext.Proofs.Resolver.Resolving

set_option autoImplicit false

/-!
# What one use of a resolver asks

The collaborators of a resolver may give any answers, and may contradict themselves from one request
to the next. One resolution puts each request at most once, in a fixed order, and what is found is
decided by the answers that were given to it (`one_inquiry`).
-/

namespace ExecContext.Resolver

variable {asked : List Queries.Exchange} {made : List Accesses.Exchange}

/-! ## Resolving -/

/-- The requests of one resolution, with their answers, and what is found. -/
inductive Asks : List Queries.Exchange → Resolution → Prop where
  /-- the scheduler owns the thread and runs a fiber there, and this fiber is asked for its
  context -/
  | fiber (f : Fiber) (c : ContextId) :
    Asks [⟨.ownsThread, true⟩, ⟨.runningFiber, some f⟩, ⟨.contextOf f, c⟩] (.fiber c)
  /-- the scheduler owns the thread but runs no fiber there, so the backend is asked -/
  | noFiber (p : Pointer) :
    Asks [⟨.ownsThread, true⟩, ⟨.runningFiber, none⟩, ⟨.held, p⟩] (.ofPointer p)
  /-- the scheduler does not own the thread, so the backend is asked -/
  | notOwned (p : Pointer) : Asks [⟨.ownsThread, false⟩, ⟨.held, p⟩] (.ofPointer p)

theorem resolve_eq : resolve = .call Query.ownsThread fun active =>
    if active then .call Query.runningFiber fun
      | some f => .call (Query.contextOf f) fun c => .done (.fiber c)
      | none => resolveThread
    else resolveThread := rfl

theorem path_resolveThread {result : Except Cause Resolution} :
    resolveThread.Path asked (.ended result) ↔
      ∃ p : Pointer, asked = [⟨.held, p⟩] ∧ result = .ok (.ofPointer p) := by
  have hcall : resolveThread = .call Query.held fun p => .done (.ofPointer p) := rfl
  rw [hcall, Program.path_call_ended]
  constructor
  · rintro ⟨p, others, rfl, hothers⟩
    obtain ⟨rfl, hresult⟩ := Program.path_done.mp hothers
    cases result <;> cases hresult
    exact ⟨p, rfl, rfl⟩
  · rintro ⟨p, rfl, rfl⟩
    exact ⟨p, [], rfl, rfl⟩

/-- Whatever the answers, a resolution asks so and finds what they say. -/
theorem path_resolve {result : Except Cause Resolution} :
    resolve.Path asked (.ended result) ↔ ∃ found, result = .ok found ∧ Asks asked found := by
  rw [resolve_eq, Program.path_call_ended]
  constructor
  · rintro ⟨active, others, rfl, hothers⟩
    cases active with
    | false =>
      obtain ⟨p, rfl, rfl⟩ := path_resolveThread.mp hothers
      exact ⟨_, rfl, .notOwned p⟩
    | true =>
      obtain ⟨running, more, rfl, hmore⟩ := Program.path_call_ended.mp hothers
      cases running with
      | none =>
        obtain ⟨p, rfl, rfl⟩ := path_resolveThread.mp hmore
        exact ⟨_, rfl, .noFiber p⟩
      | some f =>
        obtain ⟨c, last, rfl, hlast⟩ := Program.path_call_ended.mp hmore
        obtain ⟨rfl, hresult⟩ := Program.path_done.mp hlast
        cases result <;> cases hresult
        exact ⟨_, rfl, .fiber f c⟩
  · rintro ⟨found, rfl, hasks⟩
    cases hasks with
    | fiber f c => exact ⟨true, _, rfl, _, rfl, _, rfl, rfl⟩
    | noFiber p => exact ⟨true, _, rfl, _, rfl, _, rfl, rfl⟩
    | notOwned p => exact ⟨false, _, rfl, _, rfl, rfl⟩

theorem path_current? {result : Except Cause Pointer} :
    current?.Path asked (.ended result) ↔
      ∃ found, result = .ok found.toPointer ∧ Asks asked found := by
  constructor
  · intro h
    obtain ⟨own, hown, rfl⟩ := Program.path_map_ended h
    obtain ⟨found, rfl, hasks⟩ := path_resolve.mp hown
    exact ⟨found, rfl, hasks⟩
  · rintro ⟨found, rfl, hasks⟩
    exact (path_resolve.mpr ⟨found, rfl, hasks⟩).bind fun found => .done found.toPointer

/-- What asking for the current context comes to: the address found, or the failure to find any. -/
def currentOf (found : Resolution) : Except Cause Address :=
  match found.toPointer with
  | some address => .ok address
  | none => .error .unbound

theorem current_eq : current = (resolve >>= fun found => .ended (currentOf found)) := by
  have hbind : current = (resolve >>= fun found => Program.done found.toPointer >>= fun
      | some address => .done address
      | none => .fail .unbound) := Program.bind_bind (σ := Queries) resolve _ _
  rw [hbind]
  congr 1
  funext found
  cases found <;> rfl

theorem path_current {result : Except Cause Address} :
    current.Path asked (.ended result) ↔ ∃ found, result = currentOf found ∧ Asks asked found := by
  rw [current_eq, Program.path_bind_ended]
  constructor
  · rintro (⟨cause, hcause, -⟩ | ⟨own, others, found, rfl, hown, hothers⟩)
    · obtain ⟨found, heq, -⟩ := path_resolve.mp hcause
      cases heq
    · obtain ⟨found', heq, hasks⟩ := path_resolve.mp hown
      cases heq
      obtain ⟨rfl, rfl⟩ := Program.path_ended.mp hothers
      exact ⟨found, rfl, by rwa [List.append_nil]⟩
  · rintro ⟨found, rfl, hasks⟩
    exact Or.inr ⟨asked, [], found, (List.append_nil asked).symm,
      path_resolve.mpr ⟨found, rfl, hasks⟩, rfl⟩

/-! ## What is told of a resolution -/

namespace Asks

variable {found : Resolution}

/-- Only a thread without a binding is found unbound. -/
theorem exists_toPointer (h : Asks asked found)
    (hbound : ∀ p : Pointer, ⟨.held, p⟩ ∈ asked → p ≠ none) :
    ∃ address, found.toPointer = some address := by
  cases h with
  | fiber f c => exact ⟨_, rfl⟩
  | noFiber p =>
    obtain ⟨address, rfl⟩ := Option.ne_none_iff_exists'.mp (hbound p (by simp))
    exact ⟨address, rfl⟩
  | notOwned p =>
    obtain ⟨address, rfl⟩ := Option.ne_none_iff_exists'.mp (hbound p (by simp))
    exact ⟨address, rfl⟩

/-- No request is put twice. -/
theorem nodup (h : Asks asked found) : (asked.map (·.request)).Nodup := by
  cases h <;> simp

/-- The backend is asked just if no fiber is found. -/
theorem held_mem_iff (h : Asks asked found) :
    Query.held ∈ asked.map (·.request) ↔ found.isFiber = false := by
  cases h with
  | fiber f c => simp [Resolution.isFiber]
  | noFiber p => cases p <;> simp [Resolution.isFiber, Resolution.ofPointer]
  | notOwned p => cases p <;> simp [Resolution.isFiber, Resolution.ofPointer]

end Asks

/-! ## Binding -/

theorem path_bindAddress {address : Address} {result : Except Cause Unit} :
    (bindAddress address).Path asked (.ended result) ↔
      asked = [⟨.announce address, ()⟩, ⟨.hold (some address), ()⟩] ∧ result = .ok () := by
  have htwo : (bindAddress address).Path asked (.ended result) ↔ ∃ announced held : Unit,
      asked = [⟨.announce address, announced⟩, ⟨.hold (some address), held⟩] ∧ result = .ok () :=
    Program.path_two_ended
  rw [htwo]
  constructor
  · rintro ⟨_, _, h⟩
    exact h
  · intro h
    exact ⟨(), (), h⟩

theorem path_unbind {result : Except Cause Unit} :
    unbind.Path asked (.ended result) ↔ asked = [⟨.hold none, ()⟩] ∧ result = .ok () := by
  have hcall : unbind = .call (Query.hold none) fun _ => .ended (.ok ()) := rfl
  rw [hcall, Program.path_call_ended]
  constructor
  · rintro ⟨_, others, rfl, hothers⟩
    obtain ⟨rfl, rfl⟩ := Program.path_ended.mp hothers
    exact ⟨rfl, rfl⟩
  · rintro ⟨rfl, rfl⟩
    exact ⟨(), _, rfl, rfl⟩

/-! ## Resolvers at work -/

/-- What a resolver does to carry out an operation that only reads is to serve its requests. -/
theorem path_perform {α : Type} {operation : Operation α} (r : Resolver)
    (hreads : operation.Only Query.Reads) {result : Except Cause α}
    (h : (r.perform operation).Path made (.ended result)) :
    ∃ asked, operation.Path asked (.ended result) ∧ Program.Served r.answer asked made := by
  rcases Program.path_serve_ended h with hall |
    ⟨asked, request, resume, own, others, cause, hasked, rfl, -, hfailed, rfl⟩
  · exact hall
  · have hrequest : request.Reads := (hasked.only hreads).1
    exact (hfailed.within (within_answer r hrequest)).elim

theorem perform_bindAddress (r : Resolver) (address : Address) :
    r.perform (bindAddress address) =
      (r.answer (.announce address) >>= fun _ => r.answer (.hold (some address))) := by
  unfold bindAddress announce hold
  rw [Process.perform_bind, Process.perform_request]
  exact congrArg _ (funext fun _ => Process.perform_request r (.hold (some address)))

theorem perform_unbind (r : Resolver) : r.perform unbind = r.answer (.hold none) :=
  Process.perform_request r (.hold none)

/-- **One inquiry.** Whatever the collaborators answer, and even if they contradict themselves,
resolving asks first whether the scheduler owns the thread; just if it does, which fiber runs; just
if one does, for this fiber's context, and then nothing more; and otherwise, last, which pointer the
backend holds. Each request is put at most once, the backend is asked just if no fiber is found, and
what is found is what the last answer says, so on a thread with a binding there always is a current
context. Binding has one request for the backend, with the address given, ending a binding has one
with null, and neither asks the scheduler. A resolver at work under any schedule does nothing but
serve these requests, one after another. -/
theorem one_inquiry :
    (∀ asked result, resolve.Path asked (.ended result) ↔
      ∃ found, result = .ok found ∧ Asks asked found) ∧
    (∀ asked result, current?.Path asked (.ended result) ↔
      ∃ found, result = .ok found.toPointer ∧ Asks asked found) ∧
    (∀ asked result, current.Path asked (.ended result) ↔
      ∃ found, result = currentOf found ∧ Asks asked found) ∧
    (∀ asked found, Asks asked found →
      (asked.map (·.request)).Nodup ∧
      (Query.held ∈ asked.map (·.request) ↔ found.isFiber = false) ∧
      ((∀ p : Pointer, ⟨.held, p⟩ ∈ asked → p ≠ none) →
        ∃ address, found.toPointer = some address ∧ currentOf found = .ok address)) ∧
    (∀ address asked result, (bindAddress address).Path asked (.ended result) ↔
      asked = [⟨.announce address, ()⟩, ⟨.hold (some address), ()⟩] ∧ result = .ok ()) ∧
    (∀ c asked result, (bind c).Path asked (.ended result) ↔
      asked = [⟨.announce (.context c), ()⟩, ⟨.hold (some (.context c)), ()⟩] ∧
        result = .ok ()) ∧
    (∀ asked result, unbind.Path asked (.ended result) ↔
      asked = [⟨.hold none, ()⟩] ∧ result = .ok ()) ∧
    ∀ r : Resolver,
      (∀ made result, (r.perform resolve).Path made (.ended result) →
        ∃ asked, resolve.Path asked (.ended result) ∧ Program.Served r.answer asked made) ∧
      (∀ made result, (r.perform current?).Path made (.ended result) →
        ∃ asked, current?.Path asked (.ended result) ∧ Program.Served r.answer asked made) ∧
      (∀ made result, (r.perform current).Path made (.ended result) →
        ∃ asked, current.Path asked (.ended result) ∧ Program.Served r.answer asked made) ∧
      (∀ address, r.perform (bindAddress address) =
        (r.answer (.announce address) >>= fun _ => r.answer (.hold (some address)))) ∧
      r.perform unbind = r.answer (.hold none) := by
  refine ⟨fun _ _ => path_resolve, fun _ _ => path_current?, fun _ _ => path_current,
    fun asked found hasks => ⟨hasks.nodup, hasks.held_mem_iff, fun hbound => ?_⟩,
    fun _ _ _ => path_bindAddress, fun _ _ _ => path_bindAddress, fun _ _ => path_unbind,
    fun r => ⟨fun _ _ => path_perform r only_resolve, fun _ _ => path_perform r only_current?,
      fun _ _ => path_perform r only_current, perform_bindAddress r, perform_unbind r⟩⟩
  obtain ⟨address, haddress⟩ := hasks.exists_toPointer hbound
  exact ⟨address, haddress, by rw [currentOf, haddress]⟩

/-- The scheduler is active when it is asked for that, and has no fiber when it is asked for one:
the context that the thread is bound to is found. -/
theorem one_inquiry_toggled :
    let r : Resolver := ⟨⟨.shared, 0⟩, .native⟩
    let asked : List Queries.Exchange :=
      [⟨.ownsThread, true⟩, ⟨.runningFiber, none⟩, ⟨.held, some (.context 2)⟩]
    let made : List Accesses.Exchange :=
      [⟨.observe .ownsThread, ()⟩, ⟨.activity r.scheduler, ⟨true, some ⟨5⟩⟩⟩,
        ⟨.observe .runningFiber, ()⟩, ⟨.activity r.scheduler, ⟨false, none⟩⟩,
        ⟨.loadNative, some (.context 2)⟩]
    (r.perform current).Path made (.ended (.ok (.context 2))) ∧
      (∃ own, current.Path own (.ended (.ok (.context 2))) ∧ Program.Served r.answer own made) ∧
      current.Path asked (.ended (.ok (.context 2))) ∧
      (∀ p : Pointer, ⟨.held, p⟩ ∈ asked → p ≠ none) ∧
      ∃ address, (Resolution.ofPointer (some (.context 2))).toPointer = some address := by
  intro r asked made
  obtain ⟨-, -, hcurrent, hasks, -, -, -, hwork⟩ := one_inquiry
  have hpath : (r.perform current).Path made (.ended (.ok (.context 2))) :=
    ⟨_, rfl, _, rfl, _, rfl, _, rfl, _, rfl, rfl⟩
  have hbound : ∀ p : Pointer, ⟨.held, p⟩ ∈ asked → p ≠ none := by
    rintro p hp rfl
    simp [asked] at hp
  obtain ⟨-, -, hfound⟩ := hasks asked _ (.noFiber (some (.context 2)))
  obtain ⟨address, haddress, -⟩ := hfound hbound
  exact ⟨hpath, (hwork r).2.2.1 made _ hpath,
    (hcurrent asked _).mpr ⟨_, rfl, .noFiber (some (.context 2))⟩, hbound, address, haddress⟩

end ExecContext.Resolver
