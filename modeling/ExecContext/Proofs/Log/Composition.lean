import ExecContext.Proofs.Log.Accesses
import ExecContext.Session.Task

set_option autoImplicit false

/-!
# What uses of a process are composed of

Every use of a process is composed of requests to the log, such as writing a message, and of
accesses that do not concern the log (`composed_call`, `composed_service`). What holds of both, and
is kept by putting them together, holds of every use.
-/

namespace ExecContext

/-! ## Requests to the log -/

namespace Log

/-- What is asked of the log. -/
inductive Request where
  | write (level : Level) (message : Message)
  | load
  | setLevel (level : Level)
  | setFlush (flush : Bool)
  | currentLevel
  | isEnabled (level : Level)
  | environmentSettings

/-- The answer to a request. -/
abbrev Request.Answer : Request → Type
  | .currentLevel => Level
  | .isEnabled _ => Bool
  | .environmentSettings => Settings
  | _ => Unit

/-- What a request does. -/
def Request.action : (q : Request) → Action q.Answer
  | .write level message => Log.write level message
  | .load => Log.load
  | .setLevel level => Log.setLevel level
  | .setFlush flush => Log.setFlush flush
  | .currentLevel => Log.currentLevel
  | .isEnabled level => Log.isEnabled level
  | .environmentSettings => Log.environmentSettings

end Log

/-! ## Composed actions -/

/-- The action is composed of those requests to the log that satisfy `P`, and of accesses that do
not concern the log. -/
inductive Composed (P : Log.Request → Prop) : {α : Type} → Action α → Prop where
  | done {α : Type} (value : α) : Composed P (.done value)
  | fail {α : Type} (cause : Cause) : Composed P (.fail cause : Action α)
  | call {α : Type} {a : Access} {resume : a.Answer → Action α} (ha : ¬a.OfLog)
    (hresume : ∀ answer, Composed P (resume answer)) : Composed P (.call a resume)
  | log (q : Log.Request) (hq : P q) : Composed P q.action
  | bind {α β : Type} {p : Action α} {next : α → Action β} (hp : Composed P p)
    (hnext : ∀ value, Composed P (next value)) : Composed P (p >>= next)
  | onFailure {α : Type} {p : Action α} {cleanup : Action Unit} (hp : Composed P p)
    (hcleanup : Composed P cleanup) : Composed P (p.onFailure cleanup)

namespace Composed

variable {P : Log.Request → Prop} {α : Type}

/-- A single access that does not concern the log. -/
theorem access {a : Access} (ha : ¬a.OfLog) : Composed P (.call a .done) :=
  .call ha fun answer => .done answer

/-- A cell other than that of the settings. -/
theorem getOrFill {c : Cell} {compute : Action c.Content} (hc : c ≠ .settings)
    (hcompute : Composed P compute) : Composed P (Action.getOrFill c compute) := by
  refine .call hc fun value? => ?_
  cases value? with
  | some value => exact .done value
  | none =>
    exact (hcompute.onFailure (access (a := .abandon c) hc)).bind fun value =>
      .call (a := .publish c value) hc fun _ => .done value

end Composed

section Writers

variable {P : Log.Request → Prop} (hwrite : ∀ level message, P (.write level message))
include hwrite

theorem composed_write (level : Log.Level) (message : Log.Message) :
    Composed P (Log.write level message) :=
  .log (.write level message) (hwrite level message)

/-! ## The kernel -/

omit hwrite in
theorem composed_askRelease : Composed P Kernel.askRelease :=
  .call id fun _ => .done _

theorem composed_reportedBase (release : Except Kernel.ProbeFailure String) :
    Composed P (Kernel.reportedBase release) :=
  (composed_write hwrite _ _).bind fun _ => .done _

theorem composed_processBase : Composed P Kernel.processBase :=
  .getOrFill (by decide) (composed_askRelease.bind (composed_reportedBase hwrite))

/-! ## Backends -/

theorem composed_failWith {α : Type} (failure : StorageFailure) :
    Composed P (Storage.failWith failure : Action α) :=
  (composed_write hwrite _ _).bind fun _ => .fail _

theorem composed_createKey : Composed P Storage.createKey := by
  refine .bind (.access id) fun answer => ?_
  cases answer with
  | ok key => exact (composed_write hwrite _ _).bind fun _ => .done key
  | error code => exact composed_failWith hwrite _

theorem composed_storeBehind (key : Key) (p : Pointer) :
    Composed P (Storage.storeBehind key p) := by
  refine .bind (.access id) fun code => ?_
  split
  · exact .done ()
  · exact composed_failWith hwrite _

theorem composed_directSlot : Composed P Storage.directSlot :=
  .getOrFill (by decide) <| (composed_processBase hwrite).bind fun _ =>
    (composed_createKey hwrite).bind fun _ => (composed_write hwrite _ _).bind fun _ => .done _

theorem composed_hold (p : Pointer) (b : Backend) : Composed P (b.hold p) := by
  cases b with
  | native => exact .access id
  | key =>
    exact .bind (.getOrFill (by decide) (composed_createKey hwrite)) fun k =>
      composed_storeBehind hwrite k p
  | direct =>
    exact (composed_directSlot hwrite).bind fun slot => composed_storeBehind hwrite slot.key p
  | spy => exact .bind (.access id) fun _ => .access id

omit hwrite in
theorem composed_held (b : Backend) : Composed P b.held := by
  cases b with
  | native => exact .access id
  | key =>
    refine .bind (.access id) fun k? => ?_
    cases k? with
    | none => exact .done _
    | some k => exact .access id
  | direct =>
    refine .bind (.access id) fun slot? => ?_
    cases slot? with
    | none => exact .done _
    | some slot => exact .access id
  | spy => exact .bind (.access id) fun _ => .access id

/-! ## Resolvers -/

omit hwrite in
/-- What is asked of a scheduler is answered at once, or observed and looked up. -/
theorem composed_scheduler {α : Type} (sched : Scheduler) {absent : Action α}
    {constant : Fiber → Action α} {kept : Action α} (habsent : Composed P absent)
    (hconstant : ∀ f, Composed P (constant f)) (hkept : Composed P kept) :
    Composed P (match sched.kind with
      | .absent => absent
      | .constant f => constant f
      | _ => kept) := by
  cases sched.kind with
  | absent => exact habsent
  | constant f => exact hconstant f
  | perThread => exact hkept
  | shared => exact hkept

theorem composed_answer (r : Resolver) (q : Resolver.Query) : Composed P (r.answer q) := by
  have hactivity {α : Type} (q : Resolver.Query) (view : Activity → α) :
      Composed P (do
        .call (Access.observe q) .done
        let a ← .call (Access.activity r.scheduler) .done
        return view a) :=
    .bind (.access id) fun _ => .bind (.access id) fun _ => .done _
  cases q with
  | ownsThread =>
    exact composed_scheduler r.scheduler (.done _) (fun _ => .done _) (hactivity _ _)
  | runningFiber =>
    exact composed_scheduler r.scheduler (.done _) (fun _ => .done _) (hactivity _ _)
  | contextOf f =>
    exact composed_scheduler r.scheduler (.done _) (fun _ => .done _)
      (.bind (.access id) fun _ => .done _)
  | held => exact composed_held r.backend
  | hold p => exact composed_hold hwrite p r.backend
  | announce address => exact composed_write hwrite _ _

theorem composed_perform {α : Type} (r : Resolver) (operation : Resolver.Operation α) :
    Composed P (r.perform operation) := by
  induction operation with
  | done value => exact .done value
  | fail cause => exact .fail cause
  | call q resume ih => exact (composed_answer hwrite r q).bind ih

/-! ## Uses -/

omit hwrite in
theorem composed_reschedule (r : Resolver) (change : Activity → Activity) :
    Composed P (Session.reschedule r change) :=
  composed_scheduler r.scheduler (.done _) (fun _ => .done _)
    (.bind (.access id) fun _ => .bind (.access id) fun _ => .done _)

theorem composed_countCalls (r : Resolver) (amount : Int64) :
    Composed P (r.countCalls amount) := by
  refine (composed_perform hwrite r _).bind fun address => ?_
  cases address with
  | context c => exact .bind (.access id) fun _ => .done _
  | foreign word => exact .done _

theorem composed_call (contexts : List String) (r : Resolver) (c : Session.Call) :
    Composed P (c.action contexts r) := by
  have hperform {α : Type} (operation : Resolver.Operation α) (answer : α → Session.Answer) :
      Composed P (r.perform operation >>= fun value => .done (answer value)) :=
    (composed_perform hwrite r operation).bind fun _ => .done _
  cases c with
  | bind c => exact hperform _ _
  | bindAddress c => exact hperform _ _
  | unbind => exact hperform _ _
  | current => exact hperform _ _
  | current? => exact hperform _ _
  | countCalls amount =>
    refine (composed_countCalls hwrite r amount).bind fun counted => ?_
    split <;> exact .done _
  | resolve => exact hperform _ _
  | hold p => exact hperform _ _
  | held => exact hperform _ _
  | backendName => exact .done _
  | ownsThread => exact hperform _ _
  | runningFiber =>
    refine (composed_perform hwrite r _).bind fun f? => ?_
    cases f? with
    | none => exact .done _
    | some f => exact hperform _ _
  | enter c => exact composed_reschedule r _
  | leave => exact composed_reschedule r _
  | setActive active => exact composed_reschedule r _
  | setFiber c => exact composed_reschedule r _

end Writers

/-- The request to the log that a service passes on, if it does. -/
def Session.Service.request? : Session.Service → Option Log.Request
  | .log level text => some (.write level (.text text))
  | .setLevel level => some (.setLevel level)
  | .setFlush flush => some (.setFlush flush)
  | .load => some .load
  | .currentLevel => some .currentLevel
  | .isEnabled level => some (.isEnabled level)
  | .environmentSettings => some .environmentSettings
  | .processBase => none
  | .askRelease => none
  | .reportedBase _ => none

theorem composed_service {P : Log.Request → Prop}
    (hwrite : ∀ level message, P (.write level message)) (s : Session.Service)
    (hs : ∀ q, s.request? = some q → P q) : Composed P s.action := by
  have hpassed (q : Log.Request) (hq : s.request? = some q) (answer : q.Answer → Session.Answer) :
      Composed P (q.action >>= fun value => .done (answer value)) :=
    (Composed.log q (hs q hq)).bind fun _ => .done _
  cases s with
  | log level text => exact hpassed _ rfl _
  | setLevel level => exact hpassed _ rfl _
  | setFlush flush => exact hpassed _ rfl _
  | load => exact hpassed _ rfl _
  | currentLevel => exact hpassed _ rfl _
  | isEnabled level => exact hpassed _ rfl _
  | environmentSettings => exact hpassed _ rfl _
  | processBase => exact (composed_processBase hwrite).bind fun _ => .done _
  | askRelease =>
    refine composed_askRelease.bind fun release => ?_
    cases release with
    | ok text => exact .done _
    | error e => exact .done _
  | reportedBase release => exact (composed_reportedBase hwrite release).bind fun _ => .done _

end ExecContext
