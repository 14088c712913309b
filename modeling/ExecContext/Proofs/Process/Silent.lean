import ExecContext.Proofs.Log.Accesses
import ExecContext.Proofs.Process.Alone
import ExecContext.Proofs.Process.Paths
import ExecContext.Storage.Holding

set_option autoImplicit false

/-!
# What only the log tells of

No request is observed and no line is printed while the log is used, while the kernel is probed, or
while a backend other than the spy is at work.
-/

namespace ExecContext

/-! ## Accesses and runs -/

/-- The access neither lets a request be observed nor prints a line. -/
def Access.Silent : Access → Prop
  | .observe _ => False
  | .print _ => False
  | _ => True

theorem Access.OfLog.silent {a : Access} (h : a.OfLog) : a.Silent := by
  cases a with
  | observe q => exact h
  | print line => exact h
  | _ => trivial

namespace Event

@[simp] theorem observedQueries_append (first rest : List Event) :
    observedQueries (first ++ rest) = observedQueries first ++ observedQueries rest :=
  List.filterMap_append

@[simp] theorem printedLines_append (first rest : List Event) :
    printedLines (first ++ rest) = printedLines first ++ printedLines rest :=
  List.filterMap_append

/-- Neither observed requests nor lines are among the events. -/
structure Silent (events : List Event) : Prop where
  observed : observedQueries events = []
  printed : printedLines events = []

theorem Silent.append {first rest : List Event} (h : Silent first) (hrest : Silent rest) :
    Silent (first ++ rest) := by
  constructor
  · simp [h.observed, hrest.observed]
  · simp [h.printed, hrest.printed]

end Event

namespace Process

variable {s : Process} {t : ThreadId}

theorem perform_silent {a : Access} (ha : a.Silent) {effect : Effect a.Answer}
    (h : s.perform t a = some effect) : Event.Silent effect.events := by
  rw [perform_events h]
  cases a <;> first | exact ⟨rfl, rfl⟩ | exact ha.elim

theorem run_silent {α : Type} {p : Action α} (hp : p.Only Access.Silent) :
    Event.Silent (s.run t p).events := by
  induction p generalizing s with
  | done value => exact ⟨rfl, rfl⟩
  | fail cause => exact ⟨rfl, rfl⟩
  | call a resume ih =>
    rw [run_call]
    cases h : s.perform t a with
    | none => exact ⟨rfl, rfl⟩
    | some effect => exact (perform_silent hp.1 h).append (ih effect.answer (hp.2 effect.answer))

end Process

/-! ## What is silent -/

theorem silent_getOrFill {c : Cell} {compute : Action c.Content}
    (hcompute : compute.Only Access.Silent) :
    (Action.getOrFill c compute).Only Access.Silent := by
  refine ⟨trivial, fun value? => ?_⟩
  cases value? with
  | some value => trivial
  | none =>
    have hcleanup : Program.Only Access.Silent (.call (Access.abandon c) .done : Action Unit) :=
      ⟨trivial, fun _ => trivial⟩
    exact (hcompute.onFailure hcleanup).bind fun value => ⟨trivial, fun _ => trivial⟩

theorem silent_write (level : Log.Level) (message : Log.Message) :
    (Log.write level message).Only Access.Silent :=
  (Log.within_write level message).only.mono fun _ ha => ha.silent

theorem silent_failWith {α : Type} (failure : StorageFailure) :
    (Storage.failWith failure : Action α).Only Access.Silent :=
  (silent_write _ _).bind fun _ => trivial

theorem silent_createKey : Storage.createKey.Only Access.Silent := by
  refine ⟨trivial, fun answer => ?_⟩
  cases answer with
  | ok key => exact (silent_write _ _).bind fun _ => trivial
  | error code => exact silent_failWith _

theorem silent_storeBehind (key : Key) (p : Pointer) :
    (Storage.storeBehind key p).Only Access.Silent := by
  refine ⟨trivial, fun code => ?_⟩
  change (if code = 0 then pure () else Storage.failWith (.notStored code)).Only Access.Silent
  split
  · trivial
  · exact silent_failWith _

theorem silent_processBase : Kernel.processBase.Only Access.Silent :=
  silent_getOrFill (c := .slotBase)
    ⟨trivial, fun _ => (silent_write _ _).bind fun _ => trivial⟩

theorem silent_directSlot : Storage.directSlot.Only Access.Silent :=
  silent_getOrFill (c := .direct) <| silent_processBase.bind fun _ =>
    silent_createKey.bind fun _ => (silent_write _ _).bind fun _ => trivial

/-- Only the spy is observed while it holds a pointer. -/
theorem silent_hold {b : Backend} (hb : b ≠ .spy) (p : Pointer) :
    (b.hold p).Only Access.Silent := by
  cases b with
  | native => exact ⟨trivial, fun _ => trivial⟩
  | key =>
    exact (silent_getOrFill (c := .key) silent_createKey).bind fun k => silent_storeBehind k p
  | direct => exact silent_directSlot.bind fun slot => silent_storeBehind slot.key p
  | spy => exact absurd rfl hb

theorem silent_held {b : Backend} (hb : b ≠ .spy) : b.held.Only Access.Silent := by
  cases b with
  | native => exact ⟨trivial, fun _ => trivial⟩
  | key =>
    refine ⟨trivial, fun k? => ?_⟩
    cases k? with
    | none => trivial
    | some k => exact ⟨trivial, fun _ => trivial⟩
  | direct =>
    refine ⟨trivial, fun slot? => ?_⟩
    cases slot? with
    | none => trivial
    | some slot => exact ⟨trivial, fun _ => trivial⟩
  | spy => exact absurd rfl hb

end ExecContext
