import ExecContext.Proofs.Interleaving.LockState
import ExecContext.Proofs.Log.Accesses
import ExecContext.Proofs.Session.Inert

set_option autoImplicit false

/-!
# What comes of a call to the platform

When a thread asks the kernel, or asks for a key, the call is open until the thread has published
what came of it in a cell. `callDiscipline` is the discipline of this: nobody makes such a call
while another one is open, a cell is published just for the call that is open, and a use that ends
with an open call is one that asked for the release or that failed for want of a key. Every use of a
process keeps to it (`callDiscipline_action`), and before it makes any such call, a use that is not
for the release itself takes on the cell that it needs (`until_action`).
-/

namespace ExecContext

/-! ## The discipline -/

/-- The call to the platform that a thread has open. -/
inductive OpenCall where
  /-- none -/
  | nothing
  /-- the kernel was asked -/
  | asked
  /-- a key was asked for, with this answer -/
  | created (answer : Except Int32 Key)

/-- An access that neither opens a call nor closes one. -/
def Access.Free : Access → Prop
  | .uname => False
  | .createKey => False
  | .publish c _ => c = .settings
  | _ => True

theorem Access.OfLog.free {a : Access} (h : a.OfLog) : a.Free := by
  cases a with
  | publish c value => exact h
  | uname => exact h
  | createKey => exact h
  | _ => trivial

theorem Access.Inert.free {a : Access} (h : a.Inert) : a.Free := by
  cases a with
  | publish c value => exact h.elim
  | uname => exact h
  | createKey => exact h
  | _ => trivial

namespace OpenCall

/-- The call that is open after one more access. -/
def next (φ : OpenCall) : (a : Access) → a.Answer → OpenCall
  | .uname, _ => .asked
  | .createKey, answer => .created answer
  | .publish .settings _, _ => φ
  | .publish _ _, _ => .nothing
  | _, _ => φ

/-- What may be done while this call is open. -/
def Permits (φ : OpenCall) : Access → Prop
  | .uname => φ = .nothing
  | .createKey => φ = .nothing
  | .publish .slotBase _ => φ = .asked
  | .publish .key k => φ = .created (.ok k)
  | .publish .direct slot => φ = .created (.ok slot.key)
  | _ => True

/-- The call that is open after a failure: only one for a key that could not be created. -/
def ofCause : Cause → OpenCall
  | .storage (.noKey code) => .created (.error code)
  | _ => .nothing

/-- The call that is open when a program has ended so. -/
def ofResult {α : Type} : Except Cause α → OpenCall
  | .ok _ => .nothing
  | .error cause => .ofCause cause

/-- When the initialiser of a cell has ended so, its value may be published for the open call. -/
def Ready (c : Cell) (φ : OpenCall) : Except Cause c.Content → Prop
  | .ok value => φ.Permits (.publish c value)
  | .error cause => φ = .ofCause cause

theorem permits_free (φ : OpenCall) {a : Access} (ha : a.Free) : φ.Permits a := by
  cases a with
  | uname => exact ha.elim
  | createKey => exact ha.elim
  | publish c value =>
    obtain rfl : c = .settings := ha
    trivial
  | _ => trivial

theorem next_free (φ : OpenCall) {a : Access} (ha : a.Free) (answer : a.Answer) :
    φ.next a answer = φ := by
  cases a with
  | uname => exact ha.elim
  | createKey => exact ha.elim
  | publish c value =>
    obtain rfl : c = .settings := ha
    rfl
  | _ => rfl

theorem next_publish (φ : OpenCall) {c : Cell} (hc : c ≠ .settings) (value : c.Content) :
    φ.next (.publish c value) () = .nothing := by
  cases c with
  | settings => exact absurd rfl hc
  | _ => rfl

end OpenCall

/-- The discipline of calls to the platform. -/
def callDiscipline : Discipline OpenCall where
  permits := OpenCall.Permits
  moves φ a answer φ' := φ' = φ.next a answer

/-! ## Programs that keep to it -/

/-- From no open call, the program has none open once it has ended, unless it failed for want of a
key. -/
def ClosesCalls {α : Type} (p : Action α) : Prop :=
  callDiscipline.Obeys (fun φ result => φ = .ofResult result) p .nothing

section Rules

variable {α β : Type} {φ : OpenCall}

/-- One access that is permitted, then the rest. -/
theorem callDiscipline_call {post : OpenCall → Except Cause α → Prop} {a : Access}
    {resume : a.Answer → Action α} (ha : φ.Permits a)
    (h : ∀ answer, callDiscipline.Obeys post (resume answer) (φ.next a answer)) :
    callDiscipline.Obeys post (.call a resume) φ :=
  ⟨ha, fun answer _ hmove => hmove ▸ h answer⟩

/-- Free accesses neither open a call nor close one. -/
theorem callDiscipline_only {p : Action α} (h : p.Only Access.Free) :
    callDiscipline.Obeys (fun φ' _ => φ' = φ) p φ := by
  induction p with
  | done value => rfl
  | fail cause => rfl
  | call a resume ih =>
    refine callDiscipline_call (φ.permits_free h.1) fun answer => ?_
    rw [φ.next_free h.1]
    exact ih answer (h.2 answer)

/-- Free accesses first, by a part that never fails. -/
theorem callDiscipline_then {post : OpenCall → Except Cause β → Prop} {p : Action α}
    {next : α → Action β} (h : p.Within Access.Free)
    (hnext : ∀ value, callDiscipline.Obeys post (next value) φ) :
    callDiscipline.Obeys post (p >>= next) φ := by
  induction p with
  | done value => exact hnext value
  | fail cause => exact h.elim
  | call a resume ih =>
    refine callDiscipline_call (φ.permits_free h.1) fun answer => ?_
    rw [φ.next_free h.1]
    exact ih answer (h.2 answer)

theorem ClosesCalls.done (value : α) : ClosesCalls (.done value) := rfl

theorem ClosesCalls.bind {p : Action α} {next : α → Action β} (hp : ClosesCalls p)
    (hnext : ∀ value, ClosesCalls (next value)) : ClosesCalls (p >>= next) := by
  refine Discipline.Obeys.bind (Discipline.Obeys.mono hp fun φ' result hφ' => ?_)
  cases result with
  | error cause => exact hφ'
  | ok value =>
    obtain rfl : φ' = .nothing := hφ'
    exact hnext value

theorem closes_within {p : Action α} (h : p.Within Access.Free) : ClosesCalls p := by
  have hdone : ClosesCalls (p >>= .done) := callDiscipline_then h ClosesCalls.done
  rwa [p.bind_done] at hdone

/-- The use of a cell closes its calls if the initialiser returns what may be published. -/
theorem closes_get {c : Cell} (hc : c ≠ .settings)
    (h : callDiscipline.Obeys (OpenCall.Ready c) c.compute .nothing) : ClosesCalls c.get := by
  refine callDiscipline_call trivial fun answer => ?_
  cases answer with
  | some value => rfl
  | none =>
    refine Discipline.Obeys.bind (Discipline.Obeys.onFailure (Discipline.Obeys.mono h ?_))
    intro φ' result hready
    cases result with
    | ok value => exact callDiscipline_call hready fun _ => φ'.next_publish hc value
    | error cause => exact callDiscipline_call trivial fun _ => hready

end Rules

/-! ## Cells -/

theorem Log.free_write (level : Log.Level) (message : Log.Message) :
    (Log.write level message).Within Access.Free :=
  (Log.within_write level message).mono fun _ h => h.free

theorem callDiscipline_failWith {α : Type} (φ : OpenCall) (failure : StorageFailure) :
    callDiscipline.Obeys (fun φ' result => φ' = φ ∧ result = .error (.storage failure))
      (Storage.failWith (α := α) failure) φ :=
  callDiscipline_then (Log.free_write _ _) fun _ => ⟨rfl, rfl⟩

theorem callDiscipline_createKey :
    callDiscipline.Obeys (OpenCall.Ready .key) Storage.createKey .nothing := by
  refine callDiscipline_call rfl fun answer => ?_
  cases answer with
  | ok k => exact callDiscipline_then (p := Log.write _ _) (Log.free_write _ _) fun _ => rfl
  | error code =>
    refine (callDiscipline_failWith (.created (.error code)) _).mono ?_
    rintro _ _ ⟨rfl, rfl⟩
    rfl

theorem closes_processKey : ClosesCalls Storage.processKey :=
  closes_get (c := .key) (by decide) callDiscipline_createKey

theorem closes_processBase : ClosesCalls Kernel.processBase :=
  closes_get (c := .slotBase) (by decide) <|
    callDiscipline_call rfl fun _ =>
      callDiscipline_then (p := Log.write _ _) (Log.free_write _ _) fun _ => rfl

theorem within_processBase : Kernel.processBase.Within fun _ => True :=
  within_getOrFill (c := .slotBase) trivial (fun _ => trivial)
    ⟨trivial, fun _ =>
      ((Log.within_write _ _).mono fun _ _ => trivial).bind fun _ => trivial⟩

theorem closes_directSlot : ClosesCalls Storage.directSlot := by
  refine closes_get (c := .direct) (by decide) (Discipline.Obeys.bind ?_)
  refine Discipline.Obeys.mono closes_processBase fun φ₁ found hφ₁ => ?_
  cases found with
  | error cause => exact hφ₁
  | ok base =>
    obtain rfl : φ₁ = .nothing := hφ₁
    refine Discipline.Obeys.bind (callDiscipline_createKey.mono fun φ₂ created hφ₂ => ?_)
    cases created with
    | error cause => exact hφ₂
    | ok k => exact callDiscipline_then (Log.free_write _ _) fun _ => hφ₂

/-! ## Uses -/

theorem closes_storeBehind (k : Key) (p : Pointer) : ClosesCalls (Storage.storeBehind k p) := by
  refine callDiscipline_call trivial fun code => ?_
  change ClosesCalls (if code = 0 then pure () else Storage.failWith (.notStored code))
  split
  · rfl
  · refine (callDiscipline_failWith .nothing _).mono ?_
    rintro _ _ ⟨rfl, rfl⟩
    rfl

theorem closes_hold (p : Pointer) (b : Backend) : ClosesCalls (b.hold p) := by
  cases b with
  | native => exact closes_within ⟨trivial, fun _ => trivial⟩
  | key => exact closes_processKey.bind fun k => closes_storeBehind k p
  | direct => exact closes_directSlot.bind fun slot => closes_storeBehind slot.key p
  | spy => exact closes_within ⟨trivial, fun _ => ⟨trivial, fun _ => trivial⟩⟩

/-- The call hands a pointer to the backend. -/
def Session.Call.registers : Session.Call → Bool
  | .bind _ => true
  | .bindAddress _ => true
  | .unbind => true
  | .hold _ => true
  | _ => false

/-- A call that does not register makes free accesses. -/
theorem free_call (contexts : List String) (r : Resolver) {c : Session.Call}
    (hc : c.registers = false) : (c.action contexts r).Only Access.Free := by
  have hread (hc : c.isRead = true) : (c.action contexts r).Only Access.Free :=
    (only_action contexts r hc).mono fun _ h => h.free
  have hchanged (change : Activity → Activity) :
      (Session.reschedule r change).Only Access.Free := by
    unfold Session.reschedule
    cases r.scheduler.kind with
    | absent => trivial
    | constant f => trivial
    | _ => exact ⟨trivial, fun _ => ⟨trivial, fun _ => trivial⟩⟩
  cases c with
  | bind c => cases hc
  | bindAddress c => cases hc
  | unbind => cases hc
  | hold p => cases hc
  | countCalls amount =>
    have hcurrent : (r.perform Resolver.current).Only Access.Free :=
      (only_perform r only_current).mono fun _ h => h.free
    refine (hcurrent.bind fun address => ?_).bind fun counted => ?_
    · cases address with
      | context c => exact ⟨trivial, fun _ => trivial⟩
      | foreign word => trivial
    · split <;> trivial
  | enter c => exact hchanged _
  | leave => exact hchanged _
  | setActive active => exact hchanged _
  | setFiber c => exact hchanged _
  | _ => exact hread rfl

/-- The call that a use leaves open when it ends so: it asked for the release, or it was to register
and there was no key. -/
def Use.openCall : Use → Except Cause Session.Answer → OpenCall
  | .service .askRelease, _ => .asked
  | .service _, _ => .nothing
  | .call _ _ c, result => if c.registers then .ofResult result else .nothing

theorem closes_register (contexts : List String) (r : Resolver) {c : Session.Call}
    (hc : c.registers = true) : ClosesCalls (c.action contexts r) := by
  have hheld (p : Pointer) : ClosesCalls (r.perform (Resolver.hold p)) :=
    (closes_hold p r.backend).bind fun _ => ClosesCalls.done ()
  have hbound (address : Address) : ClosesCalls (r.perform (Resolver.bindAddress address)) :=
    (closes_within (Log.free_write _ _)).bind fun _ => hheld (some address)
  cases c with
  | bind c => exact (hbound _).bind fun _ => ClosesCalls.done _
  | bindAddress c => exact (hbound _).bind fun _ => ClosesCalls.done _
  | unbind => exact (hheld none).bind fun _ => ClosesCalls.done _
  | hold p => exact (hheld p).bind fun _ => ClosesCalls.done _
  | _ => cases hc

/-- The service is of the log, or judges a release that is given. -/
def Session.Service.isLocal : Session.Service → Bool
  | .processBase => false
  | .askRelease => false
  | _ => true

theorem within_service {service : Session.Service} (h : service.isLocal = true) :
    service.action.Within Access.OfLog := by
  have hanswer {α : Type} {p : Action α} (hp : p.Within Access.OfLog)
      (answer : α → Session.Answer) :
      (p >>= fun value => .done (answer value) : Action Session.Answer).Within Access.OfLog := by
    refine hp.bind fun value => ?_
    trivial
  cases service with
  | log level text => exact hanswer (Log.within_write _ _) _
  | setLevel level =>
    exact hanswer (p := Log.setLevel level)
      (Log.within_load.bind fun _ => ⟨trivial, fun _ => trivial⟩) _
  | setFlush flush =>
    exact hanswer (p := Log.setFlush flush)
      (Log.within_load.bind fun _ => ⟨trivial, fun _ => trivial⟩) _
  | load => exact hanswer Log.within_load _
  | currentLevel => exact hanswer Log.within_currentLevel _
  | isEnabled level => exact hanswer (Log.within_isEnabled level) _
  | environmentSettings => exact ⟨trivial, fun _ => ⟨trivial, fun _ => trivial⟩⟩
  | reportedBase release =>
    exact hanswer (p := Kernel.reportedBase release)
      ((Log.within_write _ _).bind fun _ => trivial) _
  | processBase => cases h
  | askRelease => cases h

theorem callDiscipline_service (service : Session.Service) :
    callDiscipline.Obeys (fun φ result => φ = Use.openCall (.service service) result) service.action
      .nothing := by
  have hlocal (h : service.isLocal = true) :
      callDiscipline.Obeys (fun φ _ => φ = .nothing) service.action .nothing :=
    callDiscipline_only ((within_service h).mono fun _ h => h.free).only
  cases service with
  | processBase =>
    refine Discipline.Obeys.bind ((closes_processBase.returns within_processBase).mono ?_)
    rintro φ _ ⟨h, base, rfl⟩
    exact h
  | askRelease =>
    have hask : callDiscipline.Obeys (fun φ result => φ = .asked ∧ ∃ release, result = .ok release)
        Kernel.askRelease .nothing := callDiscipline_call rfl fun reply => ⟨rfl, _, rfl⟩
    refine Discipline.Obeys.bind (hask.mono ?_)
    rintro φ _ ⟨rfl, release, rfl⟩
    cases release with
    | ok text => rfl
    | error e => rfl
  | _ => exact hlocal rfl

/-- From no open call, a use leaves open at most the call that its result tells of. -/
theorem callDiscipline_action (u : Use) :
    callDiscipline.Obeys (fun φ result => φ = u.openCall result) u.action .nothing := by
  cases u with
  | service service => exact callDiscipline_service service
  | call contexts r c =>
    cases hc : c.registers with
    | true =>
      refine (closes_register contexts r hc).mono fun φ result h => ?_
      simpa [Use.openCall, hc] using h
    | false =>
      refine (callDiscipline_only (free_call contexts r hc)).mono fun φ result h => ?_
      simpa [Use.openCall, hc] using h

/-! ## The cell that a use needs -/

/-- The cell that a backend needs. -/
def Backend.cell? : Backend → Option Cell
  | .key => some .key
  | .direct => some .direct
  | _ => none

/-- The cell that a use needs, for the sake of which it may call the platform. -/
def Use.cell? : Use → Option Cell
  | .service .processBase => some .slotBase
  | .service _ => none
  | .call _ r c => if c.registers then r.backend.cell? else none

/-- Cell `c` is taken on. -/
def TakesOn (c : Option Cell) (e : Accesses.Exchange) : Prop :=
  ∃ d, c = some d ∧ e = ⟨.enter d, none⟩

theorem until_get (c : Cell) : c.get.Until Access.Free (TakesOn (some c)) := by
  refine ⟨trivial, fun answer => ?_⟩
  cases answer with
  | none => exact Or.inl ⟨c, rfl, rfl⟩
  | some value => exact Or.inr trivial

theorem until_hold (p : Pointer) (b : Backend) :
    (b.hold p).Until Access.Free (TakesOn b.cell?) := by
  have hbehind {c : Option Cell} (k : Key) :
      (Storage.storeBehind k p).Until Access.Free (TakesOn c) := by
    refine ⟨trivial, fun code => Or.inr ?_⟩
    change (if code = 0 then pure () else Storage.failWith (.notStored code) : Action Unit).Until
      Access.Free (TakesOn c)
    split
    · trivial
    · exact ((Log.free_write _ _).only.until).bind fun _ => trivial
  cases b with
  | native => exact ⟨trivial, fun _ => Or.inr trivial⟩
  | key => exact (until_get .key).bind hbehind
  | direct => exact (until_get .direct).bind fun slot => hbehind slot.key
  | spy => exact ⟨trivial, fun _ => Or.inr ⟨trivial, fun _ => Or.inr trivial⟩⟩

/-- A use makes free accesses until it takes on the cell that it needs; the one that asks for the
release needs none. -/
theorem until_action {u : Use} (hu : u ≠ .service .askRelease) :
    u.action.Until Access.Free (TakesOn u.cell?) := by
  cases u with
  | service service =>
    have hlocal (h : service.isLocal = true) : service.action.Until Access.Free
        (TakesOn (Use.service service).cell?) :=
      ((within_service h).mono fun _ h => h.free).only.until
    cases service with
    | processBase => exact (until_get .slotBase).bind fun _ => trivial
    | askRelease => exact absurd rfl hu
    | _ => exact hlocal rfl
  | call contexts r c =>
    cases hc : c.registers with
    | false => exact (free_call contexts r hc).until
    | true =>
      have hcell : Use.cell? (.call contexts r c) = r.backend.cell? := by simp [Use.cell?, hc]
      rw [hcell]
      have hheld (p : Pointer) : (r.perform (Resolver.hold p)).Until Access.Free
          (TakesOn r.backend.cell?) := (until_hold p r.backend).bind fun _ => trivial
      have hbound (address : Address) : (r.perform (Resolver.bindAddress address)).Until Access.Free
          (TakesOn r.backend.cell?) := ((Log.free_write _ _).only.until).bind fun _ => hheld _
      cases c with
      | bind c => exact (hbound _).bind fun _ => trivial
      | bindAddress c => exact (hbound _).bind fun _ => trivial
      | unbind => exact (hheld none).bind fun _ => trivial
      | hold p => exact (hheld p).bind fun _ => trivial
      | _ => cases hc

end ExecContext
