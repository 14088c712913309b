import ExecContext.Proofs.Session.Course

set_option autoImplicit false

/-!
# What a task does

`does_doTask` says once what any task of any thread may do to a session at rest: it binds through a
backend, reschedules, counts, changes the platform, or leaves all of this as it was. Whatever else
is said of tasks follows from that.
-/

namespace ExecContext

namespace Session

/-! ## Kinds of calls -/

/-- The pointer that a call lets the backend hold. -/
def Call.written? : Call → Option Pointer
  | .bind c => some (some (.context c))
  | .bindAddress c => some (some (.context c))
  | .hold p => some p
  | .unbind => some none
  | _ => none

/-- What a call makes of the activity of the scheduler on the calling thread. -/
def Call.change? : Call → Option (Activity → Activity)
  | .enter c => some fun _ => .running c
  | .leave => some fun _ => .idle
  | .setActive active => some fun a => { a with active }
  | .setFiber c => some fun a => { a with fiber := c.map Fiber.mk }
  | _ => none

/-- The scheduler keeps an activity that may change. -/
def keepsActivity (sched : Scheduler) : Prop :=
  sched.kind = .perThread ∨ sched.kind = .shared

variable {session : Session} {t : ThreadId}

/-! ## Reports -/

@[simp] theorem ofFinish_returned (name : Option String) (answer : Answer) (s : Process)
    (events : List Event) :
    (Report.ofFinish name ⟨.returned answer, s, events⟩).answer = answer := by
  cases answer <;> rfl

@[simp] theorem ofFinish_failed (name : Option String) (cause : Cause) (s : Process)
    (events : List Event) :
    (Report.ofFinish name ⟨.failed cause, s, events⟩).answer = .panicked (cause.message name) :=
  rfl

/-! ## Services -/

/-- A use of the log or of the platform returns, binds nothing and creates no key. -/
theorem run_service {s : Process} (h : s.Sound) (t : ThreadId) (service : Service) :
    ∃ answer s' events, s.run t service.action = ⟨.returned answer, s', events⟩ ∧
      s.Steady s' ∧ ∀ b, s'.keyOf b = s.keyOf b := by
  have hloaded : s.Steady s.loaded ∧ ∀ b, s.loaded.keyOf b = s.keyOf b :=
    ⟨h.steady_loaded, s.keyOf_loaded⟩
  have hupdate (level : Log.Level) (flush : Bool) :
      s.Steady { s.loaded with level := level, flush := flush } ∧
        ∀ b, s.loaded.keyOf b = s.keyOf b :=
    ⟨hloaded.1.trans (hloaded.1.sound.steady_update _ _ _ (fun _ hk => hk) rfl rfl rfl),
      s.keyOf_loaded⟩
  have hnoted (level : Log.Level) :
      s.Steady (s.noted level) ∧ ∀ b, (s.noted level).keyOf b = s.keyOf b := by
    unfold Process.noted
    split
    · exact ⟨.refl h, fun _ => rfl⟩
    · exact hloaded
  cases service with
  | log level text =>
    exact ⟨_, _, _, Process.run_bind_of_returned (Process.run_write h.logFree level _) _,
      hnoted level⟩
  | setLevel level =>
    exact ⟨_, _, _, Process.run_bind_of_returned (Process.run_setLevel h.logFree level) _,
      hupdate level _⟩
  | setFlush flush =>
    exact ⟨_, _, _, Process.run_bind_of_returned (Process.run_setFlush h.logFree flush) _,
      hupdate _ flush⟩
  | load =>
    exact ⟨_, _, _, Process.run_bind_of_returned (Process.run_load h.logFree) _, hloaded⟩
  | currentLevel =>
    exact ⟨_, _, _, Process.run_bind_of_returned (Process.run_currentLevel h.logFree) _, hloaded⟩
  | isEnabled level =>
    exact ⟨_, _, _, Process.run_bind_of_returned (Process.run_isEnabled h.logFree level) _,
      hnoted level⟩
  | environmentSettings =>
    exact ⟨_, _, _, Process.run_bind_of_returned (Process.run_environmentSettings s t) _,
      .refl h, fun _ => rfl⟩
  | processBase =>
    obtain ⟨events, hrun⟩ := Process.run_processBase (t := t) h.logFree (h.idle .slotBase)
    exact ⟨_, _, _, Process.run_bind_of_returned hrun _, h.steady_based, s.keyOf_based⟩
  | askRelease =>
    have hrun (next : Except Kernel.ProbeFailure String → Action Answer) :=
      Process.run_bind_of_returned (Process.run_askRelease s t) next
    have hasked : s.Steady s.unameAsked ∧ ∀ b, s.unameAsked.keyOf b = s.keyOf b :=
      ⟨h.steady_unameAsked, fun _ => rfl⟩
    cases hrelease : s.platform.uname.release with
    | ok text =>
      refine ⟨.release text, _, [], (hrun _).trans ?_, hasked⟩
      rw [hrelease]
      rfl
    | error e =>
      refine ⟨.noRelease e, _, [], (hrun _).trans ?_, hasked⟩
      rw [hrelease]
      rfl
  | reportedBase release =>
    exact ⟨_, _, _, Process.run_bind_of_returned (Process.run_reportedBase h.logFree release) _,
      hloaded⟩

/-! ## Calls -/

theorem heldBy_eq (session : Session) (t : ThreadId) (b : Backend) :
    session.heldBy t b = session.process.held b t := by
  obtain ⟨seen, hrun⟩ := Process.reads_held session.process t b
  simp [heldBy, hrun]

/-- A call that lets the backend hold a pointer holds it or fails. -/
theorem held_action {s : Process} (h : s.Sound) (contexts : List String) (t : ThreadId)
    (r : Resolver) {call : Call} {p : Pointer} (hw : call.written? = some p) :
    s.Held t r.backend p Answer.ok (s.run t (call.action contexts r)) := by
  cases call with
  | bind c => cases hw; exact (Process.held_bindAddress h t r (.context c)).returning _
  | bindAddress c => cases hw; exact (Process.held_bindAddress h t r (.context c)).returning _
  | unbind => cases hw; exact (Process.held_hold h t r none).returning _
  | hold q => cases hw; exact (Process.held_hold h t r _).returning _
  | _ => cases hw

/-- The process after the activity of a scheduler on a thread is changed. -/
def rescheduled (s : Process) (t : ThreadId) (sched : Scheduler)
    (change : Activity → Activity) : Process :=
  { s with
    activities := s.activities.set sched.number (sched.seat t) (change (s.activity sched t)) }

/-- A scheduler that keeps an activity is rescheduled, and any other is not there to be. -/
theorem run_action_of_change (s : Process) (contexts : List String) (t : ThreadId) (r : Resolver)
    {call : Call} {change : Activity → Activity} (hc : call.change? = some change) :
    (keepsActivity r.scheduler ∧ s.run t (call.action contexts r) =
      ⟨.returned (.applied true), rescheduled s t r.scheduler change, []⟩) ∨
    (¬keepsActivity r.scheduler ∧ s.run t (call.action contexts r) =
      ⟨.returned (.applied false), s, []⟩) := by
  have haction : call.action contexts r = reschedule r change := by
    cases call <;> cases hc <;> rfl
  rw [haction]
  unfold reschedule keepsActivity
  cases hkind : r.scheduler.kind with
  | absent => exact Or.inr ⟨by simp, rfl⟩
  | constant f => exact Or.inr ⟨by simp, rfl⟩
  | perThread =>
    refine Or.inl ⟨Or.inl rfl, ?_⟩
    simp [Process.run_call, Process.perform, Effect.read, Effect.write, rescheduled,
      Process.activity, hkind]
  | shared =>
    refine Or.inl ⟨Or.inr rfl, ?_⟩
    simp [Process.run_call, Process.perform, Effect.read, Effect.write, rescheduled,
      Process.activity, hkind]

/-- The process after calls were added to the counter of a context. -/
def counted (s : Process) (c : ContextId) (amount : Int64) : Process :=
  { s with calls := fun d => if d = c then s.calls c + amount else s.calls d }

/-- Calls are counted for the current context, if it is known to be one. -/
theorem run_countCalls (s : Process) (contexts : List String) (t : ThreadId) (r : Resolver)
    (amount : Int64) :
    (∃ c events, (s.resolution r t).toPointer = some (.context c) ∧
      s.run t (Call.action contexts r (.countCalls amount)) =
        ⟨.returned (.counted c (s.calls c + amount)), counted s c amount, events⟩) ∨
    (∃ word events, (s.resolution r t).toPointer = some (.foreign word) ∧
      s.run t (Call.action contexts r (.countCalls amount)) =
        ⟨.returned (.refused .dangling), s, events⟩) ∨
    (∃ events, (s.resolution r t).toPointer = none ∧
      s.run t (Call.action contexts r (.countCalls amount)) =
        ⟨.failed .unbound, s, events⟩) := by
  cases hp : (s.resolution r t).toPointer with
  | none =>
    obtain ⟨seen, hrun⟩ := Process.run_current_of_unbound hp
    exact Or.inr (Or.inr ⟨_, rfl, Process.run_bind_of_failed
      (Process.run_bind_of_failed hrun _) _⟩)
  | some address =>
    obtain ⟨seen, hrun⟩ := Process.reads_current hp
    cases address with
    | context c =>
      refine Or.inl ⟨c, seen.map (.observed t), rfl, ?_⟩
      simp only [Call.action, Resolver.countCalls, Program.bind_bind]
      rw [Process.run_bind_of_returned hrun]
      simp [Process.run_call, Process.perform, counted]
    | foreign word =>
      refine Or.inr (Or.inl ⟨word, seen.map (.observed t), rfl, ?_⟩)
      simp only [Call.action, Resolver.countCalls, Program.bind_bind]
      rw [Process.run_bind_of_returned hrun]
      simp

/-! ## Calls that only read -/

section Reading

variable (s : Process) (contexts : List String) (t : ThreadId) (r : Resolver)

theorem reads_action_resolve :
    s.Reads t (Call.action contexts r .resolve) (.resolved (s.resolution r t)) :=
  (Process.reads_resolve s t r).bind (.done s t _)

theorem reads_action_current? :
    s.Reads t (Call.action contexts r .current?)
      (.ofPointer contexts (s.resolution r t).toPointer) :=
  (Process.reads_current? s t r).bind (.done s t _)

theorem reads_action_held :
    s.Reads t (Call.action contexts r .held) (.pointer (s.held r.backend t)) := by
  have hheld : s.Reads t (r.perform Resolver.held) (s.held r.backend t) := by
    unfold Resolver.held
    rw [Process.perform_request]
    exact Process.reads_held s t r.backend
  exact hheld.bind (.done s t _)

variable {s}

theorem reads_action_current {address : Address}
    (h : (s.resolution r t).toPointer = some address) :
    s.Reads t (Call.action contexts r .current) (.ofAddress contexts address) :=
  (Process.reads_current h).bind (.done s t _)

theorem run_action_current_of_unbound (h : (s.resolution r t).toPointer = none) :
    ∃ events, s.run t (Call.action contexts r .current) = ⟨.failed .unbound, s, events⟩ := by
  obtain ⟨seen, hrun⟩ := Process.run_current_of_unbound h
  exact ⟨_, Process.run_bind_of_failed hrun _⟩

variable (s)

/-- A call that neither holds, nor reschedules, nor counts leaves the process as it was. -/
theorem run_action_of_read {call : Call} (hw : call.written? = none) (hc : call.change? = none)
    (hcount : ∀ amount, call ≠ .countCalls amount) :
    ∃ outcome events, s.run t (call.action contexts r) = ⟨outcome, s, events⟩ := by
  have hreads {answer : Answer} (h : s.Reads t (call.action contexts r) answer) :
      ∃ outcome events, s.run t (call.action contexts r) = ⟨outcome, s, events⟩ := by
    obtain ⟨seen, hrun⟩ := h
    exact ⟨_, _, hrun⟩
  cases call with
  | current =>
    cases hp : (s.resolution r t).toPointer with
    | none =>
      obtain ⟨events, hrun⟩ := run_action_current_of_unbound contexts t r hp
      exact ⟨_, _, hrun⟩
    | some address => exact hreads (reads_action_current contexts t r hp)
  | current? => exact hreads (reads_action_current? s contexts t r)
  | resolve => exact hreads (reads_action_resolve s contexts t r)
  | held => exact hreads (reads_action_held s contexts t r)
  | backendName => exact hreads (.done s t _)
  | ownsThread =>
    have howns : s.Reads t (r.perform Resolver.ownsThread)
        (s.activity r.scheduler t).active := by
      unfold Resolver.ownsThread
      rw [Process.perform_request]
      exact Process.reads_ownsThread s t r.scheduler
    exact hreads (howns.bind (.done s t _))
  | runningFiber =>
    have hfiber : s.Reads t (r.perform Resolver.runningFiber)
        (s.activity r.scheduler t).fiber := by
      unfold Resolver.runningFiber
      rw [Process.perform_request]
      exact Process.reads_runningFiber s t r.scheduler
    have hcontext (f : Fiber) : s.Reads t (r.perform (Resolver.contextOf f)) f.context := by
      unfold Resolver.contextOf
      rw [Process.perform_request]
      exact Process.reads_contextOf s t r.scheduler f
    cases hrunning : (s.activity r.scheduler t).fiber with
    | none =>
      rw [hrunning] at hfiber
      exact hreads (hfiber.bind (.done s t (Answer.fiber none)))
    | some f =>
      rw [hrunning] at hfiber
      exact hreads (hfiber.bind ((hcontext f).bind (.done s t _)))
  | countCalls amount => exact absurd rfl (hcount amount)
  | bind c => cases hw
  | bindAddress c => cases hw
  | unbind => cases hw
  | hold p => cases hw
  | enter c => cases hc
  | leave => cases hc
  | setActive active => cases hc
  | setFiber c => cases hc

end Reading

/-! ## What a thread is told -/

section Told

variable {r : Option Nat} {resolver : Resolver} (hr : session.resolver? r = some resolver)
include hr

theorem answer_resolve (t : ThreadId) :
    (session.doTask t (.resolver r (some .resolve))).reports.answer =
      .resolved (session.process.resolution resolver t) := by
  obtain ⟨seen, hrun⟩ :=
    reads_action_resolve session.process session.setup.contexts t resolver
  simp [doTask, hr, makeCall, namesNoContext, Call.context?, Call.followsPointer, perform, hrun]

/-- Nothing is read through a pointer that is no context's. -/
theorem answer_of_foreign {call : Call} (hfollows : call.followsPointer = true)
    (hforeign : (session.process.held resolver.backend t).isForeign = true) :
    (session.doTask t (.resolver r (some call))).reports.answer = .refused .dangling := by
  have hnames : session.namesNoContext call = false := by
    cases call <;> first | rfl | cases hfollows
  simp [doTask, hr, makeCall, hnames, hfollows, heldBy_eq, hforeign, refuse, tell]

theorem answer_current?
    (hforeign : (session.process.held resolver.backend t).isForeign = false) :
    (session.doTask t (.resolver r (some .current?))).reports.answer =
      .ofPointer session.setup.contexts (session.process.resolution resolver t).toPointer := by
  obtain ⟨seen, hrun⟩ :=
    reads_action_current? session.process session.setup.contexts t resolver
  simp [doTask, hr, makeCall, namesNoContext, Call.context?, heldBy_eq, hforeign, perform, hrun]

theorem answer_current
    (hforeign : (session.process.held resolver.backend t).isForeign = false) :
    (session.doTask t (.resolver r (some .current))).reports.answer =
      match (session.process.resolution resolver t).toPointer with
      | some address => .ofAddress session.setup.contexts address
      | none => .panicked (Cause.unbound.message (session.process.nameOf t)) := by
  cases hp : (session.process.resolution resolver t).toPointer with
  | some address =>
    obtain ⟨seen, hrun⟩ := reads_action_current session.setup.contexts t resolver hp
    simp [doTask, hr, makeCall, namesNoContext, Call.context?, heldBy_eq, hforeign, perform, hrun]
  | none =>
    obtain ⟨events, hrun⟩ :=
      run_action_current_of_unbound session.setup.contexts t resolver hp
    simp [doTask, hr, makeCall, namesNoContext, Call.context?, heldBy_eq, hforeign, perform, hrun]

theorem answer_held (t : ThreadId) :
    (session.doTask t (.resolver r (some .held))).reports.answer =
      .pointer (session.process.held resolver.backend t) := by
  obtain ⟨seen, hrun⟩ :=
    reads_action_held session.process session.setup.contexts t resolver
  simp [doTask, hr, makeCall, namesNoContext, Call.context?, Call.followsPointer, perform, hrun]

/-- A call that lets the backend hold a pointer is always made, unless it names no context. -/
theorem held_doTask (h : session.process.Sound) {call : Call} {p : Pointer}
    (hw : call.written? = some p) (hnames : session.namesNoContext call = false) (t : ThreadId) :
    ∃ finish : Finish Answer,
      session.process.Held t resolver.backend p Answer.ok finish ∧
      (session.doTask t (.resolver r (some call))).reports =
        .ofFinish (session.process.nameOf t) finish ∧
      (session.doTask t (.resolver r (some call))).next =
        { session with process := finish.process } := by
  have hfollows : call.followsPointer = false := by
    cases call <;> first | rfl | cases hw
  refine ⟨_, held_action h session.setup.contexts t resolver hw, ?_, ?_⟩ <;>
    simp [doTask, hr, makeCall, hnames, hfollows, perform]

/-- A binding that meets no fault succeeds. -/
theorem holding_doTask (h : session.process.Sound) {call : Call} {p : Pointer}
    (hw : call.written? = some p) (hnames : session.namesNoContext call = false)
    (hfault : session.process.fault? resolver.backend = none) (t : ThreadId) :
    ∃ s', (session.doTask t (.resolver r (some call))).reports.answer = .ok ∧
      (session.doTask t (.resolver r (some call))).next = { session with process := s' } ∧
      session.process.Holding t resolver.backend p s' ∧
      session.process.Left resolver.backend s' none := by
  obtain ⟨finish, hheld, hreports, hnext⟩ := held_doTask hr h hw hnames t
  cases hheld with
  | @kept s' events _ hs hapart hleft =>
    exact ⟨s', by rw [hreports]; rfl, hnext, hs, hleft⟩
  | failed events hsome hs hapart hleft =>
    rw [hfault] at hsome
    cases hsome

/-- A binding that meets a fault fails and leaves every binding as it was. -/
theorem steady_doTask (h : session.process.Sound) {call : Call} {p : Pointer}
    {failure : StorageFailure} (hw : call.written? = some p)
    (hnames : session.namesNoContext call = false)
    (hfault : session.process.fault? resolver.backend = some failure) (t : ThreadId) :
    ∃ s', (session.doTask t (.resolver r (some call))).reports.answer =
        .panicked ("rtlocal: " ++ failure.message) ∧
      (session.doTask t (.resolver r (some call))).next = { session with process := s' } ∧
      session.process.Steady s' ∧ session.process.Left resolver.backend s' (some failure) := by
  obtain ⟨finish, hheld, hreports, hnext⟩ := held_doTask hr h hw hnames t
  cases hheld with
  | kept events hnone hs hapart hleft =>
    rw [hfault] at hnone
    cases hnone
  | @failed s' failure' events hsome hs hapart hleft =>
    rw [hfault] at hsome
    cases hsome
    exact ⟨s', by rw [hreports]; rfl, hnext, hs, hleft⟩

end Told

/-! ## Tasks -/

/-- A task lets no backend `b` hold a pointer. -/
def Spares (session : Session) (b : Backend) (task : Task) : Prop :=
  ∀ r resolver call, task = .resolver r (some call) → session.resolver? r = some resolver →
    resolver.backend = b → call.written? = none

/-- What a task does to a process, and how it is answered where that matters to a binding, to a
scheduler or to a counter. -/
inductive Does (session : Session) (t : ThreadId) : Task → Answer → Process → Prop where
  /-- every binding, every scheduler and every counter stays as it was -/
  | steady {task : Task} {answer : Answer} {s' : Process} (hs : session.process.Steady s')
    (hkeys : ∀ b, session.Spares b task → s'.keyOf b = session.process.keyOf b)
    (hquiet : ∀ r call, task = .resolver r (some call) →
      (call.written? ≠ none → answer ≠ .ok) ∧ (call.change? ≠ none → answer ≠ .applied true)) :
    Does session t task answer s'
  /-- a pointer is held -/
  | held {r : Option Nat} {resolver : Resolver} {call : Call} {p : Pointer} {s' : Process}
    (hr : session.resolver? r = some resolver) (hw : call.written? = some p)
    (hs : session.process.Holding t resolver.backend p s')
    (hapart : session.process.Apart resolver.backend s') :
    Does session t (.resolver r (some call)) .ok s'
  /-- a scheduler is rescheduled -/
  | rescheduled {r : Option Nat} {resolver : Resolver} {call : Call}
    {change : Activity → Activity} (hr : session.resolver? r = some resolver)
    (hc : call.change? = some change) (hkeeps : keepsActivity resolver.scheduler) :
    Does session t (.resolver r (some call)) (.applied true)
      (rescheduled session.process t resolver.scheduler change)
  /-- calls are counted -/
  | counted {r : Option Nat} {resolver : Resolver} {amount : Int64} {c : ContextId}
    (hr : session.resolver? r = some resolver)
    (hp : (session.process.resolution resolver t).toPointer = some (.context c)) :
    Does session t (.resolver r (some (.countCalls amount)))
      (.counted c (session.process.calls c + amount)) (counted session.process c amount)
  /-- the platform changes -/
  | changed {c : Platform.Change} :
    Does session t (.change c) .ok (session.process.changePlatform c)

/-- An answer that tells of no change, with everything as it was. -/
theorem Does.told (h : session.process.Sound) {task : Task} {answer : Answer}
    (hok : answer ≠ .ok) (happlied : answer ≠ .applied true) :
    Does session t task answer session.process :=
  .steady (.refl h) (fun _ _ => rfl) fun _ _ _ => ⟨fun _ => hok, fun _ => happlied⟩

/-- What the action of a call does. -/
theorem does_action (h : session.process.Sound) (t : ThreadId) {r : Option Nat}
    {resolver : Resolver} (hr : session.resolver? r = some resolver) (call : Call) :
    let finish := session.process.run t (call.action session.setup.contexts resolver)
    Does session t (.resolver r (some call))
      (Report.ofFinish (session.process.nameOf t) finish).answer finish.process := by
  intro finish
  cases hw : call.written? with
  | some p =>
    have hheld := held_action h session.setup.contexts t resolver hw
    generalize hfinish : finish = f
    rw [show session.process.run t _ = f from hfinish] at hheld
    cases hheld with
    | kept events hfault hs hapart hleft => exact .held hr hw hs hapart
    | failed events hfault hs hapart hleft =>
      refine .steady hs (fun b hspares => hapart b ?_) fun _ _ _ => ⟨by simp, by simp⟩
      -- the backend that failed is not spared
      rintro rfl
      rw [hspares r resolver call rfl hr rfl] at hw
      cases hw
  | none =>
    cases hc : call.change? with
    | some change =>
      rcases run_action_of_change session.process session.setup.contexts t resolver hc with
        ⟨hkeeps, hrun⟩ | ⟨hkeeps, hrun⟩
      · rw [show finish = _ from hrun]
        exact .rescheduled hr hc hkeeps
      · rw [show finish = _ from hrun]
        exact .told h (by simp) (by simp)
    | none =>
      by_cases hcount : ∃ amount, call = .countCalls amount
      · obtain ⟨amount, rfl⟩ := hcount
        rcases run_countCalls session.process session.setup.contexts t resolver amount with
          ⟨c, events, hp, hrun⟩ | ⟨word, events, hp, hrun⟩ | ⟨events, hp, hrun⟩
        · rw [show finish = _ from hrun]
          exact .counted hr hp
        · rw [show finish = _ from hrun]
          exact .told h (by simp) (by simp)
        · rw [show finish = _ from hrun]
          exact .told h (by simp) (by simp)
      · obtain ⟨outcome, events, hrun⟩ := run_action_of_read session.process
          session.setup.contexts t resolver hw hc fun amount heq => hcount ⟨amount, heq⟩
        rw [show finish = _ from hrun]
        refine .steady (.refl h) (fun _ _ => rfl) fun r' call' heq => ?_
        cases heq
        simp [hw, hc]

/-- What any task of any thread does. -/
theorem does_doTask (h : session.process.Sound) (t : ThreadId) (task : Task) :
    ∃ s', (session.doTask t task).next = { session with process := s' } ∧
      Does session t task (session.doTask t task).reports.answer s' := by
  have hrefuse (reason : Refusal) :
      Does session t task (session.refuse reason).reports.answer session.process :=
    .told h (by simp [refuse, tell]) (by simp [refuse, tell])
  cases task with
  | unreadable reason => exact ⟨_, rfl, hrefuse reason⟩
  | counts => exact ⟨_, rfl, .told h (by simp [doTask, tell]) (by simp [doTask, tell])⟩
  | service service =>
    obtain ⟨answer, s', events, hrun, hs, hkeys⟩ := run_service h t service
    refine ⟨s', ?_, .steady hs (fun b _ => hkeys b) fun _ _ heq => by cases heq⟩
    simp [doTask, perform, hrun]
  | change c =>
    by_cases hadmits : admitsChange c
    · simp only [doTask, hadmits, if_true]
      exact ⟨_, rfl, .changed⟩
    · simp only [doTask, hadmits]
      exact ⟨_, rfl, hrefuse _⟩
  | resolver r call =>
    cases hr : session.resolver? r with
    | none =>
      simp only [doTask, hr]
      exact ⟨_, rfl, hrefuse _⟩
    | some resolver =>
      cases call with
      | none =>
        simp only [doTask, hr]
        exact ⟨_, rfl, hrefuse _⟩
      | some call =>
        simp only [doTask, hr]
        unfold makeCall
        split
        · exact ⟨_, rfl, hrefuse _⟩
        · split
          · exact ⟨_, rfl, hrefuse _⟩
          · exact ⟨_, rfl, does_action h t hr call⟩

end Session

end ExecContext
