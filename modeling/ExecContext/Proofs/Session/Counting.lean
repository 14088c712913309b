import ExecContext.Proofs.Session.History

set_option autoImplicit false

/-!
# Whose calls are counted

A call is counted for the context that owns the caller: that of the fiber that the resolver's
scheduler runs on the calling thread, else the one that the thread was bound to last. Both are read
off the history of a session, so the counter of a context is a sum over that history. An entry adds
to at most one counter (`calls_entry`), and the counters add up along every course.
-/

namespace ExecContext

/-- The context of the fiber that runs, while the thread is owned. -/
def Activity.running? (a : Activity) : Option ContextId :=
  if a.active then a.fiber.map Fiber.context else none

/-- The context that is pointed to. -/
def Pointer.context? : Pointer → Option ContextId
  | some (.context c) => some c
  | _ => none

namespace Session

/-! ## Owners -/

/-- The context that owns a caller, told by what the scheduler does and what the thread is bound to:
none if the thread is bound to something that is not a context. -/
def owner? (a : Activity) (bound : Pointer) : Option ContextId :=
  if bound.isForeign then none else a.running?.or (Pointer.context? bound)

theorem owner?_of_foreign {bound : Pointer} (hforeign : bound.isForeign = true) (a : Activity) :
    owner? a bound = none := if_pos hforeign

/-- Resolving finds the owner, if it is known to find a context. -/
theorem toPointer_found {bound : Pointer} (hforeign : bound.isForeign = false) (a : Activity) :
    (Resolution.found a bound).toPointer = (owner? a bound).map .context := by
  have hbound : bound = (Pointer.context? bound).map .context := by
    rcases bound with - | (c | word)
    · rfl
    · rfl
    · cases hforeign
  have howner : owner? a bound = a.running?.or (Pointer.context? bound) := by
    simp [owner?, hforeign]
  rw [howner]
  obtain ⟨active, fiber⟩ := a
  cases active with
  | false => exact (Resolution.toPointer_ofPointer bound).trans hbound
  | true =>
    cases fiber with
    | none => exact (Resolution.toPointer_ofPointer bound).trans hbound
    | some f => rfl

/-- The context that owns what thread `t` does through a resolver after a history. -/
def ownerAfter (setup : Setup) (resolver : Resolver) (t : ThreadId) (history : List Entry) :
    Option ContextId :=
  owner? (activityAfter setup resolver.scheduler t history)
    (latest setup resolver.backend t history)

/-! ## Sums over a history -/

/-- What an entry that was done after a history adds to the counter of context `c`. -/
def Entry.added (setup : Setup) (c : ContextId) (history : List Entry) (d : Entry) : Int64 :=
  match d.task with
  | .resolver r (some (.countCalls amount)) =>
    if (setup.resolver? r).bind (ownerAfter setup · d.thread history) = some c then amount else 0
  | _ => 0

/-- The calls that a history counts for context `c`: what its entries add, each by the entries
before it. -/
def callsAfter (setup : Setup) (c : ContextId) (history : List Entry) : Int64 :=
  (history.mapIdx fun n d => d.added setup c (history.take n)).sum

theorem callsAfter_concat (setup : Setup) (c : ContextId) (history : List Entry) (d : Entry) :
    callsAfter setup c (history ++ [d]) = callsAfter setup c history + d.added setup c history := by
  have hbefore : (history.mapIdx fun n e => e.added setup c ((history ++ [d]).take n)) =
      history.mapIdx fun n e => e.added setup c (history.take n) := by
    refine List.mapIdx_eq_mapIdx_iff.mpr fun n hn => ?_
    rw [List.take_append_of_le_length (Nat.le_of_lt hn)]
  unfold callsAfter
  rw [List.mapIdx_concat, hbefore, List.take_left, List.sum_append, List.sum_singleton]

/-- An entry counts no calls through the direct backend, which may give back other pointers than it
was let hold. -/
def Entry.AvoidsDirect (setup : Setup) (d : Entry) : Prop :=
  ∀ r resolver amount, d.task = .resolver r (some (.countCalls amount)) →
    setup.resolver? r = some resolver → resolver.backend ≠ .direct

/-! ## What an entry does to the counters -/

section Entries

variable {setup : Setup} {session : Session} {history : List Entry} {t : ThreadId} {r : Option Nat}
  {resolver : Resolver}

/-- A task counts calls, through a resolver that there is. -/
def Counts (session : Session) (task : Task) : Prop :=
  ∃ r resolver amount, session.resolver? r = some resolver ∧
    task = .resolver r (some (.countCalls amount))

/-- Nothing but counting changes a counter. -/
theorem Does.calls {task : Task} {answer : Answer} {s' : Process}
    (does : Does session t task answer s') (hcounts : ¬session.Counts task) :
    s'.calls = session.process.calls := by
  cases does with
  | steady hs _ _ => exact hs.calls
  | held _ _ hs _ => exact hs.calls
  | rescheduled _ _ _ => rfl
  | counted hr _ => exact absurd ⟨_, _, _, hr, rfl⟩ hcounts
  | changed => rfl

/-- A resolver finds the owner, unless the thread is bound to something that is not a context. -/
theorem toPointer_resolution
    (hforeign : (session.process.held resolver.backend t).isForeign = false) :
    (session.process.resolution resolver t).toPointer =
      (owner? (session.process.activity resolver.scheduler t)
        (session.process.held resolver.backend t)).map .context :=
  toPointer_found hforeign _

section Counted

variable (hr : session.resolver? r = some resolver) (t : ThreadId) (amount : Int64)
include hr

/-- Calls are counted at once, unless the thread is bound to something that is not a context. -/
theorem doTask_countCalls
    (hforeign : (session.process.held resolver.backend t).isForeign = false) :
    session.doTask t (.resolver r (some (.countCalls amount))) =
      session.perform t (Call.action session.setup.contexts resolver (.countCalls amount)) := by
  simp [doTask, hr, makeCall, namesNoContext, Call.context?, heldBy_eq, hforeign]

theorem doTask_countCalls_of_foreign
    (hforeign : (session.process.held resolver.backend t).isForeign = true) :
    session.doTask t (.resolver r (some (.countCalls amount))) = session.refuse .dangling := by
  simp [doTask, hr, makeCall, namesNoContext, Call.context?, Call.followsPointer, heldBy_eq,
    hforeign]

/-- A call is counted for its owner. -/
theorem counted_doTask {c : ContextId}
    (howner : owner? (session.process.activity resolver.scheduler t)
      (session.process.held resolver.backend t) = some c) :
    let part := session.doTask t (.resolver r (some (.countCalls amount)))
    part.reports.answer = .counted c (session.process.calls c + amount) ∧
      part.next = { session with process := counted session.process c amount } := by
  intro part
  cases hforeign : (session.process.held resolver.backend t).isForeign with
  | true =>
    rw [owner?_of_foreign hforeign] at howner
    cases howner
  | false =>
    have hfound : (session.process.resolution resolver t).toPointer = some (.context c) := by
      rw [toPointer_resolution hforeign, howner]
      rfl
    have hpart : part = session.perform t _ := doTask_countCalls hr t amount hforeign
    rw [hpart]
    unfold perform
    rcases run_countCalls session.process session.setup.contexts t resolver amount with
      ⟨c', events, hp, hrun⟩ | ⟨word, events, hp, hrun⟩ | ⟨events, hp, hrun⟩
    · rw [hfound] at hp
      cases hp
      rw [hrun]
      exact ⟨ofFinish_returned _ _ _ _, rfl⟩
    · rw [hfound] at hp
      cases hp
    · rw [hfound] at hp
      cases hp

/-- A call that nobody owns is refused or fails, and changes nothing. -/
theorem uncounted_doTask
    (howner : owner? (session.process.activity resolver.scheduler t)
      (session.process.held resolver.backend t) = none) :
    let part := session.doTask t (.resolver r (some (.countCalls amount)))
    part.next = session ∧ part.reports.answer =
      if (session.process.held resolver.backend t).isForeign then
        .refused .dangling
      else
        .panicked (Cause.unbound.message (session.process.nameOf t)) := by
  intro part
  cases hforeign : (session.process.held resolver.backend t).isForeign with
  | true =>
    have hpart : part = session.refuse .dangling :=
      doTask_countCalls_of_foreign hr t amount hforeign
    rw [hpart]
    exact ⟨rfl, rfl⟩
  | false =>
    have hfound : (session.process.resolution resolver t).toPointer = none := by
      rw [toPointer_resolution hforeign, howner]
      rfl
    have hpart : part = session.perform t _ := doTask_countCalls hr t amount hforeign
    rw [hpart]
    unfold perform
    rcases run_countCalls session.process session.setup.contexts t resolver amount with
      ⟨c', events, hp, hrun⟩ | ⟨word, events, hp, hrun⟩ | ⟨events, hp, hrun⟩
    · rw [hfound] at hp
      cases hp
    · rw [hfound] at hp
      cases hp
    · rw [hrun]
      exact ⟨rfl, rfl⟩

end Counted

/-- A scheduler and a backend tell the owner that the history tells. -/
theorem Follows.owner (h : Follows setup history session)
    (hr : setup.resolver? r = some resolver) (hb : resolver.backend ≠ .direct) (t : ThreadId) :
    owner? (session.process.activity resolver.scheduler t)
      (session.process.held resolver.backend t) = ownerAfter setup resolver t history := by
  unfold ownerAfter
  rw [h.activity r resolver t hr, h.held hb]

/-- What counting adds to the counter of a context, by the owner of the caller. -/
theorem added_countCalls (hr : setup.resolver? r = some resolver) (name : Option String)
    (answer : Answer) (t : ThreadId) (amount : Int64) (c : ContextId) :
    Entry.added setup c history ⟨t, name, .resolver r (some (.countCalls amount)), answer⟩ =
      if ownerAfter setup resolver t history = some c then amount else 0 := by
  simp only [Entry.added, hr, Option.bind_some]

/-- No other entry adds to a counter. -/
theorem added_of_not_counts (h : Follows setup history session) {task : Task}
    (hcounts : ¬session.Counts task) (name : Option String) (answer : Answer) (t : ThreadId)
    (c : ContextId) : Entry.added setup c history ⟨t, name, task, answer⟩ = 0 := by
  unfold Entry.added
  split
  · rename_i r amount heq
    cases hr : setup.resolver? r with
    | none => rfl
    | some resolver =>
      exact absurd ⟨r, resolver, amount, (h.resolver? r).trans hr, heq⟩ hcounts
  · rfl

/-- An entry adds to each counter what the history before it says that it adds. -/
theorem calls_entry (h : Follows setup history session) (t : ThreadId) (task : Task)
    (havoids : (session.entry t task).AvoidsDirect setup) (c : ContextId) :
    (session.doTask t task).next.process.calls c =
      session.process.calls c + (session.entry t task).added setup c history := by
  by_cases hcounts : session.Counts task
  · obtain ⟨r, resolver, amount, hr', rfl⟩ := hcounts
    have hr : setup.resolver? r = some resolver := (h.resolver? r).symm.trans hr'
    have howner := h.owner hr (havoids r resolver amount rfl hr) t
    rw [entry, added_countCalls hr]
    cases hafter : ownerAfter setup resolver t history with
    | none =>
      rw [(uncounted_doTask hr' t amount (howner.trans hafter)).1, if_neg (by simp)]
      exact (Int64.add_zero _).symm
    | some owner =>
      rw [(counted_doTask hr' t amount (howner.trans hafter)).2]
      by_cases hc : c = owner
      · subst hc
        simp [counted]
      · have hne : owner ≠ c := fun heq => hc heq.symm
        simp [counted, hc, hne]
  · obtain ⟨s', hnext, does⟩ := does_doTask h.sound t task
    rw [hnext, entry, added_of_not_counts h hcounts, does.calls hcounts]
    exact (Int64.add_zero _).symm

/-- The counters of a session are as its history tells, if they were so before it. -/
theorem calls_course {first : Session} (h : Follows setup [] first)
    (hfirst : ∀ c, first.process.calls c = 0) (course : Course first history session)
    (havoids : ∀ d ∈ history, d.AvoidsDirect setup) (c : ContextId) :
    session.process.calls c = callsAfter setup c history := by
  induction course with
  | refl => exact hfirst c
  | @move next last done more rest move ih =>
    have hnow : Follows setup done next := by simpa using h.course rest
    have hbefore := ih fun d hd => havoids d (List.mem_append_left _ hd)
    cases move with
    | task t task =>
      rw [callsAfter_concat, ← hbefore]
      exact calls_entry hnow t task (havoids _ (by simp)) c
    | start name seats =>
      rw [List.append_nil]
      exact hbefore
    | exit seats =>
      rw [List.append_nil]
      exact hbefore

end Entries

/-! ## The law -/

/-- **Calls by history.** Whatever steps are taken, the counter of each context is at the end the
sum of the amounts counted while it owned the caller: while its fiber ran there by the resolver's
own scheduler, or without a fiber while it was what the thread had been bound to last, through any
resolver over the same backend. A call that is owned is answered with the counter that it adds to;
one that nobody owns fails, or is refused if the thread is bound to something that is not a context,
and leaves the session as it was. No other task changes a counter. -/
theorem calls_by_history (setup : Setup) :
    (∀ list, (∀ d ∈ (start setup).history list, d.AvoidsDirect setup) → ∀ c,
      ((start setup).steps list).2.process.calls c =
        callsAfter setup c ((start setup).history list)) ∧
    ∀ history session, Course (start setup) history session → ∀ t,
      (∀ r resolver amount, setup.resolver? r = some resolver → resolver.backend ≠ .direct →
        let bound := latest setup resolver.backend t history
        let part := session.doTask t (.resolver r (some (.countCalls amount)))
        (∀ c, ownerAfter setup resolver t history = some c →
          part.reports.answer = .counted c (session.process.calls c + amount) ∧
          part.next = { session with process := counted session.process c amount }) ∧
        (ownerAfter setup resolver t history = none →
          part.next = session ∧ part.reports.answer =
            if bound.isForeign then
              .refused .dangling
            else
              .panicked (Cause.unbound.message (session.process.nameOf t)))) ∧
      ∀ task, ¬session.Counts task →
        (session.doTask t task).next.process.calls = session.process.calls := by
  constructor
  · intro list havoids c
    have hzero (c : ContextId) : setup.process.calls c = 0 := by
      rw [(steady_process setup).calls]
      rfl
    have course := (course_start setup).trans (course_steps (start setup) list)
    exact calls_course (follows_nil setup) hzero course havoids c
  · intro history session course t
    have h := follows_of_course course
    refine ⟨?counting, ?other⟩
    case counting =>
      intro r resolver amount hr hb bound part
      have hr' : session.resolver? r = some resolver := (h.resolver? r).trans hr
      have howner := h.owner hr hb t
      have hbound : session.process.held resolver.backend t = bound := h.held hb t
      constructor
      · intro c hc
        exact counted_doTask hr' t amount (howner.trans hc)
      · intro hnone
        rw [← hbound]
        exact uncounted_doTask hr' t amount (howner.trans hnone)
    case other =>
      intro task hcounts
      obtain ⟨s', hnext, does⟩ := does_doTask h.sound t task
      rw [hnext]
      exact does.calls hcounts

/-- Two threads and two contexts of the same name, with three resolvers: one over the key backend
with a scheduler, one over that of the platform, which is the same, and one over the native backend
with a scheduler for all threads at once. -/
def namesakes : Setup where
  scope := .process
  build := ⟨true⟩
  contexts := ["a", "a"]
  resolvers := [⟨.fixed .key, .perThread⟩, ⟨.platform, .absent⟩, ⟨.fixed .native, .shared⟩]
  threads := [none, none]
  environment := []
  uname := .field [49, 49]
  host := .plain 0

theorem avoidsDirect_namesakes (d : Entry) : d.AvoidsDirect namesakes := by
  intro r resolver amount _ hr
  rcases r with - | - | - | - | number <;> cases hr <;> decide

/-- Of two contexts with one name, each gets what it owns: the calls of the thread that was bound to
it through another resolver, and those of the fiber that ran on the thread of the other. A counter
goes round at its end. -/
theorem calls_by_history_namesakes :
    let session := ((start namesakes).steps
      [.act (some (.started 0)) (.resolver (some 0) (some (.bind 0))),
        .act (some (.started 1)) (.resolver (some 1) (some (.bind 1))),
        .act (some (.started 0)) (.resolver (some 1) (some (.countCalls 5))),
        .act (some (.started 0)) (.resolver (some 0) (some (.enter 1))),
        .act (some (.started 0)) (.resolver (some 0) (some (.countCalls Int64.maxValue))),
        .race 2 (.resolver (some 0) (some (.countCalls 3))),
        .act (some (.started 1)) (.resolver (some 0) (some (.countCalls 1))),
        .act (some (.started 0)) (.resolver (some 0) (some .unbind)),
        .act (some (.started 0)) (.resolver (some 1) (some (.countCalls 7)))]).2
    session.process.calls 0 = 5 ∧ session.process.calls 1 = Int64.minValue ∧
      (session.doTask 3 (.resolver (some 1) (some (.countCalls 2)))).reports.answer =
        .counted 1 (session.process.calls 1 + 2) := by
  intro session
  obtain ⟨hcalls, hmoment⟩ := calls_by_history namesakes
  have course : Course (start namesakes) _ session := course_steps _ _
  refine ⟨?_, ?_, ?_⟩
  · exact (hcalls _ (fun d _ => avoidsDirect_namesakes d) 0).trans (by decide)
  · exact (hcalls _ (fun d _ => avoidsDirect_namesakes d) 1).trans (by decide)
  · have hcounting := (hmoment _ session course 3).1 (some 1) ⟨⟨.absent, 1⟩, .key⟩ 2 rfl (by decide)
    exact (hcounting.1 1 (by decide)).1

end Session

end ExecContext
