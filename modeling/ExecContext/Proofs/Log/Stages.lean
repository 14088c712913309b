import ExecContext.Proofs.Interleaving.Machine
import ExecContext.Proofs.Log.Composition
import ExecContext.Proofs.Process.Locks

set_option autoImplicit false

/-!
# The stages of logging

A message that may be logged is judged: the thread reads the level in force, and if the level admits
the message it reads its tag and writes the record in chunks while it holds the log. `Stage` is
where a thread is in this. Whatever use a thread makes of the process, its accesses move it from one
stage to the next as `Stage.Moves` says, and a record is begun only for a message that was judged
(`AtStage.step`, `atStage_action`).
-/

namespace ExecContext.Log

/-! ## Judging a message -/

/-- Reads the level, and writes a message of the calling thread if the level admits it. -/
def judge (level : Level) (message : Message) : Action Unit :=
  .call Access.loadLevel fun limit =>
    if level ≤ limit then
      .call Access.tag fun tag => writeRecord ⟨level, tag, message⟩
    else
      .done ()

/-- A message of level `off` is not judged, and nothing is done about it. -/
theorem write_off (message : Message) : write .off message = .done () := rfl

/-- Every other message is judged once the settings are loaded. -/
theorem write_eq {level : Level} (hlevel : level ≠ .off) (message : Message) :
    write level message = (load >>= fun _ => judge level message) := by
  simp only [write, isEnabled, currentLevel, if_neg hlevel, Program.bind_bind,
    Program.pure_eq_done, Program.done_bind, Program.call_bind, judge]
  congr 1
  funext _
  congr 1
  funext limit
  by_cases hle : level ≤ limit <;> simp [hle]

/-- The program is about to judge a message. -/
def Judges {α : Type} (p : Action α) (level : Level) (message : Message) : Prop :=
  ∃ next, p = (judge level message >>= fun _ => next)

theorem within_judge (level : Level) (message : Message) :
    (judge level message).Within Access.OfLog := by
  refine ⟨trivial, fun limit => ?_⟩
  dsimp only
  split
  · exact ⟨trivial, fun tag => within_writeRecord _⟩
  · trivial

/-- A message that a thread judged. -/
structure Asked where
  level : Level
  message : Message
  /-- the level that the thread found in force -/
  limit : Level

/-- The message is to be logged. -/
def Asked.admitted (a : Asked) : Bool :=
  decide (a.level ≠ .off) && decide (a.level ≤ a.limit)

/-- What was asked, whatever the level in force. -/
def Asked.words (a : Asked) : Level × Message := (a.level, a.message)

/-- What a record says, whoever wrote it. -/
def Record.words (r : Record) : Level × Message := (r.level, r.message)

/-! ## Stages -/

/-- How far a thread is with a message that it logs. -/
inductive Stage where
  /-- it logs nothing -/
  | silent
  /-- its message was admitted -/
  | admitted (level : Level) (message : Message)
  /-- it has a record to write -/
  | ready (r : Record)
  /-- it holds the log and has written nothing of the record -/
  | heading (r : Record)
  /-- it has written the header -/
  | wording (r : Record)
  /-- it has written the header and the message -/
  | closing (r : Record)
  /-- it has written the record -/
  | written
  /-- it is about to flush the log, if need be, and to give it back -/
  | leaving (flush : Bool)

/-- The stage after a message was judged. -/
def Stage.judged (level : Level) (message : Message) (limit : Level) : Stage :=
  if level ≤ limit then .admitted level message else .silent

/-- Flushes the log, if need be, and gives it back. -/
def leave : Bool → Action Unit
  | true => .call Access.flushLog fun _ => .call Access.unlockLog .done
  | false => .call Access.unlockLog .done

/-- Writes the chunks that are left of a record, then leaves the log. -/
def finish : List Chunk → Action Unit
  | [] => .call Access.loadFlush leave
  | chunk :: left => .call (Access.writeLog chunk) fun _ => finish left

/-- What remains to be run until the thread is silent again. -/
def Stage.rest : Stage → Action Unit
  | .silent => .done ()
  | .admitted level message => .call Access.tag fun tag => writeRecord ⟨level, tag, message⟩
  | .ready r => writeRecord r
  | .heading r => finish r.chunks
  | .wording r => finish [.message r.message, .newline]
  | .closing _ => finish [.newline]
  | .written => finish []
  | .leaving flush => leave flush

/-- A record is written while the thread holds the log. -/
theorem writeRecord_eq_call (r : Record) :
    writeRecord r = .call Access.lockLog fun _ => finish r.chunks := by
  have hleave (flush : Bool) :
      (if flush = true then .call Access.flushLog fun _ => .call Access.unlockLog .done
        else .call Access.unlockLog .done) = leave flush := by
    cases flush <;> rfl
  simp only [writeRecord, put, Program.call_bind, Program.done_bind, finish, Record.chunks, hleave]

/-- Judging a message leads to a stage. -/
theorem judge_bind {α : Type} (level : Level) (message : Message) (next : Action α) :
    (judge level message >>= fun _ => next) =
      .call Access.loadLevel fun limit =>
        (Stage.judged level message limit).rest >>= fun _ => next := by
  unfold judge Stage.judged
  rw [Program.call_bind]
  congr 1
  funext limit
  split <;> rfl

/-- What a program is about to judge is settled by the program. -/
theorem Judges.unique {α : Type} {p : Action α} {level level' : Level} {message message' : Message}
    (h : Judges p level message) (h' : Judges p level' message') :
    level = level' ∧ message = message' := by
  obtain ⟨next, rfl⟩ := h
  obtain ⟨next', heq⟩ := h'
  -- Both write their record where the level admits everything, and the record tells them apart.
  rw [judge_bind, judge_bind] at heq
  have htrace (l : Level) (m : Message) : Stage.judged l m .trace = .admitted l m :=
    if_pos (by cases l <;> decide)
  replace heq := congrFun (eq_of_heq (Program.call.inj heq).2) Level.trace
  simp only [htrace, Stage.rest, writeRecord_eq_call, Record.chunks, finish,
    Program.call_bind] at heq
  replace heq := congrFun (eq_of_heq (Program.call.inj heq).2) (Tag.numbered 0)
  replace heq := congrFun (eq_of_heq (Program.call.inj heq).2) ()
  obtain ⟨hheader, heq⟩ := Program.call.inj heq
  cases hheader
  replace heq := congrFun (eq_of_heq heq) ()
  obtain ⟨hmessage, -⟩ := Program.call.inj heq
  cases hmessage
  exact ⟨rfl, rfl⟩

/-- A program that reads the level and then is done judges nothing. -/
theorem not_judges_of_read {α : Type} (value : Level → α) (level : Level) (message : Message) :
    ¬Judges (.call Access.loadLevel fun limit => .done (value limit) : Action α) level message := by
  rintro ⟨next, heq⟩
  rw [judge_bind] at heq
  have hadmitted : Stage.judged level message .trace = .admitted level message :=
    if_pos (by cases level <;> decide)
  replace heq := congrFun (eq_of_heq (Program.call.inj heq).2) Level.trace
  simp only [hadmitted, Stage.rest] at heq
  cases heq

theorem Judges.request {α : Type} {a : Access} {resume : a.Answer → Action α} {level : Level}
    {message : Message} (h : Judges (.call a resume) level message) : a = .loadLevel := by
  obtain ⟨next, heq⟩ := h
  rw [judge_bind] at heq
  exact (Program.call.inj heq).1

/-! ## Programs that log -/

end Log

/-- The access has no part in judging a message or writing a record. -/
def Access.Quiet : Access → Prop
  | .loadLevel => False
  | .tag => False
  | .lockLog => False
  | .writeLog _ => False
  | .loadFlush => False
  | .flushLog => False
  | .unlockLog => False
  | _ => True

/-- The chunk that an access writes to the log. -/
def Access.chunks : Access → List Log.Chunk
  | .writeLog chunk => [chunk]
  | _ => []

/-- The access reads the tag, takes the log or writes to it. -/
def Access.OfRecord : Access → Prop
  | .tag => True
  | .lockLog => True
  | .writeLog _ => True
  | _ => False

theorem Access.quiet_of_not_ofLog {a : Access} (h : ¬a.OfLog) : a.Quiet := by
  cases a <;> first | trivial | exact h trivial

namespace Log

section Programs

variable {α β : Type}

/-- The program judges messages and makes quiet accesses, until it ends as `Q` says. -/
inductive Logging (Q : Action α → Prop) : Action α → Prop where
  | ends {p : Action α} (hp : Q p) : Logging Q p
  | quiet {a : Access} {resume : a.Answer → Action α} (ha : a.Quiet)
    (hresume : ∀ answer, Logging Q (resume answer)) : Logging Q (.call a resume)
  | judges {level : Level} (message : Message) {next : Action α} (hlevel : level ≠ .off)
    (hnext : Logging Q next) : Logging Q (judge level message >>= fun _ => next)

/-- The program has ended. -/
def Ended (p : Action α) : Prop := ∃ result, p = .ended result

/-- The program has ended, or only asks for the level. -/
def EndedOrAsks (p : Action α) : Prop :=
  Ended p ∨ ∃ value : Level → α, p = .call Access.loadLevel fun limit => .done (value limit)

theorem Logging.done {value : α} : Logging Ended (.done value) := .ends ⟨.ok value, rfl⟩

theorem Logging.fail {cause : Cause} : Logging Ended (.fail cause : Action α) :=
  .ends ⟨.error cause, rfl⟩

theorem Logging.mono {Q R : Action α → Prop} {p : Action α} (h : Logging Q p)
    (hQ : ∀ p, Q p → R p) : Logging R p := by
  induction h with
  | ends hp => exact .ends (hQ _ hp)
  | quiet ha hresume ih => exact .quiet ha ih
  | judges message hlevel hnext ih => exact .judges message hlevel ih

theorem Logging.of_only {p : Action α} (h : p.Only Access.Quiet) : Logging Ended p := by
  induction p with
  | done value => exact .done
  | fail cause => exact .fail
  | call a resume ih => exact .quiet h.1 fun answer => ih answer (h.2 answer)

theorem Logging.bind {Q : Action β → Prop} {p : Action α} {next : α → Action β}
    (hp : Logging Ended p) (hfail : ∀ cause, Q (.fail cause))
    (hnext : ∀ value, Logging Q (next value)) : Logging Q (p >>= next) := by
  induction hp with
  | ends hp =>
    obtain ⟨result, rfl⟩ := hp
    cases result with
    | ok value => exact hnext value
    | error cause => exact .ends (hfail cause)
  | quiet ha hresume ih => exact .quiet ha ih
  | judges message hlevel hnext ih =>
    rw [Program.bind_bind]
    exact .judges message hlevel ih

theorem Logging.onFailure {p : Action α} {cleanup : Action Unit} (hp : Logging Ended p)
    (hcleanup : Logging Ended cleanup) : Logging Ended (p.onFailure cleanup) := by
  induction hp with
  | ends hp =>
    obtain ⟨result, rfl⟩ := hp
    cases result with
    | ok value => exact .done
    | error cause => exact hcleanup.bind (fun cause => ⟨.error cause, rfl⟩) fun _ => .fail
  | quiet ha hresume ih => exact .quiet ha ih
  | judges message hlevel hnext ih =>
    rw [(within_judge _ message).bind_onFailure]
    exact .judges message hlevel ih

/-! ## Every use -/

theorem quiet_compute : (environmentSettings >>= install).Only Access.Quiet :=
  ⟨trivial, fun _ => ⟨trivial, fun _ => ⟨trivial, fun _ => ⟨trivial, fun _ => trivial⟩⟩⟩⟩

theorem logging_load : Logging Ended load := by
  refine .of_only ⟨trivial, fun answer => ?_⟩
  cases answer with
  | some value => trivial
  | none =>
    have hcleanup : (.call (Access.abandon .settings) .done : Action Unit).Only Access.Quiet :=
      ⟨trivial, fun _ => trivial⟩
    exact (quiet_compute.onFailure hcleanup).bind fun _ => ⟨trivial, fun _ => trivial⟩

/-- The request does more than to tell the level in force. -/
def Request.Acts : Request → Prop
  | .currentLevel => False
  | .isEnabled _ => False
  | _ => True

theorem logging_request {q : Request} (hq : q.Acts) : Logging Ended q.action := by
  have hended {α : Type} (cause : Cause) : Ended (.fail cause : Action α) := ⟨.error cause, rfl⟩
  cases q with
  | write level message =>
    by_cases hlevel : level = .off
    · subst hlevel
      exact .done
    · have hjudged : Logging Ended (judge level message >>= fun _ => .done ()) :=
        .judges message hlevel .done
      rw [Request.action, write_eq hlevel, ← Program.bind_done (judge level message)]
      exact logging_load.bind hended fun _ => hjudged
  | load => exact logging_load
  | setLevel level => exact logging_load.bind hended fun _ => .quiet trivial fun _ => .done
  | setFlush flush => exact logging_load.bind hended fun _ => .quiet trivial fun _ => .done
  | currentLevel => exact hq.elim
  | isEnabled level => exact hq.elim
  | environmentSettings =>
    exact .of_only ⟨trivial, fun _ => ⟨trivial, fun _ => trivial⟩⟩

theorem logging_of_composed {p : Action α} (h : Composed Request.Acts p) : Logging Ended p := by
  induction h with
  | done value => exact .done
  | fail cause => exact .fail
  | call ha hresume ih => exact .quiet (Access.quiet_of_not_ofLog ha) ih
  | log q hq => exact logging_request hq
  | bind hp hnext ihp ihnext => exact ihp.bind (fun cause => ⟨.error cause, rfl⟩) ihnext
  | onFailure hp hcleanup ihp ihcleanup => exact ihp.onFailure ihcleanup

end Programs

/-- A use judges messages and makes quiet accesses; one that asks for the level ends with that. -/
theorem logging_action (u : Use) : Logging EndedOrAsks u.action := by
  have hfail (cause : Cause) : EndedOrAsks (.fail cause : Action Session.Answer) :=
    Or.inl ⟨.error cause, rfl⟩
  have hacts {p : Action Session.Answer} (h : Composed Request.Acts p) : Logging EndedOrAsks p :=
    (logging_of_composed h).mono fun _ => Or.inl
  have hwrite (level : Level) (message : Message) : (Request.write level message).Acts := trivial
  have hservice (s : Session.Service) (hs : ∀ q, s.request? = some q → q.Acts) :
      Logging EndedOrAsks (Use.service s).action := hacts (composed_service hwrite s hs)
  cases u with
  | call contexts r c => exact hacts (composed_call hwrite contexts r c)
  | service s =>
    cases s with
    | currentLevel =>
      change Logging EndedOrAsks ((load >>= fun _ => .call Access.loadLevel .done) >>= _)
      rw [Program.bind_bind]
      exact logging_load.bind hfail fun _ => .ends (Or.inr ⟨_, rfl⟩)
    | isEnabled level =>
      by_cases hlevel : level = .off
      · subst hlevel
        exact .ends (Or.inl ⟨.ok _, rfl⟩)
      · simp only [Use.action, Session.Service.action, isEnabled, currentLevel, if_neg hlevel,
          Program.bind_bind]
        exact logging_load.bind hfail fun _ => .ends (Or.inr ⟨_, rfl⟩)
    | _ => exact hservice _ (by rintro q ⟨⟩ <;> trivial)

/-! ## Moves -/

/-- A thread at this stage makes this access, judging this message if it is one of those that read
the level to judge, and is then at that stage. -/
inductive Stage.Moves : Stage → Accesses.Exchange → Option Asked → Stage → Prop where
  | quiet {a : Access} (answer : a.Answer) (ha : a.Quiet) : Moves .silent ⟨a, answer⟩ none .silent
  | asks (limit : Level) : Moves .silent ⟨.loadLevel, limit⟩ none .silent
  | judges {level : Level} (message : Message) (limit : Level) (hlevel : level ≠ .off) :
    Moves .silent ⟨.loadLevel, limit⟩ (some ⟨level, message, limit⟩) (judged level message limit)
  | tags (level : Level) (message : Message) (tag : Tag) :
    Moves (.admitted level message) ⟨.tag, tag⟩ none (.ready ⟨level, tag, message⟩)
  | takes (r : Record) : Moves (.ready r) ⟨.lockLog, ()⟩ none (.heading r)
  | heads (r : Record) :
    Moves (.heading r) ⟨.writeLog (.header r.level r.tag), ()⟩ none (.wording r)
  | words (r : Record) : Moves (.wording r) ⟨.writeLog (.message r.message), ()⟩ none (.closing r)
  | closes (r : Record) : Moves (.closing r) ⟨.writeLog .newline, ()⟩ none .written
  | finishes (flush : Bool) : Moves .written ⟨.loadFlush, flush⟩ none (.leaving flush)
  | flushes : Moves (.leaving true) ⟨.flushLog, ()⟩ none (.leaving false)
  | leaves : Moves (.leaving false) ⟨.unlockLog, ()⟩ none .silent

/-- What remains to be run of a use by a thread at this stage. -/
def AtStage (φ : Stage) (p : Action Session.Answer) : Prop :=
  ∃ next, p = (φ.rest >>= fun _ => next) ∧ Logging EndedOrAsks next

theorem atStage_action (u : Use) : AtStage .silent u.action := ⟨u.action, rfl, logging_action u⟩

/-- A use that has ended is not in the midst of logging. -/
theorem AtStage.silent {φ : Stage} {p : Action Session.Answer} (h : AtStage φ p)
    {result : Except Cause Session.Answer} (hresult : p.result? = some result) : φ = .silent := by
  obtain ⟨next, rfl, -⟩ := h
  cases φ with
  | silent => rfl
  | leaving flush => cases flush <;> cases hresult
  | _ => cases hresult

/-- One access, and the message that it judges. -/
theorem AtStage.step {φ : Stage} {a : Access} {resume : a.Answer → Action Session.Answer}
    (h : AtStage φ (.call a resume)) (answer : a.Answer) :
    ∃ asked φ', φ.Moves ⟨a, answer⟩ asked φ' ∧ AtStage φ' (resume answer) ∧
      ∀ level message, asked.map Asked.words = some (level, message) ↔
        Judges (.call a resume) level message := by
  have hnone (ha : a ≠ .loadLevel) (level : Level) (message : Message) :
      (none : Option Asked).map Asked.words = some (level, message) ↔
        Judges (.call a resume) level message :=
    ⟨fun heq => (by cases heq), fun hjudges => absurd hjudges.request ha⟩
  obtain ⟨next, hp, hnext⟩ := h
  cases φ with
  | silent =>
    obtain rfl : (.call a resume : Action Session.Answer) = next := hp
    generalize hcall : (.call a resume : Action Session.Answer) = p at hnext
    cases hnext with
    | ends hend =>
      subst hcall
      rcases hend with ⟨result, hresult⟩ | ⟨value, hasks⟩
      · cases result <;> cases hresult
      · cases hasks
        refine ⟨none, .silent, .asks answer, ⟨_, rfl, .ends (Or.inl ⟨.ok _, rfl⟩)⟩, ?_⟩
        exact fun level message => ⟨fun heq => (by cases heq),
          fun hjudges => absurd hjudges (not_judges_of_read value level message)⟩
    | quiet ha hresume =>
      cases hcall
      exact ⟨none, .silent, .quiet answer ha, ⟨_, rfl, hresume answer⟩,
        hnone fun heq => by subst heq; exact ha⟩
    | @judges level message next hlevel hlater =>
      have hjudges : Judges (judge level message >>= fun _ => next) level message := ⟨next, rfl⟩
      rw [judge_bind] at hcall
      cases hcall
      refine ⟨_, _, .judges message answer hlevel, ⟨_, rfl, hlater⟩,
        fun level' message' => ⟨fun heq => ?_, fun hjudges' => ?_⟩⟩
      · cases heq
        exact hjudges
      · obtain ⟨rfl, rfl⟩ := hjudges.unique hjudges'
        rfl
  | admitted level message =>
    cases hp
    exact ⟨none, _, .tags level message answer, ⟨next, rfl, hnext⟩, hnone (by simp)⟩
  | ready r =>
    rw [Stage.rest, writeRecord_eq_call] at hp
    cases hp
    exact ⟨none, _, .takes r, ⟨next, rfl, hnext⟩, hnone (by simp)⟩
  | heading r =>
    cases hp
    exact ⟨none, _, .heads r, ⟨next, rfl, hnext⟩, hnone (by simp)⟩
  | wording r =>
    cases hp
    exact ⟨none, _, .words r, ⟨next, rfl, hnext⟩, hnone (by simp)⟩
  | closing r =>
    cases hp
    exact ⟨none, _, .closes r, ⟨next, rfl, hnext⟩, hnone (by simp)⟩
  | written =>
    cases hp
    exact ⟨none, _, .finishes answer, ⟨next, rfl, hnext⟩, hnone (by simp)⟩
  | leaving flush =>
    cases flush with
    | true =>
      cases hp
      exact ⟨none, _, .flushes, ⟨next, rfl, hnext⟩, hnone (by simp)⟩
    | false =>
      cases hp
      exact ⟨none, _, .leaves, ⟨next, rfl, hnext⟩, hnone (by simp)⟩

/-! ## What a move does -/

namespace Stage

/-- What is still to be logged of what was admitted. -/
def pending : Stage → List (Level × Message)
  | .admitted level message => [(level, message)]
  | .ready r => [r.words]
  | .heading r => [r.words]
  | .wording r => [r.words]
  | .closing r => [r.words]
  | _ => []

/-- What has been written of a record that is not whole yet. -/
def fragment : Stage → List Chunk
  | .wording r => [.header r.level r.tag]
  | .closing r => [.header r.level r.tag, .message r.message]
  | _ => []

/-- The record that the next access makes whole. -/
def completed : Stage → List Record
  | .closing r => [r]
  | _ => []

/-- The record that is to be written, once the tag was read. -/
def record? : Stage → Option Record
  | .ready r => some r
  | .heading r => some r
  | .wording r => some r
  | .closing r => some r
  | _ => none

/-- The thread holds the log. -/
def Holds : Stage → Prop
  | .heading _ => True
  | .wording _ => True
  | .closing _ => True
  | .written => True
  | .leaving _ => True
  | _ => False

end Stage

/-- The access concerns neither the log's lock nor what is written. -/
theorem quiet_lock {a : Access} (ha : a.Quiet) (answer : a.Answer) :
    a.takes? answer ≠ some .log ∧ a.leaves? ≠ some .log ∧ a.chunks = [] := by
  cases a with
  | enter c => cases answer <;> simp [Access.takes?, Access.leaves?, Access.chunks]
  | lockLog => exact ha.elim
  | writeLog chunk => exact ha.elim
  | unlockLog => exact ha.elim
  | _ => simp [Access.takes?, Access.leaves?, Access.chunks]

section Moves

variable {φ φ' : Stage} {e : Accesses.Exchange} {asked : Option Asked} (h : φ.Moves e asked φ')
include h

/-- What was admitted is pending until its record is whole. -/
theorem Stage.Moves.pending_eq :
    φ.pending ++ (asked.toList.filter Asked.admitted).map Asked.words =
      φ.completed.map Record.words ++ φ'.pending := by
  cases h with
  | @judges level message limit hlevel =>
    by_cases hle : level ≤ limit <;>
      simp [judged, pending, completed, Asked.admitted, Asked.words, hle, hlevel]
  | _ => simp [pending, completed, Record.words]

/-- What is written goes to the record that was begun. -/
theorem Stage.Moves.chunks_eq :
    φ.fragment ++ e.request.chunks = φ.completed.flatMap Record.chunks ++ φ'.fragment := by
  cases h with
  | @quiet a answer ha => simp [fragment, completed, (quiet_lock ha answer).2.2]
  | @judges level message limit hlevel =>
    by_cases hle : level ≤ limit <;> simp [judged, fragment, completed, Access.chunks, hle]
  | _ => simp [fragment, completed, Access.chunks, Record.chunks]

/-- The thread holds the log from when it takes the log to when it gives the log back. -/
theorem Stage.Moves.holds_iff :
    φ'.Holds ↔ e.request.takes? e.answer = some .log ∨
      φ.Holds ∧ e.request.leaves? ≠ some .log := by
  cases h with
  | @quiet a answer ha =>
    obtain ⟨htakes, -⟩ := quiet_lock ha answer
    simp [Holds, htakes]
  | @judges level message limit hlevel =>
    by_cases hle : level ≤ limit <;> simp [judged, Holds, Access.takes?, hle]
  | _ => simp [Holds, Access.takes?, Access.leaves?]

/-- A thread that does not hold the log neither writes nor gives the log back. -/
theorem Stage.Moves.of_not_holds (hφ : ¬φ.Holds) :
    e.request.chunks = [] ∧ e.request.leaves? ≠ some .log := by
  cases h with
  | @quiet a answer ha => exact ⟨(quiet_lock ha answer).2.2, (quiet_lock ha answer).2.1⟩
  | judges message limit hlevel => exact ⟨rfl, by simp [Access.leaves?]⟩
  | asks limit => exact ⟨rfl, by simp [Access.leaves?]⟩
  | tags level message tag => exact ⟨rfl, by simp [Access.leaves?]⟩
  | takes r => exact ⟨rfl, by simp [Access.leaves?]⟩
  | _ => exact absurd trivial hφ

/-- The record to be written was to be written before, or the thread has just read its tag. -/
theorem Stage.Moves.record_of (r : Record) (hr : φ'.record? = some r) :
    φ.record? = some r ∨ e = ⟨.tag, r.tag⟩ := by
  cases h with
  | @judges level message limit hlevel =>
    by_cases hle : level ≤ limit <;> simp [judged, record?, hle] at hr
  | tags level message tag =>
    cases hr
    exact Or.inr rfl
  | takes r => exact Or.inl hr
  | heads r => exact Or.inl hr
  | words r => exact Or.inl hr
  | _ => cases hr

/-- What is judged was found in force by the access that reads the level. -/
theorem Stage.Moves.limit {q : Asked} (hq : asked = some q) : e = ⟨.loadLevel, q.limit⟩ := by
  cases h with
  | judges message limit hlevel =>
    cases hq
    rfl
  | _ => cases hq

end Moves

theorem Stage.fragment_of_not_holds {φ : Stage} (h : ¬φ.Holds) : φ.fragment = [] := by
  cases φ <;> first | rfl | exact absurd trivial h

/-- What has been written is the first part of the record that is pending. -/
theorem Stage.of_fragment {φ : Stage} (h : φ.fragment ≠ []) :
    ∃ r left, φ.record? = some r ∧ φ.pending = [r.words] ∧ r.chunks = φ.fragment ++ left ∧
      left ≠ [] := by
  cases φ with
  | wording r => exact ⟨r, [.message r.message, .newline], rfl, rfl, rfl, by simp⟩
  | closing r => exact ⟨r, [.newline], rfl, rfl, rfl, by simp⟩
  | _ => exact absurd rfl h

theorem Stage.completed_of_not_holds {φ : Stage} (h : ¬φ.Holds) : φ.completed = [] := by
  cases φ <;> first | rfl | exact absurd trivial h

/-- Only a record to be written is completed. -/
theorem Stage.record_of_completed {φ : Stage} {r : Record} (hr : r ∈ φ.completed) :
    φ.record? = some r := by
  cases φ <;> simp_all [completed, record?]

/-- At most one message is pending, and the thread is about to read its tag, to take the log or to
write. -/
theorem AtStage.pending {φ : Stage} {p : Action Session.Answer} (h : AtStage φ p) :
    φ.pending.length ≤ 1 ∧ (φ.pending ≠ [] → ∃ a resume, p = .call a resume ∧ a.OfRecord) := by
  obtain ⟨next, rfl, -⟩ := h
  cases φ with
  | admitted level message => exact ⟨Nat.le_refl 1, fun _ => ⟨_, _, rfl, trivial⟩⟩
  | ready r =>
    rw [Stage.rest, writeRecord_eq_call]
    exact ⟨Nat.le_refl 1, fun _ => ⟨_, _, rfl, trivial⟩⟩
  | heading r => exact ⟨Nat.le_refl 1, fun _ => ⟨_, _, rfl, trivial⟩⟩
  | wording r => exact ⟨Nat.le_refl 1, fun _ => ⟨_, _, rfl, trivial⟩⟩
  | closing r => exact ⟨Nat.le_refl 1, fun _ => ⟨_, _, rfl, trivial⟩⟩
  | _ => exact ⟨Nat.zero_le 1, fun hnone => absurd rfl hnone⟩

end Log

end ExecContext
