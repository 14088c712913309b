import ExecContext.Proofs.Log.Composition
import ExecContext.Proofs.Log.Loading
import ExecContext.Proofs.Session.Abreast
import ExecContext.Proofs.Session.History

set_option autoImplicit false

/-!
# A lower level only filters

Two sessions that differ in the level of the log alone are compared. What they compute is the same,
and the records of the one with the lower level are those of the other, in their order, whose own
level is not above it (`logging_only_filters`).
-/

namespace ExecContext

open Log (Level)

/-! ## Events without some records -/

/-- The event shows what is written to the log. -/
def Event.OfLog : Event → Prop
  | .logged .. => True
  | .flushed _ => True
  | _ => False

/-- What is seen of a record that a thread writes, flushed or not. -/
def Log.Record.shown (t : ThreadId) (r : Log.Record) (flush : Bool) : List Event :=
  [.logged t (.header r.level r.tag), .logged t (.message r.message), .logged t .newline] ++
    if flush then [.flushed t] else []

/-- The first events are the others without the records above a level. -/
inductive Filtered (limit : Level) : List Event → List Event → Prop where
  | nil : Filtered limit [] []
  | other {e : Event} {events events' : List Event} (he : ¬e.OfLog)
    (rest : Filtered limit events events') : Filtered limit (e :: events) (e :: events')
  | kept {t : ThreadId} {r : Log.Record} {flush : Bool} {events events' : List Event}
    (hoff : r.level ≠ .off) (hr : r.level ≤ limit) (rest : Filtered limit events events') :
    Filtered limit (r.shown t flush ++ events) (r.shown t flush ++ events')
  | dropped {t : ThreadId} {r : Log.Record} {flush : Bool} {events events' : List Event}
    (hr : ¬r.level ≤ limit) (rest : Filtered limit events events') :
    Filtered limit events (r.shown t flush ++ events')

namespace Filtered

variable {limit : Level} {events events' more more' : List Event}

theorem append (first : Filtered limit events events') (rest : Filtered limit more more') :
    Filtered limit (events ++ more) (events' ++ more') := by
  induction first with
  | nil => exact rest
  | other he _ ih => exact .other he ih
  | kept hoff hr _ ih =>
    rw [List.append_assoc, List.append_assoc]
    exact .kept hoff hr ih
  | dropped hr _ ih =>
    rw [List.append_assoc]
    exact .dropped hr ih

theorem gathers (limit : Level) : Gathers (Filtered limit) := ⟨.nil, .append⟩

/-- Where the log is not concerned nothing is dropped. -/
theorem of_quiet (h : ∀ e ∈ events, ¬e.OfLog) : Filtered limit events events := by
  induction events with
  | nil => exact .nil
  | cons e rest ih =>
    exact .other (h e List.mem_cons_self) (ih fun e' he' => h e' (List.mem_cons_of_mem e he'))

/-- A view that shows nothing of the log is the same of both. -/
theorem filterMap_eq {α : Type} {view : Event → Option α} (hview : ∀ e, e.OfLog → view e = none)
    (h : Filtered limit events events') : events'.filterMap view = events.filterMap view := by
  have hrecord (t : ThreadId) (r : Log.Record) (flush : Bool) :
      (r.shown t flush).filterMap view = [] := by
    refine List.filterMap_eq_nil_iff.mpr fun e he => hview e ?_
    cases flush <;> simp [Log.Record.shown] at he <;> rcases he with rfl | rfl | rfl | rfl <;>
      trivial
  induction h with
  | nil => rfl
  | other _ _ ih => simp [List.filterMap_cons, ih]
  | kept _ _ _ ih => simp only [List.filterMap_append, hrecord, ih]
  | dropped _ _ ih => simp only [List.filterMap_append, hrecord, ih, List.nil_append]

theorem observedQueries_eq (h : Filtered limit events events') :
    Event.observedQueries events' = Event.observedQueries events :=
  h.filterMap_eq fun e he => by
    cases e with
    | logged t chunk => rfl
    | flushed t => rfl
    | printed t line => exact he.elim
    | observed t q => exact he.elim

theorem printedLines_eq (h : Filtered limit events events') :
    Event.printedLines events' = Event.printedLines events :=
  h.filterMap_eq fun e he => by
    cases e with
    | logged t chunk => rfl
    | flushed t => rfl
    | printed t line => exact he.elim
    | observed t q => exact he.elim

theorem logChunks_shown (t : ThreadId) (r : Log.Record) (flush : Bool) (events : List Event) :
    Event.logChunks (r.shown t flush ++ events) = r.chunks ++ Event.logChunks events := by
  cases flush <;> rfl

/-- The log is made of records, and without those above the level in the first events. -/
theorem records (h : Filtered limit events events') :
    ∃ records : List Log.Record, (∀ r ∈ records, r.level ≠ .off) ∧
      Event.logChunks events' = records.flatMap Log.Record.chunks ∧
      Event.logChunks events =
        (records.filter fun r => r.level ≤ limit).flatMap Log.Record.chunks := by
  induction h with
  | nil => exact ⟨[], by simp, rfl, rfl⟩
  | @other e _ _ he _ ih =>
    obtain ⟨records, hoff, hall, hfewer⟩ := ih
    cases e with
    | logged t chunk => exact absurd trivial he
    | flushed t => exact absurd trivial he
    | printed t line => exact ⟨records, hoff, hall, hfewer⟩
    | observed t q => exact ⟨records, hoff, hall, hfewer⟩
  | @kept t r flush _ _ hoff hr _ ih =>
    obtain ⟨records, hoffs, hall, hfewer⟩ := ih
    refine ⟨r :: records, by simpa using ⟨hoff, hoffs⟩, ?_, ?_⟩
    · rw [logChunks_shown, hall, List.flatMap_cons]
    · rw [logChunks_shown, hfewer, List.filter_cons_of_pos (by simpa using hr),
        List.flatMap_cons]
  | @dropped t r flush _ _ hr _ ih =>
    obtain ⟨records, hoffs, hall, hfewer⟩ := ih
    refine ⟨r :: records, List.forall_mem_cons.mpr ⟨fun hoff => hr ?_, hoffs⟩, ?_, ?_⟩
    · rw [hoff]
      exact Nat.zero_le _
    · rw [logChunks_shown, hall, List.flatMap_cons]
    · rw [hfewer, List.filter_cons_of_neg (by simpa using hr)]

end Filtered

/-! ## Processes that differ in the level alone -/

namespace Process

variable {s s' : Process} {t : ThreadId} {limit limit' : Level}

/-- The process with another level in force and another environment. -/
def retuned (s : Process) (level : Level) (environment : String → Option (List UInt8)) :
    Process :=
  { s with level := level, platform := { s.platform with environment := environment } }

/-- The processes differ in the level of the log alone, which is `limit` in the first one and
`limit'` in the second one, or will be once the settings are loaded. -/
structure Retuned (limit limit' : Level) (s s' : Process) : Prop where
  same : ∃ level environment, s' = s.retuned level environment
  environment : ∀ name, name ≠ Log.levelVariable →
    s'.platform.environment name = s.platform.environment name
  free : s.LogFree
  limit : s.loaded.level = limit
  limit' : s'.loaded.level = limit'

/-- An access that does not concern the log leaves it as it was and shows nothing of it. -/
theorem perform_logSame {a : Access} (ha : ¬a.OfLog) {effect : Effect a.Answer}
    (h : s.perform t a = some effect) :
    s.LogSame effect.process ∧ ∀ e ∈ effect.events, ¬e.OfLog := by
  constructor
  · have hlog {part : Part} (hpart : part = .cell .settings ∨ part = .logHolder ∨ part = .level) :
        a.changes? ≠ some part := by
      rcases hpart with rfl | rfl | rfl <;> cases a <;>
        first
          | exact absurd trivial ha
          | exact fun heq => ha (Part.cell.inj (Option.some.inj heq))
          | exact nofun
    exact ⟨perform_frame h _ (hlog (Or.inl rfl)), perform_frame h _ (hlog (Or.inr (Or.inl rfl))),
      perform_frame h _ (hlog (Or.inr (Or.inr rfl))),
      (perform_surroundings h).1⟩
  · rw [perform_events h]
    cases a <;> first | exact absurd trivial ha | simp [Access.events, Event.OfLog]

/-- Such an access does the same whatever the level and the environment. -/
theorem perform_retuned {a : Access} (ha : ¬a.OfLog) (s : Process) (t : ThreadId) (level : Level)
    (environment : String → Option (List UInt8)) :
    (s.retuned level environment).perform t a =
      (s.perform t a).map fun effect =>
        { effect with process := effect.process.retuned level environment } := by
  cases a with
  | enter c =>
    simp only [perform]
    rw [show (s.retuned level environment).cells c = s.cells c from rfl]
    split <;> rfl
  | createKey =>
    simp only [perform, createKey]
    rw [show (s.retuned level environment).platform.createFault = s.platform.createFault from rfl]
    split <;> rfl
  | setSpecific k p =>
    simp only [perform, setSpecific]
    rw [show (s.retuned level environment).platform.storeFault = s.platform.storeFault from rfl]
    split <;> rfl
  | _ => first | rfl | exact absurd trivial ha

namespace Retuned

theorem roster (h : Retuned limit limit' s s') : s'.roster = s.roster := by
  obtain ⟨level, environment, rfl⟩ := h.same
  rfl

theorem free' (h : Retuned limit limit' s s') : s'.LogFree := by
  obtain ⟨level, environment, rfl⟩ := h.same
  exact ⟨h.free.settings, h.free.holder⟩

/-- Only what logging depends on matters to the level. -/
theorem of_logSame (h : Retuned limit limit' s s') {later later' : Process}
    (hs : s.LogSame later) (hs' : s'.LogSame later')
    (hsame : ∃ level environment, later' = later.retuned level environment) :
    Retuned limit limit' later later' where
  same := hsame
  environment name hname := by
    rw [hs'.environment, hs.environment]
    exact h.environment name hname
  free := hs.free h.free
  limit := hs.loaded_level.trans h.limit
  limit' := hs'.loaded_level.trans h.limit'

/-- The same thread is started in both. -/
theorem start (h : Retuned limit limit' s s') (name : Option String) :
    Retuned limit limit' (s.start name).2 (s'.start name).2 := by
  refine h.of_logSame ⟨rfl, rfl, rfl, rfl⟩ ⟨rfl, rfl, rfl, rfl⟩ ?_
  obtain ⟨level, environment, rfl⟩ := h.same
  exact ⟨level, environment, rfl⟩

/-- The platform of both changes, but for the variable of the level. -/
theorem changePlatform (h : Retuned limit limit' s s') {c : Platform.Change}
    (hc : ∀ value, c ≠ .setVariable Log.levelVariable value) :
    Retuned limit limit' (s.changePlatform c) (s'.changePlatform c) := by
  have hsame := h.same
  cases c with
  | setUname reply =>
    refine h.of_logSame ⟨rfl, rfl, rfl, rfl⟩ ⟨rfl, rfl, rfl, rfl⟩ ?_
    obtain ⟨level, environment, rfl⟩ := hsame
    exact ⟨level, environment, rfl⟩
  | setFaults create store =>
    refine h.of_logSame ⟨rfl, rfl, rfl, rfl⟩ ⟨rfl, rfl, rfl, rfl⟩ ?_
    obtain ⟨level, environment, rfl⟩ := hsame
    exact ⟨level, environment, rfl⟩
  | setVariable name value =>
    have hname : Log.levelVariable ≠ name := fun heq => hc value (by rw [heq])
    have hlevel (s : Process) :
        (s.changePlatform (.setVariable name value)).loaded.level = s.loaded.level := by
      unfold Process.loaded
      rw [show (s.changePlatform (.setVariable name value)).cells = s.cells from rfl]
      split
      · rfl
      · simp [environmentSettings, Log.Settings.ofTexts, Platform.textOf, Process.changePlatform,
          Platform.change, Platform.setVariable, hname]
    refine ⟨?_, fun n hn => ?_, ⟨h.free.settings, h.free.holder⟩, (hlevel s).trans h.limit,
      (hlevel s').trans h.limit'⟩
    · obtain ⟨level, environment, rfl⟩ := hsame
      exact ⟨level, _, rfl⟩
    · simp only [Process.changePlatform, Platform.change, Platform.setVariable]
      rw [h.environment n hn]

/-- An access that does not concern the log is made alike in both. -/
theorem shared {a : Access} (ha : ¬a.OfLog) :
    a.Shared (Retuned limit limit') (Filtered limit) t := by
  intro s s' h
  obtain ⟨level, environment, rfl⟩ := h.same
  cases heffect : s.perform t a with
  | none => exact Or.inl ⟨rfl, by rw [perform_retuned ha, heffect]; rfl⟩
  | some effect =>
    have heffect' : (s.retuned level environment).perform t a =
        some { effect with process := effect.process.retuned level environment } := by
      rw [perform_retuned ha, heffect]
      rfl
    obtain ⟨hsame, hquiet⟩ := perform_logSame ha heffect
    obtain ⟨hsame', -⟩ := perform_logSame ha heffect'
    exact Or.inr ⟨_, _, _, _, _, rfl, heffect',
      h.of_logSame hsame hsame' ⟨level, environment, rfl⟩, .of_quiet hquiet⟩

/-! ## Requests to the log -/

/-- The settings are loaded with the same flush flag. -/
theorem loaded (h : Retuned limit limit' s s') : Retuned limit limit' s.loaded s'.loaded := by
  obtain ⟨level, environment, rfl⟩ := h.same
  have hflush : (s.retuned level environment).environmentSettings.flush =
      s.environmentSettings.flush := by
    simp only [environmentSettings, Log.Settings.ofTexts, Platform.textOf,
      h.environment Log.flushVariable (by decide)]
  refine ⟨?_, ?_, h.free.loaded, ?_, ?_⟩
  · refine ⟨(s.retuned level environment).loaded.level, environment, ?_⟩
    unfold Process.loaded
    rw [show (s.retuned level environment).cells = s.cells from rfl, hflush]
    split <;> rfl
  · simpa using h.environment
  · simpa using h.limit
  · simpa using h.limit'

/-- A record is asked for in both processes. -/
theorem noted (h : Retuned limit limit' s s') (level : Level) :
    Retuned limit limit' (s.noted level) (s'.noted level) := by
  unfold Process.noted
  split
  · exact h
  · exact h.loaded

theorem setFlush (h : Retuned limit limit' s s') (flush : Bool) :
    Retuned limit limit' { s.loaded with flush := flush } { s'.loaded with flush := flush } := by
  have hlevel (s : Process) : ({ s.loaded with flush := flush } : Process).loaded.level =
      s.loaded.level :=
    (congrArg Process.level
      (loaded_of_full { s.loaded with flush := flush } s.loaded_settings)).trans rfl
  have hloaded := h.loaded
  obtain ⟨level, environment, hsame⟩ := hloaded.same
  refine ⟨⟨level, environment, ?_⟩, hloaded.environment,
    ⟨hloaded.free.settings, hloaded.free.holder⟩, (hlevel s).trans h.limit,
    (hlevel s').trans h.limit'⟩
  rw [hsame]
  rfl

/-- What is seen of a message that is written: a record in both, or in the second one alone, or in
none. -/
theorem recordEvents (h : Retuned limit limit' s s') (hle : limit ≤ limit') (level : Level)
    (m : Log.Message) :
    Filtered limit (s.recordEvents t level m) (s'.recordEvents t level m) := by
  have hflush : s'.loaded.flush = s.loaded.flush := by
    obtain ⟨_, _, hsame⟩ := h.loaded.same
    rw [hsame]
    rfl
  have htag : s'.tagOf t = s.tagOf t := by
    simp only [tagOf, nameOf, h.roster]
  let r : Log.Record := ⟨level, s.tagOf t, m⟩
  have hevents : s.recordEvents t level m =
      if s.admits level then r.shown t s.loaded.flush else [] := rfl
  have hevents' : s'.recordEvents t level m =
      if s'.admits level then r.shown t s.loaded.flush else [] := by
    rw [Process.recordEvents, htag, hflush]
    rfl
  rw [hevents, hevents']
  simp only [admits, h.limit, h.limit', Bool.and_eq_true, decide_eq_true_eq]
  by_cases hoff : level = .off
  · simpa [hoff] using Filtered.nil
  · by_cases hlimit : level ≤ limit
    · have hlimit' : level ≤ limit' := Nat.le_trans hlimit hle
      simpa [hoff, hlimit, hlimit'] using Filtered.kept (r := r) hoff hlimit .nil
    · by_cases hlimit' : level ≤ limit'
      · simpa [hoff, hlimit, hlimit'] using Filtered.dropped (r := r) hlimit .nil
      · simpa [hoff, hlimit, hlimit'] using Filtered.nil

end Retuned

end Process

/-- What is asked of the log does not tell its level, nor set it. -/
def Log.Request.Blind : Log.Request → Prop
  | .setLevel _ => False
  | .currentLevel => False
  | .isEnabled _ => False
  | .environmentSettings => False
  | _ => True

section Alike

variable {limit limit' : Level} {t : ThreadId}

theorem sideBySide_request (hle : limit ≤ limit') {q : Log.Request} (hq : q.Blind) :
    SideBySide (Process.Retuned limit limit') (Filtered limit) t q.action q.action := by
  intro s s' h
  cases q with
  | write level message =>
    simp only [Log.Request.action]
    rw [Process.run_write h.free, Process.run_write h.free']
    exact ⟨rfl, h.noted level, h.recordEvents hle level message⟩
  | load =>
    simp only [Log.Request.action]
    rw [Process.run_load h.free, Process.run_load h.free']
    exact ⟨rfl, h.loaded, .nil⟩
  | setFlush flush =>
    simp only [Log.Request.action]
    rw [Process.run_setFlush h.free, Process.run_setFlush h.free']
    exact ⟨rfl, h.setFlush flush, .nil⟩
  | setLevel level => exact hq.elim
  | currentLevel => exact hq.elim
  | isEnabled level => exact hq.elim
  | environmentSettings => exact hq.elim

/-- Whatever is composed without asking for the level runs alike. -/
theorem sideBySide_composed (hle : limit ≤ limit') {α : Type} {p : Action α}
    (hp : Composed Log.Request.Blind p) :
    SideBySide (Process.Retuned limit limit') (Filtered limit) t p p := by
  have hE := Filtered.gathers limit
  induction hp with
  | done value => exact .done hE value
  | fail cause => exact .fail hE cause
  | call ha _ ih => exact .call hE (Process.Retuned.shared ha) ih
  | log q hq => exact sideBySide_request hle hq
  | bind _ _ ihp ihnext => exact .bind hE ihp ihnext
  | onFailure _ _ ihp ihcleanup => exact .onFailure hE ihp ihcleanup

end Alike

/-! ## Sessions -/

namespace Session

/-- The task neither asks for the level of the log nor sets it. -/
def Task.Blind : Task → Prop
  | .service (.setLevel _) => False
  | .service .currentLevel => False
  | .service (.isEnabled _) => False
  | .service .environmentSettings => False
  | .change (.setVariable name _) => name ≠ Log.levelVariable
  | _ => True

/-- What comes of a step is the same, and what is logged of it is the second log without the records
above a level. -/
structure Result.Filters (limit : Level) (result result' : Result) : Prop where
  reply : result.reply = result'.reply
  printed : Event.printedLines result.events = Event.printedLines result'.events
  observed : Event.observedQueries result.events = Event.observedQueries result'.events
  records : ∃ records : List Log.Record, (∀ r ∈ records, r.level ≠ .off) ∧
    Event.logChunks result'.events = records.flatMap Log.Record.chunks ∧
    Event.logChunks result.events =
      (records.filter fun r => r.level ≤ limit).flatMap Log.Record.chunks

/-- Without the records above level `off` there are none. -/
theorem Result.Filters.silent {result result' : Result} (h : result.Filters .off result') :
    Event.logChunks result.events = [] := by
  obtain ⟨records, hlevels, -, hchunks⟩ := h.records
  have hnone : records.filter (fun r => r.level ≤ .off) = [] := by
    refine List.filter_eq_nil_iff.mpr fun r hr hle => hlevels r hr ?_
    cases hlevel : r.level <;> simp_all [Log.Level.le_iff, Log.Level.number]
  rw [hchunks, hnone, List.flatMap_nil]

/-- The setup in another environment. -/
def Setup.withEnvironment (setup : Setup) (environment : List (String × List UInt8)) : Setup :=
  { setup with environment := environment }

variable {setup : Setup} {environment : List (String × List UInt8)}

/-- The two sessions start with processes that differ in the level alone. -/
theorem retuned_process (hscope : setup.scope = .process)
    (henvironment : ∀ name, name ≠ Log.levelVariable →
      (setup.withEnvironment environment).platform.environment name =
        setup.platform.environment name) :
    Process.Retuned setup.process.environmentSettings.level
      (setup.withEnvironment environment).process.environmentSettings.level
      setup.process (setup.withEnvironment environment).process := by
  have hprocess : setup.process = .fresh setup.platform := by
    unfold Setup.process
    rw [hscope]
  have hprocess' : (setup.withEnvironment environment).process =
      .fresh (setup.withEnvironment environment).platform := by
    unfold Setup.process
    rw [show (setup.withEnvironment environment).scope = .process from hscope]
  rw [hprocess, hprocess']
  refine ⟨⟨.warn, (setup.withEnvironment environment).platform.environment, ?_⟩, henvironment,
    ⟨by simp [Process.fresh, Cells.empty], rfl⟩, rfl, rfl⟩
  obtain ⟨_, hplatform⟩ := platform_eq setup
  obtain ⟨_, hplatform'⟩ := platform_eq (setup.withEnvironment environment)
  rw [hplatform, hplatform']
  rfl

/-- The comparison of two sessions that differ in the level of the log alone. -/
def filtering (hscope : setup.scope = .process)
    (henvironment : ∀ name, name ≠ Log.levelVariable →
      (setup.withEnvironment environment).platform.environment name =
        setup.platform.environment name) : Comparison where
  left := setup
  right := setup.withEnvironment environment
  related := Process.Retuned setup.process.environmentSettings.level
    (setup.withEnvironment environment).process.environmentSettings.level
  shown := Filtered setup.process.environmentSettings.level
  view := id
  scope := rfl
  contexts := rfl
  threads := rfl
  gathers := Filtered.gathers _
  observed h := h.observedQueries_eq
  roster h := h.roster
  start name h := h.start name
  begins := retuned_process hscope henvironment

theorem keeps_filtering (hscope : setup.scope = .process)
    (henvironment : ∀ name, name ≠ Log.levelVariable →
      (setup.withEnvironment environment).platform.environment name =
        setup.platform.environment name)
    (hle : setup.process.environmentSettings.level ≤
      (setup.withEnvironment environment).process.environmentSettings.level) :
    (filtering hscope henvironment).Keeps (fun _ _ => True) Task.Blind := by
  intro session other h _ t task htask
  have hwrite (level : Level) (message : Log.Message) :
      (Log.Request.write level message).Blind := trivial
  have hperform {p : Action Answer} (hp : Composed Log.Request.Blind p) :
      (filtering hscope henvironment).Alike (session.perform t p) (other.perform t p) :=
    h.perform (sideBySide_composed hle hp _ _ h.process)
  have hsetup : other.setup = session.setup.withEnvironment environment := by
    rw [h.left, h.right]
    rfl
  cases task with
  | unreadable reason => exact h.refuse reason
  | counts =>
    obtain ⟨level, environment, hsame⟩ := h.process.same
    simp only [doTask, hsame]
    exact h.tell rfl
  | change c =>
    simp only [doTask]
    split
    · refine (h.changePlatform (h.process.changePlatform fun value heq => ?_)).tell rfl
      subst heq
      exact htask rfl
    · exact h.refuse _
  | service s =>
    refine hperform (composed_service hwrite s fun q hq => ?_)
    cases s <;> cases hq <;> trivial
  | resolver r call =>
    have hresolver : other.resolver? r = session.resolver? r := by
      unfold resolver?
      rw [hsetup]
      rfl
    simp only [doTask, hresolver]
    split
    · exact h.refuse _
    · exact h.refuse _
    · rename_i resolver call _
      have hheld := sideBySide_composed (t := t) hle (composed_held resolver.backend) _ _ h.process
      refine h.makeCall hheld.outcome ?_
      rw [hsetup]
      exact hperform (composed_call hwrite _ resolver call)

/-- Two sessions that differ in the variable of the log's level alone, the first one having the
lower level or the same: every step is answered alike, and what the first one logs of it are those
records that the second one logs, in their order, whose level is not above its own; at level `off`
it logs nothing. The steps neither ask for the level nor set it, and none is a race. -/
theorem logging_only_filters (setup : Setup) (environment : List (String × List UInt8))
    (hscope : setup.scope = .process)
    (henvironment : ∀ name, name ≠ Log.levelVariable →
      (setup.withEnvironment environment).platform.environment name =
        setup.platform.environment name)
    (hle : setup.process.environmentSettings.level ≤
      (setup.withEnvironment environment).process.environmentSettings.level)
    (list : List Step) (hlist : ∀ s ∈ list, s.Plain Task.Blind) :
    List.Forall₂ (Result.Filters setup.process.environmentSettings.level)
        (run setup list) (run (setup.withEnvironment environment) list) ∧
      (setup.process.environmentSettings.level = .off →
        ∀ result ∈ run setup list, Event.logChunks result.events = []) := by
  have hkeeps := keeps_filtering hscope henvironment hle
  have hagree := (filtering hscope henvironment).run hkeeps hlist fun _ _ _ => trivial
  have hfilters : List.Forall₂ (Result.Filters setup.process.environmentSettings.level)
      (run setup list) (run (setup.withEnvironment environment) list) := by
    refine hagree.imp fun result result' ⟨hreply, hevents⟩ => ?_
    exact {
      reply := by simpa [filtering] using hreply.symm
      printed := hevents.printedLines_eq.symm
      observed := hevents.observedQueries_eq.symm
      records := hevents.records }
  refine ⟨hfilters, fun hoff => ?_⟩
  rw [hoff] at hfilters
  exact ((List.forall₂_and_left _ _).mp (hfilters.imp fun _ _ h => ⟨h.silent, h⟩)).1

/-- A binding straight through the segment, where the log's level has this numeral. -/
def levelled (numeral : UInt8) : Setup where
  scope := .process
  build := ⟨true⟩
  contexts := ["a"]
  resolvers := [⟨.fixed .direct, .absent⟩]
  threads := [none]
  environment := [(Log.levelVariable, [numeral])]
  uname := .field [49, 49]
  host := .plain 0

/-- Of a binding that fails for want of a key, level 1 shows the failure and level 4 the probe of
the kernel before it. -/
theorem logging_only_filters_failing :
    let list := [Step.act (some .main) (.change (.setFaults (some 35) none)),
      .act (some (.started 0)) (.resolver (some 0) (some (.bind 0)))]
    let quiet := run (levelled 49) list
    let loud := run ((levelled 49).withEnvironment [(Log.levelVariable, [52])]) list
    let failure := Log.Record.chunks ⟨.error, .numbered 2, .notHeld (.noKey 35)⟩
    List.Forall₂ (Result.Filters .error) quiet loud ∧
      quiet.map (fun result => Event.logChunks result.events) = [[], failure] ∧
      loud.map (fun result => Event.logChunks result.events) =
        [[], Log.Record.chunks ⟨.debug, .numbered 2, .probed (.known 11)⟩ ++ failure] := by
  intro list quiet loud failure
  have hfilters := logging_only_filters (levelled 49) [(Log.levelVariable, [52])] rfl
    (fun name hname => by
      simp [Setup.platform, Setup.withEnvironment, levelled, Platform.setVariable, hname])
    (by decide) list (by simp [list, Step.Plain, Task.Blind])
  exact ⟨hfilters.1, rfl, rfl⟩

end Session

end ExecContext
