import ExecContext.Demo.Timing
import ExecContext.Proofs.Log.OneLine
import ExecContext.Proofs.Process.Silent
import ExecContext.Proofs.Resolver.Resolving
import ExecContext.Proofs.Text.Numerals

set_option autoImplicit false

/-!
# The number of repetitions shows in the heading only

However often a current context is resolved that is bound, the process is left as it was and nothing
is seen of it. A run of the measurements is therefore the same for every number of repetitions once
the heading is printed (`Course.run`), and what it writes to the log is what its three bindings
write (`repetitions_only_in_heading`).
-/

namespace ExecContext

theorem Event.logChunks_append (first rest : List Event) :
    logChunks (first ++ rest) = logChunks first ++ logChunks rest :=
  List.filterMap_append

namespace Process

variable {s s' : Process} {t : ThreadId}

/-! ## What is seen of a message -/

theorem logChunks_recordEvents (s : Process) (t : ThreadId) (level : Log.Level)
    (message : Log.Message) :
    Event.logChunks (s.recordEvents t level message) =
      if s.admits level then Log.Record.chunks ⟨level, s.tagOf t, message⟩ else [] := by
  unfold recordEvents
  cases s.admits level with
  | false => rfl
  | true => cases s.loaded.flush <;> rfl

theorem printedLines_recordEvents (s : Process) (t : ThreadId) (level : Log.Level)
    (message : Log.Message) : Event.printedLines (s.recordEvents t level message) = [] := by
  unfold recordEvents
  cases s.admits level with
  | false => rfl
  | true => cases s.loaded.flush <;> rfl

/-! ## Bindings -/

/-- The log writes the same of a thread's messages. -/
structure SameLogging (s s' : Process) : Prop where
  level : s'.loaded.level = s.loaded.level
  flush : s'.loaded.flush = s.loaded.flush
  roster : s'.roster = s.roster

theorem SameLogging.recordEvents (h : SameLogging s s') (t : ThreadId) (level : Log.Level)
    (message : Log.Message) :
    s'.recordEvents t level message = s.recordEvents t level message := by
  simp [Process.recordEvents, admits, tagOf, nameOf, h.level, h.flush, h.roster]

theorem SameLogging.trans {s'' : Process} (first : SameLogging s s') (last : SameLogging s' s'') :
    SameLogging s s'' :=
  ⟨last.level.trans first.level, last.flush.trans first.flush, last.roster.trans first.roster⟩

/-- The process after thread `t` was bound natively. -/
def boundNative (s : Process) (t : ThreadId) (c : ContextId) : Process :=
  { s.loaded with native := s.native.set t (some (.context c)) }

/-- The process after thread `t` was bound behind a key created for it. -/
def boundBehind (s : Process) (t : ThreadId) (c : ContextId) : Process :=
  s.loaded.withKey.stored t s.platform.nextKey (some (.context c))

/-- A binding is announced, then the backend holds the pointer. -/
theorem run_bind_of_hold {r : Resolver} {c : ContextId} {events : List Event} (h : s.LogFree)
    (hhold : s.loaded.run t (r.backend.hold (some (.context c))) = ⟨.returned (), s', events⟩) :
    s.run t (r.perform (Resolver.bind c)) =
      ⟨.returned (), s', s.recordEvents t .trace (.binding (.context c) r.backend) ++ events⟩ := by
  have hannounce : s.run t (r.answer (.announce (.context c))) =
      ⟨.returned (), s.loaded, s.recordEvents t .trace (.binding (.context c) r.backend)⟩ :=
    run_write h .trace _
  unfold Resolver.bind Resolver.bindAddress Resolver.announce Resolver.hold
  rw [perform_bind, perform_request, perform_request, run_bind_of_returned hannounce]
  exact congrArg (Finish.after _) hhold

theorem run_bind_native {r : Resolver} (hr : r.backend = .native) (h : s.LogFree)
    (c : ContextId) :
    s.run t (r.perform (Resolver.bind c)) =
      ⟨.returned (), boundNative s t c,
        s.recordEvents t .trace (.binding (.context c) .native)⟩ := by
  have hhold : s.loaded.run t (r.backend.hold (some (.context c))) =
      ⟨.returned (), boundNative s t c, []⟩ := by
    simp [hr, Backend.hold, run_call, perform, Effect.write, boundNative]
  rw [run_bind_of_hold h hhold, hr, List.append_nil]

theorem sameLogging_boundNative (s : Process) (t : ThreadId) (c : ContextId) :
    SameLogging s (boundNative s t c) := by
  have hfull : (boundNative s t c).loaded = boundNative s t c :=
    loaded_of_full _ (loaded_settings s)
  exact ⟨by rw [hfull]; rfl, by rw [hfull]; rfl, loaded_roster s⟩

theorem held_boundNative (s : Process) (t : ThreadId) (c : ContextId) :
    (boundNative s t c).held .native t = some (.context c) := by
  simp [held, kept, boundNative]

theorem LogFree.boundNative (h : s.LogFree) (t : ThreadId) (c : ContextId) :
    (boundNative s t c).LogFree :=
  ⟨h.loaded.settings, h.loaded.holder⟩

/-- Creating a key and loading the settings do not depend on each other. -/
theorem loaded_keyMade (s : Process) : s.keyMade.loaded = s.loaded.keyMade := by
  unfold loaded
  cases h : s.cells .settings <;> simp [keyMade, h, environmentSettings, Platform.textOf]

/-- A key is created before the pointer is stored behind it. -/
theorem run_hold_newKey (h : s.LogFree) (hempty : s.cells .key = .empty)
    (hcreate : s.platform.createFault = 0) (hstore : s.platform.storeFault = 0) (p : Pointer) :
    s.run t (Backend.hold p .key) =
      ⟨.returned (), s.withKey.stored t s.platform.nextKey p,
        s.recordEvents t .debug (.keyCreated s.platform.nextKey)⟩ := by
  have hfree := h.setCell (c := .key) (by decide) (.busy t)
  have hcompute := run_createKey_of_made (t := t) hfree hcreate
  have hlogging : SameLogging s (s.setCell .key (.busy t)).keyMade := by
    refine ⟨?_, ?_, rfl⟩ <;> rw [loaded_keyMade, loaded_setCell _ (by decide)] <;> rfl
  rw [hlogging.recordEvents, keyMade_setCell, loaded_setCell _ (by decide)] at hcompute
  have hkey : s.run t Storage.processKey =
      ⟨.returned s.platform.nextKey, s.withKey,
        s.recordEvents t .debug (.keyCreated s.platform.nextKey)⟩ := by
    have hrun := run_getOrFill_of_returned (c := .key) hempty hcompute
    rwa [setCell_setCell] at hrun
  have hok : s.withKey.platform.storeFault = 0 := by simpa [withKey, keyMade] using hstore
  unfold Backend.hold
  rw [run_bind_of_returned hkey, run_storeBehind_of_ok _ _ _ _ hok]
  simp

theorem run_bind_key {r : Resolver} (hr : r.backend = .key) (h : s.LogFree)
    (hempty : s.cells .key = .empty) (hcreate : s.platform.createFault = 0)
    (hstore : s.platform.storeFault = 0) (c : ContextId) :
    s.run t (r.perform (Resolver.bind c)) =
      ⟨.returned (), boundBehind s t c,
        s.recordEvents t .trace (.binding (.context c) .key) ++
          s.recordEvents t .debug (.keyCreated s.platform.nextKey)⟩ := by
  have hloaded : SameLogging s s.loaded := ⟨by simp, by simp, by simp⟩
  have hhold := run_hold_newKey (s := s.loaded) (t := t) h.loaded
    ((loaded_cells s (by decide)).trans hempty) (by simpa using hcreate) (by simpa using hstore)
    (some (.context c))
  rw [hloaded.recordEvents, loaded_platform] at hhold
  rw [← hr] at hhold
  rw [run_bind_of_hold h hhold, hr]
  rfl

theorem boundBehind_settings (s : Process) (t : ThreadId) (c : ContextId) :
    (boundBehind s t c).cells .settings = .full () :=
  (setCell_other s.loaded.keyMade.loaded .key (.full s.loaded.platform.nextKey) (by decide)).trans
    (loaded_settings s.loaded.keyMade)

theorem sameLogging_boundBehind (s : Process) (t : ThreadId) (c : ContextId) :
    SameLogging s (boundBehind s t c) := by
  have hfull : (boundBehind s t c).loaded = boundBehind s t c :=
    loaded_of_full _ (boundBehind_settings s t c)
  have hmade : s.loaded.keyMade.loaded = s.loaded.keyMade := by
    rw [loaded_keyMade, loaded_loaded]
  refine ⟨?_, ?_, ?_⟩
  · rw [hfull]
    show s.loaded.keyMade.loaded.level = s.loaded.level
    rw [hmade]
    rfl
  · rw [hfull]
    show s.loaded.keyMade.loaded.flush = s.loaded.flush
    rw [hmade]
    rfl
  · exact (congrArg Process.roster hmade).trans (loaded_roster s)

theorem held_boundBehind (s : Process) (t : ThreadId) (c : ContextId) :
    (boundBehind s t c).held .key t = some (.context c) := by
  have hkey : (boundBehind s t c).keyOf .key = some s.platform.nextKey := by
    rw [keyOf_key_iff]
    simp [boundBehind, stored, withKey]
  rw [held_of_ne_direct (by decide), kept_of_keyOf hkey]
  simp [boundBehind, stored]

theorem LogFree.boundBehind (h : s.LogFree) (t : ThreadId) (c : ContextId) :
    (boundBehind s t c).LogFree where
  settings u := by simp [boundBehind_settings]
  holder := (loaded_logHolder s.loaded.keyMade).trans h.loaded.holder

end Process

namespace Demo.Timing

open Process

variable {s s' : Process} {t : ThreadId}

/-! ## Resolving over and over -/

/-- Neither the scheduler nor the backend of the resolver is observed. -/
def Unobserved (r : Resolver) : Prop :=
  (r.scheduler.kind = .absent ∨ ∃ f, r.scheduler.kind = .constant f) ∧ r.backend ≠ .spy

theorem silent_perform {α : Type} {r : Resolver} (h : Unobserved r)
    (operation : Resolver.Operation α) : (r.perform operation).Only Access.Silent := by
  have hany : operation.Only fun _ => True := by
    induction operation with
    | done value => trivial
    | fail cause => trivial
    | call q resume ih => exact ⟨trivial, ih⟩
  refine hany.serve fun q _ => ?_
  obtain ⟨hkind, hbackend⟩ := h
  cases q with
  | ownsThread =>
    rcases hkind with hkind | ⟨f, hkind⟩ <;>
      simp [Resolver.answer, Scheduler.ownsThread, hkind, Program.Only]
  | runningFiber =>
    rcases hkind with hkind | ⟨f, hkind⟩ <;>
      simp [Resolver.answer, Scheduler.runningFiber, hkind, Program.Only]
  | contextOf f =>
    rcases hkind with hkind | ⟨f', hkind⟩ <;>
      simp [Resolver.answer, Scheduler.contextOf, hkind, Program.Only]
  | held => exact silent_held hbackend
  | hold p => exact silent_hold hbackend p
  | announce address => exact silent_write _ _

/-- A thread's current context is to be found, and finding it is not observed. -/
structure Settled (s : Process) (t : ThreadId) (r : Resolver) : Prop where
  unobserved : Unobserved r
  found : (s.resolution r t).toPointer ≠ none

theorem Settled.run_current {r : Resolver} (h : Settled s t r) :
    ∃ address, s.run t (r.perform Resolver.current) = ⟨.returned address, s, []⟩ := by
  obtain ⟨address, haddress⟩ := Option.ne_none_iff_exists'.mp h.found
  obtain ⟨seen, hrun⟩ := reads_current haddress
  have hsilent := run_silent (s := s) (t := t) (silent_perform h.unobserved Resolver.current)
  rw [hrun] at hsilent
  have hseen : seen = [] := by
    simpa [Event.observedQueries, List.filterMap_map, Function.comp_def] using hsilent.observed
  exact ⟨address, by simpa [hseen] using hrun⟩

/-- A thread that is bound finds a context, whatever its scheduler does. -/
theorem settled_of_held {r : Resolver} (hr : Unobserved r) {address : Address}
    (h : s.held r.backend t = some address) : Settled s t r := by
  refine ⟨hr, ?_⟩
  rw [resolution, h]
  unfold Resolution.found
  split <;> simp [Resolution.toPointer, Resolution.ofPointer]

/-- Resolving any number of times changes nothing and shows nothing. -/
theorem Settled.run_resolveTimes {r : Resolver} (h : Settled s t r) (n : Nat) :
    s.run t (resolveTimes r n) = ⟨.returned (), s, []⟩ := by
  induction n with
  | zero => rfl
  | succ n ih =>
    obtain ⟨address, hcurrent⟩ := h.run_current
    unfold resolveTimes
    rw [run_bind_of_returned hcurrent, ih]
    rfl

/-! ## Measurements one after another -/

/-- The binding of a measurement leads from one process to another, in which the context is to be
found. -/
structure Binds (s : Process) (m : Measurement) (s' : Process) (events : List Event) : Prop where
  run : s.run mainThread (m.resolver.perform (Resolver.bind threadContext)) =
    ⟨.returned (), s', events⟩
  settled : Settled s' mainThread m.resolver

/-- What is seen of a measurement is its binding and its row, whatever the number of repetitions. -/
theorem Binds.run_action {m : Measurement} {events : List Event} (h : Binds s m s' events)
    (n : Nat) :
    s.run mainThread (m.action n) =
      ⟨.returned (), s', events ++ [.printed mainThread (.timing m.row)]⟩ := by
  unfold Measurement.action
  rw [run_bind_of_returned h.run, run_bind_of_returned (h.settled.run_resolveTimes n)]
  simp [run_call, perform, Effect.emit]

/-- The course of some measurements. -/
inductive Course : Process → List Measurement → Process → List Event → Prop where
  | nil (s : Process) : Course s [] s []
  | cons {s s' s'' : Process} {m : Measurement} {rest : List Measurement}
      {events more : List Event} (first : Binds s m s' events) (others : Course s' rest s'' more) :
      Course s (m :: rest) s'' (events ++ .printed mainThread (.timing m.row) :: more)

/-- Measurements take their course whatever the number of repetitions. -/
theorem Course.run {list : List Measurement} {events : List Event} (h : Course s list s' events)
    (n : Nat) : s.run mainThread (takeAll n list) = ⟨.returned (), s', events⟩ := by
  induction h with
  | nil s => rfl
  | cons first _ ih =>
    unfold takeAll
    rw [run_bind_of_returned (first.run_action n), ih]
    simp

/-- Each measurement finds its context, whichever have been taken before. -/
theorem Course.settled {before after : List Measurement} {m : Measurement} {events : List Event}
    (h : Course s (before ++ m :: after) s' events) (n : Nat) :
    ∃ now seen, s.run mainThread (do
        takeAll n before
        m.resolver.perform (Resolver.bind threadContext)) = ⟨.returned (), now, seen⟩ ∧
      Settled now mainThread m.resolver := by
  induction before generalizing s events with
  | nil =>
    obtain - | ⟨first, -⟩ := h
    exact ⟨_, _, first.run, first.settled⟩
  | cons m' rest ih =>
    obtain - | @⟨_, _, _, _, _, own, _, first, others⟩ := h
    obtain ⟨now, seen, hrun, hsettled⟩ := ih others
    refine ⟨now, own ++ [.printed mainThread (.timing m'.row)] ++ seen, ?_, hsettled⟩
    unfold takeAll
    rw [Program.bind_bind, run_bind_of_returned (first.run_action n), hrun]
    rfl

/-! ## The whole program -/

/-- The number of repetitions that a platform asks for. -/
def repetitions (os : Platform) : Nat :=
  ((os.textOf iterationsVariable).bind readIterations).getD defaultIterations

theorem repetitions_of_numeral {os : Platform} {text : String} {n : Nat}
    (htext : os.textOf iterationsVariable = some text) (hn : Text.Numeral text.toList n)
    (hlt : n < UInt64.size) : repetitions os = n := by
  have hread : readIterations text = some n := Text.numeral?_eq_some_iff.mpr ⟨hn, hlt⟩
  simp [repetitions, htext, hread]

/-- The heading of a run with `n` repetitions. -/
def heading (n : Nat) : List Line :=
  [.text ("=== rtlocal Resolution Benchmark (" ++ toString n ++ " iterations) ==="), .text ""]

theorem run_opening (s : Process) (t : ThreadId) :
    s.run t opening = ⟨.returned (repetitions s.platform), s,
      (heading (repetitions s.platform)).map (.printed t)⟩ := by
  simp [opening, iterations, run_call, perform, Effect.read, Effect.emit, heading, repetitions]

section Program

variable (os : Platform)

/-- The process once the thread is bound natively. -/
def first : Process := boundNative (.fresh os) mainThread threadContext

/-- The process once the thread is bound behind a key too. -/
def second : Process := boundBehind (first os) mainThread threadContext

/-- The process once the thread is bound natively again. -/
def last : Process := boundNative (second os) mainThread threadContext

/-- What is seen of one message of a run. -/
def notice (level : Log.Level) (message : Log.Message) : List Event :=
  (Process.fresh os).recordEvents mainThread level message

/-- What is seen of a run after its heading. -/
def body : List Event :=
  notice os .trace (.binding (.context threadContext) .native) ++
    .printed mainThread (.timing "native         thread     ") ::
      (notice os .trace (.binding (.context threadContext) .key) ++
          notice os .debug (.keyCreated os.nextKey) ++
        .printed mainThread (.timing "pthread-key    thread     ") ::
          (notice os .trace (.binding (.context threadContext) .native) ++
            [.printed mainThread (.timing "native         fiber      ")]))

variable {os} (hcreate : os.createFault = 0) (hstore : os.storeFault = 0)

include hcreate hstore in
theorem course : Course (.fresh os) measurements (last os) (body os) := by
  have hfree₀ : (Process.fresh os).LogFree := ⟨fun _ => nofun, rfl⟩
  have hfree₁ : (first os).LogFree := hfree₀.boundNative _ _
  have hlogging₁ : SameLogging (.fresh os) (first os) := sameLogging_boundNative _ _ _
  have hlogging₂ : SameLogging (.fresh os) (second os) :=
    hlogging₁.trans (sameLogging_boundBehind _ _ _)
  have hplatform : (first os).platform = os := loaded_platform (.fresh os)
  have hkey : (first os).cells .key = .empty :=
    loaded_cells (.fresh os) (c := .key) (by decide)
  have hfirst : Binds (.fresh os) ⟨"thread", ⟨.absent, 0⟩, .native⟩ (first os)
      (notice os .trace (.binding (.context threadContext) .native)) :=
    ⟨run_bind_native rfl hfree₀ _,
      settled_of_held ⟨Or.inl rfl, by decide⟩ (held_boundNative _ _ _)⟩
  have hsecond : Binds (first os) ⟨"thread", ⟨.absent, 1⟩, .key⟩ (second os)
      (notice os .trace (.binding (.context threadContext) .key) ++
        notice os .debug (.keyCreated os.nextKey)) := by
    refine ⟨?_, settled_of_held ⟨Or.inl rfl, by decide⟩ (held_boundBehind _ _ _)⟩
    rw [run_bind_key rfl hfree₁ hkey (by rw [hplatform, hcreate]) (by rw [hplatform, hstore]),
      hlogging₁.recordEvents, hlogging₁.recordEvents, hplatform]
    rfl
  have hlast : Binds (second os) ⟨"fiber", ⟨.constant ⟨fiberContext⟩, 2⟩, .native⟩ (last os)
      (notice os .trace (.binding (.context threadContext) .native)) := by
    refine ⟨?_, settled_of_held ⟨Or.inr ⟨_, rfl⟩, by decide⟩ (held_boundNative _ _ _)⟩
    have hfree₂ : (second os).LogFree := hfree₁.boundBehind _ _
    rw [run_bind_native rfl hfree₂, hlogging₂.recordEvents]
    rfl
  exact .cons hfirst (.cons hsecond (.cons hlast (.nil _)))

include hcreate hstore in
/-- A run has the same course whatever the number of repetitions. -/
theorem run_eq : run os = ⟨.returned (), last os,
    (heading (repetitions os)).map (.printed mainThread) ++ body os⟩ := by
  unfold run program
  rw [run_bind_of_returned (run_opening _ _), (course hcreate hstore).run]
  rfl

theorem last_platform : (last os).platform =
    { os with keysMade := os.keysMade + 1, createCalls := os.createCalls + 1 } := by
  simp [last, second, first, boundNative, boundBehind, stored, withKey, keyMade, fresh]

theorem last_slotBase : (last os).cells .slotBase = .empty := by
  simp [last, second, first, boundNative, boundBehind, stored, withKey, keyMade, fresh,
    loaded_cells, setCell_other, Cells.empty]

end Program

/-! ## What is written -/

/-- The rows of a run: the backend in 14 places, then what is resolved in 10. -/
def rows : List Line :=
  [.timing "native         thread     ", .timing "pthread-key    thread     ",
    .timing "native         fiber      "]

/-- The records of a run where all are written; `key` is the key created. -/
def records (key : Key) : List Log.Record :=
  [⟨.trace, .named "main", .binding (.context threadContext) .native⟩,
    ⟨.trace, .named "main", .binding (.context threadContext) .key⟩,
    ⟨.debug, .named "main", .keyCreated key⟩,
    ⟨.trace, .named "main", .binding (.context threadContext) .native⟩]

/-- The same, as they are spelled, each with its level. -/
def reports (naming : Log.Naming) (key : Key) : List (Log.Level × String) :=
  let address := naming.address (.context threadContext)
  [(.trace, "[TRACE] rtlocal[main] register " ++ address ++ " via native\n"),
    (.trace, "[TRACE] rtlocal[main] register " ++ address ++ " via pthread-key\n"),
    (.debug, "[DEBUG] rtlocal[main] created pthread key " ++ naming.key key ++ "\n"),
    (.trace, "[TRACE] rtlocal[main] register " ++ address ++ " via native\n")]

/-- The level that a platform configures. -/
def limit (os : Platform) : Log.Level :=
  (Log.Settings.ofTexts (os.textOf Log.levelVariable) (os.textOf Log.flushVariable)).level

/-- All that is written to the standard error. -/
def standardError (naming : Log.Naming) (os : Platform) : String :=
  Log.renderChunks naming (Event.logChunks (run os).events)

theorem line_binding (naming : Log.Naming) (address : Address) (backend : Backend) :
    Log.Record.line naming ⟨.trace, .named "main", .binding address backend⟩ ++ "\n" =
      "[TRACE] rtlocal[main] register " ++ naming.address address ++
        (" via " ++ backend.name ++ "\n") := by
  show "[" ++ "TRACE" ++ "] rtlocal[" ++ "main" ++ "] " ++
    ("register " ++ naming.address address ++ " via " ++ backend.name) ++ "\n" = _
  simp [← String.toList_inj]

theorem line_keyCreated (naming : Log.Naming) (key : Key) :
    Log.Record.line naming ⟨.debug, .named "main", .keyCreated key⟩ ++ "\n" =
      "[DEBUG] rtlocal[main] created pthread key " ++ naming.key key ++ "\n" := by
  show "[" ++ "DEBUG" ++ "] rtlocal[" ++ "main" ++ "] " ++
    ("created pthread key " ++ naming.key key) ++ "\n" = _
  simp [← String.toList_inj]

theorem reports_eq (naming : Log.Naming) (key : Key) :
    reports naming key = (records key).map fun r => (r.level, r.line naming ++ "\n") := by
  simp only [records, List.map_cons, List.map_nil, line_binding, line_keyCreated]
  rfl

theorem logChunks_notice (os : Platform) (level : Log.Level) (message : Log.Message) :
    Event.logChunks (notice os level message) =
      if (fresh os).admits level then
        Log.Record.chunks ⟨level, .named "main", message⟩
      else [] :=
  logChunks_recordEvents _ _ _ _

theorem logChunks_body (os : Platform) :
    Event.logChunks (body os) =
      ((records os.nextKey).filter fun r => r.level ≤ limit os).flatMap Log.Record.chunks := by
  have hprinted (line : Line) (events : List Event) :
      Event.logChunks (.printed mainThread line :: events) = Event.logChunks events := rfl
  have hadmits (level : Log.Level) (h : level ≠ .off) :
      (fresh os).admits level = decide (level ≤ limit os) := by
    simp [admits, h]
    rfl
  have htrace := hadmits .trace (by decide)
  have hdebug := hadmits .debug (by decide)
  simp only [body, Event.logChunks_append, hprinted, logChunks_notice, htrace, hdebug]
  by_cases htrace : Log.Level.trace ≤ limit os <;> by_cases hdebug : Log.Level.debug ≤ limit os <;>
    simp [records, htrace, hdebug, Event.logChunks]

theorem printedLines_body (os : Platform) : Event.printedLines (body os) = rows := by
  have hseen (level : Log.Level) (message : Log.Message) :
      Event.printedLines (notice os level message) = [] := printedLines_recordEvents _ _ _ _
  have hprinted (line : Line) (events : List Event) :
      Event.printedLines (.printed mainThread line :: events) =
        line :: Event.printedLines events := rfl
  simp [body, hseen, hprinted, rows]
  rfl

theorem standardError_eq {os : Platform} (hcreate : os.createFault = 0)
    (hstore : os.storeFault = 0) (naming : Log.Naming) :
    standardError naming os = String.join
      (((reports naming os.nextKey).filter fun r => r.1 ≤ limit os).map Prod.snd) := by
  have hheading : Event.logChunks ((heading (repetitions os)).map (.printed mainThread)) = [] := rfl
  have hchunks : Event.logChunks (run os).events =
      ((records os.nextKey).filter fun r => r.level ≤ limit os).flatMap Log.Record.chunks := by
    rw [run_eq hcreate hstore, Event.logChunks_append, hheading, List.nil_append, logChunks_body]
  have hlines := Log.renderChunks_records naming id
    ((records os.nextKey).filter fun r => r.level ≤ limit os)
  rw [standardError, hchunks, reports_eq, List.filter_map, List.map_map]
  exact hlines

/-- Nothing after the heading depends on the variable of the number of repetitions. -/
theorem body_setVariable (os : Platform) (value : Option (List UInt8)) :
    body (os.setVariable iterationsVariable value) = body os := by
  have htext (name : String) (h : name ≠ iterationsVariable) :
      (os.setVariable iterationsVariable value).textOf name = os.textOf name := by
    simp [Platform.textOf, Platform.setVariable, h]
  have hlevel := htext Log.levelVariable (by decide)
  have hflush := htext Log.flushVariable (by decide)
  have hsettings : (fresh (os.setVariable iterationsVariable value)).environmentSettings =
      (fresh os).environmentSettings := by
    show Log.Settings.ofTexts (Platform.textOf _ _) (Platform.textOf _ _) = _
    exact congr (congrArg Log.Settings.ofTexts hlevel) hflush
  have hlogging : SameLogging (fresh os) (fresh (os.setVariable iterationsVariable value)) :=
    ⟨congrArg Log.Settings.level hsettings, congrArg Log.Settings.flush hsettings, rfl⟩
  have hseen (level : Log.Level) (message : Log.Message) :
      notice (os.setVariable iterationsVariable value) level message = notice os level message :=
    hlogging.recordEvents mainThread level message
  simp only [body, hseen]
  rfl

/-- The number of repetitions shows in the heading of a run and nowhere else. Where the platform
creates keys and stores behind them, and asks for any number of repetitions that 64 bits hold, the
program returns, having printed its heading and the three rows, and having written to the log, as
far as the configured level admits, that the thread is bound natively, that it is bound behind a
key, that this key was created, and that the thread is bound natively again. Another number changes
nothing after the first line; another platform with the same level changes nothing on the standard
error but the spelling of the address and of the key. Resolving, whatever was measured before and
however often, leaves the process as it is and is not seen; nor does the program ever ask for the
release. -/
theorem repetitions_only_in_heading {os : Platform} (hcreate : os.createFault = 0)
    (hstore : os.storeFault = 0) {text : String} {n : Nat}
    (htext : os.textOf iterationsVariable = some text) (hn : Text.Numeral text.toList n)
    (hlt : n < UInt64.size) :
    (run os).outcome = .returned () ∧
    Event.printedLines (run os).events =
      [.text ("=== rtlocal Resolution Benchmark (" ++ toString n ++ " iterations) ==="), .text "",
        .timing "native         thread     ", .timing "pthread-key    thread     ",
        .timing "native         fiber      "] ∧
    (∀ naming : Log.Naming, standardError naming os = String.join
      (((reports naming os.nextKey).filter fun r => r.1 ≤ limit os).map Prod.snd)) ∧
    (∀ value, (run (os.setVariable iterationsVariable value)).events.tail =
      (run os).events.tail) ∧
    (∀ (os' : Platform) (naming naming' : Log.Naming), os'.createFault = 0 → os'.storeFault = 0 →
      os'.textOf Log.levelVariable = os.textOf Log.levelVariable →
      naming'.address (.context threadContext) = naming.address (.context threadContext) →
      naming'.key os'.nextKey = naming.key os.nextKey →
      standardError naming' os' = standardError naming os) ∧
    (∀ before m after k, measurements = before ++ m :: after →
      ∃ now seen, (Process.fresh os).run mainThread (do
          let n ← opening
          takeAll n before
          m.resolver.perform (Resolver.bind threadContext)) = ⟨.returned (), now, seen⟩ ∧
        now.run mainThread (resolveTimes m.resolver k) = ⟨.returned (), now, []⟩) ∧
    (run os).process.platform =
      { os with keysMade := os.keysMade + 1, createCalls := os.createCalls + 1 } ∧
    (run os).process.cells .slotBase = .empty := by
  have hrun := run_eq hcreate hstore
  have hrepetitions := repetitions_of_numeral htext hn hlt
  refine ⟨by rw [hrun], ?_, standardError_eq hcreate hstore, fun value => ?_,
    fun os' naming naming' hcreate' hstore' hlevel haddress hkey => ?_,
    fun before m after k hsplit => ?_, by rw [hrun, last_platform], by rw [hrun, last_slotBase]⟩
  · rw [hrun, Event.printedLines_append, hrepetitions, printedLines_body]
    rfl
  · have hrun' : run (os.setVariable iterationsVariable value) = _ := run_eq hcreate hstore
    rw [hrun, hrun', body_setVariable]
    rfl
  · have hlimit : limit os' = limit os := by
      simp only [limit, Log.Settings.ofTexts, hlevel]
    rw [standardError_eq hcreate' hstore', standardError_eq hcreate hstore, hlimit]
    simp only [reports, haddress, hkey]
  · have hcourse := course hcreate hstore
    rw [hsplit] at hcourse
    obtain ⟨now, seen, hnow, hsettled⟩ := hcourse.settled (repetitions os)
    refine ⟨now, (heading (repetitions os)).map (.printed mainThread) ++ seen, ?_,
      hsettled.run_resolveTimes k⟩
    rw [run_bind_of_returned (run_opening _ _)]
    exact congrArg (Finish.after _) hnow

/-- A platform that asks for 3 repetitions and for all records. -/
def threefold : Platform :=
  (Platform.fresh (.failure 5) (.plain 0)).setVariable iterationsVariable (some [43, 48, 51])
    |>.setVariable Log.levelVariable (some [53])

theorem repetitions_only_in_heading_threefold :
    threefold.textOf iterationsVariable = some "+03" ∧ Text.Numeral "+03".toList 3 ∧
      (run threefold).outcome = .returned () ∧
      Event.printedLines (run threefold).events =
        [.text "=== rtlocal Resolution Benchmark (3 iterations) ===", .text "",
          .timing "native         thread     ", .timing "pthread-key    thread     ",
          .timing "native         fiber      "] ∧
      ∀ naming, standardError naming threefold =
        String.join ((reports naming 0).map Prod.snd) := by
  have htext : threefold.textOf iterationsVariable = some "+03" := rfl
  have hnumeral : Text.Numeral "+03".toList 3 :=
    (Text.numeral?_eq_some_iff.mp (show Text.numeral? 4 "+03".toList = some 3 from rfl)).1
  obtain ⟨houtcome, hlines, herror, -⟩ :=
    repetitions_only_in_heading rfl rfl htext hnumeral (by decide)
  have hlimit : limit threefold = .trace := rfl
  refine ⟨htext, hnumeral, houtcome, hlines, fun naming => ?_⟩
  rw [herror naming, hlimit]
  rfl

end Demo.Timing

end ExecContext
