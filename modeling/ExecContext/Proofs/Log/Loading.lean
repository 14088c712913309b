import ExecContext.Log.Writer
import ExecContext.Proofs.Process.Alone

set_option autoImplicit false

/-!
# What the log does to a process

A use of the log loads the settings from the environment, unless they were loaded before, and
changes nothing else of the process. The equations here hold while no other thread loads the
settings or writes to the log.
-/

namespace ExecContext

namespace Process

variable {s s' : Process} {t : ThreadId}

/-! ## Loaded settings -/

/-- The settings that the environment gives at this moment. -/
def environmentSettings (s : Process) : Log.Settings :=
  .ofTexts (s.platform.textOf Log.levelVariable) (s.platform.textOf Log.flushVariable)

/-- The process after the settings are loaded, unless they were loaded before. -/
def loaded (s : Process) : Process :=
  match s.cells .settings with
  | .full _ => s
  | _ =>
    { s with
      cells := s.cells.set .settings (.full ())
      level := s.environmentSettings.level
      flush := s.environmentSettings.flush }

/-- No thread loads the settings or writes to the log. -/
structure LogFree (s : Process) : Prop where
  settings : ∀ u, s.cells .settings ≠ .busy u
  holder : s.logHolder = none

section Loaded

variable (s : Process)

@[simp] theorem loaded_settings : s.loaded.cells .settings = .full () := by
  unfold loaded
  split
  · assumption
  · simp

theorem loaded_cells {c : Cell} (h : c ≠ .settings) : s.loaded.cells c = s.cells c := by
  unfold loaded
  split
  · rfl
  · exact Cells.set_other s.cells _ h

@[simp] theorem loaded_roster : s.loaded.roster = s.roster := by unfold loaded; split <;> rfl
@[simp] theorem loaded_logHolder : s.loaded.logHolder = s.logHolder := by
  unfold loaded; split <;> rfl
@[simp] theorem loaded_native : s.loaded.native = s.native := by unfold loaded; split <;> rfl
@[simp] theorem loaded_specific : s.loaded.specific = s.specific := by
  unfold loaded; split <;> rfl
@[simp] theorem loaded_spy : s.loaded.spy = s.spy := by unfold loaded; split <;> rfl
@[simp] theorem loaded_activities : s.loaded.activities = s.activities := by
  unfold loaded; split <;> rfl
@[simp] theorem loaded_calls : s.loaded.calls = s.calls := by unfold loaded; split <;> rfl
@[simp] theorem loaded_platform : s.loaded.platform = s.platform := by
  unfold loaded; split <;> rfl

theorem loaded_of_full (h : s.cells .settings = .full ()) : s.loaded = s := by
  simp [loaded, h]

@[simp] theorem loaded_loaded : s.loaded.loaded = s.loaded :=
  loaded_of_full s.loaded (loaded_settings s)

/-- Loading the settings leaves a cell that is being filled to its thread. -/
theorem loaded_setCell {c : Cell} (h : c ≠ .settings) (state : Once c.Content) :
    (s.setCell c state).loaded = s.loaded.setCell c state := by
  unfold loaded
  rw [setCell_other s c state h.symm]
  split
  · rfl
  · simp [setCell, set_comm _ h, environmentSettings]

@[simp] theorem loaded_tagOf (t : ThreadId) : s.loaded.tagOf t = s.tagOf t := by
  simp [tagOf, nameOf]

end Loaded

theorem LogFree.loaded (h : s.LogFree) : s.loaded.LogFree where
  settings u := by simp
  holder := by simp [h.holder]

/-- The log can be used while a thread fills another cell. -/
theorem LogFree.setCell (h : s.LogFree) {c : Cell} (hc : c ≠ .settings) (state : Once c.Content) :
    (s.setCell c state).LogFree where
  settings u := by rw [setCell_other s c state hc.symm]; exact h.settings u
  holder := by simpa using h.holder

/-! ## What logging depends on -/

/-- What logging depends on is the same. -/
structure LogSame (s s' : Process) : Prop where
  settings : s'.cells .settings = s.cells .settings
  holder : s'.logHolder = s.logHolder
  level : s'.level = s.level
  environment : s'.platform.environment = s.platform.environment

theorem LogSame.free (h : s.LogSame s') (hfree : s.LogFree) : s'.LogFree where
  settings u := by
    rw [h.settings]
    exact hfree.settings u
  holder := h.holder.trans hfree.holder

theorem LogSame.loaded_level (h : s.LogSame s') : s'.loaded.level = s.loaded.level := by
  have htext (name : String) : s'.platform.textOf name = s.platform.textOf name := by
    simp only [Platform.textOf, h.environment]
  unfold loaded
  rw [h.settings]
  split
  · exact h.level
  · simp only [environmentSettings, htext]

/-! ## Running the uses of the log -/

theorem run_environmentSettings (s : Process) (t : ThreadId) :
    s.run t Log.environmentSettings = ⟨.returned s.environmentSettings, s, []⟩ := by
  simp [Log.environmentSettings, Log.Settings.lookedUp, Program.serve, run_call, perform,
    Effect.read, environmentSettings]

theorem run_load (h : s.LogFree) : s.run t Log.load = ⟨.returned (), s.loaded, []⟩ := by
  unfold Log.load
  cases hcell : s.cells .settings with
  | full value =>
    rw [run_getOrFill_of_full hcell]
    simp [loaded, hcell]
  | busy u => exact absurd hcell (h.settings u)
  | empty =>
    have hcompute : (s.setCell .settings (.busy t)).run t
        (Log.environmentSettings >>= Log.install) =
          ⟨.returned (),
            { s.setCell .settings (.busy t) with
              level := s.environmentSettings.level
              flush := s.environmentSettings.flush }, []⟩ := by
      rw [run_bind_of_returned (run_environmentSettings _ t)]
      simp [Log.install, run_call, perform, Effect.write, environmentSettings]
    rw [run_getOrFill_of_returned (c := .settings) hcell hcompute]
    simp [loaded, hcell, setCell, set_twice]

theorem run_currentLevel (h : s.LogFree) :
    s.run t Log.currentLevel = ⟨.returned s.loaded.level, s.loaded, []⟩ := by
  unfold Log.currentLevel
  rw [run_bind_of_returned (run_load h)]
  simp [run_call, perform, Effect.read]

theorem run_setLevel (h : s.LogFree) (level : Log.Level) :
    s.run t (Log.setLevel level) = ⟨.returned (), { s.loaded with level := level }, []⟩ := by
  unfold Log.setLevel
  rw [run_bind_of_returned (run_load h)]
  simp [run_call, perform, Effect.write]

theorem run_setFlush (h : s.LogFree) (flush : Bool) :
    s.run t (Log.setFlush flush) = ⟨.returned (), { s.loaded with flush := flush }, []⟩ := by
  unfold Log.setFlush
  rw [run_bind_of_returned (run_load h)]
  simp [run_call, perform, Effect.write]

/-! ## Writing a record -/

/-- The process after records of a level were asked for: those of level `off` load nothing. -/
def noted (s : Process) (level : Log.Level) : Process :=
  if level = .off then s else s.loaded

/-- A record of a level is written. -/
def admits (s : Process) (level : Log.Level) : Bool :=
  decide (level ≠ .off) && decide (level ≤ s.loaded.level)

/-- What is seen of a message that a thread writes. -/
def recordEvents (s : Process) (t : ThreadId) (level : Log.Level) (m : Log.Message) :
    List Event :=
  if s.admits level then
    [.logged t (.header level (s.tagOf t)), .logged t (.message m), .logged t .newline] ++
      if s.loaded.flush then [.flushed t] else []
  else []

theorem run_isEnabled (h : s.LogFree) (level : Log.Level) :
    s.run t (Log.isEnabled level) = ⟨.returned (s.admits level), s.noted level, []⟩ := by
  unfold Log.isEnabled
  by_cases hoff : level = .off
  · simp [hoff, admits, noted]
  · simp only [hoff, if_false]
    rw [run_bind_of_returned (run_currentLevel h)]
    simp [admits, noted, hoff]

/-- A record is written while the thread holds the log, which is free again afterwards. -/
theorem run_writeRecord (h : s.logHolder = none) (r : Log.Record) :
    s.run t (Log.writeRecord r) =
      ⟨.returned (), s,
        [.logged t (.header r.level r.tag), .logged t (.message r.message),
          .logged t .newline] ++ if s.flush then [.flushed t] else []⟩ := by
  have hback (b : Bool) (hb : s.flush = b) : { s with flush := b, logHolder := none } = s := by
    cases s
    simp_all
  cases hflush : s.flush <;>
    simp [Log.writeRecord, Log.put, run_call, perform, h, hflush, hback _ hflush, Effect.read,
      Effect.write, Effect.emit]

theorem run_write (h : s.LogFree) (level : Log.Level) (m : Log.Message) :
    s.run t (Log.write level m) = ⟨.returned (), s.noted level, s.recordEvents t level m⟩ := by
  unfold Log.write
  rw [run_bind_of_returned (run_isEnabled h level)]
  cases hadmits : s.admits level with
  | false => simp [recordEvents, hadmits]
  | true =>
    have hlevel : level ≠ .off := by
      intro hoff
      simp [admits, hoff] at hadmits
    have hnoted : s.noted level = s.loaded := if_neg hlevel
    simp only [hnoted, if_true, recordEvents, hadmits]
    simp [run_call, perform, Effect.read, run_writeRecord h.loaded.holder]

end Process

end ExecContext
