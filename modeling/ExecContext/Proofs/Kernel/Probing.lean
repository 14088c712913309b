import ExecContext.Kernel.ProcessBase
import ExecContext.Proofs.Log.Loading

set_option autoImplicit false

/-!
# What probing the kernel does to a process

The first to ask where the key slots start asks the kernel, reports what it found to the log and
fills the cell; whoever asks later is given what the cell holds.
-/

namespace ExecContext

namespace Process

variable {s : Process} {t : ThreadId}

/-- What the kernel tells about its major version at this moment. -/
def probe (s : Process) : Kernel.Probe := .ofRelease s.platform.uname.release

/-- Where the key slots of the process start, as far as the kernel tells. -/
def base (s : Process) : Nat :=
  match s.cells .slotBase with
  | .full n => n
  | _ => s.probe.base

/-- The process after the kernel was asked for its release. -/
def unameAsked (s : Process) : Process :=
  { s with platform := { s.platform with unameCalls := s.platform.unameCalls + 1 } }

/-- The process after it is known where its key slots start. -/
def based (s : Process) : Process :=
  match s.cells .slotBase with
  | .full _ => s
  | _ => s.unameAsked.loaded.setCell .slotBase (.full s.probe.base)

theorem unameAsked_setCell (s : Process) (c : Cell) (state : Once c.Content) :
    (s.setCell c state).unameAsked = s.unameAsked.setCell c state := rfl

theorem base_setCell (s : Process) {c : Cell} (h : c ≠ .slotBase) (state : Once c.Content) :
    (s.setCell c state).base = s.base := by
  unfold base
  rw [setCell_other _ _ _ h.symm]
  rfl

theorem base_loaded (s : Process) : s.loaded.base = s.base := by
  unfold base
  rw [loaded_cells _ (by decide)]
  simp [probe]

/-- Probing the kernel leaves a cell that is being filled to its thread. -/
theorem based_setCell (s : Process) {c : Cell} (hbase : c ≠ .slotBase) (hsettings : c ≠ .settings)
    (state : Once c.Content) : (s.setCell c state).based = s.based.setCell c state := by
  unfold based
  rw [setCell_other _ _ _ hbase.symm, unameAsked_setCell, loaded_setCell _ hsettings]
  split
  · rfl
  · simp [setCell, set_comm _ hbase, probe]

theorem LogFree.unameAsked (h : s.LogFree) : s.unameAsked.LogFree := ⟨h.settings, h.holder⟩

theorem LogFree.based (h : s.LogFree) : s.based.LogFree := by
  unfold Process.based
  split
  · exact h
  · exact h.unameAsked.loaded.setCell (by decide) _

theorem based_createFault (s : Process) :
    s.based.platform.createFault = s.platform.createFault := by
  unfold based
  split <;> simp [Process.unameAsked]

theorem run_askRelease (s : Process) (t : ThreadId) :
    s.run t Kernel.askRelease = ⟨.returned s.platform.uname.release, s.unameAsked, []⟩ := by
  simp [Kernel.askRelease, run_call, perform, unameAsked]

/-- Every probe is reported at a level that loads the settings. -/
theorem noted_probe (s : Process) (p : Kernel.Probe) : s.noted p.level = s.loaded := by
  cases p <;> rfl

theorem run_reportedBase (h : s.LogFree) (release : Except Kernel.ProbeFailure String) :
    s.run t (Kernel.reportedBase release) =
      ⟨.returned (Kernel.Probe.ofRelease release).base, s.loaded,
        s.recordEvents t (Kernel.Probe.ofRelease release).level
          (.probed (.ofRelease release))⟩ := by
  unfold Kernel.reportedBase
  simp only []
  rw [run_bind_of_returned (run_write h _ _), noted_probe]
  simp

theorem run_processBase (h : s.LogFree) (hidle : ∀ u, s.cells .slotBase ≠ .busy u) :
    ∃ events, s.run t Kernel.processBase = ⟨.returned s.base, s.based, events⟩ := by
  unfold Kernel.processBase
  cases hcell : s.cells .slotBase with
  | full n =>
    refine ⟨[], ?_⟩
    rw [run_getOrFill_of_full (c := .slotBase) hcell]
    simp [base, based, hcell]
  | busy u => exact absurd hcell (hidle u)
  | empty =>
    have hfree := (h.setCell (c := .slotBase) (by decide) (.busy t)).unameAsked
    have hcompute := run_bind_of_returned (run_askRelease (s.setCell .slotBase (.busy t)) t)
      Kernel.reportedBase
    rw [run_reportedBase hfree, Finish.after_mk, unameAsked_setCell,
      loaded_setCell _ (by decide)] at hcompute
    have hrun := run_getOrFill_of_returned (c := .slotBase) hcell hcompute
    rw [setCell_setCell] at hrun
    simp only [base, based, hcell]
    exact ⟨_, hrun⟩

end Process

end ExecContext
