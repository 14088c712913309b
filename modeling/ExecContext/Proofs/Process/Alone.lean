import ExecContext.Process.Action
import ExecContext.Process.Run

set_option autoImplicit false

/-!
# What an action does alone

Equations for an action that runs while no other thread does: one for each way of building an
action. An action with such an equation never has to be opened again; the actions made from it are
run by rewriting.
-/

namespace ExecContext

/-! ## Ends of runs -/

namespace Finish

variable {α β : Type}

@[simp] theorem after_mk (outcome : Outcome α) (s : Process) (events seen : List Event) :
    (Finish.mk outcome s events).after seen = ⟨outcome, s, seen ++ events⟩ := rfl

@[simp] theorem after_nil (f : Finish α) : f.after [] = f := rfl

@[simp] theorem after_outcome (f : Finish α) (seen : List Event) :
    (f.after seen).outcome = f.outcome := rfl

@[simp] theorem after_process (f : Finish α) (seen : List Event) :
    (f.after seen).process = f.process := rfl

end Finish

namespace Process

variable {α β : Type} {s s' : Process} {t : ThreadId}

/-! ## Single requests -/

@[simp] theorem run_done (s : Process) (t : ThreadId) (value : α) :
    s.run t (.done value) = ⟨.returned value, s, []⟩ := rfl

@[simp] theorem run_fail (s : Process) (t : ThreadId) (cause : Cause) :
    s.run t (.fail cause : Action α) = ⟨.failed cause, s, []⟩ := rfl

/-- An access is made, and the rest runs from what it leaves behind. -/
theorem run_call (s : Process) (t : ThreadId) (access : Access)
    (resume : access.Answer → Action α) :
    s.run t (.call access resume) =
      match s.perform t access with
      | none => ⟨.blocked, s, []⟩
      | some effect => (effect.process.run t (resume effect.answer)).after effect.events := by
  unfold run
  rw [runFrom]
  cases s.perform t access with
  | none => rfl
  | some effect => exact runFrom_eq t (resume effect.answer) effect.process effect.events

/-! ## Sequences -/

/-- A sequence runs its second part from where the first one returned. -/
theorem run_bind_of_returned {p : Action α} {value : α} {events : List Event}
    (h : s.run t p = ⟨.returned value, s', events⟩) (next : α → Action β) :
    s.run t (p >>= next) = (s'.run t (next value)).after events := by
  unfold run at h
  unfold run
  rw [runFrom_bind, h]
  exact runFrom_eq t (next value) s' events

/-- A sequence fails where its first part does. -/
theorem run_bind_of_failed {p : Action α} {cause : Cause} {events : List Event}
    (h : s.run t p = ⟨.failed cause, s', events⟩) (next : α → Action β) :
    s.run t (p >>= next) = ⟨.failed cause, s', events⟩ := by
  unfold run at h
  unfold run
  rw [runFrom_bind, h]
  rfl

/-! ## Threads -/

theorem run_roster (s : Process) (t : ThreadId) (p : Action α) :
    (s.run t p).process.roster = s.roster := by
  induction p generalizing s with
  | done value => rfl
  | fail cause => rfl
  | call access resume ih =>
    rw [run_call]
    cases h : s.perform t access with
    | none => rfl
    | some effect => exact (ih effect.answer effect.process).trans (perform_roster h)

/-! ## Cleaning up -/

theorem runFrom_onFailure (t : ThreadId) (p : Action α) (cleanup : Action Unit) (s : Process)
    (seen : List Event) :
    runFrom t (p.onFailure cleanup) s seen =
      match (runFrom t p s seen).outcome with
      | .failed cause =>
        runFrom t (cleanup >>= fun _ => .fail cause) (runFrom t p s seen).process
          (runFrom t p s seen).events
      | _ => runFrom t p s seen := by
  induction p generalizing s seen with
  | done value => rfl
  | fail cause => rfl
  | call access resume ih =>
    simp only [Program.onFailure, runFrom]
    cases s.perform t access with
    | none => rfl
    | some effect => exact ih effect.answer effect.process (seen ++ effect.events)

theorem run_onFailure_of_returned {p : Action α} {value : α} {events : List Event}
    (h : s.run t p = ⟨.returned value, s', events⟩) (cleanup : Action Unit) :
    s.run t (p.onFailure cleanup) = ⟨.returned value, s', events⟩ := by
  unfold run at h
  unfold run
  rw [runFrom_onFailure, h]

theorem run_onFailure_of_failed {p : Action α} {cause : Cause} {events : List Event}
    (h : s.run t p = ⟨.failed cause, s', events⟩) (cleanup : Action Unit) :
    s.run t (p.onFailure cleanup) =
      (s'.run t (cleanup >>= fun _ => .fail cause)).after events := by
  unfold run at h
  unfold run
  rw [runFrom_onFailure, h]
  exact runFrom_eq t (cleanup >>= fun _ => .fail cause) s' events

/-! ## One-time cells -/

section Cells

variable {c : Cell} {compute : Action c.Content}

/-- A full cell gives its value without computing it again. -/
theorem run_getOrFill_of_full {value : c.Content} (h : s.cells c = .full value) :
    s.run t (Action.getOrFill c compute) = ⟨.returned value, s, []⟩ := by
  unfold Action.getOrFill
  simp [run_call, perform, h, Effect.read]

/-- An empty cell is filled with the value computed. -/
theorem run_getOrFill_of_returned {value : c.Content} {events : List Event}
    (hempty : s.cells c = .empty)
    (h : (s.setCell c (.busy t)).run t compute = ⟨.returned value, s', events⟩) :
    s.run t (Action.getOrFill c compute) =
      ⟨.returned value, s'.setCell c (.full value), events⟩ := by
  unfold Action.getOrFill
  simp [run_call, perform, hempty,
    run_bind_of_returned (run_onFailure_of_returned h _), Effect.write]

/-- A cell whose value cannot be computed is empty again. -/
theorem run_getOrFill_of_failed {cause : Cause} {events : List Event}
    (hempty : s.cells c = .empty)
    (h : (s.setCell c (.busy t)).run t compute = ⟨.failed cause, s', events⟩) :
    s.run t (Action.getOrFill c compute) = ⟨.failed cause, s'.setCell c .empty, events⟩ := by
  have hclean : (s.setCell c (.busy t)).run t
      (compute.onFailure (.call (Access.abandon c) .done)) =
        ⟨.failed cause, s'.setCell c .empty, events⟩ := by
    rw [run_onFailure_of_failed h]
    simp [run_call, perform, Effect.write]
  unfold Action.getOrFill
  simp [run_call, perform, hempty, run_bind_of_failed hclean]

end Cells

/-! ## A cell replaced -/

theorem set_twice (cells : Cells) (c : Cell) (first last : Once c.Content) :
    (cells.set c first).set c last = cells.set c last := by
  funext d
  by_cases h : d = c
  · subst h
    simp
  · simp [Cells.set_other _ _ h]

theorem set_comm (cells : Cells) {c d : Cell} (h : c ≠ d) (x : Once c.Content)
    (y : Once d.Content) : (cells.set c x).set d y = (cells.set d y).set c x := by
  funext e
  by_cases hc : e = c
  · subst hc
    simp [Cells.set_other _ _ h]
  · by_cases hd : e = d
    · subst hd
      simp [Cells.set_other _ _ hc]
    · simp [Cells.set_other _ _ hc, Cells.set_other _ _ hd]

section SetCell

variable (s : Process) (c : Cell) (state : Once c.Content)

@[simp] theorem setCell_same : (s.setCell c state).cells c = state :=
  Cells.set_same s.cells c state

theorem setCell_other {d : Cell} (h : d ≠ c) : (s.setCell c state).cells d = s.cells d :=
  Cells.set_other s.cells state h

@[simp] theorem setCell_setCell (last : Once c.Content) :
    (s.setCell c state).setCell c last = s.setCell c last := by
  simp [setCell, set_twice]

@[simp] theorem setCell_roster : (s.setCell c state).roster = s.roster := rfl
@[simp] theorem setCell_level : (s.setCell c state).level = s.level := rfl
@[simp] theorem setCell_flush : (s.setCell c state).flush = s.flush := rfl
@[simp] theorem setCell_logHolder : (s.setCell c state).logHolder = s.logHolder := rfl
@[simp] theorem setCell_native : (s.setCell c state).native = s.native := rfl
@[simp] theorem setCell_specific : (s.setCell c state).specific = s.specific := rfl
@[simp] theorem setCell_spy : (s.setCell c state).spy = s.spy := rfl
@[simp] theorem setCell_activities : (s.setCell c state).activities = s.activities := rfl
@[simp] theorem setCell_calls : (s.setCell c state).calls = s.calls := rfl
@[simp] theorem setCell_platform : (s.setCell c state).platform = s.platform := rfl

end SetCell

end Process

end ExecContext
