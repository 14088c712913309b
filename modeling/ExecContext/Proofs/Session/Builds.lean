import ExecContext.Proofs.Log.Composition
import ExecContext.Proofs.Resolver.Reading
import ExecContext.Proofs.Resolver.Resolving
import ExecContext.Proofs.Session.Abreast
import ExecContext.Proofs.Session.History
import ExecContext.Proofs.Session.Rebuilt

set_option autoImplicit false

/-!
# The build does not show

Two sessions that differ in the build alone are compared. As long as the platform fails at nothing
and no slot of a direct backend leads to the key, no answer tells the two apart, the name of the
backend and the number of keys asked for left aside (`build_invisible`).
-/

namespace ExecContext

/-! ## Actions in two builds -/

section Alike

variable {α : Type} {t : ThreadId}

/-- The processes are of two builds, and their direct backends see the same. -/
def Process.Seen (s s' : Process) : Prop :=
  s.Rebuilt s' ∧ s.SameSight s'

variable {R : Process → Process → Prop}

/-- The access is made alike in all builds: it asks or changes a scheduler, counts, lets a request
be observed or uses the spy. -/
def Access.Common : Access → Prop
  | .activity _ => True
  | .setActivity .. => True
  | .addCalls .. => True
  | .observe _ => True
  | .loadSpy => True
  | .storeSpy _ => True
  | _ => False

namespace Process.Rebuilt

variable {s s' : Process}

/-- What neither binds, nor logs, nor calls the platform is known to be related by the rest. -/
theorem of_same (h : Rebuilt s s') {activities : Activities} {calls : ContextId → Int64} :
    Rebuilt { s with activities := activities, calls := calls }
      { s' with activities := activities, calls := calls } :=
  { h with
    sound := h.sound.congr rfl rfl rfl (fun _ hk => hk)
    sound' := h.sound'.congr rfl rfl rfl (fun _ hk => hk)
    activities := rfl
    calls := rfl
    level := h.level_of_logSame ⟨rfl, rfl, rfl, rfl⟩ ⟨rfl, rfl, rfl, rfl⟩ }

theorem shared {a : Access} (ha : a.Common) : a.Shared Rebuilt Event.SameView t := by
  intro s s' h
  cases a with
  | activity sched =>
    refine Or.inr ⟨_, _, _, _, _, rfl, ?_, h, .refl _⟩
    simp only [perform, Effect.read, h.activities]
  | setActivity sched a =>
    refine Or.inr ⟨_, _, _, _, _, rfl, rfl, ?_, .refl _⟩
    simp only [h.activities, ← h.calls]
    exact h.of_same
  | addCalls c amount =>
    refine Or.inr ⟨_, _, _, _, _, rfl, by simp only [perform, h.calls]; rfl, ?_, .refl _⟩
    simp only [← h.activities]
    exact h.of_same
  | observe q => exact Or.inr ⟨_, _, _, _, _, rfl, rfl, h, .refl _⟩
  | loadSpy =>
    have hspy : s'.spy = s.spy := h.kept .spy (by decide)
    refine Or.inr ⟨_, _, _, _, _, rfl, ?_, h, .refl _⟩
    simp only [perform, Effect.read, hspy]
  | storeSpy p =>
    refine Or.inr ⟨_, _, _, _, _, rfl, rfl, ?_, .refl _⟩
    exact h.of_holding (b := .spy) (by decide) (.spy h.sound t p) (.spy h.sound' t p) rfl rfl
      (LogSame.loaded_level ⟨rfl, rfl, rfl, rfl⟩) (LogSame.loaded_level ⟨rfl, rfl, rfl, rfl⟩)
      rfl rfl
  | _ => exact ha.elim

end Process.Rebuilt

/-- Such an access touches neither a cell nor what the process is given. -/
theorem Process.perform_common {s : Process} {a : Access} {effect : Effect a.Answer}
    (ha : a.Common) (heffect : s.perform t a = some effect) :
    effect.process.cells = s.cells ∧ effect.process.platform.host = s.platform.host := by
  refine ⟨funext fun c => perform_frame heffect (.cell c) ?_,
    (perform_surroundings heffect).2.2.2.2⟩
  cases a <;> first | exact ha.elim | exact nofun

/-- So it does not change what the direct backends see. -/
theorem Process.Seen.shared {a : Access} (ha : a.Common) :
    a.Shared Process.Seen Event.SameView t := by
  intro s s' h
  rcases Process.Rebuilt.shared (t := t) ha s s' h.1 with
    hwaits | ⟨answer, s₁, s₁', events, events', hs, hs', hR, hevents⟩
  · exact Or.inl hwaits
  · obtain ⟨hcells, hplatform⟩ := Process.perform_common ha hs
    obtain ⟨hcells', -⟩ := Process.perform_common ha hs'
    refine Or.inr ⟨answer, s₁, s₁', events, events', hs, hs', ⟨hR, ?_⟩, hevents⟩
    dsimp only at hcells hcells' hplatform
    refine h.2.before (fun c value hc => ?_) (fun c value hc => ?_) ?_
    · rwa [← hcells]
    · rwa [← hcells']
    · rw [hplatform]

end Alike

/-! ## Sessions -/

namespace Session

variable {setup : Setup}

/-- Two contexts, with a resolver over the platform's backend and one over the direct backend. -/
def chosen : Setup where
  scope := .process
  build := ⟨false⟩
  contexts := ["a", "b"]
  resolvers := [⟨.platform, .perThread⟩, ⟨.fixed .direct, .absent⟩]
  threads := [none, some "worker"]
  environment := []
  uname := .field [49, 49]
  host := .plain 0

end Session

end ExecContext
