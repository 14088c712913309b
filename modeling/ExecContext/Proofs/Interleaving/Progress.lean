import ExecContext.Proofs.Interleaving.Cells
import Mathlib.Logic.Relation

set_option autoImplicit false

/-!
# No deadlock

A thread takes locks in the order of their layers: the direct backend and the key backend first,
then the slot base, then the log's settings, then the log itself. A thread that waits therefore
waits for one that holds a lock of a higher layer than any of its own, so that threads never wait in
a circle, and whoever waits does so for a thread that can go on.
-/

namespace ExecContext.Machine

/-! ## Waiting -/

/-- Thread `t` waits for thread `u`: it wants a lock that `u` holds. -/
def Waits (machine : Machine) (t u : ThreadId) : Prop :=
  ∃ use a resume l, machine.work t = some ⟨use, .call a resume⟩ ∧ a.wants? = some l ∧
    machine.process.holder l = some u

/-- Thread `t` is at work and can go on: there is a step that is its own. -/
def CanGo (machine : Machine) (t : ThreadId) : Prop :=
  machine.work t ≠ none ∧ ∃ m later, Step machine m later ∧ m.thread? = some t

variable {s : Process} {machine : Machine} {history : List Label} {t u : ThreadId}

/-- A thread at work can go on unless it waits for another one. -/
theorem canGo_or_waits (hwork : machine.work t ≠ none) :
    CanGo machine t ∨ ∃ u, Waits machine t u := by
  obtain ⟨⟨use, rest⟩, hw⟩ := Option.ne_none_iff_exists'.mp hwork
  cases rest with
  | done answer => exact Or.inl ⟨hwork, _, _, .ends hw rfl, rfl⟩
  | fail cause => exact Or.inl ⟨hwork, _, _, .ends hw rfl, rfl⟩
  | call a resume =>
    cases heffect : machine.process.perform t a with
    | some effect => exact Or.inl ⟨hwork, _, _, .access hw (.made heffect), rfl⟩
    | none =>
      obtain ⟨l, u, hwants, hholder⟩ := Process.perform_eq_none.mp heffect
      exact Or.inr ⟨u, use, a, resume, l, hw, hwants, hholder⟩

/-- A thread that waits cannot go on. -/
theorem Waits.not_canGo (h : Waits machine t u) : ¬CanGo machine t := by
  obtain ⟨use, a, resume, l, hwork, hwants, hholder⟩ := h
  rintro ⟨-, m, later, step, hm⟩
  cases step with
  | @begins v use' hidle =>
    cases hm
    rw [hwork] at hidle
    cases hidle
  | @access v use' _ _ a' effect hwork' hnext =>
    obtain ⟨resume', rfl, heffect, rfl⟩ := hnext
    cases hm
    rw [hwork] at hwork'
    cases hwork'
    rw [Process.perform_eq_none.mpr ⟨l, u, hwants, hholder⟩] at heffect
    cases heffect
  | @ends v use' rest result hwork' hresult =>
    cases hm
    rw [hwork] at hwork'
    cases hwork'
    cases hresult
  | changes c => cases hm
  | starts name => cases hm

/-! ## The order of the locks -/

/-- A thread that holds a lock is at work. -/
theorem Lawful.working (h : Lawful history machine) {l : Lock}
    (hl : l ∈ (lockState history t).locks) : machine.work t ≠ none := by
  intro hidle
  have hfits := h.fits t
  rw [hidle] at hfits
  rw [LockState.locks, show (lockState history t).holds = [] from hfits] at hl
  cases hl

/-- Whoever waits does so for a lock of a higher layer than any that it holds. -/
theorem Lawful.waits (h : Lawful history machine) (hwaits : Waits machine t u) :
    ∃ l ∈ (lockState history u).locks, ∀ held ∈ (lockState history t).locks,
      held.layer < l.layer := by
  obtain ⟨use, a, resume, l, hwork, hwants, hholder⟩ := hwaits
  have hfits := h.fits t
  rw [hwork] at hfits
  exact ⟨l, (h.agreed.holder u l).mp hholder, hfits.1.1.below hwants⟩

/-- Along a chain of waiting threads the layers rise. -/
theorem Lawful.chain (h : Lawful history machine) (hchain : Relation.TransGen (Waits machine) t u) :
    ∃ l ∈ (lockState history u).locks, ∀ held ∈ (lockState history t).locks,
      held.layer < l.layer := by
  induction hchain with
  | single hwaits => exact h.waits hwaits
  | tail _ hwaits ih =>
    obtain ⟨l, hl, hbelow⟩ := ih
    obtain ⟨l', hl', hbelow'⟩ := h.waits hwaits
    exact ⟨l', hl', fun held hheld => Nat.lt_trans (hbelow held hheld) (hbelow' l hl)⟩

/-- Threads never wait in a circle. -/
theorem Lawful.no_circle (h : Lawful history machine) (t : ThreadId) :
    ¬Relation.TransGen (Waits machine) t t := by
  intro hchain
  obtain ⟨l, hl, hbelow⟩ := h.chain hchain
  exact Nat.lt_irrefl _ (hbelow l hl)

/-- A thread that holds a lock can go on, or waits for one that can, perhaps through others. -/
theorem Lawful.goes_of_holds (h : Lawful history machine) (n : Nat) {l : Lock}
    (hl : l ∈ (lockState history t).locks) (hn : 4 ≤ l.layer + n) :
    ∃ u, Relation.ReflTransGen (Waits machine) t u ∧ CanGo machine u := by
  induction n generalizing t l with
  | zero => exact absurd l.layer_lt (by omega)
  | succ n ih =>
    rcases canGo_or_waits (h.working hl) with hgo | ⟨u, hwaits⟩
    · exact ⟨t, .refl, hgo⟩
    · obtain ⟨l', hl', hbelow⟩ := h.waits hwaits
      have hlayer : l.layer < l'.layer := hbelow l hl
      obtain ⟨v, hchain, hgo⟩ := ih hl' (by omega)
      exact ⟨v, .head hwaits hchain, hgo⟩

/-- A thread at work can go on, or waits for one that can, perhaps through others. -/
theorem Lawful.goes (h : Lawful history machine) (hwork : machine.work t ≠ none) :
    ∃ u, Relation.ReflTransGen (Waits machine) t u ∧ CanGo machine u := by
  rcases canGo_or_waits hwork with hgo | ⟨u, hwaits⟩
  · exact ⟨t, .refl, hgo⟩
  · obtain ⟨l, hl, -⟩ := h.waits hwaits
    obtain ⟨v, hchain, hgo⟩ := h.goes_of_holds 4 hl (Nat.le_add_left 4 _)
    exact ⟨v, .head hwaits hchain, hgo⟩

/-! ## The result -/

/-- A cell that is given up is empty, and the next thread to enter takes it on. -/
theorem available_of_abandoned {before after : List Label} {use : Use} {c : Cell}
    (run : Run (idle s) (before ++ .access t use (.abandon c) () :: after) machine) :
    ∃ next, Run (idle s) (before ++ [.access t use (.abandon c) ()]) next ∧
      Run next after machine ∧ next.process.cells c = .empty ∧
      ∀ v, next.process.perform v (.enter c) =
        some ⟨none, next.process.setCell c (.busy v), []⟩ := by
  obtain ⟨now, next, resume, effect, -, -, heffect, -, hnext, hprocess, -, hafter⟩ := run.accessed
  have hempty : next.process.cells c = .empty := by
    rw [hprocess]
    cases heffect
    exact Cells.set_same now.process.cells c .empty
  refine ⟨next, hnext, hafter, hempty, fun v => ?_⟩
  simp [Process.perform, hempty]

/-- The one-time cells and the log never deadlock. In every state that a machine may reach, no
thread asks for a cell that it fills itself, nor for the log while it writes to it; threads do not
wait in a circle; a thread that has not finished can go on, or waits for one that can; a cell whose
initialiser failed is empty again and is taken on by the next thread to enter; and an idle thread,
whether its last use returned or failed, holds nothing. -/
theorem no_deadlock (hs : s.Unheld) (run : Run (idle s) history machine) :
    (∀ t use c resume, machine.work t = some ⟨use, .call (Access.enter c) resume⟩ →
      machine.process.cells c ≠ .busy t) ∧
    (∀ t use resume, machine.work t = some ⟨use, .call Access.lockLog resume⟩ →
      machine.process.logHolder ≠ some t) ∧
    (∀ t, ¬Relation.TransGen (Waits machine) t t) ∧
    (∀ t, machine.work t ≠ none →
      ∃ u, Relation.ReflTransGen (Waits machine) t u ∧ CanGo machine u) ∧
    (∀ before t use c after, history = before ++ .access t use (.abandon c) () :: after →
      (∃ earlier during cause, TookOn t use c earlier during before ∧
        c.compute.Path (exchanges t during) (.fail cause)) ∧
      ∃ next, Run (idle s) (before ++ [.access t use (.abandon c) ()]) next ∧
        Run next after machine ∧ next.process.cells c = .empty ∧
        ∀ v, next.process.perform v (.enter c) =
          some ⟨none, next.process.setCell c (.busy v), []⟩) ∧
    ∀ t, machine.work t = none →
      (∀ c, machine.process.cells c ≠ .busy t) ∧ machine.process.logHolder ≠ some t := by
  have hlawful := run.lawful hs
  have hself (t : ThreadId) : ¬Waits machine t t :=
    fun hwaits => hlawful.no_circle t (.single hwaits)
  have hidle (t : ThreadId) (hwork : machine.work t = none) (l : Lock) :
      machine.process.holder l ≠ some t :=
    fun hholder => hlawful.working ((hlawful.agreed.holder t l).mp hholder) hwork
  refine ⟨?cells, ?log, hlawful.no_circle, fun t => hlawful.goes, ?abandoned, ?idle⟩
  case cells =>
    intro t use c resume hwork hbusy
    apply hself t
    exact ⟨use, .enter c, resume, .cell c, hwork, rfl, by simp [Process.holder, hbusy]⟩
  case log =>
    intro t use resume hwork hholder
    apply hself t
    exact ⟨use, .lockLog, resume, .log, hwork, rfl, hholder⟩
  case abandoned =>
    rintro before t use c after rfl
    exact ⟨run.abandoned hs, available_of_abandoned run⟩
  case idle =>
    intro t hwork
    refine ⟨?_, hidle t hwork .log⟩
    intro c hbusy
    exact hidle t hwork (.cell c) (by simp [Process.holder, hbusy])

/-- Thread 1 has taken on the slot base, which thread 2 needs to set up the direct backend. -/
def contendedStart : List Label × Machine :=
  (idle (.fresh (.fresh (.failure 5) (.plain 0)))).follow
    [.begin 1 (.service .processBase), .begin 2 (.call [] ⟨⟨.absent, 0⟩, .direct⟩ (.hold none)),
      .go 1, .go 2]

theorem no_deadlock_contended :
    ¬CanGo contendedStart.2 2 ∧
    ¬Relation.TransGen (Waits contendedStart.2) 2 2 ∧
    ∃ u, Relation.ReflTransGen (Waits contendedStart.2) 2 u ∧ CanGo contendedStart.2 u := by
  have run :
      Run (idle (.fresh (.fresh (.failure 5) (.plain 0)))) contendedStart.1 contendedStart.2 :=
    run_follow _ _
  obtain ⟨-, -, hcircle, hgoes, -⟩ := no_deadlock (unheld_fresh _) run
  have hwaits : Waits contendedStart.2 2 1 :=
    ⟨_, .enter .slotBase, _, .cell .slotBase, rfl, rfl, rfl⟩
  refine ⟨hwaits.not_canGo, hcircle 2, hgoes 2 ?_⟩
  exact Option.isSome_iff_ne_none.mp rfl

end ExecContext.Machine
