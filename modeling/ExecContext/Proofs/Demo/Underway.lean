import ExecContext.Proofs.Demo.Turns
import ExecContext.Proofs.Demo.Unlocked
import ExecContext.Proofs.Demo.Worker
import ExecContext.Proofs.Interleaving.Cells
import ExecContext.Proofs.Log.Framing

set_option autoImplicit false

/-!
# Workers under way

What is known while workers run: each thread has a position, made of the locks that it holds, of how
far it has come with the key, and of its state. The process is as the positions say, and each worker
goes on from its own one as it should. A turn of a worker changes the position of that worker alone
(`Underway.access`), a worker that was just started begins at a position of its own
(`Underway.hire`), and as long as a worker has not ended some worker can take a turn
(`Underway.goes`).
-/

namespace ExecContext.Demo.Workers

open Discipline (setStage setStage_same setStage_other setStage_self map_setStage forall_setStage)

/-! ## Positions -/

/-- The locks that a thread holds, how far it has come with the key, and its state. -/
abbrev Position := LockState × KeyProgress × ThreadState

/-- The position of a thread that has not been started. -/
def Position.new (t : ThreadId) : Position := (.start, ⟨.outside, none⟩, .blank t)

/-- The position of a worker that was just started. -/
def Position.started (w : Nat) : Position :=
  (.start, ⟨.outside, none⟩, { ThreadState.blank (w + 2) with name := some (workerName w) })

/-- The lines that a thread has printed. -/
def Position.printed (φ : Position) : List Line := φ.2.2.printed

/-- No thread holds a lock. -/
def Quiet (positions : ThreadId → Position) : Prop := ∀ u, (positions u).1.holds = []

/-- No thread but this one holds a lock. -/
def QuietBut (t : ThreadId) (positions : ThreadId → Position) : Prop :=
  ∀ u, u ≠ t → (positions u).1.holds = []

/-- All that a worker keeps to. -/
def positionDiscipline (k₀ : Key) : Discipline Position := openRules.both (workerDiscipline k₀)

/-- The process is as the positions say. -/
structure Accords (os : Platform) (s : Process) (positions : ThreadId → Position) : Prop where
  lockState : Agreed s fun t => (positions t).1
  progress : KeyInvariant os (fun _ => .empty) s fun t => (positions t).2.1
  state : ThreadStates s fun t => (positions t).2.2

section Positions

variable {os : Platform} {s : Process} {positions : ThreadId → Position} {t : ThreadId} {a : Access}
  {effect : Effect a.Answer} {φ φ' : Position}

theorem Quiet.but (h : Quiet positions) (t : ThreadId) : QuietBut t positions := fun u _ => h u

theorem QuietBut.step (h : QuietBut t positions) (φ : Position) :
    QuietBut t (setStage positions t φ) := by
  intro u hu
  rw [setStage_other positions φ hu]
  exact h u hu

theorem QuietBut.quiet (h : QuietBut t positions) (ht : (positions t).1.holds = []) :
    Quiet positions := by
  intro u
  by_cases hu : u = t
  · rw [hu]
    exact ht
  · exact h u hu

/-- An access that is permitted leads to a position with which the process accords. -/
theorem Accords.access (h : Accords os s positions)
    (hpermits : (positionDiscipline os.nextKey).permits (positions t) a)
    (heffect : s.perform t a = some effect) :
    ∃ φ, (positionDiscipline os.nextKey).moves (positions t) a effect.answer φ ∧
      Accords os effect.process (setStage positions t φ) := by
  obtain ⟨⟨⟨hallowed, -⟩, -⟩, hkey, hstate⟩ := hpermits
  obtain ⟨progress, hmove, hprogress⟩ := (keeps_keyInvariant os _).access h.progress hkey heffect
  obtain ⟨state, hmove', hstate'⟩ := h.state.access hstate effect heffect
  refine ⟨((positions t).1.record a effect.answer, progress, state), ⟨rfl, hmove, hmove'⟩,
    ?_, ?_, ?_⟩
  · rw [map_setStage Prod.fst]
    exact h.lockState.access hallowed heffect
  · rw [map_setStage fun φ : Position => φ.2.1]
    exact hprogress
  · rw [map_setStage fun φ : Position => φ.2.2]
    exact hstate'

/-- A permitted access waits only for a lock of a higher layer, which another thread holds. -/
theorem Accords.waits (h : Accords os s positions)
    (hpermits : (positionDiscipline os.nextKey).permits (positions t) a)
    (hwaits : s.perform t a = none) :
    ∃ u l, l ∈ (positions u).1.locks ∧ ∀ held ∈ (positions t).1.locks, held.layer < l.layer := by
  obtain ⟨l, u, hwants, hholder⟩ := Process.perform_eq_none.mp hwaits
  exact ⟨u, l, (h.lockState.holder u l).mp hholder, hpermits.1.1.1.below hwants⟩

/-- While the other threads hold nothing, a permitted access does not wait. -/
theorem Accords.alone (h : Accords os s positions)
    (hpermits : (positionDiscipline os.nextKey).permits (positions t) a)
    (hothers : QuietBut t positions) :
    ∃ effect, s.perform t a = some effect := by
  cases heffect : s.perform t a with
  | some effect => exact ⟨effect, rfl⟩
  | none =>
    obtain ⟨u, l, hl, hbelow⟩ := h.waits hpermits heffect
    by_cases hu : u = t
    · rw [hu] at hl
      exact absurd (hbelow l hl) (Nat.lt_irrefl _)
    · rw [LockState.locks, hothers u hu] at hl
      cases hl

/-- The process accords with a worker that was just started as it does with the others. -/
theorem Accords.start (h : Accords os s positions) {n : Nat} (hn : s.roster.length = n + 1)
    (hnew : positions (n + 2) = .new (n + 2)) :
    Accords os (s.start (some (workerName n))).2 (setStage positions (n + 2) (.started n)) where
  lockState := by
    have hsame : (Position.started n).1 = (positions (n + 2)).1 := by
      rw [hnew]
      rfl
    rw [map_setStage Prod.fst, hsame, setStage_self]
    exact h.lockState.of_same rfl rfl
  progress := by
    have hsame : (Position.started n).2.1 = (positions (n + 2)).2.1 := by
      rw [hnew]
      rfl
    rw [map_setStage fun φ : Position => φ.2.1, hsame]
    exact h.progress.aside rfl (fun _ hn => hn) rfl
  state := by
    have hnamed : (Position.started n).2.2 =
        { (positions (n + 2)).2.2 with name := some (workerName n) } := by
      rw [hnew]
      rfl
    rw [map_setStage fun φ : Position => φ.2.2, hnamed]
    exact h.state.start hn (workerName n)

/-- What an access prints is printed by the thread at the position. -/
theorem printed_of_position {k₀ : Key} {answer : a.Answer}
    (h : (positionDiscipline k₀).moves φ a answer φ') :
    φ'.printed = φ.printed ++ a.lines :=
  printed_of_moves h.2.2

end Positions

/-! ## A worker at work -/

/-- What a worker has to show at its end. -/
def finalLedger (w : Nat) : Ledger :=
  ⟨some (.context (ownContext w)), .idle, expectedCalls, workerLines w⟩

/-- How a worker ends: it holds no lock, returns its own calls, and has printed its lines. -/
def Finished (build : Build) (w : Nat) (φ : Position) (result : Except Cause Int64) : Prop :=
  φ.1.holds = [] ∧ result = .ok expectedCalls ∧ Shows build w (finalLedger w) φ.2

/-- What remains to be run of a worker keeps to the discipline from this position on. -/
def AtWork (k₀ : Key) (build : Build) (w : Nat) (rest : Action Int64) (φ : Position) : Prop :=
  (positionDiscipline k₀).Obeys (Finished build w) rest φ

section Work

variable {k₀ : Key} {build : Build} {w : Nat} {rest : Action Int64} {φ : Position}

theorem atWork_started (k₀ : Key) (build : Build) (w : Nat) :
    AtWork k₀ build w (worker (resolver build) w) (.started w) := by
  have hshows : Shows build w ⟨none, .idle, 0, []⟩ (Position.started w).2 :=
    { idle := Or.inl rfl
      bound := ite_self none
      thread := rfl
      name := rfl
      activity := rfl
      calls := rfl
      printed := rfl }
  exact (frees_worker _ rfl).both (does_worker _ hshows)

theorem AtWork.of_done {calls : Int64} (h : AtWork k₀ build w (.done calls) φ) :
    φ.1.holds = [] ∧ calls = expectedCalls ∧ φ.printed = workerLines w :=
  ⟨h.1, Except.ok.inj h.2.1, h.2.2.printed⟩

/-- What a worker has printed is the beginning of its lines. -/
theorem AtWork.begins (h : AtWork k₀ build w rest φ) : φ.printed <+: workerLines w := by
  induction rest generalizing φ with
  | done calls => exact h.of_done.2.2 ▸ List.prefix_rfl
  | fail cause => cases h.2.1
  | call a resume ih =>
    obtain ⟨answer, ψ, hmove⟩ := workerDiscipline_total k₀ φ.2 a h.1.2
    have hmove' : (positionDiscipline k₀).moves φ a answer (φ.1.record a answer, ψ) := ⟨rfl, hmove⟩
    have hrest := ih answer (h.2 answer _ hmove')
    rw [printed_of_position hmove'] at hrest
    exact (List.prefix_append _ _).trans hrest

theorem AtWork.not_fail {cause : Cause} (h : AtWork k₀ build w (.fail cause) φ) : False := by
  cases h.2.1

end Work

/-! ## Workers under way -/

/-- An access prints its lines behind what was printed before. -/
theorem prints_after {e : Execution} {t : ThreadId} {a : Access} {effect : Effect a.Answer}
    (h : e.process.perform t a = some effect) :
    Event.prints (e.after effect).events =
      Event.prints e.events ++ a.lines.map (Prod.mk t) := by
  show Event.prints (e.events ++ effect.events) = _
  rw [Event.prints_append, Process.prints_perform h]

theorem getElem?_setRest {e : Execution} {w : Nat} {worker : Worker}
    (h : e.workers[w]? = some worker) {α : Type} (effect : Effect α) (t : ThreadId)
    (rest : Action Int64) :
    ((e.after effect).setRest w t rest).workers[w]? = some ⟨t, rest⟩ := by
  simp [Execution.setRest, Execution.after, (List.getElem?_eq_some_iff.mp h).1]

/-- Workers are under way, from where this was printed already. -/
structure Underway (os : Platform) (build : Build) (seen : List (ThreadId × Line)) (e : Execution)
    (positions : ThreadId → Position) : Prop where
  accords : Accords os e.process positions
  roster : e.process.roster.length = e.workers.length + 1
  work : ∀ w worker, e.workers[w]? = some worker →
    worker.thread = w + 2 ∧ AtWork os.nextKey build w worker.rest (positions (w + 2))
  absent : ∀ t, (∀ w < e.workers.length, t ≠ w + 2) → positions t = .new t
  printed : ∃ middle, Event.prints e.events = seen ++ middle ∧
    ∀ t, ownOf t middle = (positions t).printed

section Underway

variable {os : Platform} {build : Build} {seen : List (ThreadId × Line)} {e e' : Execution}
  {positions : ThreadId → Position} {w : Nat} {t : ThreadId} {a : Access}
  {resume : a.Answer → Action Int64} {effect : Effect a.Answer}

/-- After a turn of a worker the workers are still under way. -/
theorem Underway.access (h : Underway os build seen e positions)
    (hworker : e.workers[w]? = some ⟨t, .call a resume⟩)
    (heffect : e.process.perform t a = some effect) :
    ∃ φ, (positionDiscipline os.nextKey).moves (positions t) a effect.answer φ ∧
      Underway os build seen ((e.after effect).setRest w t (resume effect.answer))
        (setStage positions t φ) := by
  obtain ⟨rfl, hpermits, hrest⟩ := h.work w _ hworker
  have hw : w < e.workers.length := (List.getElem?_eq_some_iff.mp hworker).1
  obtain ⟨φ, hmove, haccords⟩ := h.accords.access hpermits heffect
  refine ⟨φ, hmove,
    { accords := haccords, roster := ?roster, work := ?work, absent := ?absent,
      printed := ?printed }⟩
  case roster =>
    simpa [Execution.setRest, Execution.after, Process.perform_roster heffect] using h.roster
  case work =>
    intro v worker hv
    by_cases hvw : v = w
    · subst hvw
      obtain rfl : ⟨v + 2, resume effect.answer⟩ = worker :=
        Option.some.inj ((getElem?_setRest hworker effect _ _).symm.trans hv)
      rw [setStage_same]
      exact ⟨rfl, hrest _ _ hmove⟩
    · have hv' : e.workers[v]? = some worker := by
        simpa [Execution.setRest, Execution.after, Ne.symm hvw] using hv
      rw [setStage_other positions φ (fun heq => hvw (Nat.add_right_cancel heq))]
      exact h.work v worker hv'
  case absent =>
    intro u hu
    have habsent : ∀ v < e.workers.length, u ≠ v + 2 := by
      intro v hv
      exact hu v (by simpa [Execution.setRest, Execution.after] using hv)
    rw [setStage_other positions φ (habsent w hw)]
    exact h.absent u habsent
  case printed =>
    obtain ⟨middle, hmiddle, hown⟩ := h.printed
    refine ⟨middle ++ a.lines.map (Prod.mk (w + 2)), ?_, ?_⟩
    · exact (prints_after heffect).trans (by rw [hmiddle, List.append_assoc])
    · intro u
      rw [ownOf_append, hown]
      -- only the worker whose turn it is prints
      refine forall_setStage (P := fun u (φ : Position) =>
        (positions u).printed ++ ownOf u (a.lines.map (Prod.mk (w + 2))) = φ.printed) ?_ ?_ u
      · rw [ownOf_same, printed_of_position hmove]
      · intro u hu
        rw [ownOf_other hu, List.append_nil]

/-! ## Starting a worker -/

/-- A worker that was just started stands behind those started before. -/
theorem hire_workers (build : Build) {n : Nat} (hn : e.workers.length = n)
    (hroster : e.process.roster.length = n + 1) :
    (e.hire build).workers = e.workers ++ [⟨n + 2, worker (resolver build) n⟩] := by
  simp [Execution.hire, Process.start, hn, hroster]

/-- A worker that was just started is under way with the others. -/
theorem Underway.hire (h : Underway os build seen e positions) :
    Underway os build seen (e.hire build)
      (setStage positions (e.workers.length + 2) (.started e.workers.length)) := by
  generalize hn : e.workers.length = n
  have hroster : e.process.roster.length = n + 1 := hn ▸ h.roster
  have hnew : positions (n + 2) = .new (n + 2) := h.absent _ fun w hw => by omega
  have hprocess : (e.hire build).process = (e.process.start (some (workerName n))).2 := by
    rw [← hn]
    rfl
  have hworkers := hire_workers build hn hroster
  refine { accords := ?accords, roster := ?roster, work := ?work, absent := ?absent,
           printed := ?printed }
  case accords =>
    rw [hprocess]
    exact h.accords.start hroster hnew
  case roster =>
    rw [hprocess, hworkers]
    simp [Process.start, hroster, hn]
  case work =>
    intro v found hv
    rw [hworkers] at hv
    by_cases hvn : v = n
    · subst hvn
      obtain rfl : found = ⟨v + 2, worker (resolver build) v⟩ := by
        simpa [← hn] using hv.symm
      rw [setStage_same]
      exact ⟨rfl, atWork_started os.nextKey build v⟩
    · have hlt : v < e.workers.length := by
        have hv' := (List.getElem?_eq_some_iff.mp hv).1
        simp only [List.length_append, List.length_singleton] at hv'
        omega
      rw [List.getElem?_append_left hlt] at hv
      rw [setStage_other positions _ (fun heq => hvn (Nat.add_right_cancel heq))]
      exact h.work v found hv
  case absent =>
    intro u hu
    have habsent : ∀ v < n + 1, u ≠ v + 2 := by
      intro v hv
      exact hu v (by simpa [hworkers, hn] using hv)
    rw [setStage_other positions _ (habsent n (Nat.lt_succ_self n))]
    exact h.absent u fun v hv => habsent v (by omega)
  case printed =>
    obtain ⟨middle, hmiddle, hown⟩ := h.printed
    refine ⟨middle, hmiddle, ?_⟩
    intro u
    rw [hown]
    refine forall_setStage (P := fun u (φ : Position) => (positions u).printed = φ.printed) ?_ ?_ u
    · rw [hnew]
      rfl
    · intro u _
      rfl

/-! ## Some worker can go on -/

/-- A thread that holds a lock is a worker that has not ended. -/
theorem Underway.working (h : Underway os build seen e positions)
    (hholds : (positions t).1.holds ≠ []) :
    ∃ w access resume, e.workers[w]? = some ⟨t, .call access resume⟩ ∧ t = w + 2 := by
  by_cases ht : ∀ w < e.workers.length, t ≠ w + 2
  · rw [h.absent t ht] at hholds
    exact (hholds rfl).elim
  · push Not at ht
    obtain ⟨w, hw, rfl⟩ := ht
    obtain ⟨⟨u, rest⟩, hworker⟩ : ∃ worker, e.workers[w]? = some worker :=
      ⟨_, List.getElem?_eq_getElem hw⟩
    obtain ⟨rfl, hwork⟩ := h.work w _ hworker
    cases rest with
    | done calls => exact (hholds hwork.of_done.1).elim
    | fail cause => exact hwork.not_fail.elim
    | call access resume => exact ⟨w, access, resume, hworker, rfl⟩

/-- A thread that holds a lock can take a turn, or waits for one that can, maybe through others. -/
theorem Underway.goes_of_holds (h : Underway os build seen e positions)
    (hrunning : ∀ code, e.stage ≠ .ended code) (n : Nat) {l : Lock}
    (hl : l ∈ (positions t).1.locks) (hn : 4 ≤ l.layer + n) : ∃ w e', WorkerTurn e w e' := by
  induction n generalizing t l with
  | zero => exact absurd l.layer_lt (by omega)
  | succ n ih =>
    have hholds : (positions t).1.holds ≠ [] := by
      intro hnone
      rw [LockState.locks, hnone] at hl
      cases hl
    obtain ⟨w, access, resume, hworker, rfl⟩ := h.working hholds
    cases heffect : e.process.perform (w + 2) access with
    | some effect => exact ⟨w, _, .access hrunning hworker (.made heffect)⟩
    | none =>
      obtain ⟨u, l', hl', hbelow⟩ := h.accords.waits (h.work w _ hworker).2.1 heffect
      have hlayer : l.layer < l'.layer := hbelow l hl
      exact ih hl' (by omega)

/-- While a worker has not ended, some worker can take a turn. -/
theorem Underway.goes (h : Underway os build seen e positions)
    (hrunning : ∀ code, e.stage ≠ .ended code)
    (hworker : e.workers[w]? = some ⟨t, .call a resume⟩) : ∃ v e', WorkerTurn e v e' := by
  obtain ⟨rfl, hpermits, -⟩ := h.work w _ hworker
  cases heffect : e.process.perform (w + 2) a with
  | some effect => exact ⟨w, _, .access hrunning hworker (.made heffect)⟩
  | none =>
    obtain ⟨u, l, hl, -⟩ := h.accords.waits hpermits heffect
    exact h.goes_of_holds hrunning 4 hl (Nat.le_add_left 4 _)

/-! ## A worker that runs alone -/

/-- While no other thread holds a lock, a worker that has not ended can take a turn. -/
theorem Underway.alone (h : Underway os build seen e positions)
    (hrunning : ∀ code, e.stage ≠ .ended code)
    (hworker : e.workers[w]? = some ⟨t, .call a resume⟩)
    (hothers : QuietBut t positions) :
    ∃ effect φ, e.process.perform t a = some effect ∧
      Turn build e ((e.after effect).setRest w t (resume effect.answer)) ∧
      (positionDiscipline os.nextKey).moves (positions t) a effect.answer φ ∧
      Underway os build seen ((e.after effect).setRest w t (resume effect.answer))
        (setStage positions t φ) := by
  obtain ⟨rfl, hpermits, -⟩ := h.work w _ hworker
  obtain ⟨effect, heffect⟩ := h.accords.alone hpermits hothers
  obtain ⟨φ, hmove, hnext⟩ := h.access hworker heffect
  exact ⟨effect, φ, heffect, .worker w (.access hrunning hworker (.made heffect)), hmove, hnext⟩

/-- While no other thread holds a lock, a worker that has lines left can take turns until it has
printed the next one, and then no thread holds a lock. -/
theorem Underway.prints_next {rest : Action Int64} {line : Line} {later : List Line}
    (h : Underway os build seen e positions) (hrunning : ∀ code, e.stage ≠ .ended code)
    (hworker : e.workers[w]? = some ⟨w + 2, rest⟩)
    (hothers : QuietBut (w + 2) positions)
    (hmore : (positions (w + 2)).printed ++ line :: later = workerLines w) :
    ∃ e' positions', Reaches build e e' ∧ Underway os build seen e' positions' ∧
      e'.stage = e.stage ∧ e'.workers.length = e.workers.length ∧
      Quiet positions' ∧
      Event.prints e'.events = Event.prints e.events ++ [(w + 2, line)] := by
  induction rest generalizing e positions with
  | done calls =>
    have hall := (h.work w _ hworker).2.of_done.2.2
    rw [hall] at hmore
    exact absurd (congrArg List.length hmore) (by simp)
  | fail cause => exact (h.work w _ hworker).2.not_fail.elim
  | call a resume ih =>
    obtain ⟨effect, φ, heffect, turn, hmove, hnext⟩ := h.alone hrunning hworker hothers
    have hworker' := getElem?_setRest hworker effect (w + 2) (resume effect.answer)
    have hprints := prints_after heffect
    have hprinted := printed_of_position hmove
    have hlength : ((e.after effect).setRest w (w + 2) (resume effect.answer)).workers.length =
        e.workers.length := List.length_set
    by_cases hmute : a.lines = []
    · rw [hmute, List.append_nil] at hprinted
      rw [hmute, List.map_nil, List.append_nil] at hprints
      obtain ⟨e', positions', hreaches, hunder, hstage, hlength', hquiet, hprints'⟩ :=
        ih effect.answer hnext hrunning hworker' (hothers.step φ)
          (by rw [setStage_same, hprinted]; exact hmore)
      exact ⟨e', positions', .head turn hreaches, hunder, hstage, hlength'.trans hlength, hquiet,
        hprints'.trans (congrArg (· ++ [(w + 2, line)]) hprints)⟩
    · obtain ⟨-, hpermits, -⟩ := h.work w _ hworker
      have hholds : (positions (w + 2)).1.holds = [] := hpermits.1.2.resolve_left hmute
      cases a with
      | print printed =>
        -- what is printed next is what comes next of the worker's lines
        have hbegins := (hnext.work w _ hworker').2.begins
        rw [setStage_same, hprinted, ← hmore] at hbegins
        obtain rfl : printed = line := by simpa [Access.lines] using hbegins
        refine ⟨_, _, .single turn, hnext, rfl, hlength, (hothers.step φ).quiet ?_, hprints⟩
        rw [setStage_same, hmove.1]
        simp [LockState.record, Access.takes?, Access.leaves?, LockState.extend, hholds]
      | _ => exact (hmute rfl).elim

/-- While no other thread holds a lock, a worker can take all its turns, which is what running it
alone does. -/
theorem Underway.finishes {rest : Action Int64} (h : Underway os build seen e positions)
    (hrunning : ∀ code, e.stage ≠ .ended code)
    (hworker : e.workers[w]? = some ⟨w + 2, rest⟩)
    (hothers : QuietBut (w + 2) positions) :
    ∃ e' positions', Reaches build e e' ∧ Underway os build seen e' positions' ∧
      e'.stage = e.stage ∧ e'.workers = e.workers.set w ⟨w + 2, .done expectedCalls⟩ ∧
      Quiet positions' ∧
      Process.runFrom (w + 2) rest e.process e.events =
        ⟨.returned expectedCalls, e'.process, e'.events⟩ := by
  induction rest generalizing e positions with
  | done calls =>
    obtain ⟨hholds, rfl, -⟩ := (h.work w _ hworker).2.of_done
    refine ⟨e, positions, .refl, h, rfl, ?_, hothers.quiet hholds, rfl⟩
    obtain ⟨hw, heq⟩ := List.getElem?_eq_some_iff.mp hworker
    exact (heq ▸ List.set_getElem_self hw).symm
  | fail cause => exact (h.work w _ hworker).2.not_fail.elim
  | call a resume ih =>
    obtain ⟨effect, φ, heffect, turn, -, hnext⟩ := h.alone hrunning hworker hothers
    have hworker' := getElem?_setRest hworker effect (w + 2) (resume effect.answer)
    obtain ⟨e', positions', hreaches, hunder, hstage, hworkers, hquiet, hrun⟩ :=
      ih effect.answer hnext hrunning hworker' (hothers.step φ)
    refine ⟨e', positions', .head turn hreaches, hunder, hstage, ?_, hquiet, ?_⟩
    · exact hworkers.trans (List.set_set ..)
    · rw [Process.runFrom, heffect]
      exact hrun

end Underway

end ExecContext.Demo.Workers
