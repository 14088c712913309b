import ExecContext.Demo.Workers
import Mathlib.Logic.Hydra
import Mathlib.Logic.Relation
import Mathlib.Tactic.Abel

set_option autoImplicit false

/-!
# The workers take turns

An execution of the program in which any worker that was started and has not ended may take the
next turn, and so may the main thread: it prints its opening, starts the workers, waits for one
after another to end, and prints its closing. A turn is one access, or one step of the main thread
between two accesses. Whatever the turns, an execution comes to an end (`turns_end`).
-/

namespace ExecContext

namespace Program

variable {σ : Signature} {ε α : Type}

/-- The first program is what remains of the second one after one request. -/
def Remains (rest p : Program σ ε α) : Prop :=
  ∃ request resume answer, p = .call request resume ∧ rest = resume answer

/-- A program makes finitely many requests, whatever the answers. -/
theorem wellFounded_remains : WellFounded (Remains (σ := σ) (ε := ε) (α := α)) := by
  refine ⟨fun p => ?_⟩
  induction p with
  | done value => exact ⟨_, fun _ ⟨_, _, _, hcall, _⟩ => by cases hcall⟩
  | fail cause => exact ⟨_, fun _ ⟨_, _, _, hcall, _⟩ => by cases hcall⟩
  | call request resume ih =>
    refine ⟨_, fun rest ⟨_, _, answer, hcall, hrest⟩ => ?_⟩
    cases hcall
    exact hrest ▸ ih answer

end Program

namespace Demo.Workers

open Process

/-! ## Executions -/

/-- A worker that was started: its thread, and what remains to be run of it. -/
structure Worker where
  thread : ThreadId
  rest : Action Int64

/-- How far the main thread has come. -/
inductive Stage where
  /-- it runs this, and is at the next stage then -/
  | printing (rest : Action Unit) (next : Stage)
  /-- it starts the workers -/
  | starting
  /-- it waits for this worker to end -/
  | joining (w : Nat)
  /-- the program has ended with this code -/
  | ended (code : UInt8)

/-- An execution of the program, as far as it has come. -/
structure Execution where
  process : Process
  /-- what has been seen so far -/
  events : List Event
  stage : Stage
  /-- the workers started so far, in order -/
  workers : List Worker

/-- The execution at its beginning. -/
def begin (build : Build) (os : Platform) : Execution where
  process := .fresh os
  events := []
  stage := .printing (opening (resolver build)) .starting
  workers := []

namespace Execution

/-- The execution after an access. -/
def after (e : Execution) {α : Type} (effect : Effect α) : Execution :=
  { e with process := effect.process, events := e.events ++ effect.events }

/-- The execution with the main thread at another stage. -/
def atStage (e : Execution) (stage : Stage) : Execution := { e with stage := stage }

/-- The execution after the next worker was started. -/
def hire (e : Execution) (build : Build) : Execution :=
  let w := e.workers.length
  let (t, process) := e.process.start (some (workerName w))
  { e with process := process, workers := e.workers ++ [⟨t, worker (resolver build) w⟩] }

/-- The execution with another rest of a worker. -/
def setRest (e : Execution) (w : Nat) (t : ThreadId) (rest : Action Int64) : Execution :=
  { e with workers := e.workers.set w ⟨t, rest⟩ }

end Execution

/-! ## Turns -/

variable {build : Build} {e e' e'' : Execution}

/-- A turn of the main thread. -/
inductive MainTurn (build : Build) (e : Execution) : Execution → Prop where
  /-- it makes its next access -/
  | access {now rest : Action Unit} {next : Stage} {a : Access} {effect : Effect a.Answer}
      (hstage : e.stage = .printing now next)
      (hnext : NextAccess e.process mainThread now effect rest) :
      MainTurn build e ((e.after effect).atStage (.printing rest next))
  /-- it has printed all -/
  | printed {next : Stage} (hstage : e.stage = .printing (.done ()) next) :
      MainTurn build e (e.atStage next)
  /-- it fails while it prints -/
  | failed {cause : Cause} {next : Stage} (hstage : e.stage = .printing (.fail cause) next) :
      MainTurn build e (e.atStage (.ended failureCode))
  /-- it starts a worker -/
  | starts (hstage : e.stage = .starting) (hmore : e.workers.length < workerCount) :
      MainTurn build e (e.hire build)
  /-- it has started all -/
  | started (hstage : e.stage = .starting) (hall : workerCount ≤ e.workers.length) :
      MainTurn build e (e.atStage (.joining 0))
  /-- the worker it waits for has ended and saw its own calls only -/
  | joins {w : Nat} {t : ThreadId} (hstage : e.stage = .joining w)
      (hworker : e.workers[w]? = some ⟨t, .done expectedCalls⟩) :
      MainTurn build e (e.atStage (.joining (w + 1)))
  /-- the worker it waits for has ended and saw other calls -/
  | rejects {w : Nat} {t : ThreadId} {calls : Int64} (hstage : e.stage = .joining w)
      (hworker : e.workers[w]? = some ⟨t, .done calls⟩) (hcalls : calls ≠ expectedCalls) :
      MainTurn build e (e.atStage (.ended failureCode))
  /-- the worker it waits for has failed -/
  | loses {w : Nat} {t : ThreadId} {cause : Cause} (hstage : e.stage = .joining w)
      (hworker : e.workers[w]? = some ⟨t, .fail cause⟩) :
      MainTurn build e (e.atStage (.ended failureCode))
  /-- it has waited for all -/
  | joined {w : Nat} (hstage : e.stage = .joining w) (hnone : e.workers[w]? = none) :
      MainTurn build e (e.atStage (.printing closing (.ended 0)))

/-- A turn of a worker: it makes its next access, unless the program has ended. -/
inductive WorkerTurn (e : Execution) (w : Nat) : Execution → Prop where
  | access {t : ThreadId} {now rest : Action Int64} {a : Access} {effect : Effect a.Answer}
      (hrunning : ∀ code, e.stage ≠ .ended code) (hworker : e.workers[w]? = some ⟨t, now⟩)
      (hnext : NextAccess e.process t now effect rest) :
      WorkerTurn e w ((e.after effect).setRest w t rest)

/-- A turn of any thread. -/
inductive Turn (build : Build) (e e' : Execution) : Prop where
  | main (turn : MainTurn build e e')
  | worker (w : Nat) (turn : WorkerTurn e w e')

/-- What an execution may become in any number of turns. -/
def Reaches (build : Build) : Execution → Execution → Prop :=
  Relation.ReflTransGen (Turn build)

/-! ## Turns come to an end -/

/-- There is no endless sequence of turns from here. -/
abbrev Ends (build : Build) : Execution → Prop :=
  Acc fun e' e => Turn build e e'

/-- What remains of the workers. -/
def rests (e : Execution) : Multiset (Action Int64) := e.workers.map Worker.rest

theorem WorkerTurn.same {w : Nat} (turn : WorkerTurn e w e') :
    e'.stage = e.stage ∧ e'.workers.length = e.workers.length := by
  obtain ⟨-, -, -⟩ := turn
  exact ⟨rfl, List.length_set⟩

/-- A worker's turn leaves less of that worker and the others as they are. -/
theorem rests_set {workers : List Worker} {w : Nat} {old : Worker} (new : Worker)
    (h : workers[w]? = some old) :
    (((workers.set w new).map Worker.rest : List _) : Multiset (Action Int64)) + {old.rest} =
      ((workers.map Worker.rest : List _) : Multiset (Action Int64)) + {new.rest} := by
  induction workers generalizing w with
  | nil => cases h
  | cons first others ih =>
    cases w with
    | zero =>
      obtain rfl : first = old := by simpa using h
      simp only [List.set_cons_zero, List.map_cons, ← Multiset.cons_coe,
        ← Multiset.singleton_add]
      abel
    | succ w =>
      have hothers := ih (w := w) (by simpa using h)
      simpa [← Multiset.cons_coe] using hothers

theorem WorkerTurn.rests {w : Nat} (turn : WorkerTurn e w e') :
    Relation.CutExpand Program.Remains (rests e') (rests e) := by
  obtain ⟨hrunning, hworker, hnext⟩ := turn
  obtain ⟨resume, rfl, heffect, rfl⟩ := hnext
  refine ⟨{_}, _, fun rest hrest => ?_, rests_set _ hworker⟩
  obtain rfl := Multiset.mem_singleton.mp hrest
  exact ⟨_, _, _, rfl, rfl⟩

/-- Where every turn of the main thread leads to an end, the workers' turns do so too. -/
theorem ends_of_main {P : Execution → Prop}
    (hworker : ∀ e w e', P e → WorkerTurn e w e' → P e')
    (hmain : ∀ e e', P e → MainTurn build e e' → Ends build e') (e : Execution) (h : P e) :
    Ends build e := by
  have hwf : WellFounded (Relation.CutExpand (Program.Remains (σ := Accesses) (ε := Cause)
      (α := Int64))) := Program.wellFounded_remains.cutExpand
  generalize hrests : rests e = remaining
  induction remaining using hwf.induction generalizing e with
  | _ remaining ih =>
    subst hrests
    refine ⟨_, fun e' turn => ?_⟩
    cases turn with
    | main turn => exact hmain e e' h turn
    | worker w turn => exact ih _ turn.rests e' (hworker e w e' h turn) rfl

theorem ends_ended {code : UInt8} (e : Execution) (h : e.stage = .ended code) : Ends build e := by
  refine ends_of_main (P := fun e => e.stage = .ended code)
    (fun e w e' h turn => turn.same.1.trans h) (fun e e' h turn => ?_) e h
  cases turn with
  | _ hstage =>
    rw [h] at hstage
    cases hstage

theorem MainTurn.of_printing {rest : Action Unit} {next : Stage} (turn : MainTurn build e e')
    (h : e.stage = .printing rest next) :
    (∃ remaining, Program.Remains remaining rest ∧ e'.stage = .printing remaining next) ∨
      e'.stage = next ∨ ∃ code, e'.stage = .ended code := by
  cases turn with
  | access hstage hnext =>
    cases hstage.symm.trans h
    obtain ⟨resume, rfl, heffect, rfl⟩ := hnext
    exact Or.inl ⟨_, ⟨_, _, _, rfl, rfl⟩, rfl⟩
  | printed hstage =>
    cases hstage.symm.trans h
    exact Or.inr (Or.inl rfl)
  | failed hstage => exact Or.inr (Or.inr ⟨_, rfl⟩)
  | _ hstage => cases hstage.symm.trans h

theorem ends_printing {next : Stage} (hnext : ∀ e, e.stage = next → Ends build e)
    (rest : Action Unit) (e : Execution) (h : e.stage = .printing rest next) : Ends build e := by
  induction rest using Program.wellFounded_remains.induction generalizing e with
  | _ rest ih =>
    refine ends_of_main (P := fun e => e.stage = .printing rest next)
      (fun e w e' h turn => turn.same.1.trans h) (fun e e' h turn => ?_) e h
    rcases turn.of_printing h with ⟨remaining, hremains, hstage⟩ | hstage | ⟨code, hstage⟩
    · exact ih remaining hremains e' hstage
    · exact hnext e' hstage
    · exact ends_ended e' hstage

theorem MainTurn.of_joining {w : Nat} (turn : MainTurn build e e') (h : e.stage = .joining w) :
    (e'.stage = .joining (w + 1) ∧ e'.workers = e.workers ∧ w < e.workers.length) ∨
      e'.stage = .printing closing (.ended 0) ∨ ∃ code, e'.stage = .ended code := by
  cases turn with
  | joins hstage hworker =>
    cases hstage.symm.trans h
    exact Or.inl ⟨rfl, rfl, (List.getElem?_eq_some_iff.mp hworker).1⟩
  | joined hstage hnone => exact Or.inr (Or.inl rfl)
  | rejects hstage => exact Or.inr (Or.inr ⟨_, rfl⟩)
  | loses hstage => exact Or.inr (Or.inr ⟨_, rfl⟩)
  | _ hstage => cases hstage.symm.trans h

theorem ends_closing (e : Execution) (h : e.stage = .printing closing (.ended 0)) :
    Ends build e :=
  ends_printing (fun e => ends_ended e) closing e h

theorem ends_joining (n w : Nat) (e : Execution) (h : e.stage = .joining w)
    (hn : e.workers.length - w = n) : Ends build e := by
  induction n using Nat.strongRecOn generalizing w e with
  | _ n ih =>
    refine ends_of_main (P := fun e => e.stage = .joining w ∧ e.workers.length - w = n)
      (fun e w' e' h turn => ⟨turn.same.1.trans h.1, turn.same.2 ▸ h.2⟩)
      (fun e e' h turn => ?_) e ⟨h, hn⟩
    rcases turn.of_joining h.1 with ⟨hstage, hsame, hlt⟩ | hstage | ⟨code, hstage⟩
    · exact ih _ (by rw [hsame]; omega) (w + 1) e' hstage rfl
    · exact ends_closing e' hstage
    · exact ends_ended e' hstage

theorem MainTurn.of_starting (turn : MainTurn build e e') (h : e.stage = .starting) :
    (e'.stage = .starting ∧ e'.workers.length = e.workers.length + 1 ∧
        e.workers.length < workerCount) ∨
      e'.stage = .joining 0 := by
  cases turn with
  | starts hstage hmore => exact Or.inl ⟨hstage, by simp [Execution.hire], hmore⟩
  | started hstage => exact Or.inr rfl
  | _ hstage => cases hstage.symm.trans h

theorem ends_starting (n : Nat) (e : Execution) (h : e.stage = .starting)
    (hn : workerCount - e.workers.length = n) : Ends build e := by
  induction n using Nat.strongRecOn generalizing e with
  | _ n ih =>
    refine ends_of_main (P := fun e => e.stage = .starting ∧ workerCount - e.workers.length = n)
      (fun e w e' h turn => ⟨turn.same.1.trans h.1, turn.same.2 ▸ h.2⟩)
      (fun e e' h turn => ?_) e ⟨h, hn⟩
    rcases turn.of_starting h.1 with ⟨hstage, hlength, hlt⟩ | hstage
    · exact ih _ (by omega) e' hstage rfl
    · exact ends_joining _ 0 e' hstage rfl

/-- However the threads take turns, an execution comes to an end. -/
theorem turns_end (build : Build) (e : Execution) : Ends build e := by
  generalize hstage : e.stage = stage
  induction stage generalizing e with
  | printing rest next ih => exact ends_printing ih rest e hstage
  | starting => exact ends_starting _ e hstage rfl
  | joining w => exact ends_joining _ w e hstage rfl
  | ended code => exact ends_ended e hstage

end Demo.Workers

end ExecContext
