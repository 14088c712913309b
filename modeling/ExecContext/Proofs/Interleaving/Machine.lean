import ExecContext.Proofs.Process.Paths
import ExecContext.Session.Task

set_option autoImplicit false

/-!
# Threads that share a process

A machine is a process with the threads that use it. Each thread is idle or makes a use of the
process, and one that is idle may begin any use at any time. `Machine.Step` is one labelled step of
one thread or of the platform, and `Machine.Run` relates a machine to all that it may become,
together with the labels of the steps in between: uses that began and ended, each single access with
the answer that was given to it, and changes of the platform. What holds of every run holds under
every schedule.
-/

namespace ExecContext

/-! ## Uses -/

open Session (Answer)

/-- A use of a process that a thread may make. -/
inductive Use where
  /-- of the log or of the platform -/
  | service (s : Session.Service)
  /-- of a resolver, where the contexts have these names -/
  | call (contexts : List String) (r : Resolver) (c : Session.Call)

/-- What a use does. -/
def Use.action : Use → Action Answer
  | .service s => s.action
  | .call contexts r c => c.action contexts r

/-! ## Steps and runs -/

/-- A use that a thread makes, and what remains to be run of it. -/
structure Work where
  use : Use
  rest : Action Answer

/-- A process and the threads that use it. -/
structure Machine where
  process : Process
  /-- what each thread works at, `none` for one that is idle -/
  work : ThreadId → Option Work

/-- What is done in one step. -/
inductive Label where
  /-- a thread begins a use -/
  | begins (t : ThreadId) (u : Use)
  /-- in its use a thread makes an access and is given this answer -/
  | access (t : ThreadId) (u : Use) (a : Access) (answer : a.Answer)
  /-- the use of a thread ends so -/
  | ends (t : ThreadId) (u : Use) (result : Except Cause Answer)
  /-- the platform changes -/
  | changes (c : Platform.Change)
  /-- a thread with this name is started -/
  | starts (name : Option String)

/-- The thread that takes a step. -/
def Label.thread? : Label → Option ThreadId
  | .begins t _ => some t
  | .access t .. => some t
  | .ends t .. => some t
  | .changes _ => none
  | .starts _ => none

/-- A thread neither begins nor ends a use then, and makes no access in another use than `u`. -/
def Label.Within (t : ThreadId) (u : Use) : Label → Prop
  | .begins v _ => v ≠ t
  | .access v w _ _ => v = t → w = u
  | .ends v _ _ => v ≠ t
  | .changes _ => True
  | .starts _ => True

theorem Label.within_other {m : Label} {t : ThreadId} (h : m.thread? ≠ some t) (u : Use) :
    m.Within t u := by
  cases m with
  | begins v w => exact fun heq => h (congrArg some heq)
  | access v w a answer => exact fun heq => absurd (congrArg some heq) h
  | ends v w result => exact fun heq => h (congrArg some heq)
  | changes c => trivial
  | starts name => trivial

/-- The accesses of a thread, with their answers. -/
def exchanges (t : ThreadId) (history : List Label) : List Accesses.Exchange :=
  history.filterMap fun
    | .access u _ a answer => if u = t then some ⟨a, answer⟩ else none
    | _ => none

namespace Machine

/-- The machine whose threads have begun nothing. -/
def idle (s : Process) : Machine := ⟨s, fun _ => none⟩

/-- The work of all threads after that of one is replaced. -/
def setWork (machine : Machine) (t : ThreadId) (w : Option Work) : ThreadId → Option Work :=
  fun u => if u = t then w else machine.work u

@[simp] theorem setWork_same (machine : Machine) (t : ThreadId) (w : Option Work) :
    machine.setWork t w t = w := by
  simp [setWork]

theorem setWork_other (machine : Machine) {t u : ThreadId} (w : Option Work) (h : u ≠ t) :
    machine.setWork t w u = machine.work u := by
  simp [setWork, h]

/-- Only the last replacement counts. -/
theorem setWork_setWork (machine : Machine) (s : Process) (t : ThreadId) (w w' : Option Work) :
    setWork ⟨s, machine.setWork t w⟩ t w' = machine.setWork t w' := by
  funext u
  by_cases h : u = t <;> simp [setWork, h]

/-- What relates the stage of each thread to its work relates them still when one thread moves
on. -/
theorem forall_setWork {Φ : Type} {R : Φ → Option Work → Prop} {machine : Machine} {t : ThreadId}
    {stages : ThreadId → Φ} (h : ∀ v, R (stages v) (machine.work v)) {w : Option Work} {φ : Φ}
    (hown : R φ w) (v : ThreadId) :
    R (Discipline.setStage stages t φ v) (machine.setWork t w v) := by
  by_cases hv : v = t
  · subst hv
    rw [Discipline.setStage_same, setWork_same]
    exact hown
  · rw [Discipline.setStage_other stages φ hv, setWork_other machine w hv]
    exact h v

theorem setWork_self {machine : Machine} {t : ThreadId} {w : Option Work} (h : machine.work t = w) :
    machine.setWork t w = machine.work := by
  funext u
  by_cases hu : u = t
  · subst hu
    rw [setWork_same, h]
  · exact setWork_other machine w hu

/-- What may come of a machine next. -/
inductive Step : Machine → Label → Machine → Prop where
  | begins {machine : Machine} {t : ThreadId} (u : Use) (hidle : machine.work t = none) :
    Step machine (.begins t u) ⟨machine.process, machine.setWork t (some ⟨u, u.action⟩)⟩
  | access {machine : Machine} {t : ThreadId} {u : Use} {now rest : Action Answer} {a : Access}
    {effect : Effect a.Answer} (hwork : machine.work t = some ⟨u, now⟩)
    (hnext : NextAccess machine.process t now effect rest) :
    Step machine (.access t u a effect.answer) ⟨effect.process, machine.setWork t (some ⟨u, rest⟩)⟩
  | ends {machine : Machine} {t : ThreadId} {u : Use} {rest : Action Answer}
    {result : Except Cause Answer} (hwork : machine.work t = some ⟨u, rest⟩)
    (hresult : rest.result? = some result) :
    Step machine (.ends t u result) ⟨machine.process, machine.setWork t none⟩
  | changes (machine : Machine) (c : Platform.Change) :
    Step machine (.changes c) ⟨machine.process.changePlatform c, machine.work⟩
  | starts (machine : Machine) (name : Option String) :
    Step machine (.starts name) ⟨(machine.process.start name).2, machine.work⟩

/-- What may come of a machine in any number of steps. -/
inductive Run : Machine → List Label → Machine → Prop where
  | refl (machine : Machine) : Run machine [] machine
  | step {machine now later : Machine} {history : List Label} {m : Label}
    (first : Run machine history now) (last : Step now m later) : Run machine (history ++ [m]) later

variable {machine now later : Machine} {history before after : List Label}

theorem Run.trans (first : Run machine history now) (rest : Run now after later) :
    Run machine (history ++ after) later := by
  induction rest with
  | refl => simpa using first
  | step _ last ih =>
    rw [← List.append_assoc]
    exact .step ih last

theorem run_append :
    Run machine (before ++ after) later ↔ ∃ now, Run machine before now ∧ Run now after later := by
  refine ⟨fun run => ?_, fun ⟨now, first, rest⟩ => first.trans rest⟩
  generalize hall : before ++ after = all at run
  induction run generalizing after with
  | refl =>
    obtain ⟨rfl, rfl⟩ := List.append_eq_nil_iff.mp hall
    exact ⟨_, .refl _, .refl _⟩
  | step first last ih =>
    rcases after.eq_nil_or_concat with rfl | ⟨others, m, rfl⟩
    · rw [List.append_nil] at hall
      subst hall
      exact ⟨_, .step first last, .refl _⟩
    · rw [List.concat_eq_append, ← List.append_assoc] at hall
      obtain ⟨rfl, hm⟩ := List.append_inj' hall rfl
      obtain ⟨now, hbefore, hafter⟩ := ih rfl
      cases List.cons.inj hm |>.1
      rw [List.concat_eq_append]
      exact ⟨now, hbefore, .step hafter last⟩

theorem run_nil : Run machine [] later ↔ machine = later := by
  refine ⟨fun run => ?_, fun heq => heq ▸ .refl machine⟩
  generalize hnil : [] = history at run
  cases run with
  | refl => rfl
  | step first last => exact absurd hnil (by simp)

/-- A run with one label is a step. -/
theorem run_single {m : Label} : Run machine [m] later ↔ Step machine m later := by
  refine ⟨fun run => ?_, fun step => .step (.refl machine) step⟩
  generalize hall : [m] = all at run
  cases run with
  | refl => cases hall
  | @step now _ history m' first last =>
    obtain ⟨hnil, hm⟩ := List.append_inj' (show [] ++ [m] = history ++ [m'] from hall) rfl
    cases List.cons.inj hm |>.1
    have hfirst : Run machine [] now := by
      rw [hnil]
      exact first
    rw [run_nil.mp hfirst]
    exact last

/-- Each label of a run is that of a step. -/
theorem Run.stepAt {m : Label} (run : Run machine (before ++ m :: after) later) :
    ∃ now next, Run machine before now ∧ Step now m next ∧ Run next after later := by
  obtain ⟨now, hbefore, hrest⟩ := run_append.mp run
  obtain ⟨next, hm, hafter⟩ := run_append.mp (show Run now ([m] ++ after) later from hrest)
  exact ⟨now, next, hbefore, run_single.mp hm, hafter⟩

/-! ## Each use runs its action -/

/-- The work of a thread is changed by what the thread does. -/
theorem Step.work_other {m : Label} (step : Step machine m later) {t : ThreadId}
    (h : m.thread? ≠ some t) : later.work t = machine.work t := by
  cases step with
  | begins u hidle => exact setWork_other _ _ fun heq => h (by rw [heq]; rfl)
  | access hwork hnext => exact setWork_other _ _ fun heq => h (by rw [heq]; rfl)
  | ends hwork hresult => exact setWork_other _ _ fun heq => h (by rw [heq]; rfl)
  | changes c => rfl
  | starts name => rfl

theorem exchanges_append (t : ThreadId) (first more : List Label) :
    exchanges t (first ++ more) = exchanges t first ++ exchanges t more :=
  List.filterMap_append

theorem exchanges_other {t : ThreadId} {m : Label} (h : m.thread? ≠ some t) :
    exchanges t [m] = [] := by
  cases m with
  | access u use a answer =>
    have hne : u ≠ t := fun heq => h (congrArg some heq)
    simp [exchanges, hne]
  | _ => rfl

theorem mem_exchanges {t : ThreadId} {e : Accesses.Exchange} :
    e ∈ exchanges t history ↔ ∃ u, Label.access t u e.request e.answer ∈ history := by
  unfold exchanges
  rw [List.mem_filterMap]
  constructor
  · rintro ⟨m, hm, heq⟩
    cases m with
    | access v u a answer =>
      simp only at heq
      split at heq
      · rename_i hv
        cases heq
        exact ⟨u, hv ▸ hm⟩
      · cases heq
    | _ => cases heq
  · rintro ⟨u, hm⟩
    exact ⟨_, hm, by simp⟩

/-- A thread at work began its use at some moment and has made these accesses in it since. -/
def Working (t : ThreadId) (history : List Label) (w : Work) : Prop :=
  ∃ before during, history = before ++ .begins t w.use :: during ∧
    (∀ m ∈ during, m.Within t w.use) ∧ w.use.action.Path (exchanges t during) w.rest

theorem Working.concat {t : ThreadId} {w w' : Work} {m : Label} (h : Working t history w)
    (huse : w'.use = w.use) (hm : m.Within t w.use)
    (hpath : ∀ made, w.use.action.Path made w.rest →
      w.use.action.Path (made ++ exchanges t [m]) w'.rest) :
    Working t (history ++ [m]) w' := by
  obtain ⟨before, during, rfl, hown, hw⟩ := h
  refine ⟨before, during ++ [m], by simp [huse], fun n hn => ?_, ?_⟩
  · rw [huse]
    rcases List.mem_append.mp hn with hn | hn
    · exact hown n hn
    · rw [List.mem_singleton.mp hn]
      exact hm
  · rw [huse, exchanges_append]
    exact hpath _ hw

/-- What a thread at work has done so far are the first accesses of its use. -/
theorem Run.working {s : Process} (run : Run (idle s) history machine) {t : ThreadId} {w : Work}
    (hwork : machine.work t = some w) : Working t history w := by
  generalize hstart : idle s = start at run
  induction run generalizing w with
  | refl =>
    subst hstart
    cases hwork
  | @step now later history m first last ih =>
    by_cases hm : m.thread? = some t
    · cases last with
      | @begins u use hidle =>
        cases hm
        simp only [setWork_same] at hwork
        cases hwork
        exact ⟨history, [], rfl, by simp, rfl⟩
      | @access u use _ _ a effect hnow hnext =>
        obtain ⟨resume, rfl, heffect, rfl⟩ := hnext
        cases hm
        simp only [setWork_same] at hwork
        cases hwork
        refine (ih hnow).concat rfl (fun _ => rfl) fun made hmade => ?_
        have hone : exchanges t [.access t use a effect.answer] = [⟨a, effect.answer⟩] := by
          simp [exchanges]
        rw [hone]
        exact hmade.concat effect.answer
      | @ends u use rest result hnow hresult =>
        cases hm
        simp only [setWork_same] at hwork
        cases hwork
      | changes c => cases hm
      | starts name => cases hm
    · rw [last.work_other hm] at hwork
      refine (ih hwork).concat rfl (m.within_other hm _) fun made hmade => ?_
      rw [exchanges_other hm, List.append_nil]
      exact hmade

/-- A use that ended has run its action to the end. -/
theorem Run.ended {s : Process} {t : ThreadId} {u : Use} {result : Except Cause Answer}
    (run : Run (idle s) (before ++ .ends t u result :: after) later) :
    ∃ rest, rest.result? = some result ∧ Working t before ⟨u, rest⟩ := by
  obtain ⟨now, next, hbefore, hstep, -⟩ := run.stepAt
  cases hstep with
  | ends hwork hresult => exact ⟨_, hresult, hbefore.working hwork⟩

/-- An access is answered by the process as it is at that moment. -/
theorem Run.accessed {t : ThreadId} {u : Use} {a : Access} {answer : a.Answer}
    (run : Run machine (before ++ .access t u a answer :: after) later) :
    ∃ now next resume effect, Run machine before now ∧ now.work t = some ⟨u, .call a resume⟩ ∧
      now.process.perform t a = some effect ∧ effect.answer = answer ∧
      Run machine (before ++ [.access t u a answer]) next ∧ next.process = effect.process ∧
      next.work t = some ⟨u, resume answer⟩ ∧ Run next after later := by
  obtain ⟨now, next, hbefore, hstep, hafter⟩ := run.stepAt
  have hrun := hbefore.step hstep
  cases hstep with
  | @access _ _ _ _ _ effect hwork hnext =>
    obtain ⟨resume, rfl, heffect, rfl⟩ := hnext
    exact ⟨now, _, resume, effect, hbefore, hwork, heffect, rfl, hrun, rfl, setWork_same _ _ _,
      hafter⟩

/-- A thread makes an access where the action of its use does. -/
theorem Run.reaches {s : Process} {t : ThreadId} {u : Use} {a : Access} {answer : a.Answer}
    (run : Run (idle s) history later) (hm : .access t u a answer ∈ history) :
    ∃ made resume, u.action.Path made (.call a resume) := by
  obtain ⟨before, after, rfl⟩ := List.append_of_mem hm
  obtain ⟨now, next, resume, effect, hnow, hwork, -⟩ := run.accessed
  obtain ⟨earlier, during, -, -, hpath⟩ := hnow.working hwork
  exact ⟨exchanges t during, resume, hpath⟩

/-! ## Given schedules -/

/-- What is chosen to happen next. -/
inductive Choice where
  | begin (t : ThreadId) (u : Use)
  /-- a thread makes its next access, or ends its use -/
  | go (t : ThreadId)
  | change (c : Platform.Change)

/-- What happens next, if it can. -/
def take? (machine : Machine) : Choice → Option (Label × Machine)
  | .begin t u =>
    match machine.work t with
    | none => some (.begins t u, ⟨machine.process, machine.setWork t (some ⟨u, u.action⟩)⟩)
    | some _ => none
  | .go t =>
    match machine.work t with
    | none => none
    | some ⟨u, .done answer⟩ =>
      some (.ends t u (.ok answer), ⟨machine.process, machine.setWork t none⟩)
    | some ⟨u, .fail cause⟩ =>
      some (.ends t u (.error cause), ⟨machine.process, machine.setWork t none⟩)
    | some ⟨u, .call a resume⟩ =>
      (machine.process.perform t a).map fun effect =>
        (.access t u a effect.answer,
          ⟨effect.process, machine.setWork t (some ⟨u, resume effect.answer⟩)⟩)
  | .change c => some (.changes c, ⟨machine.process.changePlatform c, machine.work⟩)

/-- What happens if these are the choices in turn; one that cannot be followed is passed over. -/
def follow (machine : Machine) : List Choice → List Label × Machine
  | [] => ([], machine)
  | choice :: rest =>
    match machine.take? choice with
    | none => machine.follow rest
    | some (m, next) =>
      let (history, last) := next.follow rest
      (m :: history, last)

theorem step_of_take? {choice : Choice} {m : Label} (h : machine.take? choice = some (m, later)) :
    Step machine m later := by
  cases choice with
  | begin t u =>
    cases hwork : machine.work t with
    | none =>
      simp only [take?, hwork] at h
      cases h
      exact .begins u hwork
    | some w => simp [take?, hwork] at h
  | go t =>
    cases hwork : machine.work t with
    | none => simp [take?, hwork] at h
    | some w =>
      obtain ⟨u, rest⟩ := w
      cases rest with
      | done answer =>
        simp only [take?, hwork] at h
        cases h
        exact .ends hwork rfl
      | fail cause =>
        simp only [take?, hwork] at h
        cases h
        exact .ends hwork rfl
      | call a resume =>
        simp only [take?, hwork, Option.map_eq_some_iff] at h
        obtain ⟨effect, heffect, heq⟩ := h
        cases heq
        exact .access hwork (.made heffect)
  | change c =>
    cases h
    exact .changes machine c

theorem run_follow (machine : Machine) (choices : List Choice) :
    Run machine (machine.follow choices).1 (machine.follow choices).2 := by
  induction choices generalizing machine with
  | nil => exact .refl machine
  | cons choice rest ih =>
    unfold follow
    cases htake : machine.take? choice with
    | none => exact ih machine
    | some taken =>
      obtain ⟨m, next⟩ := taken
      exact (run_single.mpr (step_of_take? htake)).trans (ih next)

/-- Only the uses begin that are to begin. -/
theorem begin_of_take? {choice : Choice} {t : ThreadId} {u : Use}
    (h : machine.take? choice = some (.begins t u, later)) : choice = .begin t u := by
  cases choice with
  | begin v w =>
    cases hwork : machine.work v with
    | none =>
      simp only [take?, hwork] at h
      cases h
      rfl
    | some work => simp [take?, hwork] at h
  | go v =>
    cases hwork : machine.work v with
    | none => simp [take?, hwork] at h
    | some work =>
      obtain ⟨w, rest⟩ := work
      cases rest <;> simp [take?, hwork] at h
  | change c => cases h

theorem begin_mem_of_follow {choices : List Choice} {t : ThreadId} {u : Use}
    (h : .begins t u ∈ (machine.follow choices).1) : .begin t u ∈ choices := by
  induction choices generalizing machine with
  | nil => cases h
  | cons choice rest ih =>
    unfold follow at h
    cases htake : machine.take? choice with
    | none =>
      rw [htake] at h
      exact List.mem_cons_of_mem _ (ih h)
    | some taken =>
      obtain ⟨m, next⟩ := taken
      rw [htake] at h
      rcases List.mem_cons.mp h with hm | hrest
      · subst hm
        exact List.mem_cons.mpr (Or.inl (begin_of_take? htake).symm)
      · exact List.mem_cons_of_mem _ (ih hrest)

end Machine

end ExecContext
