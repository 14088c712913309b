import ExecContext.Proofs.Interleaving.Machine
import ExecContext.Proofs.Resolver.Reading
import ExecContext.Session.Run

set_option autoImplicit false

/-!
# Reads are inert

A call that only reads leaves the whole process as it was, whatever is or is not set up in it,
whether the call returns or fails, and it never waits. So a session answers all its other steps
alike with and without its reads, and reads may be put into a run of a machine, or taken out of it,
anywhere.
-/

namespace ExecContext

/-! ## Sessions -/

namespace Session

/-- The step is a call that only reads. -/
def Step.isRead : Step → Bool
  | .act _ (.resolver _ (some call)) => call.isRead
  | _ => false

/-- The results of those steps that do more than read. -/
def resultsOfOthers (list : List Step) (results : List Result) : List Result :=
  ((list.zip results).filter fun entry => !entry.1.isRead).map Prod.snd

theorem logChunks_observed (t : ThreadId) (seen : List Resolver.Query) :
    Event.logChunks (seen.map (.observed t)) = [] := by
  simp [Event.logChunks]

/-- A read leaves the session as it was, and the log as well. -/
theorem step_read (session : Session) {step : Step} (h : step.isRead = true) :
    (session.step step).2 = session ∧ Event.logChunks (session.step step).1.events = [] := by
  cases step with
  | act ref task =>
    cases task with
    | resolver r call? =>
      cases call? with
      | none => cases h
      | some call =>
        have hcall (t : ThreadId) (resolver : Resolver) :
            (session.makeCall t resolver call).next = session ∧
              Event.logChunks (session.makeCall t resolver call).events = [] := by
          obtain ⟨-, hprocess, seen, hevents⟩ := Process.run_inert (s := session.process) (t := t)
            (only_action session.setup.contexts resolver (c := call) h)
          unfold makeCall
          split
          · exact ⟨rfl, rfl⟩
          · split
            · exact ⟨rfl, rfl⟩
            · simp [perform, hprocess, hevents, logChunks_observed]
        cases hthread : session.thread? ref with
        | none => simp [step, hthread, Result.ofAnswer, Event.logChunks]
        | some t =>
          cases hresolver : session.resolver? r with
          | none => simp [step, hthread, doTask, hresolver, refuse, tell, Event.logChunks]
          | some resolver => simpa [step, hthread, doTask, hresolver] using hcall t resolver
    | _ => cases h
  | _ => cases h

/-- The other steps have the same results, and lead to the same session, with and without the
reads. -/
theorem steps_others (session : Session) (list : List Step) :
    resultsOfOthers list (session.steps list).1 =
        (session.steps (list.filter fun step => !step.isRead)).1 ∧
      (session.steps list).2 = (session.steps (list.filter fun step => !step.isRead)).2 := by
  induction list generalizing session with
  | nil => exact ⟨rfl, rfl⟩
  | cons step rest ih =>
    obtain ⟨hresults, hlast⟩ := ih (session.step step).2
    cases hread : step.isRead with
    | true =>
      rw [(session.step_read hread).1] at hresults hlast
      simp only [steps, resultsOfOthers, List.zip_cons_cons, List.filter_cons, hread,
        (session.step_read hread).1]
      exact ⟨hresults, hlast⟩
    | false =>
      simp only [steps, resultsOfOthers, List.zip_cons_cons, List.filter_cons, hread,
        Bool.not_false, if_true, List.map_cons]
      exact ⟨congrArg _ hresults, hlast⟩

end Session

/-! ## Machines -/

/-- The use only reads. -/
def Use.isRead : Use → Bool
  | .service _ => false
  | .call _ _ c => c.isRead

/-- It happens in a use that only reads. -/
def Label.isRead : Label → Bool
  | .begins _ u => u.isRead
  | .access _ u _ _ => u.isRead
  | .ends _ u _ => u.isRead
  | .changes _ => false
  | .starts _ => false

theorem Use.only_action {u : Use} (hu : u.isRead = true) : u.action.Only Access.Inert := by
  cases u with
  | service s => cases hu
  | call contexts r c => exact ExecContext.only_action contexts r hu

namespace Machine

variable {s : Process} {machine : Machine} {history : List Label} {t : ThreadId} {u : Use}

/-- The work of a thread, unless it only reads. -/
def keepOthers (w : Option Work) : Option Work :=
  w.filter fun w => !w.use.isRead

/-- The machine without the uses that only read. -/
def withoutReads (machine : Machine) : Machine :=
  ⟨machine.process, fun t => keepOthers (machine.work t)⟩

theorem withoutReads_setWork (machine : Machine) (s : Process) (t : ThreadId) (w : Option Work) :
    withoutReads ⟨s, machine.setWork t w⟩ = ⟨s, machine.withoutReads.setWork t (keepOthers w)⟩ := by
  have hwork (v : ThreadId) :
      keepOthers (machine.setWork t w v) = machine.withoutReads.setWork t (keepOthers w) v := by
    by_cases hv : v = t
    · subst hv
      simp only [setWork_same]
    · rw [setWork_other machine w hv, setWork_other _ _ hv]
      rfl
  exact congrArg (Machine.mk s) (funext hwork)

/-- What a thread does in a use that only reads makes no difference to the others. -/
theorem withoutReads_same {w : Option Work} (h : keepOthers w = keepOthers (machine.work t)) :
    withoutReads ⟨machine.process, machine.setWork t w⟩ = machine.withoutReads := by
  have hself : machine.withoutReads.setWork t (keepOthers (machine.work t)) =
      machine.withoutReads.work :=
    setWork_self rfl
  rw [withoutReads_setWork, h, hself]
  rfl

theorem keepOthers_read {rest : Action Session.Answer} (hu : u.isRead = true) :
    keepOthers (some ⟨u, rest⟩) = none := by
  simp [keepOthers, hu]

theorem keepOthers_other {rest : Action Session.Answer} (hu : u.isRead = false) :
    keepOthers (some ⟨u, rest⟩) = some ⟨u, rest⟩ := by
  simp [keepOthers, hu]

/-- Taking the reads out of a run leaves a run, in which all else happens alike. -/
theorem Run.withoutReads (run : Run (idle s) history machine) :
    Run (idle s) (history.filter fun m => !m.isRead) machine.withoutReads := by
  generalize hstart : idle s = start at run
  induction run with
  | refl =>
    subst hstart
    exact .refl _
  | @step now later history m first last ih =>
    subst hstart
    rw [List.filter_append]
    have hskip (hm : m.isRead = true) (hsame : later.withoutReads = now.withoutReads) :
        Run (idle s) (history.filter (fun m => !m.isRead) ++ [m].filter fun m => !m.isRead)
          later.withoutReads := by
      simpa [hm, hsame] using ih
    have hstep (hm : m.isRead = false) (step : Step now.withoutReads m later.withoutReads) :
        Run (idle s) (history.filter (fun m => !m.isRead) ++ [m].filter fun m => !m.isRead)
          later.withoutReads := by
      simpa [hm] using ih.step step
    cases last with
    | @begins t u hidle =>
      cases hu : u.isRead with
      | true =>
        refine hskip hu (withoutReads_same ?_)
        rw [keepOthers_read hu, hidle]
        rfl
      | false =>
        refine hstep hu ?_
        rw [withoutReads_setWork, keepOthers_other hu]
        refine .begins u ?_
        change keepOthers (now.work t) = none
        rw [hidle]
        rfl
    | @access t u _ _ a effect hwork hnext =>
      obtain ⟨resume, rfl, heffect, rfl⟩ := hnext
      cases hu : u.isRead with
      | true =>
        refine hskip hu ?_
        obtain ⟨before, during, -, -, hpath⟩ := first.working hwork
        obtain ⟨answer, seen, hinert⟩ :=
          Process.perform_inert (s := now.process) (t := t)
            (hpath.only (Use.only_action hu)).1
        rw [heffect] at hinert
        cases hinert
        refine withoutReads_same ?_
        rw [keepOthers_read hu, hwork, keepOthers_read hu]
      | false =>
        refine hstep hu ?_
        rw [withoutReads_setWork, keepOthers_other hu]
        refine .access ?_ (.made heffect)
        change keepOthers (now.work t) = _
        rw [hwork, keepOthers_other hu]
    | @ends t u rest result hwork hresult =>
      cases hu : u.isRead with
      | true =>
        refine hskip hu (withoutReads_same ?_)
        rw [hwork, keepOthers_read hu]
        rfl
      | false =>
        refine hstep hu ?_
        rw [withoutReads_setWork]
        refine .ends ?_ hresult
        change keepOthers (now.work t) = _
        rw [hwork, keepOthers_other hu]
    | changes c => exact hstep rfl (.changes _ c)
    | starts name => exact hstep rfl (.starts _ name)

/-- A thread in the midst of a read comes to its end without changing anything. -/
theorem run_of_inert (machine : Machine) (hu : u.isRead = true) {p : Action Session.Answer}
    (hp : p.Only Access.Inert) :
    ∃ during result, (∀ m ∈ during, m.isRead = true) ∧
      Run ⟨machine.process, machine.setWork t (some ⟨u, p⟩)⟩ (during ++ [.ends t u result])
        ⟨machine.process, machine.setWork t none⟩ := by
  have hends {p : Action Session.Answer} {result : Except Cause Session.Answer}
      (hresult : p.result? = some result) :
      Run ⟨machine.process, machine.setWork t (some ⟨u, p⟩)⟩ ([] ++ [.ends t u result])
        ⟨machine.process, machine.setWork t none⟩ := by
    have hwork : Machine.work ⟨machine.process, machine.setWork t (some ⟨u, p⟩)⟩ t = some ⟨u, p⟩ :=
      setWork_same _ _ _
    have hlast := Step.ends hwork hresult
    rw [setWork_setWork] at hlast
    exact (Run.refl _).step hlast
  induction p with
  | done answer => exact ⟨[], _, by simp, hends rfl⟩
  | fail cause => exact ⟨[], _, by simp, hends rfl⟩
  | call a resume ih =>
    obtain ⟨answer, seen, heffect⟩ :=
      Process.perform_inert (s := machine.process) (t := t) hp.1
    obtain ⟨during, result, hduring, hrest⟩ := ih answer (hp.2 answer)
    refine ⟨.access t u a answer :: during, result, by simpa [Label.isRead, hu] using hduring, ?_⟩
    have hwork : Machine.work ⟨machine.process, machine.setWork t (some ⟨u, .call a resume⟩)⟩ t =
        some ⟨u, .call a resume⟩ := setWork_same _ _ _
    have hfirst := Step.access hwork (.made heffect)
    rw [setWork_setWork] at hfirst
    exact (run_single.mpr hfirst).trans hrest

/-- An idle thread may make a read at any time, which leads back to the same machine. -/
theorem read_inserted (hidle : machine.work t = none) (hu : u.isRead = true) :
    ∃ during result, (∀ m ∈ during, m.isRead = true) ∧
      Run machine (.begins t u :: (during ++ [.ends t u result])) machine := by
  obtain ⟨during, result, hduring, hrest⟩ := run_of_inert machine (t := t) hu (Use.only_action hu)
  refine ⟨during, result, hduring, ?_⟩
  rw [setWork_self hidle] at hrest
  exact (run_single.mpr (.begins u hidle)).trans hrest

end Machine

/-! ## The result -/

/-- Reads are inert. In any process, a call that only reads comes to an end, be it a failure,
without having waited, leaves the process as it was and writes nothing to the log. A read leaves a
session as it was. So the other steps of a session have the same results, and lead to the same
session, whatever reads are put in between or left out; and in a machine reads may be taken out of
any run, and put into it wherever a thread is idle, while all else happens alike. -/
theorem reads_inert :
    (∀ (s : Process) t contexts r (c : Session.Call), c.isRead = true →
      (s.run t (c.action contexts r)).IsInert t s) ∧
    (∀ (session : Session) (step : Session.Step), step.isRead = true →
      (session.step step).2 = session ∧ Event.logChunks (session.step step).1.events = []) ∧
    (∀ setup (list list' : List Session.Step),
      (list.filter fun step => !step.isRead) = list'.filter (fun step => !step.isRead) →
      Session.resultsOfOthers list (Session.run setup list) =
          Session.resultsOfOthers list' (Session.run setup list') ∧
        ((Session.start setup).steps list).2 = ((Session.start setup).steps list').2) ∧
    (∀ s history machine, Machine.Run (.idle s) history machine →
      Machine.Run (.idle s) (history.filter fun m => !m.isRead) machine.withoutReads) ∧
    ∀ (machine : Machine) t (u : Use), machine.work t = none → u.isRead = true →
      ∃ during result, (∀ m ∈ during, m.isRead = true) ∧
        Machine.Run machine (.begins t u :: (during ++ [.ends t u result])) machine := by
  refine ⟨fun s t contexts r c hc => Process.run_inert (only_action contexts r hc),
    fun session step h => session.step_read h, fun setup list list' hsame => ?_,
    fun s history machine run => run.withoutReads, fun machine t u => Machine.read_inserted⟩
  obtain ⟨hresults, hlast⟩ := (Session.start setup).steps_others list
  obtain ⟨hresults', hlast'⟩ := (Session.start setup).steps_others list'
  rw [hsame] at hresults hlast
  exact ⟨hresults.trans hresults'.symm, hlast.trans hlast'.symm⟩

/-- Who asks for the current context where nothing was ever bound fails, and sets nothing up for the
backend. -/
theorem reads_inert_unbound :
    ((Process.fresh (.fresh (.failure 5) (.plain 0))).run 1
      (Session.Call.current.action [] ⟨⟨.absent, 0⟩, .direct⟩)).outcome = .failed .unbound ∧
    ((Process.fresh (.fresh (.failure 5) (.plain 0))).run 1
      (Session.Call.current.action [] ⟨⟨.absent, 0⟩, .direct⟩)).process =
        .fresh (.fresh (.failure 5) (.plain 0)) := by
  obtain ⟨hcalls, -⟩ := reads_inert
  obtain ⟨-, hprocess, -⟩ :=
    hcalls (.fresh (.fresh (.failure 5) (.plain 0))) 1 [] ⟨⟨.absent, 0⟩, .direct⟩ .current rfl
  exact ⟨rfl, hprocess⟩

end ExecContext
