import ExecContext.Proofs.Interleaving.Cells
import ExecContext.Proofs.Kernel.Probing
import ExecContext.Proofs.Log.Accesses

set_option autoImplicit false

/-!
# One slot base for all threads

Where the key slots start is found out by the first thread that needs it, be it for its own sake or
to set up the direct backend. Under every schedule the kernel is asked for it once, whatever the
kernel would report later; all threads are given what was found then, and the direct backend uses no
other base, however often its key could not be created.
-/

namespace ExecContext

open Kernel (Probe)

/-! ## The initialisers -/

/-- The report of a probe to the log. -/
def Kernel.Probe.report (p : Probe) : Action Unit :=
  Log.write p.level (.probed p)

theorem compute_slotBase :
    Cell.compute .slotBase = .call Access.uname fun reply =>
      (Probe.ofRelease reply.release).report >>= fun _ =>
        .done (Probe.ofRelease reply.release).base := rfl

/-- The slot base is found whatever the kernel answers. -/
theorem slotBase_never_fails (made : List Accesses.Exchange) (cause : Cause) :
    ¬(Cell.compute .slotBase).Path made (.fail cause) := by
  have hwithin : (Cell.compute .slotBase).Within fun _ => True :=
    ⟨trivial, fun reply =>
      ((Log.within_write _ _).mono fun _ _ => trivial).bind fun _ => trivial⟩
  exact fun h => h.within hwithin

/-- To find the slot base, the kernel is asked once, and what it answered is reported. -/
theorem path_slotBase {made : List Accesses.Exchange} {rest : Action Nat}
    (h : (Cell.compute .slotBase).Path made rest) :
    made = [] ∨ ∃ reply calls more, made = ⟨.uname, reply⟩ :: calls ∧
      (Probe.ofRelease reply.release).report.Path calls more := by
  rw [compute_slotBase] at h
  rcases Program.path_call.mp h with ⟨rfl, -⟩ | ⟨reply, others, rfl, hothers⟩
  · exact Or.inl rfl
  · refine Or.inr ⟨reply, others, ?_⟩
    rcases hothers.of_bind with ⟨more, hmore, -⟩ | ⟨own, none', value, rfl, hown, hrest⟩
    · exact ⟨more, rfl, hmore⟩
    · obtain ⟨rfl, -⟩ := Program.path_done.mp hrest
      exact ⟨.done value, rfl, by simpa using hown⟩

/-- The slot base found is the one that the kernel's answer gives. -/
theorem path_slotBase_done {made : List Accesses.Exchange} {n : Nat}
    (h : (Cell.compute .slotBase).Path made (.ended (.ok n))) :
    ∃ reply calls, made = ⟨.uname, reply⟩ :: calls ∧
      (Probe.ofRelease reply.release).report.Path calls (.ended (.ok ())) ∧
      n = (Probe.ofRelease reply.release).base := by
  rw [compute_slotBase] at h
  obtain ⟨reply, others, rfl, hothers⟩ := Program.path_call_ended.mp h
  rcases Program.path_bind_ended.mp hothers with
    ⟨cause, -, heq⟩ | ⟨own, more, value, rfl, hown, hmore⟩
  · cases heq
  · obtain ⟨rfl, hn⟩ := Program.path_done.mp hmore
    cases hn
    exact ⟨reply, _, rfl, by simpa using hown, rfl⟩

/-- Setting up the direct backend shows the slot base first. -/
theorem path_direct {made : List Accesses.Exchange} {result : Except Cause DirectSlot}
    (h : (Cell.compute .direct).Path made (.ended result)) :
    ∃ n e, e ∈ made ∧ Access.Shows .slotBase n e ∧ ∀ slot, result = .ok slot → slot.base = n := by
  rcases Program.path_bind_ended.mp h with ⟨cause, hcause, rfl⟩ | ⟨own, more, n, rfl, hown, hmore⟩
  · rw [processBase_eq_get] at hcause
    obtain ⟨n, heq, -⟩ := path_get_returned slotBase_never_fails hcause
    cases heq
  · rw [processBase_eq_get] at hown
    obtain ⟨n', heq, e, he, hshows⟩ := path_get_returned slotBase_never_fails hown
    cases heq
    refine ⟨n, e, List.mem_append_left _ he, hshows, fun slot hslot => ?_⟩
    subst hslot
    rcases Program.path_bind_ended.mp hmore with
      ⟨cause, -, heq⟩ | ⟨_, others, key, rfl, -, hothers⟩
    · cases heq
    · obtain ⟨reported, -, heq⟩ := Program.path_map_ended hothers
      cases reported <;> cases heq
      rfl

/-! ## Machines -/

/-- A use that asks the kernel, or judges a release, without regard to what was found before. -/
def Use.ProbesAnew (u : Use) : Prop :=
  u = .service .askRelease ∨ ∃ release, u = .service (.reportedBase release)

theorem within_probesAnew {u : Use} (h : u.ProbesAnew) :
    u.action.Within fun a : Access => ¬a.Touches .slotBase := by
  rcases h with rfl | ⟨release, rfl⟩
  · have hask : Kernel.askRelease.Within fun a : Access => ¬a.Touches .slotBase :=
      ⟨id, fun _ => trivial⟩
    refine hask.bind fun release => ?_
    cases release with
    | ok text => trivial
    | error e => trivial
  · have hreport : (Probe.ofRelease release).report.Within fun a : Access =>
        ¬a.Touches .slotBase :=
      (Log.within_write _ _).mono fun a ha => ha.not_touches (by decide)
    have hbase : (Kernel.reportedBase release).Within fun a : Access => ¬a.Touches .slotBase :=
      hreport.bind fun _ => trivial
    exact hbase.bind fun _ => trivial

namespace Machine

variable {os : Platform} {history before after : List Label} {machine later : Machine}
  {t : ThreadId}
  {u : Use}

/-- Whoever asked for the slot base was given what the cell holds. -/
theorem base_given (run : Run (idle (.fresh os)) history machine)
    {result : Except Cause Session.Answer}
    (hends : .ends t (.service .processBase) result ∈ history) :
    ∃ n, result = .ok (.base n) ∧ machine.process.cells .slotBase = .full n := by
  obtain ⟨before, after, rfl⟩ := List.append_of_mem hends
  obtain ⟨made, hpath, hmem, -⟩ := run.made
  obtain ⟨own, hown, rfl⟩ := Program.path_map_ended hpath
  rw [processBase_eq_get] at hown
  obtain ⟨n, rfl, e, he, hshows⟩ := path_get_returned slotBase_never_fails hown
  exact ⟨n, rfl, run.shown_to (unheld_fresh os) (fun m hm => by simp [hm]) (hmem e he) hshows⟩

/-- Where the slot base came from: one thread took the cell on, asked the kernel, reported what it
found, and published that. -/
theorem base_found (run : Run (idle (.fresh os)) history machine) {n : Nat}
    (hfull : machine.process.cells .slotBase = .full n) :
    ∃ before t u waiting now reporting after,
      history = before ++ .access t u (.enter .slotBase) none ::
        (waiting ++ .access t u .uname now.process.platform.uname ::
          (reporting ++ .access t u (.publish .slotBase n) () :: after)) ∧
      Run (idle (.fresh os)) (before ++ .access t u (.enter .slotBase) none :: waiting) now ∧
      exchanges t waiting = [] ∧ now.process.probe.report.Path (exchanges t reporting) (.done ()) ∧
      n = now.process.probe.base := by
  obtain ⟨before, t, u, during, _, after, rfl, ⟨rfl, hwithin, -⟩, hpath⟩ :=
    run.filled (unheld_fresh os) (by simp [Process.fresh, Cells.empty]) hfull
  obtain ⟨reply, calls, hmade, hreport, hn⟩ := path_slotBase_done hpath
  obtain ⟨waiting, v, reporting, rfl, hwaiting, rfl⟩ :=
    exchanges_split (show _ = [] ++ _ from hmade)
  obtain rfl : v = u := hwithin (.access t v .uname reply) (by simp) rfl
  have hasked : Run (idle (.fresh os))
      ((before ++ .access t v (.enter .slotBase) none :: waiting) ++ .access t v .uname reply ::
        (reporting ++ .access t v (.publish .slotBase n) () :: after)) machine := by
    simpa using run
  obtain ⟨now, next, resume, effect, hnow, -, heffect, rfl, -⟩ := hasked.accessed
  cases heffect
  exact ⟨before, t, v, waiting, now, reporting, after, by simp, hnow, hwaiting, hreport, hn⟩

/-- The direct backend uses the slot base that was found. -/
theorem base_of_direct (run : Run (idle (.fresh os)) history machine) {slot : DirectSlot}
    (hfull : machine.process.cells .direct = .full slot) :
    machine.process.cells .slotBase = .full slot.base := by
  obtain ⟨before, t, u, during, _, after, rfl, ⟨rfl, -, -⟩, hpath⟩ :=
    run.filled (unheld_fresh os) (by simp [Process.fresh, Cells.empty]) hfull
  obtain ⟨n, e, he, hshows, hslot⟩ := path_direct hpath
  rw [hslot slot rfl]
  exact run.shown_to (unheld_fresh os) (fun m hm => by simp [hm]) he hshows

/-- When the direct backend could not be set up, the slot base had been found, and it stays. -/
theorem base_of_abandoned
    (run : Run (idle (.fresh os)) (before ++ .access t u (.abandon .direct) () :: after) machine) :
    ∃ now n, Run (idle (.fresh os)) before now ∧ now.process.cells .slotBase = .full n ∧
      machine.process.cells .slotBase = .full n := by
  obtain ⟨now, next, resume, effect, hnow, -⟩ := run.accessed
  obtain ⟨earlier, during, cause, ⟨rfl, -, -⟩, hpath⟩ := run.abandoned (unheld_fresh os)
  obtain ⟨n, e, he, hshows, -⟩ := path_direct hpath
  exact ⟨now, n, hnow,
    hnow.shown_to (unheld_fresh os) (fun m hm => by simp [hm]) he hshows,
    run.shown_to (unheld_fresh os) (fun m hm => by simp [hm]) he hshows⟩

/-- A thread that is finding the slot base has asked the kernel once at most, and reports what it
was told once at most. -/
theorem base_sought (run : Run (idle (.fresh os)) history machine)
    (hbusy : machine.process.cells .slotBase = .busy t) :
    ∃ u before during, TookOn t u .slotBase before during history ∧
      (exchanges t during = [] ∨ ∃ reply calls more,
        exchanges t during = ⟨.uname, reply⟩ :: calls ∧
          (Probe.ofRelease reply.release).report.Path calls more) := by
  obtain ⟨w, before, during, rest, -, htook, hpath⟩ := run.filling (unheld_fresh os) hbusy
  exact ⟨w.use, before, during, htook, path_slotBase hpath⟩

/-- A use that probes anew does not touch the cell. -/
theorem base_untouched (run : Run (idle (.fresh os)) history machine) (hu : u.ProbesAnew)
    {a : Access}
    {answer : a.Answer} (hm : .access t u a answer ∈ history) : ¬a.Touches .slotBase := by
  obtain ⟨made, resume, hpath⟩ := run.reaches hm
  exact (hpath.within (within_probesAnew hu)).1

/-- Under every schedule there is one slot base. The kernel is asked for it once, by the thread that
takes the cell on; the base is what the kernel reports at that moment, and that probe is reported to
the log once. Every thread that asks is given this base, the direct backend is set up with it, and
it outlives a failure to set that backend up. A use that probes anew neither reads nor sets it. -/
theorem one_base (run : Run (idle (.fresh os)) history machine) :
    history.countP (takes .slotBase) ≤ 1 ∧
    (∀ n, machine.process.cells .slotBase = .full n →
      ∃ before t u waiting now reporting after,
        history = before ++ .access t u (.enter .slotBase) none ::
          (waiting ++ .access t u .uname now.process.platform.uname ::
            (reporting ++ .access t u (.publish .slotBase n) () :: after)) ∧
        Run (idle (.fresh os)) (before ++ .access t u (.enter .slotBase) none :: waiting) now ∧
        exchanges t waiting = [] ∧
        now.process.probe.report.Path (exchanges t reporting) (.done ()) ∧
        n = now.process.probe.base) ∧
    (∀ t, machine.process.cells .slotBase = .busy t →
      ∃ u before during, TookOn t u .slotBase before during history ∧
        (exchanges t during = [] ∨ ∃ reply calls more,
          exchanges t during = ⟨.uname, reply⟩ :: calls ∧
            (Probe.ofRelease reply.release).report.Path calls more)) ∧
    (∀ t result, .ends t (.service .processBase) result ∈ history →
      ∃ n, result = .ok (.base n) ∧ machine.process.cells .slotBase = .full n) ∧
    (∀ slot, machine.process.cells .direct = .full slot →
      machine.process.cells .slotBase = .full slot.base) ∧
    (∀ before t u after, history = before ++ .access t u (.abandon .direct) () :: after →
      ∃ now n, Run (idle (.fresh os)) before now ∧ now.process.cells .slotBase = .full n ∧
        machine.process.cells .slotBase = .full n) ∧
    ∀ t u a answer, u.ProbesAnew → .access t u a answer ∈ history → ¬a.Touches .slotBase := by
  refine ⟨?once, fun n hfull => base_found run hfull, fun t hbusy => base_sought run hbusy,
    fun t result hends => base_given run hends, fun slot hfull => base_of_direct run hfull,
    ?abandoned, fun t u a answer hu hm => base_untouched run hu hm⟩
  case once =>
    rw [run.takings (unheld_fresh os) rfl slotBase_never_fails]
    cases machine.process.cells .slotBase <;> simp [begun]
  case abandoned =>
    rintro before t u after rfl
    exact base_of_abandoned run

/-- Thread 1 asks for the slot base while thread 2 sets up the direct backend and waits for it. The
kernel first fails, reports release 20 when it is asked, and fails again; no key can be created. -/
def contendedBase : List Label × Machine :=
  (idle (.fresh (.fresh (.failure 5) (.plain 0)))).follow <|
    [.begin 1 (.service .processBase), .begin 2 (.call [] ⟨⟨.absent, 0⟩, .direct⟩ (.hold none)),
      .go 1, .go 2, .go 2, .change (.setUname (.field [50, 48])), .go 1,
      .change (.setUname (.failure 5)), .change (.setFaults (some 11) none)] ++
    List.replicate 9 (.go 1) ++ List.replicate 14 (.go 2)

theorem one_base_contended :
    contendedBase.2.process.cells .slotBase = .full 0 ∧
    contendedBase.2.process.cells .direct = .empty ∧
    .ends 1 (.service .processBase) (.ok (.base 0)) ∈ contendedBase.1 ∧
    contendedBase.1.countP (takes .slotBase) ≤ 1 ∧
    ∀ t result, .ends t (.service .processBase) result ∈ contendedBase.1 →
      result = .ok (.base 0) := by
  have run : Run (idle (.fresh (.fresh (.failure 5) (.plain 0)))) contendedBase.1 contendedBase.2 :=
    run_follow _ _
  obtain ⟨honce, -, -, hgiven, -⟩ := one_base run
  have hbase : contendedBase.2.process.cells .slotBase = .full 0 := rfl
  refine ⟨hbase, rfl, List.mem_of_getElem? (i := 16) rfl, honce, fun t result hends => ?_⟩
  obtain ⟨n, rfl, hn⟩ := hgiven t result hends
  rw [hbase] at hn
  cases hn
  rfl

end Machine

end ExecContext
