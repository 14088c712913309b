import ExecContext.Proofs.Demo.Schedules

set_option autoImplicit false

/-!
# What the program may print

Every order of the workers' lines that keeps each worker's own is printed under some schedule: a
worker prints while it holds no lock, so that any worker may be let run alone to its next line. What
may be printed is thereby the same on all platforms whose kernels give the same release, whatever
level their environments ask the log for. Running one worker after another is one of the schedules.
-/

namespace ExecContext.Demo.Workers

open Process

/-! ## Merged lines -/

/-- No line is missing from a merge. -/
theorem Merged.eq_of_begins {first whole : List (ThreadId × Line)} (hfirst : Merged first)
    (hwhole : Merged whole) (h : first <+: whole) : first = whole := by
  obtain ⟨more, rfl⟩ := h
  cases more with
  | nil => exact (List.append_nil first).symm
  | cons entry rest =>
    obtain ⟨w, hw, ht⟩ := hwhole.only entry (by simp)
    have hown := hwhole.own w hw
    rw [ownOf_append, hfirst.own w hw, List.append_right_eq_self] at hown
    have hmem : entry.2 ∈ ownOf (w + 2) (entry :: rest) :=
      List.mem_filterMap.mpr ⟨entry, List.mem_cons_self, if_pos ht⟩
    rw [hown] at hmem
    cases hmem

/-- Two merges that begin one list are the same. -/
theorem Merged.unique {first second whole : List (ThreadId × Line)} (hfirst : Merged first)
    (hsecond : Merged second) (h : first <+: whole) (h' : second <+: whole) : first = second := by
  rcases List.prefix_or_prefix_of_prefix h h' with hle | hle
  · exact hfirst.eq_of_begins hsecond hle
  · exact (hsecond.eq_of_begins hfirst hle).symm

section Reached

variable {build : Build} {os : Platform} {e e' : Execution} {positions : ThreadId → Position}
  {os : Platform} {seen : List (ThreadId × Line)}

/-! ## What was printed stays -/

theorem Turn.prints (turn : Turn build e e') :
    Event.prints e.events <+: Event.prints e'.events := by
  cases turn with
  | main turn =>
    cases turn with
    | access hstage hnext =>
      obtain ⟨resume, rfl, heffect, rfl⟩ := hnext
      exact ⟨_, (prints_after heffect).symm⟩
    | _ => exact List.prefix_rfl
  | worker w turn =>
    obtain ⟨-, -, hnext⟩ := turn
    obtain ⟨resume, rfl, heffect, rfl⟩ := hnext
    exact ⟨_, (prints_after heffect).symm⟩

theorem Reaches.prints (reached : Reaches build e e') :
    Event.prints e.events <+: Event.prints e'.events := by
  induction reached with
  | refl => exact List.prefix_rfl
  | tail _ turn ih => exact ih.trans turn.prints

/-! ## Every printout is reached -/

/-- A worker that was just started holds no lock. -/
theorem Quiet.hire (h : Quiet positions) (t : ThreadId) (w : Nat) :
    Quiet (Discipline.setStage positions t (.started w)) :=
  ((h.but t).step _).quiet (by rw [Discipline.setStage_same]; rfl)

/-- The main thread may print its opening and start some workers before any of them takes a turn. -/
theorem reaches_staffed (build : Build) (hcreate : os.createFault = 0) (hstore : os.storeFault = 0)
    {n : Nat} (hn : n ≤ workerCount) :
    ∃ e positions, Reaches build (begin build os) e ∧
      Underway os build (byMain (openingLines build os.uname)) e positions ∧
      e.stage = .starting ∧ e.workers.length = n ∧ Quiet positions ∧
      Event.prints e.events = byMain (openingLines build os.uname) := by
  induction n with
  | zero =>
    obtain ⟨events, hrun, hprints⟩ := run_opening build os
    exact ⟨_, _, reaches_alone (e := begin build os) rfl hrun,
      underway_begin build hcreate hstore rfl rfl hprints, rfl, rfl, fun _ => rfl, hprints⟩
  | succ n ih =>
    obtain ⟨e, positions, hreaches, h, hstage, hlength, hquiet, hprints⟩ :=
      ih (Nat.le_of_succ_le hn)
    refine ⟨e.hire build, _, hreaches.tail (.main (.starts hstage (hlength ▸ hn))), h.hire, hstage,
      ?_, hquiet.hire _ _, hprints⟩
    exact List.length_append.trans (congrArg (· + 1) hlength)

/-- While no thread holds a lock, workers may go on to print the rest of any merge. -/
theorem Underway.prints_rest {whole already rest : List (ThreadId × Line)} (hwhole : Merged whole)
    (hsplit : already ++ rest = whole) (h : Underway os build seen e positions)
    (hall : e.workers.length = workerCount) (hrunning : ∀ code, e.stage ≠ .ended code)
    (hquiet : Quiet positions) (hprinted : Event.prints e.events = seen ++ already) :
    ∃ e', Reaches build e e' ∧ Event.prints e'.events = seen ++ whole := by
  induction rest generalizing already e positions with
  | nil =>
    rw [List.append_nil] at hsplit
    exact ⟨e, .refl, hsplit ▸ hprinted⟩
  | cons entry rest ih =>
    obtain ⟨w, hw, ht⟩ := hwhole.only entry (by simp [← hsplit])
    obtain ⟨t, line⟩ := entry
    obtain rfl : t = w + 2 := ht
    obtain ⟨⟨t, remaining⟩, hworker⟩ : ∃ worker, e.workers[w]? = some worker :=
      ⟨_, List.getElem?_eq_getElem (hall ▸ hw)⟩
    obtain rfl : t = w + 2 := (h.work w _ hworker).1
    have hmore : (positions (w + 2)).printed ++ line :: ownOf (w + 2) rest = workerLines w := by
      obtain ⟨middle, hmiddle, hown⟩ := h.printed
      obtain rfl : already = middle := List.append_cancel_left (hprinted.symm.trans hmiddle)
      rw [← hown, ← hwhole.own w hw, ← hsplit, ownOf_append]
      simp [ownOf]
    obtain ⟨e₁, positions₁, hreaches, h₁, hstage, hlength, hquiet₁, hprints⟩ :=
      h.prints_next hrunning hworker (hquiet.but _) hmore
    obtain ⟨e', hreaches', hprints'⟩ := ih (hsplit ▸ List.append_assoc already [(w + 2, line)] rest)
      h₁ (hlength.trans hall) (hstage ▸ hrunning) hquiet₁
      (by rw [hprints, hprinted, List.append_assoc])
    exact ⟨e', hreaches.trans hreaches', hprints'⟩

/-- Whatever may be printed is printed under some schedule. -/
theorem reaches_printout (hcreate : os.createFault = 0) (hstore : os.storeFault = 0)
    {printed : List (ThreadId × Line)} (h : Printout build os.uname printed) :
    ∃ e, Reaches build (begin build os) e ∧ e.stage = .ended 0 ∧
      Event.prints e.events = printed := by
  obtain ⟨middle, hmerged, rfl⟩ := h
  obtain ⟨e, positions, hreaches, hunder, hstage, hall, hquiet, hprints⟩ :=
    reaches_staffed build hcreate hstore (Nat.le_refl workerCount)
  have hrunning (code : UInt8) : e.stage ≠ .ended code := by
    rw [hstage]
    exact Stage.noConfusion
  obtain ⟨e₁, hreaches₁, hprints₁⟩ := hunder.prints_rest hmerged (List.nil_append _) hall hrunning
    hquiet (by rw [hprints, List.append_nil])
  have hsound := (sound_begin build os).reaches hcreate hstore (hreaches.trans hreaches₁)
  obtain ⟨e₂, hreaches₂, hstage₂⟩ := reaches_end hcreate hstore hsound
  refine ⟨e₂, (hreaches.trans hreaches₁).trans hreaches₂, hstage₂, ?_⟩
  obtain ⟨-, middle', hmerged', hprints₂⟩ :=
    (hsound.reaches hcreate hstore hreaches₂).of_ended hstage₂
  have hbegins : middle <+: middle' ++ byMain closingLines := by
    have hgrows := hreaches₂.prints
    rwa [hprints₁, hprints₂, List.append_assoc, List.prefix_append_right_inj] at hgrows
  rw [hprints₂, hmerged.unique hmerged' hbegins (List.prefix_append _ _)]

/-! ## One worker after another -/

/-- A worker that returns its own calls leaves the rest of the run to the workers after it. -/
theorem runWorkers_succ {p : Progress} {w : Nat} (count : Nat) {t : ThreadId} {started s : Process}
    {events : List Event} (hstart : p.process.start (some (workerName w)) = (t, started))
    (hrun : runFrom t (worker (resolver build) w) started p.events =
      ⟨.returned expectedCalls, s, events⟩) :
    runWorkers (resolver build) w (count + 1) p =
      runWorkers (resolver build) (w + 1) count ⟨s, events, p.agreed⟩ := by
  rw [runFrom_eq] at hrun
  have houtcome : (started.run t (worker (resolver build) w)).outcome = .returned expectedCalls :=
    congrArg Finish.outcome hrun
  have hprocess : (started.run t (worker (resolver build) w)).process = s :=
    congrArg Finish.process hrun
  have hevents : p.events ++ (started.run t (worker (resolver build) w)).events = events :=
    congrArg Finish.events hrun
  have hagreed : (p.agreed && sawOwnCalls (.returned expectedCalls)) = p.agreed :=
    Bool.and_true p.agreed
  rw [runWorkers, hstart]
  simp only [houtcome, hprocess, hevents, hagreed]

/-- Workers may be started and run one after another. -/
theorem Underway.reaches_runWorkers (count : Nat) (h : Underway os build seen e positions)
    (hstage : e.stage = .starting) (hquiet : Quiet positions)
    (hjoined : Joined e e.workers.length) (hcount : e.workers.length + count = workerCount) :
    ∃ e' positions', Reaches build e e' ∧ Underway os build seen e' positions' ∧
      e'.stage = .starting ∧ e'.workers.length = workerCount ∧ Joined e' workerCount ∧
      runWorkers (resolver build) e.workers.length count ⟨e.process, e.events, true⟩ =
        ⟨e'.process, e'.events, true⟩ := by
  induction count generalizing e positions with
  | zero =>
    rw [Nat.add_zero] at hcount
    exact ⟨e, positions, .refl, h, hstage, hcount, hcount ▸ hjoined, rfl⟩
  | succ count ih =>
    generalize hn : e.workers.length = n at hjoined hcount ⊢
    have hroster : e.process.roster.length = n + 1 := hn ▸ h.roster
    have hworkers := hire_workers build hn hroster
    have hworker : (e.hire build).workers[n]? = some ⟨n + 2, worker (resolver build) n⟩ := by
      simp [hworkers, ← hn]
    have hrunning (code : UInt8) : (e.hire build).stage ≠ .ended code := by
      rw [show (e.hire build).stage = .starting from hstage]
      exact Stage.noConfusion
    obtain ⟨e₁, positions₁, hreaches, h₁, hstage₁, hworkers₁, hquiet₁, hrun⟩ :=
      h.hire.finishes hrunning hworker ((hquiet.hire _ _).but _)
    rw [hworkers, ← hn, List.set_append_right _ _ (Nat.le_refl _), hn] at hworkers₁
    have hlength : e₁.workers.length = n + 1 := by simp [hworkers₁, hn]
    have hjoined₁ : Joined e₁ (n + 1) := by
      intro v hv
      rcases Nat.lt_succ_iff_lt_or_eq.mp hv with hlt | rfl
      · rw [hworkers₁, List.getElem?_append_left (hn ▸ hlt)]
        exact hjoined v hlt
      · simp [hworkers₁, ← hn]
    obtain ⟨e', positions', hreaches', h', hstage', hall, hjoined', hmore⟩ :=
      ih h₁ (hstage₁.trans hstage) hquiet₁ (hlength ▸ hjoined₁) (by omega)
    have hturns : Reaches build e e' :=
      .head (.main (.starts hstage (by omega))) (hreaches.trans hreaches')
    refine ⟨e', positions', hturns, h', hstage', hall, hjoined', ?_⟩
    have hstart : e.process.start (some (workerName n)) = (n + 2, (e.hire build).process) := by
      simp [Execution.hire, Process.start, hroster, hn]
    rw [runWorkers_succ count (p := ⟨e.process, e.events, true⟩) hstart hrun, ← hmore, hlength]

/-- Once all workers have ended, the main thread waits for each of them and goes on. -/
theorem reaches_joined (n : Nat) {w : Nat} (hstage : e.stage = .joining w)
    (hall : e.workers.length = workerCount) (hjoined : Joined e workerCount)
    (hn : w + n = workerCount) :
    Reaches build e (e.atStage (.printing closing (.ended 0))) := by
  induction n generalizing e w with
  | zero =>
    exact .single (.main (.joined hstage (List.getElem?_eq_none (by omega))))
  | succ n ih =>
    exact .head (.main (.joins hstage (hjoined w (by omega))))
      (ih (e := e.atStage (.joining (w + 1))) rfl hall hjoined (by omega))

/-- The run in which the workers run one after another is reached by turns. -/
theorem reaches_run (hcreate : os.createFault = 0) (hstore : os.storeFault = 0) :
    ∃ e, Reaches build (begin build os) e ∧ e.stage = .ended (run build os).code ∧
      e.events = (run build os).events := by
  obtain ⟨events, hopening, hprints⟩ := run_opening build os
  have hopened : Reaches build (begin build os) _ := reaches_alone rfl hopening
  have hunder := underway_begin build hcreate hstore
    (e := ⟨(fresh os).based, events, .starting, []⟩) rfl rfl hprints
  obtain ⟨e, positions, hreaches, h, hstage, hall, hjoined, hworkers⟩ :=
    hunder.reaches_runWorkers workerCount rfl (fun _ => rfl) (fun _ => nofun) rfl
  obtain ⟨events', hclosing, -⟩ := run_closing e.process e.events
  have hwaited : Reaches build e (e.atStage (.printing closing (.ended 0))) :=
    .head (.main (.started hstage (Nat.le_of_eq hall.symm)))
      (reaches_joined workerCount (e := e.atStage (.joining 0)) rfl hall hjoined
        (Nat.zero_add _))
  have hclosed : Reaches build (e.atStage (.printing closing (.ended 0))) _ :=
    reaches_alone rfl hclosing
  have hrun : run build os = ⟨0, events'⟩ := by
    have hworkers' : runWorkers (resolver build) 0 workerCount ⟨(fresh os).based, events, true⟩ =
        ⟨e.process, e.events, true⟩ := hworkers
    have hevents : e.events ++ (e.process.run mainThread closing).events = events' := by
      rw [runFrom_eq] at hclosing
      exact congrArg Finish.events hclosing
    unfold run
    simp only [hopening, hworkers', hevents, if_true]
  refine ⟨_, ((hopened.trans hreaches).trans hwaited).trans hclosed, ?_, ?_⟩
  · rw [hrun]
  · rw [hrun]

end Reached

/-! ## The result -/

/-- The program may print this on a platform, whatever its exit code. -/
def MayPrint (build : Build) (os : Platform) (printed : List (ThreadId × Line)) : Prop :=
  ∃ e code, Reaches build (begin build os) e ∧ e.stage = .ended code ∧
    Event.prints e.events = printed

theorem mayPrint_iff (build : Build) (os : Platform) (hcreate : os.createFault = 0)
    (hstore : os.storeFault = 0) (printed : List (ThreadId × Line)) :
    MayPrint build os printed ↔ Printout build os.uname printed := by
  constructor
  · rintro ⟨e, code, hreaches, hended, rfl⟩
    exact (((sound_begin build os).reaches hcreate hstore hreaches).of_ended hended).2
  · intro h
    obtain ⟨e, hreaches, hended, hprints⟩ := reaches_printout hcreate hstore h
    exact ⟨e, 0, hreaches, hended, hprints⟩

/-- **The workers under every schedule.** On a platform that creates keys and stores behind them,
whatever its environment and whatever its kernel reports, and in both builds: the threads cannot
take turns forever, and as long as the program has not ended, some thread can take a turn. If it has
ended, then with code 0. No worker ever fails, and one that has ended returned just the calls that
it made outside its fibers. What the program prints are the lines of the main thread's opening, then
the lines of the workers in an order that keeps each worker's own, then the lines of the closing;
each such order is possible. The offset among the lines is 0x0 just if the kernel's release has a
major version of at least 11, else 0x60. What may be printed does not depend on the environment,
which sets the log's level. Running one worker after another is one of the schedules. -/
theorem workers_under_every_schedule (build : Build) (os : Platform) (hcreate : os.createFault = 0)
    (hstore : os.storeFault = 0) :
    Ends build (begin build os) ∧
    (∀ e, Reaches build (begin build os) e →
      ((∃ e', Turn build e e') ∨ ∃ code, e.stage = .ended code) ∧
      (∀ code, e.stage = .ended code → code = 0) ∧
      ∀ w worker, e.workers[w]? = some worker → Faultless w worker) ∧
    (∀ printed, MayPrint build os printed ↔ Printout build os.uname printed) ∧
    ((offsetText os.uname = "0x0" ∧
        ∃ major, os.uname.release.bind Kernel.major = .ok major ∧ 11 ≤ major) ∨
      (offsetText os.uname = "0x60" ∧
        ¬∃ major, os.uname.release.bind Kernel.major = .ok major ∧ 11 ≤ major)) ∧
    (∀ environment printed, MayPrint build { os with environment := environment } printed ↔
      MayPrint build os printed) ∧
    ∃ e, Reaches build (begin build os) e ∧ e.stage = .ended (run build os).code ∧
      e.events = (run build os).events := by
  refine ⟨turns_end build _, fun e hreaches => ?_, mayPrint_iff build os hcreate hstore,
    offsetText_cases os.uname, fun environment printed => ?_, reaches_run hcreate hstore⟩
  · have hsound := (sound_begin build os).reaches hcreate hstore hreaches
    exact ⟨hsound.goes.imp_right fun hended => ⟨0, hended⟩,
      fun code hended => (hsound.of_ended hended).1, fun w worker => hsound.worker⟩
  · exact (mayPrint_iff build { os with environment := environment } hcreate hstore printed).trans
      (mayPrint_iff build os hcreate hstore printed).symm

/-- The build with keys under a kernel of version 23, with all records asked for. -/
theorem workers_under_every_schedule_keyed :
    let os := (Platform.fresh (.field [50, 51, 46, 52, 46, 48]) (.plain 0)).setVariable
      "RTLOCAL_LOG_LEVEL" (some [116, 114, 97, 99, 101])
    os.createFault = 0 ∧ os.storeFault = 0 ∧ Ends ⟨true⟩ (begin ⟨true⟩ os) ∧
      offsetText os.uname = "0x0" ∧ (run ⟨true⟩ os).code = 0 ∧
      Printout ⟨true⟩ os.uname (Event.prints (run ⟨true⟩ os).events) := by
  intro os
  obtain ⟨hends, hevery, hprints, -, -, e, hreaches, hended, hevents⟩ :=
    workers_under_every_schedule ⟨true⟩ os rfl rfl
  refine ⟨rfl, rfl, hends, by decide, (hevery e hreaches).2.1 _ hended, (hprints _).mp ?_⟩
  exact ⟨e, _, hreaches, hended, by rw [hevents]⟩

end ExecContext.Demo.Workers
