import ExecContext.Proofs.Demo.Underway
import ExecContext.Proofs.Kernel.Probing

set_option autoImplicit false

/-!
# The program under every schedule

However the threads take turns, the program exits with 0 and prints the main thread's opening, then
the lines of the workers, merged in some order that keeps each worker's own, then the main thread's
closing. One invariant carries this through all stages of the main thread (`Sound`). The orders in
which the lines of the workers may be merged are all orders, so that what may be printed depends on
the build and on the kernel's release, and on nothing else of the platform.
-/

namespace ExecContext.Demo.Workers

open Process

/-! ## What is printed -/

/-- The offset that the program prints. -/
def offsetText (reply : Kernel.UnameReply) : String :=
  match reply.release.bind Kernel.major with
  | .ok major => if 11 ≤ major then "0x0" else "0x60"
  | .error _ => "0x60"

/-- The lines that the main thread prints before the workers start. -/
def openingLines (build : Build) (reply : Kernel.UnameReply) : List Line :=
  [.text "=== rtlocal Basic Example ===", .text "",
    .text ("backend: " ++ if build.keyed then "pthread-key" else "native"),
    .text ("platform offset: " ++ offsetText reply), .text ""]

/-- The lines that the main thread prints after the workers are done. -/
def closingLines : List Line := [.text "", .text "=== Example Complete ==="]

/-- The lines of the main thread, as it prints them. -/
def byMain (lines : List Line) : List (ThreadId × Line) := lines.map (Prod.mk mainThread)

/-- The lines of all workers, in an order that keeps each worker's own. -/
structure Merged (entries : List (ThreadId × Line)) : Prop where
  own : ∀ w < workerCount, ownOf (w + 2) entries = workerLines w
  only : ∀ entry ∈ entries, ∃ w < workerCount, entry.1 = w + 2

/-- What the program may print, with the thread that prints each line. -/
def Printout (build : Build) (reply : Kernel.UnameReply)
    (printed : List (ThreadId × Line)) : Prop :=
  ∃ middle, Merged middle ∧
    printed = byMain (openingLines build reply) ++ middle ++ byMain closingLines

theorem hexadecimal_base (reply : Kernel.UnameReply) :
    Text.hexadecimal (Kernel.Probe.ofRelease reply.release).base = offsetText reply := by
  have hheader : Text.hexadecimal (Kernel.headerSize .host) = "0x60" := by decide
  have hnone : Text.hexadecimal 0 = "0x0" := by decide
  unfold Kernel.Probe.ofRelease offsetText
  cases reply.release.bind Kernel.major with
  | error e => exact hheader
  | ok major =>
    simp only [Kernel.Probe.base]
    by_cases h : 11 ≤ major
    · rw [if_pos h, Kernel.slotBase_of_not_lt _ (UInt32.not_lt.mpr h), hnone]
    · rw [if_neg h, Kernel.slotBase_of_lt _ (UInt32.not_le.mp h), hheader]

/-- The offset is 0x0 just if there is a major version of at least 11, else 0x60. -/
theorem offsetText_cases (reply : Kernel.UnameReply) :
    (offsetText reply = "0x0" ∧
        ∃ major, reply.release.bind Kernel.major = .ok major ∧ 11 ≤ major) ∨
      (offsetText reply = "0x60" ∧
        ¬∃ major, reply.release.bind Kernel.major = .ok major ∧ 11 ≤ major) := by
  unfold offsetText
  cases reply.release.bind Kernel.major with
  | error e =>
    refine Or.inr ⟨rfl, ?_⟩
    rintro ⟨major, hmajor, -⟩
    cases hmajor
  | ok major =>
    by_cases h : 11 ≤ major
    · exact Or.inl ⟨if_pos h, major, rfl, h⟩
    · refine Or.inr ⟨if_neg h, ?_⟩
      rintro ⟨n, hn, hle⟩
      cases hn
      exact h hle

/-! ## The main thread alone -/

section Alone

variable {build : Build} {e e' : Execution} {rest : Action Unit} {next : Stage} {s : Process}
  {events : List Event}

/-- A turn of the main thread while it prints, where it would print the rest alone. -/
theorem MainTurn.alone (turn : MainTurn build e e') (hstage : e.stage = .printing rest next)
    (hrun : runFrom mainThread rest e.process e.events = ⟨.returned (), s, events⟩) :
    e'.workers = e.workers ∧
      ((∃ rest', e'.stage = .printing rest' next ∧
          runFrom mainThread rest' e'.process e'.events = ⟨.returned (), s, events⟩) ∨
        e'.stage = next ∧ e'.process = s ∧ e'.events = events) := by
  cases turn with
  | access hstage' hnext =>
    cases hstage.symm.trans hstage'
    obtain ⟨resume, rfl, heffect, rfl⟩ := hnext
    rw [runFrom, heffect] at hrun
    exact ⟨rfl, Or.inl ⟨_, rfl, hrun⟩⟩
  | printed hstage' =>
    cases hstage.symm.trans hstage'
    cases hrun
    exact ⟨rfl, Or.inr ⟨rfl, rfl, rfl⟩⟩
  | failed hstage' =>
    cases hstage.symm.trans hstage'
    cases hrun
  | _ hstage' => cases hstage.symm.trans hstage'

/-- There is such a turn. -/
theorem exists_turn_alone (build : Build) (hstage : e.stage = .printing rest next)
    (hrun : runFrom mainThread rest e.process e.events = ⟨.returned (), s, events⟩) :
    ∃ e', MainTurn build e e' := by
  cases rest with
  | done value => exact ⟨_, .printed hstage⟩
  | fail cause => cases hrun
  | call access resume =>
    rw [runFrom] at hrun
    cases heffect : e.process.perform mainThread access with
    | some effect => exact ⟨_, .access hstage (.made heffect)⟩
    | none =>
      rw [heffect] at hrun
      cases hrun

/-- The main thread may print the rest before any other thread takes a turn. -/
theorem reaches_alone (hstage : e.stage = .printing rest next)
    (hrun : runFrom mainThread rest e.process e.events = ⟨.returned (), s, events⟩) :
    Reaches build e { e with process := s, events := events, stage := next } := by
  induction rest generalizing e with
  | done value =>
    cases hrun
    exact .single (.main (.printed hstage))
  | fail cause => cases hrun
  | call access resume ih =>
    rw [runFrom] at hrun
    cases heffect : e.process.perform mainThread access with
    | some effect =>
      rw [heffect] at hrun
      exact .head (.main (.access hstage (.made heffect)))
        (ih effect.answer (e := (e.after effect).atStage _) rfl hrun)
    | none =>
      rw [heffect] at hrun
      cases hrun

end Alone

theorem run_print (s : Process) (t : ThreadId) (words : String) :
    s.run t (print words) = ⟨.returned (), s, [.printed t (.text words)]⟩ := rfl

/-- Before the workers start the main thread asks the kernel, and prints its lines. -/
theorem run_opening (build : Build) (os : Platform) :
    ∃ events, (fresh os).run mainThread (opening (resolver build)) =
        ⟨.returned (), (fresh os).based, events⟩ ∧
      Event.prints events = byMain (openingLines build os.uname) := by
  have hfree : (fresh os).LogFree := ⟨fun _ => nofun, rfl⟩
  obtain ⟨probing, hbase⟩ := run_processBase (t := mainThread) hfree fun _ => nofun
  have hsilent : Event.prints probing = [] := by
    have hprinted := (run_silent silent_processBase (s := fresh os) (t := mainThread)).printed
    rw [hbase, Event.printedLines_eq_prints, List.map_eq_nil_iff] at hprinted
    exact hprinted
  have hbackend : (resolver build).backend.name =
      if build.keyed then "pthread-key" else "native" := by
    obtain ⟨keyed⟩ := build
    cases keyed <;> rfl
  have hrun : (fresh os).run mainThread (opening (resolver build)) =
      ⟨.returned (), (fresh os).based,
        [.printed mainThread (.text "=== rtlocal Basic Example ==="),
          .printed mainThread (.text ""),
          .printed mainThread (.text ("backend: " ++ (resolver build).backend.name))] ++
        (probing ++ [.printed mainThread (.text ("platform offset: " ++
            Text.hexadecimal (fresh os).base)),
          .printed mainThread (.text "")])⟩ := by
    unfold opening
    rw [run_bind_of_returned (run_print _ _ _), run_bind_of_returned (run_print _ _ _),
      run_bind_of_returned (run_print _ _ _), run_bind_of_returned hbase,
      run_bind_of_returned (run_print _ _ _), run_print]
    simp
  refine ⟨_, hrun, ?_⟩
  have hoffset : Text.hexadecimal (fresh os).base = offsetText os.uname := hexadecimal_base os.uname
  rw [Event.prints_append, Event.prints_append, hsilent, hoffset, hbackend]
  rfl

theorem run_closing (s : Process) (seen : List Event) :
    ∃ events, runFrom mainThread closing s seen = ⟨.returned (), s, events⟩ ∧
      Event.prints events = Event.prints seen ++ byMain closingLines :=
  ⟨_, rfl, by simp [Effect.emit, Event.prints, byMain, closingLines]⟩

/-! ## What holds at every stage -/

section Sound

variable {build : Build} {os : Platform} {e e' : Execution} {positions : ThreadId → Position}

/-- These workers have ended with their own calls. -/
def Joined (e : Execution) (w : Nat) : Prop :=
  ∀ v < w, e.workers[v]? = some ⟨v + 2, .done expectedCalls⟩

/-- The main thread starts workers, or waits for one of them once those before it have ended. -/
structure Attending (e : Execution) : Prop where
  few : e.workers.length ≤ workerCount
  stage : e.stage = .starting ∨
    ∃ w, e.stage = .joining w ∧ e.workers.length = workerCount ∧ Joined e w

/-- What is known of an execution at any point. -/
inductive Sound (build : Build) (os : Platform) (e : Execution) : Prop where
  /-- the main thread prints its opening -/
  | opening {rest : Action Unit} {events : List Event} (hstage : e.stage = .printing rest .starting)
      (hworkers : e.workers = [])
      (hrun : runFrom mainThread rest e.process e.events =
        ⟨.returned (), (fresh os).based, events⟩)
      (hprints : Event.prints events = byMain (openingLines build os.uname))
  /-- workers run, while the main thread starts them or waits for them -/
  | together {positions : ThreadId → Position} (hattending : Attending e)
      (h : Underway os build (byMain (openingLines build os.uname)) e positions)
  /-- the main thread prints its closing -/
  | closing {rest : Action Unit} {s : Process} {events : List Event}
      (hstage : e.stage = .printing rest (.ended 0)) (hjoined : Joined e e.workers.length)
      (hrun : runFrom mainThread rest e.process e.events = ⟨.returned (), s, events⟩)
      (hprints : Printout build os.uname (Event.prints events))
  /-- the program has ended -/
  | ended (hstage : e.stage = .ended 0) (hjoined : Joined e e.workers.length)
      (hprints : Printout build os.uname (Event.prints e.events))

theorem sound_begin (build : Build) (os : Platform) : Sound build os (begin build os) := by
  obtain ⟨events, hrun, hprints⟩ := run_opening build os
  exact .opening rfl rfl hrun hprints

/-- After the opening no worker has been started, and no thread has anything. -/
theorem underway_begin (build : Build) (hcreate : os.createFault = 0) (hstore : os.storeFault = 0)
    (hprocess : e.process = (fresh os).based) (hworkers : e.workers = [])
    (hprints : Event.prints e.events = byMain (openingLines build os.uname)) :
    Underway os build (byMain (openingLines build os.uname)) e .new := by
  have hunheld : (fresh os).based.Unheld := by
    rintro (c | _)
    · cases c <;> rfl
    · rfl
  refine ⟨⟨?_, ?_, ?_⟩, ?_, ?_, fun _ _ => rfl, [], by simpa using hprints, fun _ => rfl⟩
  · rw [hprocess]
    exact ⟨fun t l => by simp [hunheld l, Position.new, LockState.start, LockState.locks],
      fun t => List.Pairwise.nil, fun t hloaded => Bool.noConfusion hloaded⟩
  · rw [hprocess]
    exact ⟨.empty rfl ⟨rfl, rfl⟩ fun _ => rfl, fun _ => rfl, fun _ _ => rfl⟩
  · rw [hprocess]
    refine ⟨fun _ => rfl, fun u name hname => ?_, fun _ => rfl, fun _ => rfl, fun _ => rfl,
      hcreate, hstore⟩
    cases hname
  · rw [hprocess, hworkers]
    rfl
  · simp [hworkers]

/-! ### Turns -/

/-- A worker's turn leaves those that have ended as they are. -/
theorem WorkerTurn.joined {v w : Nat} (turn : WorkerTurn e v e') (h : Joined e w) :
    Joined e' w := by
  obtain ⟨-, hworker, resume, rfl, -, -⟩ := turn
  intro u hu
  have hne : v ≠ u := by
    rintro rfl
    cases hworker.symm.trans (h v hu)
  exact (List.getElem?_set_ne hne).trans (h u hu)

theorem WorkerTurn.attending {v : Nat} (turn : WorkerTurn e v e') (h : Attending e) :
    Attending e' := by
  refine ⟨turn.same.2 ▸ h.few, ?_⟩
  rw [turn.same.1, turn.same.2]
  exact h.stage.imp_right fun ⟨w, hstage, hall, hjoined⟩ => ⟨w, hstage, hall, turn.joined hjoined⟩

/-- Where all have ended there is no turn of a worker. -/
theorem WorkerTurn.not_joined {v : Nat} (turn : WorkerTurn e v e') :
    ¬Joined e e.workers.length := by
  obtain ⟨-, hworker, resume, rfl, -, -⟩ := turn
  intro h
  cases hworker.symm.trans (h v (List.getElem?_eq_some_iff.mp hworker).1)

/-- Once all workers have ended, their lines have been printed, each worker's in order. -/
theorem Underway.merged {os : Platform} {seen : List (ThreadId × Line)}
    (h : Underway os build seen e positions) (hall : e.workers.length = workerCount)
    (hjoined : Joined e workerCount) :
    ∃ middle, Event.prints e.events = seen ++ middle ∧ Merged middle := by
  obtain ⟨middle, hmiddle, hown⟩ := h.printed
  refine ⟨middle, hmiddle, fun w hw => ?_, fun entry hentry => ?_⟩
  · rw [hown]
    exact (h.work w _ (hjoined w hw)).2.of_done.2.2
  · by_contra hnone
    push Not at hnone
    have habsent := h.absent entry.1 (by rwa [hall])
    have hmem : entry.2 ∈ ownOf entry.1 middle :=
      List.mem_filterMap.mpr ⟨entry, hentry, if_pos rfl⟩
    rw [hown, habsent] at hmem
    cases hmem

/-- What is known of the workers does not depend on the main thread. -/
theorem Underway.atStage {os : Platform} {seen : List (ThreadId × Line)}
    (h : Underway os build seen e positions) (stage : Stage) :
    Underway os build seen (e.atStage stage) positions :=
  ⟨h.accords, h.roster, h.work, h.absent, h.printed⟩

/-- A turn of the main thread while workers run. -/
theorem Underway.mainTurn
    (h : Underway os build (byMain (openingLines build os.uname)) e positions)
    (hattending : Attending e) (turn : MainTurn build e e') : Sound build os e' := by
  have few := hattending.few
  rcases hattending.stage with hstage | ⟨w, hstage, hall, hjoined⟩
  · cases turn with
    | starts hstage' hmore =>
      have hlength : (e.hire build).workers.length = e.workers.length + 1 := List.length_append
      exact .together ⟨hlength ▸ hmore, Or.inl hstage'⟩ h.hire
    | started hstage' hall =>
      exact .together ⟨few, Or.inr ⟨0, rfl, Nat.le_antisymm few hall, fun _ => nofun⟩⟩
        (h.atStage _)
    | _ hstage' => cases hstage.symm.trans hstage'
  · cases turn with
    | joins hstage' hworker =>
      cases hstage.symm.trans hstage'
      obtain rfl := (h.work w _ hworker).1
      refine .together ⟨few, Or.inr ⟨w + 1, rfl, hall, fun v hv => ?_⟩⟩ (h.atStage _)
      rcases Nat.lt_succ_iff_lt_or_eq.mp hv with hlt | rfl
      · exact hjoined v hlt
      · exact hworker
    | rejects hstage' hworker hcalls =>
      cases hstage.symm.trans hstage'
      exact (hcalls (h.work w _ hworker).2.of_done.2.1).elim
    | loses hstage' hworker =>
      cases hstage.symm.trans hstage'
      exact (h.work w _ hworker).2.not_fail.elim
    | joined hstage' hnone =>
      cases hstage.symm.trans hstage'
      have hw : workerCount ≤ w := hall ▸ List.getElem?_eq_none_iff.mp hnone
      have hjoined' : Joined e workerCount := fun v hv => hjoined v (Nat.lt_of_lt_of_le hv hw)
      obtain ⟨middle, hmiddle, hmerged⟩ := h.merged hall hjoined'
      obtain ⟨events, hrun, hprints⟩ := run_closing e.process e.events
      exact .closing rfl (hall ▸ hjoined') hrun ⟨middle, hmerged, by rw [hprints, hmiddle]⟩
    | _ hstage' => cases hstage.symm.trans hstage'

/-- Every turn keeps to what is known. -/
theorem Sound.turn (hcreate : os.createFault = 0) (hstore : os.storeFault = 0)
    (h : Sound build os e) (turn : Turn build e e') : Sound build os e' := by
  cases h with
  | opening hstage hworkers hrun hprints =>
    cases turn with
    | main turn =>
      obtain ⟨hsame, ⟨rest', hstage', hrun'⟩ | ⟨hstage', hprocess, hevents⟩⟩ :=
        turn.alone hstage hrun
      · exact .opening hstage' (hsame.trans hworkers) hrun' hprints
      · have hnone := hsame.trans hworkers
        exact .together ⟨by simp [hnone], Or.inl hstage'⟩
          (underway_begin build hcreate hstore hprocess hnone (hevents ▸ hprints))
    | worker v turn => exact (turn.not_joined (by simp [Joined, hworkers])).elim
  | together hattending h =>
    cases turn with
    | main turn => exact h.mainTurn hattending turn
    | worker v turn =>
      have hattending' := turn.attending hattending
      obtain ⟨-, hworker, hnext⟩ := turn
      obtain ⟨resume, rfl, heffect, rfl⟩ := hnext
      obtain ⟨φ, -, hnext⟩ := h.access hworker heffect
      exact .together hattending' hnext
  | closing hstage hjoined hrun hprints =>
    cases turn with
    | main turn =>
      obtain ⟨hsame, ⟨rest', hstage', hrun'⟩ | ⟨hstage', -, hevents⟩⟩ := turn.alone hstage hrun
      · refine .closing hstage' ?_ hrun' hprints
        rwa [Joined, hsame]
      · refine .ended hstage' ?_ (hevents ▸ hprints)
        rwa [Joined, hsame]
    | worker v turn => exact (turn.not_joined hjoined).elim
  | ended hstage hjoined hprints =>
    cases turn with
    | main turn => cases turn with | _ hstage' => cases hstage.symm.trans hstage'
    | worker v turn => exact (turn.not_joined hjoined).elim

theorem Sound.reaches (hcreate : os.createFault = 0) (hstore : os.storeFault = 0)
    (h : Sound build os e) (reached : Reaches build e e') : Sound build os e' := by
  induction reached with
  | refl => exact h
  | tail _ turn ih => exact ih.turn hcreate hstore turn

/-- An execution that has ended has exited with 0, and has printed all. -/
theorem Sound.of_ended (h : Sound build os e) {code : UInt8} (hended : e.stage = .ended code) :
    code = 0 ∧ Printout build os.uname (Event.prints e.events) := by
  cases h with
  | opening hstage => cases hended.symm.trans hstage
  | together hattending =>
    rcases hattending.stage with hstage | ⟨w, hstage, -⟩
    · cases hended.symm.trans hstage
    · cases hended.symm.trans hstage
  | closing hstage => cases hended.symm.trans hstage
  | ended hstage hjoined hprints =>
    cases hended.symm.trans hstage
    exact ⟨rfl, hprints⟩

/-- The worker has its thread, has not failed, and if it has ended it returned its own calls. -/
structure Faultless (w : Nat) (worker : Worker) : Prop where
  thread : worker.thread = w + 2
  notFailed : ∀ cause, worker.rest ≠ .fail cause
  returned : ∀ calls, worker.rest = .done calls → calls = expectedCalls

/-- No worker fails, and a worker that has ended returned its own calls. -/
theorem Sound.worker (h : Sound build os e) {w : Nat} {worker : Worker}
    (hworker : e.workers[w]? = some worker) : Faultless w worker := by
  have hjoined (h : Joined e e.workers.length) : Faultless w worker := by
    cases hworker.symm.trans (h w (List.getElem?_eq_some_iff.mp hworker).1)
    exact ⟨rfl, fun _ => nofun, fun _ heq => (Program.done.inj heq).symm⟩
  cases h with
  | opening _ hworkers => simp [hworkers] at hworker
  | together _ h =>
    obtain ⟨t, rest⟩ := worker
    obtain ⟨rfl, hwork⟩ := h.work w _ hworker
    refine ⟨rfl, fun cause hfail => ?_, fun calls hdone => ?_⟩
    · obtain rfl : rest = .fail cause := hfail
      exact hwork.not_fail
    · obtain rfl : rest = .done calls := hdone
      exact hwork.of_done.2.1
  | closing _ hall => exact hjoined hall
  | ended _ hall => exact hjoined hall

/-- Whatever the main thread waits for, some thread can take a turn. -/
theorem Underway.turns {os : Platform} {seen : List (ThreadId × Line)}
    (h : Underway os build seen e positions) (hattending : Attending e) :
    ∃ e', Turn build e e' := by
  rcases hattending.stage with hstage | ⟨w, hstage, -, -⟩
  · by_cases hmore : e.workers.length < workerCount
    · exact ⟨_, .main (.starts hstage hmore)⟩
    · exact ⟨_, .main (.started hstage (Nat.le_of_not_lt hmore))⟩
  · cases hworker : e.workers[w]? with
    | none => exact ⟨_, .main (.joined hstage hworker)⟩
    | some found =>
      obtain ⟨t, rest⟩ := found
      cases rest with
      | done calls =>
        obtain rfl := (h.work w _ hworker).2.of_done.2.1
        exact ⟨_, .main (.joins hstage hworker)⟩
      | fail cause => exact ⟨_, .main (.loses hstage hworker)⟩
      | call access resume =>
        have hrunning (code : UInt8) : e.stage ≠ .ended code := by
          rw [hstage]
          exact Stage.noConfusion
        obtain ⟨v, e', turn⟩ := h.goes hrunning hworker
        exact ⟨e', .worker v turn⟩

/-- An execution that has not ended can go on. -/
theorem Sound.goes (h : Sound build os e) : (∃ e', Turn build e e') ∨ e.stage = .ended 0 := by
  cases h with
  | opening hstage hworkers hrun hprints =>
    obtain ⟨e', turn⟩ := exists_turn_alone build hstage hrun
    exact Or.inl ⟨e', .main turn⟩
  | together hattending h => exact Or.inl (h.turns hattending)
  | closing hstage hjoined hrun hprints =>
    obtain ⟨e', turn⟩ := exists_turn_alone build hstage hrun
    exact Or.inl ⟨e', .main turn⟩
  | ended hstage hjoined hprints => exact Or.inr hstage

/-- An execution can be brought to its end. -/
theorem reaches_end (hcreate : os.createFault = 0) (hstore : os.storeFault = 0)
    (h : Sound build os e) : ∃ e', Reaches build e e' ∧ e'.stage = .ended 0 := by
  induction turns_end build e with
  | intro e _ ih =>
    rcases h.goes with ⟨e', turn⟩ | hstage
    · obtain ⟨e'', hreaches, hstage⟩ := ih e' turn (h.turn hcreate hstore turn)
      exact ⟨e'', .head turn hreaches, hstage⟩
    · exact ⟨e, .refl, hstage⟩

end Sound

end ExecContext.Demo.Workers
