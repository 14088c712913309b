import ExecContext.Proofs.Session.History

set_option autoImplicit false

/-!
# Exchanging the backends with keys

`Setup.twin` lets every resolver over the key backend bind through the direct one instead, and the
other way round. A session and its twin take the same steps side by side (`twins_steps`): the same
bindings are made and the same ones fail, and what one session keeps behind the one key the other
keeps behind the other.
-/

namespace ExecContext

/-- The backend that takes the place of another. -/
def Backend.twin : Backend → Backend
  | .key => .direct
  | .direct => .key
  | b => b

@[simp] theorem Backend.twin_twin (b : Backend) : b.twin.twin = b := by
  cases b <;> rfl

theorem Backend.twin_eq_iff {b b' : Backend} : b'.twin = b.twin ↔ b' = b := by
  refine ⟨fun h => ?_, congrArg Backend.twin⟩
  rw [← b'.twin_twin, h, b.twin_twin]

namespace Session

/-- The setup with the two backends exchanged. -/
def Setup.twin (setup : Setup) : Setup :=
  { setup with
    resolvers := setup.resolvers.map fun chosen =>
      { chosen with backend := .fixed (chosen.backend.backend setup.build).twin } }

theorem resolver?_twin (setup : Setup) (r : Option Nat) :
    setup.twin.resolver? r =
      (setup.resolver? r).map fun resolver =>
        { resolver with backend := resolver.backend.twin } := by
  unfold Setup.resolver? Setup.twin
  cases r with
  | none => rfl
  | some number =>
    cases hn : setup.resolvers[number]? <;> simp [hn, BackendChoice.backend]

/-! ## Two sessions side by side -/

/-- Two sessions that differ in the backends alone. -/
structure Twins (session other : Session) : Prop where
  setup_eq : other.setup = session.setup.twin
  seats : other.seats = session.seats
  roster : other.process.roster = session.process.roster
  sound : session.process.Sound
  twinSound : other.process.Sound
  createFault : other.process.platform.createFault = session.process.platform.createFault
  storeFault : other.process.platform.storeFault = session.process.platform.storeFault
  kept : ∀ b, other.process.kept b.twin = session.process.kept b
  keys : ∀ b, other.process.keyOf b.twin = none ↔ session.process.keyOf b = none

namespace Twins

variable {session other : Session} {t : ThreadId}

/-- The same uses of the backends fail, for the same reason. -/
theorem fault? (h : Twins session other) (b : Backend) :
    other.process.fault? b.twin = session.process.fault? b := by
  have hkeys := h.keys b
  cases b <;> simp_all [Process.fault?, Backend.twin, h.createFault, h.storeFault]

theorem resolver? (h : Twins session other) (r : Option Nat) :
    other.resolver? r =
      (session.resolver? r).map fun resolver =>
        { resolver with backend := resolver.backend.twin } := by
  rw [resolver?_eq, h.setup_eq, resolver?_twin]
  rfl

theorem thread? (h : Twins session other) (ref : Option ThreadRef) :
    other.thread? ref = session.thread? ref := by
  have hscope : other.setup.scope = session.setup.scope := by rw [h.setup_eq]; rfl
  unfold Session.thread?
  rw [hscope, h.seats]

theorem namesNoContext (h : Twins session other) (call : Call) :
    other.namesNoContext call = session.namesNoContext call := by
  unfold Session.namesNoContext
  rw [h.setup_eq]
  rfl

/-! ## Tasks -/

/-- Which backends have a key is the same after a use of each that ended alike. -/
theorem keys_of_left {s' o' : Process} (h : Twins session other) {b : Backend}
    {failure : Option StorageFailure} (hfault : session.process.fault? b = failure)
    (hapart : session.process.Apart b s') (hapart' : other.process.Apart b.twin o')
    (hleft : session.process.Left b s' failure) (hleft' : other.process.Left b.twin o' failure)
    (b' : Backend) : o'.keyOf b'.twin = none ↔ s'.keyOf b' = none := by
  by_cases hb : b' = b
  · subst hb
    cases failure with
    | none => cases b' <;> simp_all [Process.Left, Backend.twin, Process.keyOf]
    | some failure =>
      cases failure with
      | noKey code => exact ⟨fun _ => hleft.1, fun _ => hleft'.1⟩
      | notStored code =>
        cases b' <;> simp_all [Process.Left, Backend.twin, Process.keyOf]
  · rw [hapart b' hb, hapart' b'.twin (fun heq => hb (Backend.twin_eq_iff.mp heq))]
    exact h.keys b'

/-- The same use of a backend and of its twin. -/
theorem held (h : Twins session other) {b : Backend} {p : Pointer} {f g : Finish Answer}
    (hheld : session.process.Held t b p Answer.ok f)
    (hheld' : other.process.Held t b.twin p Answer.ok g) :
    Twins { session with process := f.process } { other with process := g.process } := by
  cases hheld with
  | kept events hfault hs hapart hleft =>
    cases hheld' with
    | failed events' hfault' hs' hapart' hleft' =>
      rw [h.fault?, hfault] at hfault'
      cases hfault'
    | kept events' hfault' hs' hapart' hleft' =>
      exact {
        setup_eq := h.setup_eq
        seats := h.seats
        roster := hs'.roster.trans (h.roster.trans hs.roster.symm)
        sound := hs.sound
        twinSound := hs'.sound
        createFault := hs'.createFault.trans (h.createFault.trans hs.createFault.symm)
        storeFault := hs'.storeFault.trans (h.storeFault.trans hs.storeFault.symm)
        kept := fun b' => by
          rw [hs'.kept, hs.kept, h.kept, h.kept]
          simp only [Backend.twin_eq_iff]
        keys := h.keys_of_left hfault hapart hapart' hleft hleft' }
  | failed events hfault hs hapart hleft =>
    cases hheld' with
    | kept events' hfault' hs' hapart' hleft' =>
      rw [h.fault?, hfault] at hfault'
      cases hfault'
    | failed events' hfault' hs' hapart' hleft' =>
      rw [h.fault?, hfault] at hfault'
      cases hfault'
      exact {
        setup_eq := h.setup_eq
        seats := h.seats
        roster := hs'.roster.trans (h.roster.trans hs.roster.symm)
        sound := hs.sound
        twinSound := hs'.sound
        createFault := hs'.createFault.trans (h.createFault.trans hs.createFault.symm)
        storeFault := hs'.storeFault.trans (h.storeFault.trans hs.storeFault.symm)
        kept := fun b' => by rw [hs'.kept, hs.kept, h.kept]
        keys := h.keys_of_left hfault hapart hapart' hleft hleft' }

/-- The same change of both platforms. -/
theorem changed (h : Twins session other) (c : Platform.Change) :
    Twins (session.changePlatform c) (other.changePlatform c) := by
  have hsound := Does.sound (t := Process.mainThread) h.sound (.changed (c := c))
  have hsound' := Does.sound (t := Process.mainThread) h.twinSound (.changed (c := c))
  have hfaults : (other.changePlatform c).process.platform.createFault =
        (session.changePlatform c).process.platform.createFault ∧
      (other.changePlatform c).process.platform.storeFault =
        (session.changePlatform c).process.platform.storeFault := by
    have hcreate := h.createFault
    have hstore := h.storeFault
    cases c with
    | setVariable name value => exact ⟨hcreate, hstore⟩
    | setUname reply => exact ⟨hcreate, hstore⟩
    | setFaults create store =>
      simp only [Session.changePlatform, Process.changePlatform, Platform.change]
      rw [hcreate, hstore]
      exact ⟨rfl, rfl⟩
  exact ⟨h.setup_eq, h.seats, h.roster, hsound, hsound', hfaults.1, hfaults.2, h.kept, h.keys⟩

/-- The same task, done by the same thread. -/
theorem doTask (h : Twins session other) (t : ThreadId) (task : Task) :
    Twins (session.doTask t task).next (other.doTask t task).next := by
  by_cases hchange : ∃ c, task = .change c
  · obtain ⟨c, rfl⟩ := hchange
    simp only [Session.doTask]
    split
    · exact h.changed c
    · exact h
  · rcases holds_or_spares session task with ⟨r, resolver, call, p, rfl, hr, hw⟩ | hspares
    · have hr' : other.resolver? r = some { resolver with backend := resolver.backend.twin } := by
        rw [h.resolver?, hr, Option.map_some]
      cases hnames : session.namesNoContext call with
      | true =>
        have hnames' := (h.namesNoContext call).trans hnames
        simp only [Session.doTask, hr, hr', makeCall, hnames, hnames', if_true]
        exact h
      | false =>
        have hnames' := (h.namesNoContext call).trans hnames
        obtain ⟨f, hheld, -, hnext⟩ := held_doTask hr h.sound hw hnames t
        obtain ⟨g, hheld', -, hnext'⟩ := held_doTask hr' h.twinSound hw hnames' t
        rw [hnext, hnext']
        exact h.held hheld hheld'
    · have hspares' (b : Backend) : other.Spares b task := by
        intro r resolver' call htask hr' _
        rw [h.resolver?] at hr'
        obtain ⟨resolver, hr, -⟩ := Option.map_eq_some_iff.mp hr'
        exact hspares resolver.backend r resolver call htask hr rfl
      have hquiet (c : Platform.Change) : task ≠ .change c := fun heq => hchange ⟨c, heq⟩
      have hroster := (local_doTask session t task).roster
      have hroster' := (local_doTask other t task).roster
      obtain ⟨s', hnext, does⟩ := does_doTask h.sound t task
      obtain ⟨o', hnext', does'⟩ := does_doTask h.twinSound t task
      rw [hnext] at hroster ⊢
      rw [hnext'] at hroster' ⊢
      exact {
        setup_eq := h.setup_eq
        seats := h.seats
        roster := hroster'.trans (h.roster.trans hroster.symm)
        sound := does.sound h.sound
        twinSound := does'.sound h.twinSound
        createFault :=
          (does'.faults hquiet).1.trans (h.createFault.trans (does.faults hquiet).1.symm)
        storeFault :=
          (does'.faults hquiet).2.trans (h.storeFault.trans (does.faults hquiet).2.symm)
        kept := fun b => by
          funext u
          have hkept := does.kept none b u
          have hkept' := does'.kept none b.twin u
          rw [written?_of_spares (hspares b), Option.getD_none] at hkept
          rw [written?_of_spares (hspares' b.twin), Option.getD_none, h.kept] at hkept'
          exact hkept'.trans hkept.symm
        keys := fun b => by
          rw [does.keyOf (hspares b), does'.keyOf (hspares' b.twin)]
          exact h.keys b }

/-! ## Steps -/

/-- The same thread is started. -/
theorem start (h : Twins session other) (name : Option String) {seats seats' : List Seat}
    (hseats : seats' = seats) :
    Twins { session with process := (session.process.start name).2, seats := seats }
      { other with process := (other.process.start name).2, seats := seats' } where
  setup_eq := h.setup_eq
  seats := hseats
  roster := by simp only [Process.start, h.roster]
  sound := h.sound.congr rfl rfl rfl (fun _ hk => hk)
  twinSound := h.twinSound.congr rfl rfl rfl (fun _ hk => hk)
  createFault := h.createFault
  storeFault := h.storeFault
  kept := h.kept
  keys := h.keys

theorem startRacer (h : Twins session other) :
    other.startRacer.1 = session.startRacer.1 ∧
      Twins session.startRacer.2 other.startRacer.2 := by
  refine ⟨?_, h.start (some racerName) h.seats⟩
  simp only [Session.startRacer, Process.start, h.roster]

theorem spawn (h : Twins session other) (name : Option String) :
    Twins (session.spawn name) (other.spawn name) := by
  refine h.start name ?_
  simp only [h.roster, h.seats]

theorem raceTask (h : Twins session other) (task : Task) (n : Nat) :
    Twins (session.raceTask task n).next (other.raceTask task n).next := by
  induction n generalizing session other with
  | zero => exact h
  | succ n ih =>
    obtain ⟨hthread, hstarted⟩ := h.startRacer
    have hown : Twins (session.startRacer.2.doTask session.startRacer.1 task).next
        (other.startRacer.2.doTask other.startRacer.1 task).next := by
      rw [hthread]
      exact hstarted.doTask _ task
    exact ih hown

theorem raceBind (h : Twins session other) (r : Option Nat) (first n : Nat) :
    Twins (session.raceBind r first n).next (other.raceBind r first n).next := by
  induction n generalizing session other first with
  | zero => exact h
  | succ n ih =>
    obtain ⟨hthread, hstarted⟩ := h.startRacer
    let task := Task.resolver r (some (.bind (first % session.setup.contexts.length)))
    let bound := session.startRacer.2.doTask session.startRacer.1 task
    let bound' := other.startRacer.2.doTask other.startRacer.1 task
    have hbound : Twins bound.next bound'.next := by
      simp only [bound, bound', hthread]
      exact hstarted.doTask _ task
    have hfound : Twins (bound.next.doTask session.startRacer.1 (.resolver r (some .current?))).next
        (bound'.next.doTask other.startRacer.1 (.resolver r (some .current?))).next := by
      rw [hthread]
      exact hbound.doTask _ _
    have hcontexts : other.setup.contexts = session.setup.contexts := by
      rw [h.setup_eq]
      rfl
    simp only [Session.raceBind, hcontexts]
    exact ih hfound (first + 1)

/-- The same step. -/
theorem step (h : Twins session other) (s : Step) :
    Twins (session.step s).2 (other.step s).2 := by
  cases s with
  | act ref task =>
    simp only [Session.step, h.thread?]
    split
    · exact h
    · exact h.doTask _ task
  | spawn name => exact h.spawn name
  | exit ref =>
    cases ref with
    | none => exact h
    | some ref =>
      cases ref with
      | main => exact h
      | started n =>
        simp only [Session.step, h.thread?]
        split
        · exact h
        · exact ⟨h.setup_eq, by rw [h.seats], h.roster, h.sound, h.twinSound, h.createFault,
            h.storeFault, h.kept, h.keys⟩
  | race n task =>
    simp only [Session.step]
    split
    · exact h
    · exact h.raceTask task n
  | raceBind n r =>
    simp only [Session.step]
    split
    · exact h
    · exact h.raceBind r 0 n
  | unreadable reason => exact h

theorem steps (h : Twins session other) (list : List Step) :
    Twins (session.steps list).2 (other.steps list).2 := by
  induction list generalizing session other with
  | nil => exact h
  | cons s rest ih => exact ih (h.step s)

end Twins

/-- A session and its twin start alike. -/
theorem twins_start (setup : Setup) : Twins (start setup) (start setup.twin) := by
  have h := follows_nil setup
  have hkept (b : Backend) : setup.process.kept b = .empty := by
    funext t
    exact h.kept b t
  have hkeys (b : Backend) : setup.process.keyOf b = none := by
    unfold Setup.process
    cases setup.scope <;> cases b <;> rfl
  suffices hfold : ∀ (names : List (Option String)) {session other : Session},
      Twins session other → Twins (names.foldl Session.spawn session)
        (names.foldl Session.spawn other) from
    hfold setup.threads ⟨rfl, rfl, rfl, h.sound, h.sound, rfl, rfl,
      fun b => (hkept b.twin).trans (hkept b).symm,
      fun b => ⟨fun _ => hkeys b, fun _ => hkeys b.twin⟩⟩
  intro names
  induction names with
  | nil => exact fun h => h
  | cons name rest ih => exact fun h => ih (h.spawn name)

/-- A session and its twin take the same steps side by side. -/
theorem twins_steps (setup : Setup) (list : List Step) :
    Twins ((start setup).steps list).2 ((start setup.twin).steps list).2 :=
  (twins_start setup).steps list

end Session

end ExecContext
