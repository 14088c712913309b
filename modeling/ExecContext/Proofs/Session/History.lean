import ExecContext.Proofs.Session.Tasks

set_option autoImplicit false

/-!
# What the history of a session tells

The entries of a session determine what its backends keep and what its schedulers do: a thread is
bound to the pointer of the latest entry that let the backend hold one for it, and a scheduler has
gone through the changes made to it. `Follows` is the invariant that ties a session to its history;
what a resolver finds is read off from it.
-/

namespace ExecContext

namespace Session

/-! ## Reading a history -/

/-- The resolver of a given number. -/
def Setup.resolver? (setup : Setup) (r : Option Nat) : Option Resolver := do
  let number ← r
  let chosen ← setup.resolvers[number]?
  return ⟨⟨chosen.scheduler, number⟩, chosen.backend.backend setup.build⟩

/-- The pointer that an entry let backend `b` hold for thread `t`, if it did: it was a binding on
`t` through a resolver over `b`, and it returned. -/
def Entry.written? (setup : Setup) (b : Backend) (t : ThreadId) (d : Entry) : Option Pointer :=
  match d.task with
  | .resolver r (some call) =>
    if d.answer = .ok ∧ d.thread = t ∧ (setup.resolver? r).map Resolver.backend = some b then
      call.written?
    else
      none
  | _ => none

/-- The pointer that backend `b` was last let hold for thread `t`, null if it never was. -/
def latest (setup : Setup) (b : Backend) (t : ThreadId) (history : List Entry) : Pointer :=
  (history.filterMap (Entry.written? setup b t)).getLast?.join

/-- What an entry made of the activity of a scheduler at the seat of thread `t`, if it changed it.
-/
def Entry.change? (setup : Setup) (sched : Scheduler) (t : ThreadId) (d : Entry) :
    Option (Activity → Activity) :=
  match d.task with
  | .resolver r (some call) =>
    if d.answer = .applied true ∧ sched.seat d.thread = sched.seat t ∧
        (setup.resolver? r).map Resolver.scheduler = some sched then
      call.change?
    else
      none
  | _ => none

/-- The activity that a scheduler starts with. -/
def initialActivity (sched : Scheduler) : Activity :=
  match sched.kind with
  | .constant f => ⟨true, some f⟩
  | _ => .idle

/-- What a scheduler does on thread `t` after a history. -/
def activityAfter (setup : Setup) (sched : Scheduler) (t : ThreadId) (history : List Entry) :
    Activity :=
  (history.filterMap (Entry.change? setup sched t)).foldl (fun a change => change a)
    (initialActivity sched)

section Concat

variable (setup : Setup) (b : Backend) (sched : Scheduler) (t : ThreadId) (history : List Entry)
  (d : Entry)

theorem latest_concat :
    latest setup b t (history ++ [d]) =
      (d.written? setup b t).getD (latest setup b t history) := by
  unfold latest
  cases h : d.written? setup b t <;> simp [List.filterMap_append, h]

theorem activityAfter_concat :
    activityAfter setup sched t (history ++ [d]) =
      ((d.change? setup sched t).getD id) (activityAfter setup sched t history) := by
  unfold activityAfter
  cases h : d.change? setup sched t <;> simp [List.filterMap_append, h]

end Concat

/-! ## What an entry does to a process -/

section Does

variable {session : Session} {t : ThreadId} {task : Task} {answer : Answer} {s' : Process}

theorem resolver?_eq (session : Session) (r : Option Nat) :
    session.resolver? r = session.setup.resolver? r := rfl

/-- A resolver is known by the number of its scheduler. -/
theorem resolver?_number {r : Option Nat} {resolver : Resolver}
    (hr : session.resolver? r = some resolver) : r = some resolver.scheduler.number := by
  unfold resolver? at hr
  cases r with
  | none => cases hr
  | some number =>
    cases hn : session.setup.resolvers[number]? with
    | none => simp [hn] at hr
    | some chosen =>
      simp only [Option.bind_eq_bind, Option.bind_some, hn, Option.pure_def,
        Option.some.injEq] at hr
      rw [← hr]

theorem Does.sound (h : session.process.Sound) (does : Does session t task answer s') :
    s'.Sound := by
  cases does with
  | steady hs _ _ => exact hs.sound
  | held _ _ hs _ => exact hs.sound
  | rescheduled _ _ _ => exact h.congr rfl rfl rfl (fun _ hk => hk)
  | counted _ _ => exact h.congr rfl rfl rfl (fun _ hk => hk)
  | changed =>
    rename_i c
    cases c <;> exact h.congr rfl rfl rfl (fun _ hk => hk)

/-- What a full cell holds stays. -/
theorem Does.full (does : Does session t task answer s') {c : Cell} {value : c.Content}
    (hc : session.process.cells c = .full value) : s'.cells c = .full value := by
  cases does with
  | steady hs _ _ => exact hs.full c value hc
  | held _ _ hs _ => exact hs.full c value hc
  | rescheduled _ _ _ => exact hc
  | counted _ _ => exact hc
  | changed => exact hc

/-- A backend gets no key without holding a pointer. -/
theorem Does.keyOf (does : Does session t task answer s') {b : Backend}
    (hspares : session.Spares b task) : s'.keyOf b = session.process.keyOf b := by
  cases does with
  | steady _ hkeys _ => exact hkeys b hspares
  | @held r resolver call p s' hr hw hs hapart =>
    refine hapart b ?_
    rintro rfl
    rw [hspares r resolver call rfl hr rfl] at hw
    cases hw
  | rescheduled _ _ _ => rfl
  | counted _ _ => rfl
  | changed => rfl

theorem Does.host (does : Does session t task answer s') :
    s'.platform.host = session.process.platform.host := by
  cases does with
  | steady hs _ _ => exact hs.host
  | held _ _ hs _ => exact hs.host
  | rescheduled _ _ _ => rfl
  | counted _ _ => rfl
  | changed =>
    rename_i c
    cases c <;> rfl

/-- What the platform fails at is changed by a change of the platform alone. -/
theorem Does.faults (does : Does session t task answer s') (hchange : ∀ c, task ≠ .change c) :
    s'.platform.createFault = session.process.platform.createFault ∧
      s'.platform.storeFault = session.process.platform.storeFault := by
  cases does with
  | steady hs _ _ => exact ⟨hs.createFault, hs.storeFault⟩
  | held _ _ hs _ => exact ⟨hs.createFault, hs.storeFault⟩
  | rescheduled _ _ _ => exact ⟨rfl, rfl⟩
  | counted _ _ => exact ⟨rfl, rfl⟩
  | changed => exact absurd rfl (hchange _)

/-- A backend keeps what the entry let it hold, and what it kept before otherwise. -/
theorem Does.kept (does : Does session t task answer s') (name : Option String) (b : Backend)
    (u : ThreadId) :
    s'.kept b u =
      (Entry.written? session.setup b u ⟨t, name, task, answer⟩).getD
        (session.process.kept b u) := by
  cases does with
  | steady hs hkeys hquiet =>
    rw [hs.kept]
    suffices hnone : Entry.written? session.setup b u ⟨t, name, task, answer⟩ = none by
      rw [hnone, Option.getD_none]
    unfold Entry.written?
    split
    · rename_i r call heq
      split
      · rename_i hok
        by_cases hw : call.written? = none
        · exact hw
        · exact absurd hok.1 ((hquiet r call heq).1 hw)
      · rfl
    · rfl
  | @held r resolver call p s' hr hw hs hapart =>
    have hbackend : (session.setup.resolver? r).map Resolver.backend = some resolver.backend := by
      rw [← resolver?_eq, hr, Option.map_some]
    rw [hs.kept]
    by_cases hb : b = resolver.backend
    · subst hb
      by_cases hu : t = u
      · subst hu
        simp [Entry.written?, hbackend, hw]
      · have hne : u ≠ t := fun heq => hu heq.symm
        simp [Entry.written?, hu, Slots.set_other _ _ hne]
    · have hne : resolver.backend ≠ b := fun heq => hb heq.symm
      simp [Entry.written?, hbackend, hb, hne]
  | rescheduled _ _ _ => simp [Entry.written?, Session.rescheduled]; rfl
  | counted _ _ => simp [Entry.written?]; rfl
  | changed => rfl

theorem activity_congr {s : Process} (h : s'.activities = s.activities) (sched : Scheduler)
    (u : ThreadId) : s'.activity sched u = s.activity sched u := by
  unfold Process.activity
  rw [h]

/-- A scheduler that is rescheduled on a thread, seen from any thread. -/
theorem rescheduled_activity (s : Process) (t : ThreadId) {sched : Scheduler}
    (hkeeps : keepsActivity sched) (change : Activity → Activity) (u : ThreadId) :
    (rescheduled s t sched change).activity sched u =
      if sched.seat t = sched.seat u then change (s.activity sched u) else s.activity sched u := by
  have hactivity (s : Process) (v : ThreadId) :
      s.activity sched v = s.activities sched.number (sched.seat v) := by
    unfold Process.activity
    rcases hkeeps with hkind | hkind <;> rw [hkind]
  have hactivities : (rescheduled s t sched change).activities =
      s.activities.set sched.number (sched.seat t) (change (s.activity sched t)) := rfl
  rw [hactivity, hactivities, hactivity, hactivity]
  by_cases hseat : sched.seat t = sched.seat u
  · rw [if_pos hseat, hseat, Activities.set_same]
  · rw [if_neg hseat, Activities.set_other]
    intro hsame
    exact hseat hsame.2.symm

/-- Any other scheduler does what it did. -/
theorem rescheduled_activity_other (s : Process) (t : ThreadId) {sched other : Scheduler}
    (hne : other.number ≠ sched.number) (change : Activity → Activity) (u : ThreadId) :
    (rescheduled s t sched change).activity other u = s.activity other u := by
  unfold Process.activity rescheduled
  simp only [Activities.set_other _ _ (fun hsame => hne hsame.1)]

/-- A scheduler does what the entry made of it, and what it did before otherwise. -/
theorem Does.activity (does : Does session t task answer s') (name : Option String)
    {n : Option Nat} {resolver : Resolver} (hn : session.resolver? n = some resolver)
    (u : ThreadId) :
    s'.activity resolver.scheduler u =
      ((Entry.change? session.setup resolver.scheduler u ⟨t, name, task, answer⟩).getD id)
        (session.process.activity resolver.scheduler u) := by
  cases does with
  | steady hs hkeys hquiet =>
    rw [activity_congr hs.activities]
    suffices hnone :
        Entry.change? session.setup resolver.scheduler u ⟨t, name, task, answer⟩ = none by
      rw [hnone]
      rfl
    unfold Entry.change?
    split
    · rename_i r call heq
      split
      · rename_i happlied
        by_cases hc : call.change? = none
        · exact hc
        · exact absurd happlied.1 ((hquiet r call heq).2 hc)
      · rfl
    · rfl
  | held _ _ hs _ =>
    rw [activity_congr hs.activities]
    simp [Entry.change?]
  | @rescheduled r chosen call change hr hc hkeeps =>
    have hscheduler :
        (session.setup.resolver? r).map Resolver.scheduler = some chosen.scheduler := by
      rw [← resolver?_eq, hr, Option.map_some]
    by_cases hnumber : resolver.scheduler.number = chosen.scheduler.number
    · -- the two resolvers are the same, for each has a scheduler of its own
      have hsame : resolver = chosen := by
        rw [resolver?_number hn, hnumber, ← resolver?_number hr, hr] at hn
        exact (Option.some.inj hn).symm
      subst hsame
      rw [rescheduled_activity _ _ hkeeps]
      by_cases hseat : resolver.scheduler.seat t = resolver.scheduler.seat u
      · simp [Entry.change?, hseat, hscheduler, hc]
      · simp [Entry.change?, hseat]
    · have hne : chosen.scheduler ≠ resolver.scheduler := by
        intro heq
        exact hnumber (congrArg Scheduler.number heq).symm
      rw [rescheduled_activity_other _ _ hnumber]
      simp [Entry.change?, hscheduler, hne]
  | counted _ _ => simp [Entry.change?]; rfl
  | changed => rfl

/-- A task lets a backend hold a pointer, or it lets no backend hold one. -/
theorem holds_or_spares (session : Session) (task : Task) :
    (∃ r resolver call p, task = .resolver r (some call) ∧
      session.resolver? r = some resolver ∧ call.written? = some p) ∨
    ∀ b, session.Spares b task := by
  by_cases h : ∃ r resolver call p, task = .resolver r (some call) ∧
      session.resolver? r = some resolver ∧ call.written? = some p
  · exact Or.inl h
  · refine Or.inr fun b r resolver call htask hr _ => ?_
    cases hw : call.written? with
    | none => rfl
    | some p => exact absurd ⟨r, resolver, call, p, htask, hr, hw⟩ h

theorem written?_of_spares {b : Backend} (hspares : session.Spares b task)
    (name : Option String) (u : ThreadId) :
    Entry.written? session.setup b u ⟨t, name, task, answer⟩ = none := by
  unfold Entry.written?
  split
  · rename_i r call heq
    split
    · rename_i hdone
      obtain ⟨resolver, hr, hb⟩ := Option.map_eq_some_iff.mp hdone.2.2
      exact hspares r resolver call heq hr hb
    · rfl
  · rfl

/-- Where the direct backend reads does not change until it is let hold a pointer. -/
theorem Does.inPlace (does : Does session t task answer s') (hspares : session.Spares .direct task)
    (hplace : session.process.InPlace) : s'.InPlace := by
  intro slot hslot
  have hkey : session.process.keyOf .direct = some slot.key :=
    (does.keyOf hspares).symm.trans (Process.keyOf_direct_iff.mpr ⟨slot.base, hslot⟩)
  obtain ⟨base, hbefore⟩ := Process.keyOf_direct_iff.mp hkey
  have hsame : slot = ⟨slot.key, base⟩ := by
    rw [does.full hbefore] at hslot
    exact (Once.full.inj hslot).symm
  rw [does.host, hsame]
  exact hplace _ hbefore

/-- What a backend gives back stays until it is let hold a pointer, the direct backend in place. -/
theorem Does.held_same (does : Does session t task answer s') {b : Backend}
    (hplace : b = .direct → session.process.InPlace) (hspares : session.Spares b task)
    (u : ThreadId) : s'.held b u = session.process.held b u := by
  have hafter : b = .direct → s'.InPlace := by
    rintro rfl
    exact does.inPlace hspares (hplace rfl)
  refine Process.held_congr hafter (fun _ hcell => does.full hcell) does.host ?_
  rw [does.kept none b u, written?_of_spares hspares, Option.getD_none]

end Does

/-! ## What lasts -/

/-- What no course of a session undoes. -/
structure Lasts (session later : Session) : Prop where
  sound : later.process.Sound
  setup_eq : later.setup = session.setup
  full : ∀ c value, session.process.cells c = .full value → later.process.cells c = .full value
  host : later.process.platform.host = session.process.platform.host

section Lasts

variable {session next later : Session} {done : List Entry}

theorem Lasts.refl (h : session.process.Sound) : Lasts session session :=
  ⟨h, rfl, fun _ _ hc => hc, rfl⟩

theorem Lasts.trans (first : Lasts session next) (rest : Lasts next later) :
    Lasts session later where
  sound := rest.sound
  setup_eq := rest.setup_eq.trans first.setup_eq
  full c value hc := rest.full c value (first.full c value hc)
  host := rest.host.trans first.host

theorem Lasts.move (h : session.process.Sound) (move : Move session done next) :
    Lasts session next := by
  cases move with
  | task t task =>
    obtain ⟨s', hnext, does⟩ := does_doTask h t task
    rw [hnext]
    exact ⟨does.sound h, rfl, fun _ _ hc => does.full hc, does.host⟩
  | start name seats =>
    exact ⟨h.congr rfl rfl rfl (fun _ hk => hk), rfl, fun _ _ hc => hc, rfl⟩
  | exit seats => exact ⟨h, rfl, fun _ _ hc => hc, rfl⟩

theorem Course.lasts (course : Course session done later) (h : session.process.Sound) :
    Lasts session later := by
  induction course with
  | refl => exact .refl h
  | move _ move ih => exact ih.trans (.move ih.sound move)

/-- A key that a backend has is the key that it has later. -/
theorem Lasts.keyOf (lasts : Lasts session later) {b : Backend} {k : Key}
    (hk : session.process.keyOf b = some k) : later.process.keyOf b = some k :=
  Process.keyOf_of_full lasts.full hk

end Lasts

/-! ## Following a history -/

/-- A session is as its history tells. -/
structure Follows (setup : Setup) (history : List Entry) (session : Session) : Prop where
  setup_eq : session.setup = setup
  sound : session.process.Sound
  kept : ∀ b t, session.process.kept b t = latest setup b t history
  activity : ∀ r resolver t, setup.resolver? r = some resolver →
    session.process.activity resolver.scheduler t =
      activityAfter setup resolver.scheduler t history
  host : session.process.platform.host = setup.host

section Follows

variable {setup : Setup} {session next : Session} {history more : List Entry}

theorem Follows.resolver? (h : Follows setup history session) (r : Option Nat) :
    session.resolver? r = setup.resolver? r := by
  rw [resolver?_eq, h.setup_eq]

/-- What a thread does next is added to the history. -/
theorem Follows.move (h : Follows setup history session) (move : Move session more next) :
    Follows setup (history ++ more) next := by
  cases move with
  | task t task =>
    obtain ⟨s', hnext, does⟩ := does_doTask h.sound t task
    rw [hnext]
    exact {
      setup_eq := h.setup_eq
      sound := does.sound h.sound
      kept := fun b u => by
        rw [latest_concat, ← h.kept, ← h.setup_eq]
        exact does.kept (session.process.nameOf t) b u
      activity := fun r resolver u hr => by
        rw [activityAfter_concat, ← h.activity r resolver u hr, ← h.setup_eq]
        rw [← h.setup_eq, ← resolver?_eq] at hr
        exact does.activity (session.process.nameOf t) hr u
      host := does.host.trans h.host }
  | start name seats =>
    rw [List.append_nil]
    exact {
      setup_eq := h.setup_eq
      sound := h.sound.congr rfl rfl rfl (fun _ hk => hk)
      kept := h.kept
      activity := h.activity
      host := h.host }
  | exit seats =>
    rw [List.append_nil]
    exact ⟨h.setup_eq, h.sound, h.kept, h.activity, h.host⟩

theorem Follows.course (h : Follows setup history session)
    (course : Course session more next) : Follows setup (history ++ more) next := by
  induction course with
  | refl => simpa using h
  | move _ move ih =>
    rw [← List.append_assoc]
    exact ih.move move

/-- The environment of a session touches nothing else of its platform. -/
theorem platform_eq (setup : Setup) :
    ∃ environment, setup.platform =
      { Platform.fresh setup.uname setup.host with environment := environment } := by
  unfold Setup.platform
  suffices h : ∀ (entries : List (String × List UInt8)) (os : Platform), ∃ environment,
      entries.foldl (fun os entry => os.setVariable entry.1 (some entry.2)) os =
        { os with environment := environment } from h _ _
  intro entries
  induction entries with
  | nil => exact fun os => ⟨os.environment, rfl⟩
  | cons entry rest ih =>
    intro os
    obtain ⟨environment, heq⟩ := ih (os.setVariable entry.1 (some entry.2))
    exact ⟨environment, heq⟩

/-- Where nothing is logged, the settings count as loaded from the start. -/
theorem steady_process (setup : Setup) :
    (Process.fresh setup.platform).Steady setup.process := by
  have hfresh := Process.sound_fresh setup.platform
  unfold Setup.process
  cases setup.scope with
  | process => exact .refl hfresh
  | threads =>
    have hfill : (Process.fresh setup.platform).Steady
        ((Process.fresh setup.platform).setCell .settings (.full ())) :=
      hfresh.steady_fill rfl rfl hfresh.created hfresh.apart hfresh.probed hfresh.aligned
    exact hfill.trans (hfill.sound.steady_update .off _ _ (fun _ hk => hk) rfl rfl rfl)

/-- Before anything is done, nothing is kept and no scheduler has been changed. -/
theorem follows_nil (setup : Setup) : Follows setup [] ⟨setup, setup.process, []⟩ := by
  have hs := steady_process setup
  obtain ⟨environment, hplatform⟩ := platform_eq setup
  exact {
    setup_eq := rfl
    sound := hs.sound
    kept := fun b t => by
      rw [hs.kept]
      cases b <;> rfl
    activity := fun r resolver t hr => by
      rw [activity_congr hs.activities]
      unfold activityAfter initialActivity Process.activity
      cases resolver.scheduler.kind <;> rfl
    host := by
      rw [hs.host, show (Process.fresh setup.platform).platform = _ from hplatform]
      rfl }

/-- A session is as its history tells at every moment of its course. -/
theorem follows_of_course (course : Course (start setup) history session) :
    Follows setup history session :=
  ((follows_nil setup).course (course_start setup)).course course

end Follows

/-! ## What a resolver finds -/

/-- Where a resolver finds the current context of thread `t` after a history. -/
def foundAfter (setup : Setup) (resolver : Resolver) (t : ThreadId) (history : List Entry) :
    Resolution :=
  .found (activityAfter setup resolver.scheduler t history)
    (latest setup resolver.backend t history)

section Found

variable {setup : Setup} {session : Session} {history : List Entry} {r : Option Nat}
  {resolver : Resolver}

/-- What is read through any backend but the direct one is what the history tells. -/
theorem Follows.held (h : Follows setup history session) {b : Backend} (hb : b ≠ .direct)
    (t : ThreadId) : session.process.held b t = latest setup b t history := by
  rw [Process.held_of_ne_direct hb]
  exact h.kept b t

theorem Follows.resolution (h : Follows setup history session)
    (hr : setup.resolver? r = some resolver) (hb : resolver.backend ≠ .direct) (t : ThreadId) :
    session.process.resolution resolver t = foundAfter setup resolver t history := by
  unfold Process.resolution foundAfter
  rw [h.held hb, h.activity r resolver t hr]

/-- **Resolution by history.** Whatever steps are taken, a thread that resolves through a resolver
finds the context of the fiber that the resolver's own scheduler runs there, else the address that
was bound last to that thread through any resolver over the same backend, else nothing. The two ways
of asking for the current context agree with it, unless the thread is bound to something that is not
a context. -/
theorem resolve_by_history (setup : Setup) (list : List Step) (before after : List Entry)
    (d : Entry)
    (hd : (start setup).history list = before ++ d :: after)
    (hr : setup.resolver? r = some resolver) (hb : resolver.backend ≠ .direct) :
    let found := foundAfter setup resolver d.thread before
    let bound := latest setup resolver.backend d.thread before
    (d.task = .resolver r (some .resolve) → d.answer = .resolved found) ∧
      (bound.isForeign = false →
        (d.task = .resolver r (some .current?) →
          d.answer = .ofPointer setup.contexts found.toPointer) ∧
        (d.task = .resolver r (some .current) →
          d.answer = match found.toPointer with
            | some address => .ofAddress setup.contexts address
            | none => .panicked (Cause.unbound.message d.name))) ∧
      (bound.isForeign = true →
        d.task = .resolver r (some .current?) ∨ d.task = .resolver r (some .current) →
          d.answer = .refused .dangling) := by
  obtain ⟨now, hcourse, t, task, rfl⟩ := (course_steps (start setup) list).split hd
  have h := follows_of_course hcourse
  have hr' : now.resolver? r = some resolver := by
    rw [resolver?_eq, h.setup_eq]
    exact hr
  intro found bound
  have hfound : now.process.resolution resolver t = found := h.resolution hr hb t
  have hbound : now.process.held resolver.backend t = bound := h.held hb t
  rw [← hfound, ← hbound, ← h.setup_eq]
  refine ⟨?_, fun hforeign => ⟨?_, ?_⟩, fun hforeign => ?_⟩
  · rintro rfl
    exact answer_resolve hr' t
  · rintro rfl
    exact answer_current? hr' hforeign
  · rintro rfl
    exact answer_current hr' hforeign
  · rintro (rfl | rfl)
    · exact answer_of_foreign hr' rfl hforeign
    · exact answer_of_foreign hr' rfl hforeign

/-- Two threads, with three resolvers: one over the key backend with a scheduler, one over that of
the platform, which is the same, and one over the direct backend. -/
def pair : Setup where
  scope := .process
  build := ⟨true⟩
  contexts := ["a", "b"]
  resolvers := [⟨.fixed .key, .perThread⟩, ⟨.platform, .absent⟩, ⟨.fixed .direct, .absent⟩]
  threads := [none, none]
  environment := []
  uname := .field [49, 49]
  host := .plain 0

/-- A binding made through another resolver is found after an attempt to end it failed. -/
theorem resolve_by_history_pair :
    (foundAfter pair ⟨⟨.perThread, 0⟩, .key⟩ 2
      [⟨2, none, .resolver (some 1) (some (.bind 1)), .ok⟩,
        ⟨3, none, .resolver (some 1) (some (.bind 0)), .ok⟩,
        ⟨2, none, .change (.setFaults none (some 12)), .ok⟩,
        ⟨2, none, .resolver (some 0) (some .unbind),
          .panicked "rtlocal: pthread_setspecific failed: error 12"⟩]) =
      .thread (.context 1) ∧
    Answer.bound 1 "b" =
      .ofPointer pair.contexts (foundAfter pair ⟨⟨.perThread, 0⟩, .key⟩ 2
        [⟨2, none, .resolver (some 1) (some (.bind 1)), .ok⟩,
          ⟨3, none, .resolver (some 1) (some (.bind 0)), .ok⟩,
          ⟨2, none, .change (.setFaults none (some 12)), .ok⟩,
          ⟨2, none, .resolver (some 0) (some .unbind),
            .panicked "rtlocal: pthread_setspecific failed: error 12"⟩]).toPointer :=
  ⟨rfl,
    ((resolve_by_history pair
      [.act (some (.started 0)) (.resolver (some 1) (some (.bind 1))),
        .act (some (.started 1)) (.resolver (some 1) (some (.bind 0))),
        .act (some (.started 0)) (.change (.setFaults none (some 12))),
        .act (some (.started 0)) (.resolver (some 0) (some .unbind)),
        .act (some (.started 0)) (.resolver (some 0) (some .current?))]
      _ [] ⟨2, none, .resolver (some 0) (some .current?), .bound 1 "b"⟩ rfl
      (r := some 0) rfl (by decide)).2.1 rfl).1 rfl⟩

end Found

end Session

end ExecContext
