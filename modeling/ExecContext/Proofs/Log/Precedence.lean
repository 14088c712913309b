import ExecContext.Proofs.Interleaving.Cells
import ExecContext.Proofs.Log.Loading
import ExecContext.Proofs.Log.Operations

set_option autoImplicit false

/-!
# Which level is in force

The first use of the log looks the level up in the environment, once in the life of a process. From
then on the level in force is the one set last, or the one looked up if none was set, under every
schedule and whatever becomes of the environment. Nothing reads the level before it is looked up,
and nothing but setting the level changes it after.
-/

namespace ExecContext

open Log (Level)

/-! ## One access -/

/-- The level that an access puts in force. -/
def Access.stored? : Access → Option Level
  | .storeLevel level => some level
  | _ => none

namespace Process

variable {s : Process} {t : ThreadId} {a : Access} {effect : Effect a.Answer}

/-- An access changes the level if it stores one, and the environment never. -/
theorem perform_level (h : s.perform t a = some effect) :
    effect.process.level = a.stored?.getD s.level ∧
      effect.process.platform.environment = s.platform.environment := by
  refine ⟨?_, (perform_surroundings h).1⟩
  cases a with
  | storeLevel level =>
    cases h
    rfl
  | _ => exact perform_frame h .level nofun

end Process

/-! ## Levels in a history -/

/-- The level that a step puts in force. -/
def Label.stored? : Label → Option Level
  | .access _ _ a _ => a.stored?
  | _ => none

/-- The level in force after all that happened, where it was `level` before: the one put in force
last. -/
def levelAfter (level : Level) (history : List Label) : Level :=
  (history.filterMap Label.stored?).getLast?.getD level

theorem levelAfter_append (level : Level) (first more : List Label) :
    levelAfter level (first ++ more) = levelAfter (levelAfter level first) more := by
  unfold levelAfter
  rw [List.filterMap_append, List.getLast?_append]
  cases (more.filterMap Label.stored?).getLast? <;> rfl

/-- A level stays in force while no other one is put in force. -/
theorem levelAfter_stored (level new : Level) {t : ThreadId} {u : Use} {before after : List Label}
    (h : ∀ m ∈ after, m.stored? = none) :
    levelAfter level (before ++ .access t u (.storeLevel new) () :: after) = new := by
  have hstored : (Label.access t u (.storeLevel new) ()).stored? = some new := rfl
  rw [levelAfter_append, levelAfter, List.filterMap_cons_some hstored,
    List.filterMap_eq_nil_iff.mpr h]
  rfl

namespace Machine

variable {s : Process} {os : Platform} {machine now later : Machine} {t : ThreadId} {u : Use}
  {history before during after : List Label}

theorem Step.level {m : Label} (step : Step machine m later) :
    later.process.level = m.stored?.getD machine.process.level := by
  cases step with
  | begins u hidle => rfl
  | access hwork hnext =>
    obtain ⟨resume, rfl, heffect, rfl⟩ := hnext
    exact (Process.perform_level heffect).1
  | ends hwork hresult => rfl
  | changes c => rfl
  | starts name => rfl

theorem Run.level (run : Run machine history later) :
    later.process.level = levelAfter machine.process.level history := by
  induction run with
  | refl => rfl
  | @step now later history m first last ih =>
    rw [last.level, ih, levelAfter_append]
    cases m with
    | access t u a answer => cases a <;> rfl
    | _ => rfl

/-- Only a change of the platform changes the environment. -/
theorem Run.environment (run : Run machine history later) (h : ∀ c, .changes c ∉ history) :
    later.process.platform.environment = machine.process.platform.environment := by
  induction run with
  | refl => rfl
  | @step now later history m first last ih =>
    rw [← ih fun c hc => h c (by simp [hc])]
    cases last with
    | begins u hidle => rfl
    | access hwork hnext =>
      obtain ⟨resume, rfl, heffect, rfl⟩ := hnext
      exact (Process.perform_level heffect).2
    | ends hwork hresult => rfl
    | changes c => exact absurd (by simp) (h c)
    | starts name => rfl

/-! ## Loading -/

/-- How the settings of a process came to be loaded. -/
structure Loading (s : Process) where
  thread : ThreadId
  use : Use
  /-- what happened before the thread began to load them -/
  first : List Label
  /-- what happened until it looked the level up -/
  waiting : List Label
  /-- what happened until it was done -/
  rest : List Label
  began : Machine
  looking : Machine
  /-- all that happened before the settings were published -/
  taken : List Label
  split : taken = first ++ .access thread use (.enter .settings) none ::
    (waiting ++ .access thread use (.readVariable Log.levelVariable)
      (looking.process.platform.textOf Log.levelVariable) :: rest)
  begins : Run (idle s) first began
  looks : Run began (.access thread use (.enter .settings) none :: waiting) looking
  /-- nobody had used the settings before -/
  unused : ∀ t u answer, .access t u (.enter .settings) answer ∉ first
  /-- the thread looked the level up at once -/
  quiet : exchanges thread waiting = []
  /-- in the end the level was the one that the variable gave at that moment -/
  installed : levelAfter s.level taken = looking.process.environmentSettings.level

namespace Loading

variable {since : List Label} {m : Label}

/-- The publication of the settings. -/
def publication (l : Loading s) : Label := .access l.thread l.use (.publish .settings ()) ()

/-- All that happened until the settings were loaded for all. -/
def loaded (l : Loading s) : List Label := l.taken ++ [l.publication]

/-- The level that was found in the environment. -/
def level (l : Loading s) : Level := l.looking.process.environmentSettings.level

/-- The level that the environment gave when the thread began to load the settings. -/
def levelThen (l : Loading s) : Level := l.began.process.environmentSettings.level

/-- The environment is the one of the first use if it was not changed in the midst of it. -/
theorem level_eq_then (l : Loading s) (h : ∀ c, .changes c ∉ l.waiting) :
    l.level = l.levelThen := by
  have henvironment := l.looks.environment (by simpa using h)
  unfold level levelThen Process.environmentSettings Platform.textOf
  rw [henvironment]

/-- Since the loading the level is the one set last, or else the one found. -/
theorem level_since (l : Loading s) (run : Run (idle s) (l.loaded ++ since) later) :
    later.process.level = levelAfter l.level since := by
  have hloaded : levelAfter s.level l.loaded = l.level := by
    rw [loaded, levelAfter_append, l.installed]
    rfl
  rw [run.level, levelAfter_append]
  exact congrArg (levelAfter · since) hloaded

theorem full (hs : s.Unheld) (l : Loading s) (run : Run (idle s) (l.loaded ++ since) later) :
    later.process.cells .settings = .full () :=
  run.shown hs (t := l.thread) (u := l.use) (a := .publish .settings ())
    (by simp [loaded, publication]) (Or.inr rfl)

/-- Whatever happens where the settings are loaded happens after their loading. -/
theorem since_loaded (hs : s.Unheld) (l : Loading s)
    (run : Run (idle s) (l.loaded ++ since) later)
    (hsplit : l.loaded ++ since = before ++ m :: after)
    (hfull : ∀ now, Run (idle s) before now → now.process.cells .settings = .full ()) :
    ∃ more, before = l.loaded ++ more ∧ since = more ++ m :: after := by
  rw [loaded, List.append_assoc] at run hsplit
  obtain ⟨more, rfl, hmore⟩ := run.since_published hs hsplit hfull
  exact ⟨more, by simp [loaded, publication], hmore⟩

end Loading

/-- While a thread loads the settings, no other one puts a level in force. -/
theorem TookOn.stores (hs : s.Unheld) {v : ThreadId} {w : Use} {level : Level}
    {taken : List Label} (h : TookOn t u .settings before during taken)
    (run : Run (idle s) taken now) (hm : .access v w (.storeLevel level) () ∈ during) : v = t := by
  obtain ⟨earlier, more, rfl⟩ := List.append_of_mem hm
  have hrun : Run (idle s) ((before ++ .access t u (.enter .settings) none :: earlier) ++
      .access v w (.storeLevel level) () :: more) now := by
    rw [h.split] at run
    simpa using run
  obtain ⟨mid, next, resume, effect, hmid, -⟩ := hrun.accessed
  have hbusy := h.busy hs hmid
  have hagreed := (hmid.lawful hs).agreed
  rcases hrun.allowed hs with hhead | ⟨hloaded, -⟩
  · have hholder := hagreed.holder_of_head hhead
    rw [Process.holder, hbusy] at hholder
    exact (Option.some.inj hholder).symm
  · rw [hagreed.loaded v hloaded] at hbusy
    cases hbusy

/-- The last level that a thread stores while it loads the settings is the one that it leaves. -/
theorem TookOn.installs (hs : s.Unheld) {taken : List Label} {level : Level}
    {earlier last : List Accesses.Exchange} (h : TookOn t u .settings before during taken)
    (run : Run (idle s) taken now)
    (hmade : exchanges t during = earlier ++ ⟨.storeLevel level, ()⟩ :: last)
    (hlast : ∀ e ∈ last, e.request.stored? = none) : levelAfter s.level taken = level := by
  obtain ⟨between, w, more, rfl, -, rfl⟩ := exchanges_split hmade
  have hmore : ∀ m ∈ more, m.stored? = none := by
    intro m hm
    cases m with
    | access v x a answer =>
      cases a with
      | storeLevel new =>
        have hduring : .access v x (.storeLevel new) () ∈
            between ++ .access t w (.storeLevel level) () :: more := by
          simp [hm]
        obtain rfl := h.stores hs run hduring
        exact hlast ⟨.storeLevel new, answer⟩ (mem_exchanges.mpr ⟨x, hm⟩)
      | _ => rfl
    | _ => rfl
  have htaken : taken = (before ++ .access t u (.enter .settings) none :: between) ++
      .access t w (.storeLevel level) () :: more := by
    rw [h.split]
    simp
  rw [htaken]
  exact levelAfter_stored s.level level hmore

/-- Nobody uses the settings before the thread that loads them begins to. -/
theorem Run.unused (hs : s.Unheld) (hempty : s.cells .settings = .empty)
    (run : Run (idle s) (before ++ .access t u (.enter .settings) none :: after) later)
    (v : ThreadId) (w : Use) (answer : Option Unit) :
    .access v w (.enter .settings) answer ∉ before := by
  obtain ⟨now, next, resume, effect, hbefore, -, heffect, hanswer, -⟩ := run.accessed
  have hnow : now.process.cells .settings = .empty := by
    rcases Process.perform_cell heffect .settings with
      ⟨-, hcell, -⟩ | ⟨_, heq, -⟩ | ⟨heq, -⟩ | ⟨hne, -⟩
    · exact hcell
    · cases heq
    · cases heq
    · exact absurd (by rw [hanswer]; rfl) hne
  intro hmem
  cases answer with
  | some value =>
    rw [hbefore.shown hs hmem (Or.inl rfl)] at hnow
    cases hnow
  | none =>
    have hnone := hbefore.takings hs hempty settings_never_fail
    rw [hnow, begun, List.countP_eq_zero] at hnone
    exact hnone _ hmem (by simp [takes, Access.takes?])

/-- The settings were loaded by one thread, from the environment as it was then. -/
theorem Run.loading (hs : s.Unheld) (hempty : s.cells .settings = .empty)
    (run : Run (idle s) history machine) (hfull : machine.process.cells .settings = .full ()) :
    ∃ (l : Loading s) (since : List Label), history = l.loaded ++ since := by
  obtain ⟨first, t, u, during, taken, since, rfl, htook, hpath⟩ :=
    run.filled hs (by rw [hempty]; simp) hfull
  obtain ⟨text, flush, hmade⟩ := path_settings hpath
  obtain ⟨waiting, v, rest, rfl, hquiet, -⟩ := exchanges_split (show _ = [] ++ _ from hmade)
  obtain rfl : v = u :=
    htook.within (.access t v (.readVariable Log.levelVariable) text) (by simp) rfl
  obtain ⟨published, next, resume, effect, htaken, -⟩ := run.accessed
  have hbegun := htaken
  rw [htook.split] at hbegun
  have hlooks : Run (idle s) ((first ++ .access t v (.enter .settings) none :: waiting) ++
      .access t v (.readVariable Log.levelVariable) text :: rest) published := by
    simpa using hbegun
  obtain ⟨looking, next', resume', effect', hlooking, -, heffect, rfl, -⟩ := hlooks.accessed
  cases heffect
  obtain ⟨began, hbegins, hwaits⟩ := run_append.mp hlooking
  exact ⟨⟨t, v, first, waiting, rest, began, looking, taken, htook.split, hbegins, hwaits,
    hbegun.unused hs hempty, hquiet,
    htook.installs hs htaken (show _ = [_, _] ++ _ from hmade) (by simp [Access.stored?])⟩, since,
    by simp [Loading.loaded, Loading.publication]⟩

/-! ## Reading and setting -/

/-- The level is read only where the settings are loaded. -/
theorem Run.loaded_at_read (hs : s.Unheld) {limit : Level}
    (run : Run (idle s) (before ++ .access t u .loadLevel limit :: after) later)
    (now : Machine) (hnow : Run (idle s) before now) : now.process.cells .settings = .full () :=
  (hnow.lawful hs).agreed.loaded t (run.allowed hs)

/-- Whoever reads the level is given the one in force. -/
theorem Loading.read (hs : s.Unheld) (l : Loading s) {since : List Label} {limit : Level}
    (run : Run (idle s) (l.loaded ++ since) later)
    (hsplit : l.loaded ++ since = before ++ .access t u .loadLevel limit :: after) :
    ∃ more, before = l.loaded ++ more ∧ limit = levelAfter l.level more := by
  have hrun := run
  rw [hsplit] at hrun
  obtain ⟨more, rfl, rfl⟩ := l.since_loaded hs run hsplit (hrun.loaded_at_read hs)
  obtain ⟨now, next, resume, effect, hnow, -, heffect, rfl, -⟩ := hrun.accessed
  cases heffect
  exact ⟨more, rfl, l.level_since hnow⟩

/-- Once the settings are loaded the level is changed only by setting it. -/
theorem Loading.set (hs : s.Unheld) (l : Loading s) {since : List Label} {level : Level}
    (run : Run (idle s) (l.loaded ++ since) later)
    (hm : .access t u (.storeLevel level) () ∈ since) : u = .service (.setLevel level) := by
  obtain ⟨more, rest, rfl⟩ := List.append_of_mem hm
  rw [← List.append_assoc] at run
  obtain ⟨now, next, resume, effect, hnow, -⟩ := run.accessed
  rcases run.allowed hs with hhead | ⟨-, hu⟩
  · have hholder := (hnow.lawful hs).agreed.holder_of_head hhead
    rw [Process.holder, l.full hs hnow] at hholder
    cases hholder
  · exact hu

/-- A thread that has set the level did so after the settings were loaded. -/
theorem Loading.was_set (hs : s.Unheld) (l : Loading s) {since : List Label} {level : Level}
    {result : Except Cause Session.Answer} (run : Run (idle s) (l.loaded ++ since) later)
    (hsplit : l.loaded ++ since = before ++ .ends t (.service (.setLevel level)) result :: after) :
    result = .ok .ok ∧ ∃ more during, before = l.loaded ++ (more ++
      .access t (.service (.setLevel level)) (.storeLevel level) () :: during) ∧
        ∀ m ∈ during, m.Within t (.service (.setLevel level)) := by
  have hrun := run
  rw [hsplit] at hrun
  obtain ⟨made, hpath, -, hmade⟩ := hrun.made
  obtain ⟨own, hown, rfl⟩ := Program.path_map_ended hpath
  obtain ⟨loading, rfl, hload, rfl⟩ := path_setLevel hown
  obtain ⟨first, during, rfl, hloading, hwithin, -⟩ := hmade loading _ _ [] rfl
  obtain ⟨e, he, hshows⟩ := hload.meets meets_load
  rw [List.append_assoc, List.cons_append] at hsplit
  obtain ⟨more, rfl, -⟩ := l.since_loaded hs run hsplit fun now hnow =>
    hnow.shown_to hs (fun m hm => hm) (hloading e he) hshows
  exact ⟨rfl, more, during, by simp, hwithin⟩

/-- Whoever judges by the level goes by one that was read in the same use. -/
theorem Run.judged {result : Except Cause Session.Answer} (hu : u.Judges)
    (run : Run (idle s) (history ++ .ends t u result :: after) later) :
    ∃ before limit during, history = before ++ .access t u .loadLevel limit :: during ∧
      (∀ m ∈ during, m.Within t u) ∧ u.GoesBy limit (exchanges t during) result := by
  obtain ⟨made, hpath, -, hmade⟩ := run.made
  obtain ⟨own, limit, more, rfl, hgoes⟩ := path_judges hu hpath
  obtain ⟨before, during, rfl, -, hwithin, rfl⟩ :=
    hmade own .loadLevel limit more rfl
  exact ⟨before, limit, during, rfl, hwithin, hgoes⟩

/-- What a thread knows of the level is what it read last. -/
theorem limit_split {φ : LockState} (hφ : φ.limit = none) {made : List Accesses.Exchange}
    {limit : Level} (h : (φ.after made).limit = some limit) :
    ∃ first more, made = first ++ ⟨.loadLevel, limit⟩ :: more ∧
      ∀ e ∈ more, e.request ≠ .loadLevel := by
  induction made using List.reverseRecOn with
  | nil =>
    rw [LockState.after, List.foldl_nil, hφ] at h
    cases h
  | append_singleton made e ih =>
    obtain ⟨a, answer⟩ := e
    rw [LockState.after_concat] at h
    by_cases ha : a = .loadLevel
    · subst ha
      cases h
      exact ⟨made, [], rfl, by simp⟩
    · have hkept : ((φ.after made).record a answer).limit = (φ.after made).limit := by
        cases a <;> first | rfl | exact absurd rfl ha
      obtain ⟨first, more, rfl, hmore⟩ := ih (hkept ▸ h)
      refine ⟨first, more ++ [⟨a, answer⟩], by simp, fun e he => ?_⟩
      rcases List.mem_append.mp he with he | he
      · exact hmore e he
      · rw [List.mem_singleton.mp he]
        exact ha

/-- No record is begun, in whatever use, that the level does not admit which the thread read last in
that use. -/
theorem Run.admitted {level : Level} {tag : Log.Tag}
    (run : Run (idle s)
      (history ++ .access t u (.writeLog (.header level tag)) () :: after) later) :
    ∃ before limit during, history = before ++ .access t u .loadLevel limit :: during ∧
      level ≤ limit ∧ (∀ m ∈ during, m.Within t u) ∧
      ∀ v limit', .access t v .loadLevel limit' ∉ during := by
  obtain ⟨earlier, since, rfl, hwithin, -, hheader⟩ := run.allowed_within
  obtain ⟨limit, hlimit, hle⟩ := hheader level tag rfl
  obtain ⟨first, more, hmade, hmore⟩ := limit_split rfl hlimit
  obtain ⟨before, v, during, rfl, -, rfl⟩ := exchanges_split hmade
  obtain rfl : v = u := hwithin (.access t v .loadLevel limit) (by simp) rfl
  refine ⟨earlier ++ .begins t v :: before, limit, during, by simp, hle,
    fun m hm => hwithin m (by simp [hm]), fun w limit' hm => ?_⟩
  exact hmore ⟨.loadLevel, limit'⟩ (mem_exchanges.mpr ⟨w, hm⟩) rfl

/-! ## First uses -/

/-- A use that needs the settings has loaded them when it ends. -/
theorem Run.loaded_by_use (hs : s.Unheld) {result : Except Cause Session.Answer}
    (hu : u.NeedsSettings) (run : Run (idle s) history machine)
    (hends : .ends t u result ∈ history) : machine.process.cells .settings = .full () := by
  obtain ⟨before, after, rfl⟩ := List.append_of_mem hends
  obtain ⟨made, hpath, hmem, -⟩ := run.made
  obtain ⟨e, he, hshows⟩ := hpath.meets (meets_action hu)
  exact run.shown_to hs (fun m hm => List.mem_append_left _ hm) (hmem e he) hshows

/-- Whatever was filled, the settings had been loaded for it. -/
theorem Run.loaded_by_filling (hs : s.Unheld) {c : Cell} {value : c.Content}
    (hempty : s.cells c = .empty) (run : Run (idle s) history machine)
    (hfull : machine.process.cells c = .full value) :
    machine.process.cells .settings = .full () := by
  by_cases hc : c = .settings
  · subst hc
    exact hfull
  · obtain ⟨before, v, w, during, taken, after, rfl, ⟨rfl, -, -⟩, hpath⟩ :=
      run.filled hs (by rw [hempty]; simp) hfull
    obtain ⟨e, he, hshows⟩ := shows_compute hpath hc
    exact run.shown_to hs (fun m hm => by simp [hm]) he hshows

/-- Also for what could not be filled the settings had been loaded. -/
theorem Run.loaded_by_failure (hs : s.Unheld) {c : Cell} (run : Run (idle s) history machine)
    (hm : .access t u (.abandon c) () ∈ history) : machine.process.cells .settings = .full () := by
  obtain ⟨taken, after, rfl⟩ := List.append_of_mem hm
  obtain ⟨before, during, cause, ⟨rfl, -, -⟩, hpath⟩ := run.abandoned hs
  by_cases hc : c = .settings
  · subst hc
    exact absurd hpath (settings_never_fail _ _)
  · obtain ⟨e, he, hshows⟩ := shows_compute hpath hc
    exact run.shown_to hs (fun m hm => by simp [hm]) he hshows

/-- A use that asks for records of level `off` makes no access. -/
theorem Run.nothing_done (hu : u.OfNothing) (run : Run (idle s) history machine) {a : Access}
    {answer : a.Answer} : .access t u a answer ∉ history := by
  intro hm
  obtain ⟨made, resume, hpath⟩ := run.reaches hm
  obtain ⟨done, hdone, -⟩ := action_ofNothing hu
  rw [hdone] at hpath
  cases (Program.path_done.mp hpath).2

/-! ## Precedence -/

/-- From a loading on, the level in force is the one set last, or else the one found. -/
structure Loading.Governs (l : Loading s) (since : List Label) (machine : Machine) : Prop where
  /-- what was found is what the environment gave at the first use, if it was not changed in the
  midst of that use -/
  found : (∀ c, .changes c ∉ l.waiting) → l.level = l.levelThen
  inForce : machine.process.level = levelAfter l.level since
  /-- a level is read after the loading, and is the one then in force -/
  read : ∀ before t u limit after,
    l.loaded ++ since = before ++ .access t u .loadLevel limit :: after →
    ∃ more, before = l.loaded ++ more ∧ limit = levelAfter l.level more
  /-- only setting the level changes it -/
  changed : ∀ t u level, .access t u (.storeLevel level) () ∈ since →
    u = .service (.setLevel level)
  /-- setting the level changes it, after the loading -/
  set : ∀ before t level result after,
    l.loaded ++ since = before ++ .ends t (.service (.setLevel level)) result :: after →
    result = .ok .ok ∧ ∃ more during, before = l.loaded ++ (more ++
      .access t (.service (.setLevel level)) (.storeLevel level) () :: during) ∧
        ∀ m ∈ during, m.Within t (.service (.setLevel level))

theorem Loading.governs (hs : s.Unheld) (l : Loading s) {since : List Label}
    (run : Run (idle s) (l.loaded ++ since) machine) : l.Governs since machine where
  found := l.level_eq_then
  inForce := l.level_since run
  read _ _ _ _ _ := l.read hs run
  changed _ _ _ := l.set hs run
  set _ _ _ _ _ := l.was_set hs run

/-- Under every schedule the level in force is the one set last, or else the one that the
environment gave when the first use that needed the settings loaded them. Nobody reads a level
before, and neither another use nor a change of the environment has an effect on it after. All
reports and all records go by the level that was read for them; asking for records of level `off`
does nothing at all. -/
theorem level_precedence (run : Run (idle (.fresh os)) history machine) :
    (machine.process.cells .settings = .full () → ∃ (l : Loading (.fresh os)) (since : List Label),
      history = l.loaded ++ since ∧ l.Governs since machine) ∧
    (∀ t u limit, .access t u .loadLevel limit ∈ history →
      machine.process.cells .settings = .full ()) ∧
    (∀ t u result, u.NeedsSettings → .ends t u result ∈ history →
      machine.process.cells .settings = .full ()) ∧
    (∀ c value, machine.process.cells c = .full value →
      machine.process.cells .settings = .full ()) ∧
    (∀ t u c, .access t u (.abandon c) () ∈ history →
      machine.process.cells .settings = .full ()) ∧
    (∀ before t u result after, u.Judges → history = before ++ .ends t u result :: after →
      ∃ first limit during, before = first ++ .access t u .loadLevel limit :: during ∧
        (∀ m ∈ during, m.Within t u) ∧ u.GoesBy limit (exchanges t during) result) ∧
    (∀ before t u level tag after,
      history = before ++ .access t u (.writeLog (.header level tag)) () :: after →
      ∃ first limit during, before = first ++ .access t u .loadLevel limit :: during ∧
        level ≤ limit ∧ (∀ m ∈ during, m.Within t u) ∧
        ∀ v limit', .access t v .loadLevel limit' ∉ during) ∧
    (∀ level message made result, level ≠ .off →
      (Log.write level message).Path made (.ended result) →
      ∃ own limit more, made = own ++ ⟨.loadLevel, limit⟩ :: more ∧
        Written level limit message more ∧ result = .ok ()) ∧
    (∀ message made rest, (Log.write .off message).Path made rest → made = [] ∧ rest = .done ()) ∧
    (∀ t u a answer, u.OfNothing → .access t u a answer ∉ history) ∧
    ∀ t result, .ends t (.service (.isEnabled .off)) result ∈ history →
      result = .ok (.enabled false) := by
  have hs : (Process.fresh os).Unheld := unheld_fresh os
  refine ⟨?loaded, ?read, ?used, ?filled, ?failed, ?judged, ?admitted,
    fun level message made result hlevel hpath => path_write hlevel hpath,
    fun message made rest hpath => Program.path_done.mp hpath,
    fun t u a answer hu => run.nothing_done hu, ?off⟩
  case loaded =>
    intro hfull
    obtain ⟨l, since, rfl⟩ := run.loading hs rfl hfull
    exact ⟨l, since, rfl, l.governs hs run⟩
  case read =>
    intro t u limit hm
    obtain ⟨before, after, rfl⟩ := List.append_of_mem hm
    obtain ⟨now, hnow, hrest⟩ := run_append.mp run
    exact hnow.full_stays hs hrest (run.loaded_at_read hs now hnow)
  case used =>
    intro t u result hu hends
    exact run.loaded_by_use hs hu hends
  case filled =>
    intro c value hfull
    exact run.loaded_by_filling hs rfl hfull
  case failed =>
    intro t u c hm
    exact run.loaded_by_failure hs hm
  case judged =>
    rintro before t u result after hu rfl
    exact run.judged hu
  case admitted =>
    rintro before t u level tag after rfl
    exact run.admitted
  case off =>
    intro t result hends
    obtain ⟨before, after, rfl⟩ := List.append_of_mem hends
    obtain ⟨made, hpath, -⟩ := run.made
    obtain ⟨-, hresult⟩ := Program.path_done.mp hpath
    cases result <;> cases hresult
    rfl

/-- The environment says level 1. Thread 1 sets the level to `trace` and loads the settings for
that, while thread 2 wants to know the level; then the environment says 0. Thread 2 is told the
level found in the environment, and thread 3 the level that thread 1 has set by then. -/
def contendedLevel : List Label × Machine :=
  (idle (.fresh (.fresh (.failure 5) (.plain 0)))).follow <|
    [.change (.setVariable Log.levelVariable (some [49])), .begin 1 (.service (.setLevel .trace)),
      .begin 2 (.service .currentLevel), .go 1, .go 2] ++ List.replicate 5 (.go 1) ++
    [.change (.setVariable Log.levelVariable (some [48])), .go 2, .go 2, .go 2, .go 1, .go 1,
      .begin 3 (.service .currentLevel), .go 3, .go 3, .go 3]

theorem level_precedence_contended :
    .ends 2 (.service .currentLevel) (.ok (.level .error)) ∈ contendedLevel.1 ∧
    .ends 3 (.service .currentLevel) (.ok (.level .trace)) ∈ contendedLevel.1 ∧
    ∃ (l : Loading (.fresh (.fresh (.failure 5) (.plain 0)))) (since : List Label),
      contendedLevel.1 = l.loaded ++ since ∧ levelAfter l.level since = .trace := by
  have run :
      Run (idle (.fresh (.fresh (.failure 5) (.plain 0)))) contendedLevel.1 contendedLevel.2 :=
    run_follow _ _
  obtain ⟨hloaded, -⟩ := level_precedence run
  obtain ⟨l, since, hhistory, hgoverns⟩ := hloaded rfl
  refine ⟨List.mem_of_getElem? (i := 12) rfl, List.mem_of_getElem? (i := 18) rfl, l, since,
    hhistory, ?_⟩
  have hinForce := hgoverns.inForce
  exact hinForce.symm.trans rfl

end Machine

end ExecContext
