import ExecContext.Proofs.Interleaving.Tidy
import ExecContext.Proofs.Log.Accesses

set_option autoImplicit false

/-!
# What the operations of the log come to

Loading the settings looks two variables up and stores what they give. All that reads the level,
sets it or judges by it loads the settings first, and so does all that creates a key or probes the
kernel, since that is reported. Only records of level `off` are refused without a look at the
settings.
-/

namespace ExecContext

open Log (Level)

/-! ## Paths -/

section Paths

variable {made : List Accesses.Exchange}

/-- The settings are shown to be loaded. -/
def ShowsLoaded (e : Accesses.Exchange) : Prop := Access.Shows .settings () e

/-- Loading the settings is looking up two variables and storing what they give. -/
theorem path_settings (h : (Cell.compute .settings).Path made (.ended (.ok ()))) :
    ∃ level flush, made =
      [⟨.readVariable Log.levelVariable, level⟩, ⟨.readVariable Log.flushVariable, flush⟩,
        ⟨.storeLevel (Log.Settings.ofTexts level flush).level, ()⟩,
        ⟨.storeFlush (Log.Settings.ofTexts level flush).flush, ()⟩] := by
  obtain ⟨level, made₁, rfl, h₁⟩ := Program.path_call_ended.mp h
  obtain ⟨flush, made₂, rfl, h₂⟩ := Program.path_call_ended.mp h₁
  obtain ⟨_, made₃, rfl, h₃⟩ := Program.path_call_ended.mp h₂
  obtain ⟨_, made₄, rfl, h₄⟩ := Program.path_call_ended.mp h₃
  obtain ⟨rfl, -⟩ := Program.path_done.mp h₄
  exact ⟨level, flush, rfl⟩

theorem settings_never_fail (made : List Accesses.Exchange) (cause : Cause) :
    ¬(Cell.compute .settings).Path made (.fail cause) :=
  fun h => h.within Log.within_compute

/-- Loading never fails. -/
theorem path_load {result : Except Cause Unit} (h : Log.load.Path made (.ended result)) :
    result = .ok () := by
  rw [load_eq_get] at h
  obtain ⟨_, rfl, -⟩ := path_get_returned settings_never_fail h
  rfl

/-- What goes on after loading. -/
theorem path_load_bind {α : Type} {next : Unit → Action α} {result : Except Cause α}
    (h : (Log.load >>= next).Path made (.ended result)) :
    ∃ own others, made = own ++ others ∧ Log.load.Path own (.ended (.ok ())) ∧
      (next ()).Path others (.ended result) := by
  rcases Program.path_bind_ended.mp h with ⟨cause, hcause, -⟩ | ⟨own, others, _, rfl, hown, hothers⟩
  · cases path_load hcause
  · exact ⟨own, others, rfl, hown, hothers⟩

/-- The level is read once, at the end, and reported. -/
theorem path_currentLevel {result : Except Cause Level}
    (h : Log.currentLevel.Path made (.ended result)) :
    ∃ own limit, made = own ++ [⟨.loadLevel, limit⟩] ∧ result = .ok limit := by
  obtain ⟨own, others, rfl, -, hothers⟩ := path_load_bind h
  obtain ⟨limit, more, rfl, hmore⟩ := Program.path_call_ended.mp hothers
  obtain ⟨rfl, hresult⟩ := Program.path_done.mp hmore
  refine ⟨own, limit, rfl, ?_⟩
  cases result <;> cases hresult
  rfl

/-- Setting the level stores it, at the end, after the settings were loaded. -/
theorem path_setLevel {level : Level} {result : Except Cause Unit}
    (h : (Log.setLevel level).Path made (.ended result)) :
    ∃ own, made = own ++ [⟨.storeLevel level, ()⟩] ∧ Log.load.Path own (.ended (.ok ())) ∧
      result = .ok () := by
  obtain ⟨own, others, rfl, hown, hothers⟩ := path_load_bind h
  obtain ⟨_, more, rfl, hmore⟩ := Program.path_call_ended.mp hothers
  obtain ⟨rfl, hresult⟩ := Program.path_done.mp hmore
  refine ⟨own, rfl, hown, ?_⟩
  cases result <;> cases hresult
  rfl

/-- Whether a level is enabled is judged by the level read. -/
theorem path_isEnabled {level : Level} (hlevel : level ≠ .off) {result : Except Cause Bool}
    (h : (Log.isEnabled level).Path made (.ended result)) :
    ∃ own limit, made = own ++ [⟨.loadLevel, limit⟩] ∧ result = .ok (decide (level ≤ limit)) := by
  rw [Log.isEnabled, if_neg hlevel] at h
  obtain ⟨read, hread, rfl⟩ := Program.path_map_ended h
  obtain ⟨own, limit, rfl, rfl⟩ := path_currentLevel hread
  exact ⟨own, limit, rfl, rfl⟩

/-- What follows the reading of the level in a logging call: a whole record if the level read admits
it, else nothing. -/
def Written (level limit : Level) (message : Log.Message) (made : List Accesses.Exchange) : Prop :=
  if level ≤ limit then
    ∃ tag flush, made = ⟨.tag, tag⟩ :: ⟨.lockLog, ()⟩ ::
      (Log.Record.written ⟨level, tag, message⟩ flush ++ [⟨.unlockLog, ()⟩])
  else made = []

theorem path_writeRecord {r : Log.Record}
    (h : (Log.writeRecord r).Path made (.ended (.ok ()))) :
    ∃ flush, made = ⟨.lockLog, ()⟩ :: (r.written flush ++ [⟨.unlockLog, ()⟩]) := by
  rw [writeRecord_eq] at h
  obtain ⟨_, others, rfl, hothers⟩ := Program.path_call_ended.mp h
  rcases Program.path_bind_ended.mp hothers with ⟨cause, -, heq⟩ | ⟨own, more, _, rfl, hown, hmore⟩
  · cases heq
  · obtain ⟨flush, rfl, -⟩ := path_writing hown
    obtain ⟨_, last, rfl, hlast⟩ := Program.path_call_ended.mp hmore
    obtain ⟨rfl, -⟩ := Program.path_done.mp hlast
    exact ⟨flush, rfl⟩

/-- A logging call goes by the level that it reads. -/
theorem path_write {level : Level} (hlevel : level ≠ .off) {message : Log.Message}
    {result : Except Cause Unit} (h : (Log.write level message).Path made (.ended result)) :
    ∃ own limit more, made = own ++ ⟨.loadLevel, limit⟩ :: more ∧
      Written level limit message more ∧ result = .ok () := by
  cases result with
  | error cause => exact (h.within (Log.within_write level message)).elim
  | ok value =>
    rcases Program.path_bind_ended.mp h with ⟨cause, -, heq⟩ | ⟨own, more, yes, rfl, hown, hmore⟩
    · cases heq
    · obtain ⟨own', limit, rfl, hyes⟩ := path_isEnabled hlevel hown
      cases hyes
      refine ⟨own', limit, more, by simp, ?_, rfl⟩
      unfold Written
      split
      · rename_i hle
        simp only [hle, decide_true, if_true] at hmore
        obtain ⟨tag, others, rfl, hothers⟩ := Program.path_call_ended.mp hmore
        obtain ⟨flush, rfl⟩ := path_writeRecord hothers
        exact ⟨tag, flush, rfl⟩
      · rename_i hle
        simp only [hle, decide_false, Bool.false_eq_true, if_false] at hmore
        exact (Program.path_done.mp hmore).1

end Paths

/-! ## What loads the settings -/

section Meets

theorem meets_load : Log.load.Meets ShowsLoaded := by
  intro answer
  cases answer with
  | some value => exact Or.inl (Or.inl rfl)
  | none =>
    exact Or.inr fun _ => Or.inr fun _ => Or.inr fun _ => Or.inr fun _ =>
      Or.inr fun _ => Or.inl (Or.inr rfl)

theorem meets_currentLevel : Log.currentLevel.Meets ShowsLoaded := meets_load.bind _

theorem meets_isEnabled {level : Level} (hlevel : level ≠ .off) :
    (Log.isEnabled level).Meets ShowsLoaded := by
  rw [Log.isEnabled, if_neg hlevel]
  exact meets_currentLevel.bind _

theorem meets_write {level : Level} (hlevel : level ≠ .off) (message : Log.Message) :
    (Log.write level message).Meets ShowsLoaded :=
  (meets_isEnabled hlevel).bind _

theorem meets_failWith {α : Type} (failure : StorageFailure) :
    (Storage.failWith failure : Action α).Meets ShowsLoaded :=
  (meets_write (by decide) _).bind _

theorem meets_createKey : Storage.createKey.Meets ShowsLoaded := by
  refine fun answer => Or.inr ?_
  cases answer with
  | ok key => exact (meets_write (by decide) _).bind _
  | error code => exact meets_failWith _

theorem meets_reportedBase (release : Except Kernel.ProbeFailure String) :
    (Kernel.reportedBase release).Meets ShowsLoaded := by
  have hlevel (p : Kernel.Probe) : p.level ≠ .off := by cases p <;> simp [Kernel.Probe.level]
  exact (meets_write (hlevel _) _).bind _

/-- Whatever fills a cell has loaded the settings before it ends. -/
theorem meets_compute {c : Cell} (hc : c ≠ .settings) : c.compute.Meets ShowsLoaded := by
  cases c with
  | settings => exact absurd rfl hc
  | key => exact meets_createKey
  | slotBase => exact fun reply => Or.inr (meets_reportedBase _)
  | direct =>
    have hbase : Kernel.processBase.Within fun _ => True :=
      within_getOrFill (c := .slotBase) trivial (fun _ => trivial) ⟨trivial, fun _ =>
        ((Log.within_write _ _).mono fun _ _ => trivial).bind fun _ => trivial⟩
    exact .bind_within hbase fun _ => meets_createKey.bind _

/-- Whatever fills a cell has loaded the settings before it ends, unless it is what loads them. -/
theorem shows_compute {c : Cell} {made : List Accesses.Exchange} {result : Except Cause c.Content}
    (h : c.compute.Path made (.ended result)) (hc : c ≠ .settings) : ∃ e ∈ made, ShowsLoaded e :=
  h.meets (meets_compute hc)

end Meets

/-- The uses that need the settings to be loaded. -/
def Use.NeedsSettings : Use → Prop
  | .service (.log level _) => level ≠ .off
  | .service (.setLevel _) => True
  | .service (.setFlush _) => True
  | .service .load => True
  | .service .currentLevel => True
  | .service (.isEnabled level) => level ≠ .off
  | .service (.reportedBase _) => True
  | .call _ _ (.bind _) => True
  | .call _ _ (.bindAddress _) => True
  | _ => False

theorem meets_bindAddress (r : Resolver) (address : Address) :
    (r.perform (Resolver.bindAddress address)).Meets ShowsLoaded :=
  (meets_write (show Level.trace ≠ .off by decide) _).bind _

theorem meets_action {u : Use} (h : u.NeedsSettings) : u.action.Meets ShowsLoaded := by
  cases u with
  | service s =>
    cases s with
    | log level text => exact (meets_write h _).bind _
    | setLevel level => exact (meets_load.bind _).bind _
    | setFlush flush => exact (meets_load.bind _).bind _
    | load => exact meets_load.bind _
    | currentLevel => exact meets_currentLevel.bind _
    | isEnabled level => exact (meets_isEnabled h).bind _
    | reportedBase release => exact (meets_reportedBase release).bind _
    | _ => exact h.elim
  | call contexts r c =>
    cases c with
    | bind c => exact (meets_bindAddress r _).bind _
    | bindAddress c => exact (meets_bindAddress r _).bind _
    | _ => exact h.elim

/-- The uses that judge by the level in force. -/
def Use.Judges : Use → Prop
  | .service (.log level _) => level ≠ .off
  | .service (.isEnabled level) => level ≠ .off
  | .service .currentLevel => True
  | _ => False

/-- What a use makes of the level that it read: how it ends, and what it still does before. -/
def Use.GoesBy (limit : Level) (more : List Accesses.Exchange)
    (result : Except Cause Session.Answer) : Use → Prop
  | .service (.log level text) => result = .ok .ok ∧ Written level limit (.text text) more
  | .service (.isEnabled level) => result = .ok (.enabled (decide (level ≤ limit))) ∧ more = []
  | .service .currentLevel => result = .ok (.level limit) ∧ more = []
  | _ => True

/-- A use that judges by the level reads it, and goes by what it read. -/
theorem path_judges {u : Use} (h : u.Judges) {made : List Accesses.Exchange}
    {result : Except Cause Session.Answer} (hpath : u.action.Path made (.ended result)) :
    ∃ own limit more, made = own ++ ⟨.loadLevel, limit⟩ :: more ∧ u.GoesBy limit more result := by
  cases u with
  | call contexts r c => exact h.elim
  | service s =>
    cases s with
    | log level text =>
      obtain ⟨own, hown, rfl⟩ := Program.path_map_ended hpath
      obtain ⟨first, limit, more, rfl, hwritten, rfl⟩ := path_write h hown
      exact ⟨first, limit, more, rfl, rfl, hwritten⟩
    | isEnabled level =>
      obtain ⟨own, hown, rfl⟩ := Program.path_map_ended hpath
      obtain ⟨first, limit, rfl, rfl⟩ := path_isEnabled h hown
      exact ⟨first, limit, [], rfl, rfl, rfl⟩
    | currentLevel =>
      obtain ⟨own, hown, rfl⟩ := Program.path_map_ended hpath
      obtain ⟨first, limit, rfl, rfl⟩ := path_currentLevel hown
      exact ⟨first, limit, [], rfl, rfl, rfl⟩
    | _ => exact h.elim

/-- The uses that ask for records of level `off`. -/
def Use.OfNothing (u : Use) : Prop :=
  u = .service (.isEnabled .off) ∨ ∃ text, u = .service (.log .off text)

/-- Such a use ends where it begins. -/
theorem action_ofNothing {u : Use} (h : u.OfNothing) :
    ∃ answer, u.action = .done answer ∧ (answer = .enabled false ∨ answer = .ok) := by
  rcases h with rfl | ⟨text, rfl⟩
  · exact ⟨_, rfl, Or.inl rfl⟩
  · exact ⟨_, rfl, Or.inr rfl⟩

end ExecContext
