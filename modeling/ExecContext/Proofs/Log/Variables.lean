import ExecContext.Proofs.Log.Loading
import ExecContext.Proofs.Log.Reading
import ExecContext.Proofs.Process.Paths
import ExecContext.Proofs.Text.Strict

set_option autoImplicit false

/-!
# Settings by two variables

The settings of the log depend on the texts of two variables, the level on the one and the flush
flag on the other, and on nothing else. Neither the blanks around a text nor the case of its letters
make a difference (`settings_by_two_variables`).
-/

namespace ExecContext

/-! ## Texts that are alike -/

namespace Text

variable {text text' : String} {chars part : List Char}

/-- There is nothing but blanks before and after a part of the text. -/
def Padded (chars part : List Char) : Prop :=
  ∃ front back, chars = front ++ part ++ back ∧
    (∀ c ∈ front, isBlank c = true) ∧ ∀ c ∈ back, isBlank c = true

/-- Two texts are equal but for the blanks around them and the case of their ASCII letters. -/
def Alike (text text' : String) : Prop :=
  ∃ part part', Padded text.toList part ∧ Padded text'.toList part' ∧
    part.map Char.toLower = part'.map Char.toLower

/-- A letter is no blank in either case. -/
theorem isBlank_toLower (c : Char) : isBlank c.toLower = isBlank c := by
  cases hc : c.isAlpha with
  | true =>
    have hlower : c.toLower.isAlpha = true := by rwa [Char.isAlpha_toLower_eq_isAlpha]
    rw [not_isBlank_of_isAlpha hc, not_isBlank_of_isAlpha hlower]
  | false => rw [toLower_of_not_isAlpha hc]

theorem trim_map (removable : Char → Bool) (f : Char → Char) (chars : List Char) :
    trim removable (chars.map f) = (trim (removable ∘ f) chars).map f := by
  simp only [trim, List.dropWhile_map, ← List.map_reverse]

/-- It makes no difference whether a text is trimmed or put in lower case first. -/
theorem map_toLower_trim (chars : List Char) :
    (trim isBlank chars).map Char.toLower = trim isBlank (chars.map Char.toLower) := by
  have hblank : isBlank ∘ Char.toLower = isBlank := funext isBlank_toLower
  rw [trim_map, hblank]

theorem Padded.keyword_eq (h : Padded text.toList part) :
    keyword text = trim isBlank (part.map Char.toLower) := by
  obtain ⟨front, back, htext, hfront, hback⟩ := h
  rw [keyword, htext, trim_padded hfront hback, map_toLower_trim]

/-- Texts are alike if they are the same keyword. -/
theorem alike_iff : Alike text text' ↔ keyword text = keyword text' := by
  constructor
  · rintro ⟨part, part', hpart, hpart', heq⟩
    rw [hpart.keyword_eq, hpart'.keyword_eq, heq]
  · intro h
    exact ⟨_, _, (core_trim isBlank text.toList).surrounded,
      (core_trim isBlank text'.toList).surrounded, h⟩

end Text

/-! ## Variables -/

namespace Platform

variable {os os' : Platform} {name : String}

/-- A variable has texts that are alike on both platforms, or it has no text on either: it is not
set there, or to bytes that are no text. -/
def SameVariable (os os' : Platform) (name : String) : Prop :=
  (∃ text text', os.environment name = some (Text.utf8 text) ∧
    os'.environment name = some (Text.utf8 text') ∧ Text.Alike text text') ∨
  ∀ text, os.environment name ≠ some (Text.utf8 text) ∧
    os'.environment name ≠ some (Text.utf8 text)

theorem textOf_eq_some_iff {text : String} :
    os.textOf name = some text ↔ os.environment name = some (Text.utf8 text) := by
  rw [textOf, Option.bind_eq_some_iff]
  constructor
  · rintro ⟨bytes, hbytes, htext⟩
    rw [hbytes, Text.decode?_eq_some_iff.mp htext]
  · intro h
    exact ⟨_, h, Text.decode?_eq_some_iff.mpr rfl⟩

theorem textOf_eq_none_iff :
    os.textOf name = none ↔ ∀ text, os.environment name ≠ some (Text.utf8 text) := by
  simp only [Option.eq_none_iff_forall_ne_some, ne_eq, textOf_eq_some_iff]

theorem SameVariable.rel (h : os.SameVariable os' name) :
    Option.Rel Text.Alike (os.textOf name) (os'.textOf name) := by
  rcases h with ⟨text, text', htext, htext', halike⟩ | hnone
  · rw [textOf_eq_some_iff.mpr htext, textOf_eq_some_iff.mpr htext']
    exact .some halike
  · rw [textOf_eq_none_iff.mpr fun text => (hnone text).1,
      textOf_eq_none_iff.mpr fun text => (hnone text).2]
    exact .none

end Platform

namespace Log

/-! ## Flags -/

/-- A flag is on if the text between its blanks is one of four words, in letters of any case. -/
theorem readFlag_iff {text : String} :
    readFlag text = true ↔ ∃ word, Text.Core Text.isBlank text.toList word ∧
      word.map Char.toLower ∈ ["1".toList, "true".toList, "yes".toList, "on".toList] := by
  rw [readFlag, List.contains_iff_mem]
  constructor
  · intro h
    exact ⟨_, Text.core_trim Text.isBlank text.toList, h⟩
  · rintro ⟨word, hword, h⟩
    rwa [Text.keyword, Text.core_iff.mp hword]

namespace Settings

variable {level flush level' flush' : Option String} {settings settings' : Settings}

/-! ## What two texts give -/

/-- The settings that the texts of the two variables give, where there are texts. -/
structure Given (level flush : Option String) (settings : Settings) : Prop where
  /-- the level is the one that the first text is read as; without one it is `warn` -/
  level_iff : ∀ l, settings.level = l ↔
    (∃ text, level = some text ∧ Level.read? text = some l) ∨
      (∀ text, level = some text → Level.read? text = none) ∧ l = .warn
  /-- records are flushed if the second text turns the flag on -/
  flush_iff : settings.flush = true ↔
    ∃ text word, flush = some text ∧ Text.Core Text.isBlank text.toList word ∧
      word.map Char.toLower ∈ ["1".toList, "true".toList, "yes".toList, "on".toList]

theorem given_ofTexts (level flush : Option String) :
    Given level flush (ofTexts level flush) where
  level_iff l := by
    have hlevel : (ofTexts level flush).level = (level.bind Level.read?).getD .warn := rfl
    rw [hlevel]
    cases level with
    | none => simp [eq_comm]
    | some text =>
      cases hread : Level.read? text with
      | none => simp [hread, eq_comm]
      | some read => simp [hread]
  flush_iff := by
    have hflush : (ofTexts level flush).flush = (flush.map readFlag).getD false := rfl
    rw [hflush]
    cases flush with
    | none => simp
    | some text =>
      rw [Option.map_some, Option.getD_some, readFlag_iff]
      simp

/-- Two texts give one pair of settings. -/
theorem given_iff : Given level flush settings ↔ settings = ofTexts level flush := by
  have hown := given_ofTexts level flush
  constructor
  · intro h
    have hlevel : settings.level = (ofTexts level flush).level :=
      (h.level_iff _).mpr ((hown.level_iff _).mp rfl)
    have hflush : settings.flush = (ofTexts level flush).flush :=
      Bool.eq_iff_iff.mpr (h.flush_iff.trans hown.flush_iff.symm)
    obtain ⟨l, f⟩ := settings
    rw [show l = _ from hlevel, show f = _ from hflush]
  · rintro rfl
    exact hown

/-- Texts that are alike are read as the same level. -/
theorem level_congr (h : Option.Rel Text.Alike level level') :
    (ofTexts level flush).level = (ofTexts level' flush').level := by
  cases h with
  | none => rfl
  | @some text text' halike =>
    have hread : Level.read? text = Level.read? text' := by
      rw [Level.read?, Level.read?, Text.alike_iff.mp halike]
    simp only [ofTexts, Option.bind_some, hread]

/-- Texts that are alike turn a flag on alike. -/
theorem flush_congr (h : Option.Rel Text.Alike flush flush') :
    (ofTexts level flush).flush = (ofTexts level' flush').flush := by
  cases h with
  | none => rfl
  | @some text text' halike =>
    have hread : readFlag text = readFlag text' := by
      rw [readFlag, readFlag, Text.alike_iff.mp halike]
    simp only [ofTexts, Option.map_some, hread]

/-! ## Looking up -/

theorem eq_ofTexts_iff {result : Except Cause Settings} :
    result = .ok (ofTexts level flush) ↔
      ∃ settings, result = .ok settings ∧ Given level flush settings := by
  simp only [given_iff, exists_eq_right]

/-- **Settings by two variables.** Whatever the lookup answers, settings are found by asking for the
level first and for the flush flag then, once each, and they are those that the two answers give; so
it is with the environment, even if it changes in between. There always are such settings. Answers
that are alike, or missing on both sides, give the same level and the same flag, each by its own
variable; so two environments in which the two variables are the same but for blanks and case give
the same settings, whatever else is set there. -/
theorem settings_by_two_variables :
    (∀ (asked : List Lookup.Exchange) (result : Except Cause Settings),
      lookedUp.Path asked (.ended result) ↔
        ∃ level flush,
          asked = [⟨"RTLOCAL_LOG_LEVEL", level⟩, ⟨"RTLOCAL_FLUSH_EPRINT", flush⟩] ∧
            ∃ settings, result = .ok settings ∧ Given level flush settings) ∧
    (∀ (made : List Accesses.Exchange) (result : Except Cause Settings),
      environmentSettings.Path made (.ended result) ↔
        ∃ level flush,
          made = [⟨.readVariable "RTLOCAL_LOG_LEVEL", level⟩,
              ⟨.readVariable "RTLOCAL_FLUSH_EPRINT", flush⟩] ∧
            ∃ settings, result = .ok settings ∧ Given level flush settings) ∧
    (∀ level flush, ∃ settings, Given level flush settings) ∧
    (∀ level flush level' flush' settings settings',
      Given level flush settings → Given level' flush' settings' →
        (Option.Rel Text.Alike level level' → settings.level = settings'.level) ∧
        (Option.Rel Text.Alike flush flush' → settings.flush = settings'.flush)) ∧
    ∀ (s s' : Process) (t t' : ThreadId), ∃ settings settings',
      s.run t environmentSettings = ⟨.returned settings, s, []⟩ ∧
      s'.run t' environmentSettings = ⟨.returned settings', s', []⟩ ∧
      (s.platform.SameVariable s'.platform "RTLOCAL_LOG_LEVEL" →
        settings.level = settings'.level) ∧
      (s.platform.SameVariable s'.platform "RTLOCAL_FLUSH_EPRINT" →
        settings.flush = settings'.flush) := by
  refine ⟨?lookup, ?environment, ?some, ?alike, ?processes⟩
  case lookup =>
    intro asked result
    simp only [← eq_ofTexts_iff]
    exact Program.path_two_ended
  case environment =>
    intro made result
    simp only [← eq_ofTexts_iff]
    exact Program.path_two_ended
  case some =>
    intro level flush
    exact ⟨_, given_ofTexts level flush⟩
  case alike =>
    intro level flush level' flush' settings settings' h h'
    obtain rfl := given_iff.mp h
    obtain rfl := given_iff.mp h'
    exact ⟨level_congr, flush_congr⟩
  case processes =>
    intro s s' t t'
    exact ⟨s.environmentSettings, s'.environmentSettings, Process.run_environmentSettings s t,
      Process.run_environmentSettings s' t', fun h => level_congr h.rel,
      fun h => flush_congr h.rel⟩

/-- Two answers in different spellings, and two environments of which one has more in it. -/
theorem settings_by_two_variables_respelled :
    let settings := ofTexts (some " +4") (some "\u3000ON")
    let settings' := ofTexts (some "+4") (some "on")
    let os := (Platform.fresh (.failure 5) (.plain 0)).setVariable "RTLOCAL_LOG_LEVEL"
      (some (Text.utf8 " Debug\t"))
    let os' := ((Platform.fresh (.failure 5) (.plain 0)).setVariable "RTLOCAL_LOG_LEVEL"
      (some (Text.utf8 "dEBUG"))).setVariable "RTLOCAL_BENCH_ITERS" (some (Text.utf8 "5"))
    Given (some " +4") (some "\u3000ON") settings ∧ Given (some "+4") (some "on") settings' ∧
      Option.Rel Text.Alike (some " +4") (some "+4") ∧
      Option.Rel Text.Alike (some "\u3000ON") (some "on") ∧
      settings.level = settings'.level ∧ settings.flush = settings'.flush ∧
      os.SameVariable os' "RTLOCAL_LOG_LEVEL" ∧ os.SameVariable os' "RTLOCAL_FLUSH_EPRINT" ∧
      ∃ own own', (Process.fresh os).run 1 environmentSettings = ⟨.returned own, .fresh os, []⟩ ∧
        (Process.fresh os').run 1 environmentSettings = ⟨.returned own', .fresh os', []⟩ ∧
        own.level = own'.level ∧ own.flush = own'.flush := by
  intro settings settings' os os'
  obtain ⟨-, -, -, halike, hprocesses⟩ := settings_by_two_variables
  have hgiven : Given (some " +4") (some "\u3000ON") settings := given_ofTexts _ _
  have hgiven' : Given (some "+4") (some "on") settings' := given_ofTexts _ _
  have hnumber : Option.Rel Text.Alike (some " +4") (some "+4") := .some (Text.alike_iff.mpr rfl)
  have hword : Option.Rel Text.Alike (some "\u3000ON") (some "on") :=
    .some (Text.alike_iff.mpr rfl)
  obtain ⟨hlevel, hflush⟩ := halike _ _ _ _ _ _ hgiven hgiven'
  have hset : os.SameVariable os' "RTLOCAL_LOG_LEVEL" :=
    Or.inl ⟨" Debug\t", "dEBUG", rfl, rfl, Text.alike_iff.mpr rfl⟩
  have hunset : os.SameVariable os' "RTLOCAL_FLUSH_EPRINT" :=
    Or.inr fun text => ⟨nofun, nofun⟩
  obtain ⟨own, own', hrun, hrun', hlevels, hflushes⟩ := hprocesses (.fresh os) (.fresh os') 1 1
  exact ⟨hgiven, hgiven', hnumber, hword, hlevel hnumber, hflush hword, hset, hunset,
    own, own', hrun, hrun', hlevels hset, hflushes hunset⟩

end Settings

end Log

end ExecContext
