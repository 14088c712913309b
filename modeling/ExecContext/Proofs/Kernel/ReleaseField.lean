import ExecContext.Proofs.Kernel.Major
import ExecContext.Proofs.Kernel.OneBase
import ExecContext.Proofs.Text.Lenient

set_option autoImplicit false

/-!
# From the release field to the slot base

The kernel reports its release in a field of bytes, which may hold anything. What is read from the
field, and where the key slots are then taken to start, is decided by the bytes before the first dot
alone: nothing behind it makes a difference, and before it nothing that is no text gives a version
(`base_by_release_field`).
-/

namespace ExecContext.Kernel

open Text (Cut Lenient Numeral utf8)

variable {field release head tail : List UInt8}

/-! ## What is read from a field -/

/-- The release in a field ends before the first NUL, or with the field. -/
theorem cut_releaseBytes (hsize : field.length = releaseFieldSize) :
    Cut 0 field release ↔ UnameReply.releaseBytes field = release := by
  rw [Text.cut_iff, UnameReply.releaseBytes, ← hsize, List.take_length]

theorem decodeLenient_eq_empty : Text.decodeLenient release = "" ↔ release = [] := by
  constructor
  · intro h
    have hlenient : Lenient release [] := Text.lenient_iff.mpr (by rw [h]; rfl)
    generalize htext : [] = text at hlenient
    cases hlenient with
    | nil => rfl
    | character c rest => cases htext
    | illFormed h rest => cases htext
  · rintro rfl
    rfl

/-- An empty release is a failure, any other is read leniently. -/
theorem release_field (hsize : field.length = releaseFieldSize) (hfield : Cut 0 field release) :
    (UnameReply.field field).release =
      if release = [] then .error .blank else .ok (Text.decodeLenient release) := by
  rw [UnameReply.release, (cut_releaseBytes hsize).mp hfield]
  simp only [String.isEmpty_iff, decodeLenient_eq_empty]

/-- The release is empty if the field begins with a NUL. -/
theorem release_eq_nil_iff (hsize : field.length = releaseFieldSize)
    (hfield : Cut 0 field release) : release = [] ↔ field.head? = some 0 := by
  obtain ⟨hnul, hends⟩ := hfield
  cases release with
  | nil =>
    rcases hends with rfl | ⟨rest, rfl⟩
    · cases hsize
    · simp
  | cons b others =>
    have hb : b ≠ 0 := by
      rintro rfl
      exact hnul List.mem_cons_self
    rcases hends with rfl | ⟨rest, rfl⟩ <;> simp [hb]

theorem release_eq_blank_iff (hsize : field.length = releaseFieldSize)
    (hfield : Cut 0 field release) :
    (UnameReply.field field).release = .error .blank ↔ release = [] := by
  rw [release_field hsize hfield]
  split <;> simp [*]

/-- A release is read as the text that its bytes write, or else as their lenient reading; it has no
NUL in either case. -/
theorem release_eq_text (hsize : field.length = releaseFieldSize) (hfield : Cut 0 field release)
    (hne : release ≠ []) :
    ∃ text : String, (UnameReply.field field).release = .ok text ∧ text ≠ "" ∧
      '\x00' ∉ text.toList ∧ Lenient release text.toList ∧
      ∀ written : String, utf8 written = release → text = written := by
  have hlenient : Lenient release (Text.decodeLenient release).toList := Text.lenient_iff.mpr rfl
  have hascii : (0 : UInt8).toNat < 0x80 := by decide
  refine ⟨Text.decodeLenient release, by rw [release_field hsize hfield, if_neg hne], ?_, ?_,
    hlenient, ?_⟩
  · exact fun hempty => hne (decodeLenient_eq_empty.mp hempty)
  · exact fun hmem => hfield.1 (hlenient.byte_mem hascii hmem)
  · rintro written rfl
    rw [← String.toList_inj]
    exact Text.lenient_iff.mp (Text.lenient_utf8 written)

/-! ## The offset -/

/-- Only a known version that is high enough has the slots at the start of the segment. -/
theorem Probe.base_eq_zero_iff {p : Probe} :
    p.base = 0 ↔ ∃ n, p = .known n ∧ headerlessMajor ≤ n := by
  cases p with
  | failed e => simp [Probe.base, assumedBase, headerSize, WordWidth.host]
  | known n =>
    by_cases hn : n < headerlessMajor
    · simp [Probe.base, slotBase_of_lt _ hn, headerSize, WordWidth.host, hn]
    · simp [Probe.base, slotBase_of_not_lt _ hn, UInt32.not_lt.mp hn]

theorem Probe.base_of_ne_zero {p : Probe} (h : p.base ≠ 0) : p.base = 0x60 := by
  cases p with
  | failed e => rfl
  | known n =>
    by_cases hn : n < headerlessMajor
    · exact slotBase_of_lt _ hn
    · exact absurd (slotBase_of_not_lt _ hn) h

/-- Two probes agree on the offset if they agree on whether it is 0. -/
theorem Probe.base_congr {p q : Probe} (h : p.base = 0 ↔ q.base = 0) : p.base = q.base := by
  by_cases hp : p.base = 0
  · rw [hp, h.mp hp]
  · rw [base_of_ne_zero hp, base_of_ne_zero fun hq => hp (h.mpr hq)]

theorem ofRelease_eq_known {release : Except ProbeFailure String} {n : UInt32} :
    Probe.ofRelease release = .known n ↔ ∃ text, release = .ok text ∧ major text = .ok n := by
  cases release with
  | error e => simp [Probe.ofRelease, Except.bind]
  | ok text => cases hmajor : major text <;> simp [Probe.ofRelease, Except.bind, hmajor]

theorem base_ofRelease_eq_zero_iff {release : Except ProbeFailure String} :
    (Probe.ofRelease release).base = 0 ↔
      ∃ text n, release = .ok text ∧ major text = .ok n ∧ headerlessMajor ≤ n := by
  simp only [Probe.base_eq_zero_iff, ofRelease_eq_known]
  constructor
  · rintro ⟨n, ⟨text, hrelease, hmajor⟩, hn⟩
    exact ⟨text, n, hrelease, hmajor, hn⟩
  · rintro ⟨text, n, hrelease, hmajor, hn⟩
    exact ⟨n, ⟨text, hrelease, hmajor⟩, hn⟩

/-- The slot base that an answer of the kernel leads to. -/
def UnameReply.base (reply : UnameReply) : Nat :=
  (Probe.ofRelease reply.release).base

/-- Asking the kernel and judging its answer comes to the slot base of that answer, under every
schedule. -/
theorem path_reportedBase {made : List Accesses.Exchange} {result : Except Cause Nat}
    (h : (askRelease >>= reportedBase).Path made (.ended result)) :
    ∃ reply rest, made = ⟨.uname, reply⟩ :: rest ∧ result = .ok reply.base := by
  cases result with
  | error cause => exact absurd h (slotBase_never_fails made cause)
  | ok n =>
    obtain ⟨reply, rest, hmade, -, hn⟩ := path_slotBase_done h
    exact ⟨reply, rest, hmade, congrArg Except.ok hn⟩

theorem run_reportedBase_uname {s : Process} (h : s.LogFree) (t : ThreadId) :
    ∃ later events, s.run t (askRelease >>= reportedBase) =
      ⟨.returned s.platform.uname.base, later, events⟩ := by
  rw [s.run_bind_of_returned (s.run_askRelease t), Process.run_reportedBase h.unameAsked]
  exact ⟨_, _, rfl⟩

/-! ## What stands before the first dot -/

/-- Behind the padding in front, the major version is all that stands before the first dot. -/
theorem majorText_trim_dot {front back : List Char} (hdot : '.' ∉ front) :
    majorText (Text.trim isPadding (front ++ '.' :: back)) = front.dropWhile isPadding := by
  have hkept : '.' ∉ front.dropWhile isPadding :=
    fun hmem => hdot ((List.dropWhile_sublist isPadding).subset hmem)
  have hfirst : ∀ c, (front.dropWhile isPadding ++ ['.']).head? = some c → isPadding c = false := by
    intro c hc
    have hhead := List.head?_dropWhile_not isPadding front
    cases hrest : front.dropWhile isPadding with
    | nil =>
      rw [hrest] at hc
      cases hc
      rfl
    | cons d others =>
      rw [hrest] at hc hhead
      cases hc
      simpa using hhead
  have hpadding : ∀ c ∈ front.takeWhile isPadding, isPadding c = true :=
    fun c hc => List.mem_takeWhile_imp hc
  rw [← beforeDot_iff]
  refine ⟨hkept, Or.inr ⟨back.rdropWhile isPadding, ?_⟩⟩
  calc Text.trim isPadding (front ++ '.' :: back)
      = Text.trim isPadding (front.takeWhile isPadding ++
          (front.dropWhile isPadding ++ '.' :: back) ++ []) := by
        rw [List.append_nil, ← List.append_assoc, List.takeWhile_append_dropWhile]
    _ = Text.trim isPadding (front.dropWhile isPadding ++ '.' :: back) :=
        Text.trim_padded hpadding (by simp)
    _ = _ := Text.trim_through hfirst rfl

theorem toNat_dot_lt : (0x2e : UInt8).toNat < 0x80 := by
  decide

theorem dot_notMem_decodeLenient (hdot : 0x2e ∉ head) :
    '.' ∉ (Text.decodeLenient head).toList := by
  have hhead : Lenient head _ := Text.lenient_iff.mpr rfl
  exact fun hmem => hdot (hhead.byte_mem toNat_dot_lt hmem)

/-- What is read before a dot does not depend on what follows it. -/
theorem majorText_decodeLenient_dot (hdot : 0x2e ∉ head) (tail : List UInt8) :
    majorText (unpadded (Text.decodeLenient (head ++ 0x2e :: tail))) =
      (Text.decodeLenient head).toList.dropWhile isPadding := by
  have hhead : Lenient head _ := Text.lenient_iff.mpr rfl
  have htail : Lenient tail _ := Text.lenient_iff.mpr rfl
  have htext := Text.lenient_iff.mp (hhead.append toNat_dot_lt htail)
  rw [unpadded, htext]
  exact majorText_trim_dot (dot_notMem_decodeLenient hdot)

/-- A mark of ill-formed bytes before the first dot is a part of the major version. -/
theorem mark_mem_majorText (hdot : Cut 0x2e release head)
    (hmark : '\ufffd' ∈ (Text.decodeLenient head).toList) :
    '\ufffd' ∈ majorText (unpadded (Text.decodeLenient release)) := by
  obtain ⟨hdot, rfl | ⟨tail, rfl⟩⟩ := hdot
  · have hcore : '\ufffd' ∈ unpadded (Text.decodeLenient release) := Text.mem_trim hmark rfl
    have hnone : '.' ∉ unpadded (Text.decodeLenient release) :=
      fun hmem => dot_notMem_decodeLenient hdot (Text.trim_subset _ _ hmem)
    rwa [beforeDot_iff.mp ⟨hnone, Or.inl rfl⟩]
  · rw [majorText_decodeLenient_dot hdot]
    rw [← List.takeWhile_append_dropWhile (p := isPadding) (l := (Text.decodeLenient head).toList),
      List.mem_append] at hmark
    exact hmark.resolve_left fun hmem => absurd (List.mem_takeWhile_imp hmem) (by decide)

theorem mark_notMem_numeral {text : List Char} {n : Nat} (h : Numeral text n) :
    '\ufffd' ∉ text := by
  obtain ⟨digits, rfl | rfl, hdigits⟩ := h
  · exact fun hmem => absurd (hdigits.digits _ hmem) (by decide)
  · intro hmem
    rcases List.mem_cons.mp hmem with heq | hmem
    · cases heq
    · exact absurd (hdigits.digits _ hmem) (by decide)

/-! ## The slot base of a field -/

/-- The slot base of a field is decided by the major version in its release. -/
theorem base_field_eq_zero_iff (hsize : field.length = releaseFieldSize)
    (hfield : Cut 0 field release) (hne : release ≠ []) :
    (UnameReply.field field).base = 0 ↔ ∃ n : UInt32,
      Numeral (majorText (unpadded (Text.decodeLenient release))) n.toNat ∧
        headerlessMajor ≤ n := by
  rw [UnameReply.base, base_ofRelease_eq_zero_iff, release_field hsize hfield, if_neg hne]
  constructor
  · rintro ⟨text, n, htext, hmajor, hn⟩
    cases htext
    exact ⟨n, major_eq_ok.mp hmajor, hn⟩
  · rintro ⟨n, hmajor, hn⟩
    exact ⟨_, n, rfl, major_eq_ok.mpr hmajor, hn⟩

theorem base_congr_dot {field' tail' : List UInt8} (hsize : field.length = releaseFieldSize)
    (hsize' : field'.length = releaseFieldSize) (hdot : 0x2e ∉ head)
    (hfield : Cut 0 field (head ++ 0x2e :: tail))
    (hfield' : Cut 0 field' (head ++ 0x2e :: tail')) :
    (UnameReply.field field).base = (UnameReply.field field').base := by
  refine Probe.base_congr ?_
  change (UnameReply.field field).base = 0 ↔ (UnameReply.field field').base = 0
  rw [base_field_eq_zero_iff hsize hfield (by simp),
    base_field_eq_zero_iff hsize' hfield' (by simp), majorText_decodeLenient_dot hdot,
    majorText_decodeLenient_dot hdot]

theorem base_of_illFormed (hsize : field.length = releaseFieldSize)
    (hfield : Cut 0 field release) (hdot : Cut 0x2e release head)
    (hillFormed : ∀ text, utf8 text ≠ head) : (UnameReply.field field).base = 0x60 := by
  have hhead : Lenient head _ := Text.lenient_iff.mpr rfl
  have hmark : '\ufffd' ∈ (Text.decodeLenient head).toList := by
    by_contra hnone
    exact hillFormed _ (hhead.utf8_eq hnone)
  have hne : release ≠ [] := by
    rintro rfl
    obtain ⟨-, rfl | ⟨tail, htail⟩⟩ := hdot
    · exact hillFormed "" rfl
    · simp at htail
  refine Probe.base_of_ne_zero fun hzero => ?_
  obtain ⟨n, hnumeral, -⟩ := (base_field_eq_zero_iff hsize hfield hne).mp hzero
  exact mark_notMem_numeral hnumeral (mark_mem_majorText hdot hmark)

/-- **From the release field to the slot base.** A field of any bytes holds a blank release just if
it begins with NUL; any other release is a text without NUL, which is what the bytes before the
first NUL write or, if they write no text, their lenient reading. Under every schedule the kernel is
asked once and a slot base comes out, whatever it answers. The slots are taken to start at 0 just if
the major version is known and at least 11, and at 0x60 otherwise. Whatever follows the first dot of
a release makes no difference, and where the bytes before it, or all of them if there is no dot, are
no text, the slots are taken to start at 0x60. -/
theorem base_by_release_field :
    (∀ field release, field.length = releaseFieldSize → Cut 0 field release →
      ((UnameReply.field field).release = .error .blank ↔ field.head? = some 0) ∧
      (field.head? ≠ some 0 → ∃ text : String, (UnameReply.field field).release = .ok text ∧
        text ≠ "" ∧ '\x00' ∉ text.toList ∧ Lenient release text.toList ∧
        ∀ written : String, utf8 written = release → text = written)) ∧
    (∀ made result, (askRelease >>= reportedBase).Path made (.ended result) →
      ∃ reply rest, made = ⟨.uname, reply⟩ :: rest ∧ result = .ok reply.base) ∧
    (∀ (s : Process) t, s.LogFree → ∃ later events,
      s.run t (askRelease >>= reportedBase) =
        ⟨.returned s.platform.uname.base, later, events⟩) ∧
    (∀ release : Except ProbeFailure String,
      ((Probe.ofRelease release).base = 0 ↔
        ∃ text n, release = .ok text ∧ major text = .ok n ∧ 11 ≤ n) ∧
      ((Probe.ofRelease release).base ≠ 0 → (Probe.ofRelease release).base = 0x60)) ∧
    (∀ field field' head tail tail', field.length = releaseFieldSize →
      field'.length = releaseFieldSize → 0x2e ∉ head → Cut 0 field (head ++ 0x2e :: tail) →
      Cut 0 field' (head ++ 0x2e :: tail') →
      (UnameReply.field field).base = (UnameReply.field field').base) ∧
    ∀ field release head, field.length = releaseFieldSize → Cut 0 field release →
      Cut 0x2e release head → (∀ text, utf8 text ≠ head) →
      (UnameReply.field field).base = 0x60 := by
  refine ⟨fun field release hsize hfield => ?_, fun made result => path_reportedBase,
    fun s t h => run_reportedBase_uname h t,
    fun release => ⟨base_ofRelease_eq_zero_iff, Probe.base_of_ne_zero⟩,
    fun _ _ _ _ _ hsize hsize' hdot hfield hfield' =>
      base_congr_dot hsize hsize' hdot hfield hfield',
    fun _ _ _ hsize hfield hdot hno => base_of_illFormed hsize hfield hdot hno⟩
  have hnil := release_eq_nil_iff hsize hfield
  exact ⟨(release_eq_blank_iff hsize hfield).trans hnil,
    fun hne => release_eq_text hsize hfield fun h => hne (hnil.mp h)⟩

/-- Probing with a log that is off: the level is looked at, and nothing is written. -/
theorem path_quiet (reply : UnameReply) :
    (askRelease >>= reportedBase).Path
      [⟨.uname, reply⟩, ⟨.enter .settings, some ()⟩, ⟨.loadLevel, .off⟩]
      (.ended (.ok reply.base)) := by
  refine ⟨_, rfl, ?_⟩
  have hreport : (Probe.ofRelease reply.release).report.Path
      [⟨.enter .settings, some ()⟩, ⟨.loadLevel, .off⟩] (.ended (.ok ())) := by
    cases Probe.ofRelease reply.release <;> exact ⟨_, rfl, _, rfl, rfl⟩
  exact hreport.bind fun _ => .done reply.base

/-- A release of version 11, the same with ill-formed bytes behind the dot and cut off by the end of
the field, and one with an ill-formed byte in its version. -/
theorem base_by_release_field_mixed :
    let clean : List UInt8 := [0x31, 0x31] ++ 0x2e :: 0x30 :: List.replicate 61 0
    let cutOff : List UInt8 := [0x31, 0x31] ++ 0x2e :: 0xff :: List.replicate 60 0x20 ++ [0xe2]
    let broken : List UInt8 := [0x31, 0xff] ++ 0x2e :: 0x30 :: List.replicate 61 0
    let made : List Accesses.Exchange :=
      [⟨.uname, .field broken⟩, ⟨.enter .settings, some ()⟩, ⟨.loadLevel, .off⟩]
    let s := Process.fresh (.fresh (.field clean) (.plain 0))
    Cut 0 clean ([0x31, 0x31] ++ 0x2e :: [0x30]) ∧
      Cut 0 cutOff ([0x31, 0x31] ++ 0x2e :: (0xff :: List.replicate 60 0x20 ++ [0xe2])) ∧
      Cut 0 broken ([0x31, 0xff] ++ 0x2e :: [0x30]) ∧ (∀ text, utf8 text ≠ [0x31, 0xff]) ∧
      (UnameReply.field clean).release = .ok "11.0" ∧
      (UnameReply.field clean).base = 0 ∧ (UnameReply.field cutOff).base = 0 ∧
      (UnameReply.field broken).base = 0x60 ∧
      (askRelease >>= reportedBase).Path made (.ended (.ok 0x60)) ∧
      ∃ later events, s.run 1 (askRelease >>= reportedBase) = ⟨.returned 0, later, events⟩ := by
  intro clean cutOff broken made s
  obtain ⟨hread, hpath, hrun, hoffset, hdot, hillFormed⟩ := base_by_release_field
  have hclean : Cut 0 clean ([0x31, 0x31] ++ 0x2e :: [0x30]) := Text.cut_iff.mpr rfl
  have hcutOff : Cut 0 cutOff
      ([0x31, 0x31] ++ 0x2e :: (0xff :: List.replicate 60 0x20 ++ [0xe2])) := Text.cut_iff.mpr rfl
  have hbroken : Cut 0 broken ([0x31, 0xff] ++ 0x2e :: [0x30]) := Text.cut_iff.mpr rfl
  have hnoText : ∀ text, utf8 text ≠ [0x31, 0xff] := by
    intro text htext
    have hlenient : Lenient [0x31, 0xff] text.toList := htext ▸ Text.lenient_utf8 text
    have hread : text.toList = ['1', '\ufffd'] := (Text.lenient_iff.mp hlenient).symm
    rw [Text.utf8_eq_flatMap, hread] at htext
    exact absurd htext (by decide)
  obtain ⟨text, htext, -, -, -, hwritten⟩ := (hread clean _ rfl hclean).2 (by simp [clean])
  obtain rfl : text = "11.0" := hwritten "11.0" (by rw [Text.utf8_eq_flatMap]; rfl)
  have hzero : (UnameReply.field clean).base = 0 :=
    (hoffset _).1.mpr ⟨"11.0", 11, htext, rfl, by decide⟩
  have hsame : (UnameReply.field clean).base = (UnameReply.field cutOff).base :=
    hdot _ _ _ _ _ rfl rfl (by decide) hclean hcutOff
  have hlow : (UnameReply.field broken).base = 0x60 :=
    hillFormed broken _ [0x31, 0xff] rfl hbroken (Text.cut_iff.mpr rfl) hnoText
  have hmade := path_quiet (.field broken)
  obtain ⟨reply, rest, heq, hresult⟩ := hpath _ _ hmade
  cases heq
  have hfree : s.LogFree := ⟨fun _ => nofun, rfl⟩
  exact ⟨hclean, hcutOff, hbroken, hnoText, htext, hzero, hsame ▸ hzero, hlow,
    hlow ▸ hresult ▸ hmade, hzero ▸ hrun s 1 hfree⟩

end ExecContext.Kernel
