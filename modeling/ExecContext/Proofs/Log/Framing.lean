import ExecContext.Proofs.Log.OneLine
import ExecContext.Proofs.Log.Stages
import ExecContext.Proofs.Process.Alone

set_option autoImplicit false

/-!
# Whole records

Any number of threads log at once, and a record is written in several chunks. What reaches the log
is nevertheless one whole record after another, under every schedule: one for each message that was
judged and admitted, each thread's in the thread's own order, and nothing else
(`log_whole_records`). The ghost state is a stage for each thread; the log's lock is held just by a
thread whose stage holds it, so that what has been written last of a record that is not whole is all
by one thread.
-/

namespace ExecContext

open Discipline (setStage setStage_same setStage_other setStage_self forall_setStage)

/-! ## Entries of several threads -/

/-- What is one thread's own of a list to which several threads contribute. -/
def ownOf {α : Type} (t : ThreadId) (entries : List (ThreadId × α)) : List α :=
  entries.filterMap fun e => if e.1 = t then some e.2 else none

section Entries

variable {α : Type}

theorem ownOf_append (t : ThreadId) (first more : List (ThreadId × α)) :
    ownOf t (first ++ more) = ownOf t first ++ ownOf t more :=
  List.filterMap_append

theorem ownOf_same (t : ThreadId) (values : List α) :
    ownOf t (values.map (Prod.mk t)) = values := by
  induction values with
  | nil => rfl
  | cons value rest ih =>
    calc
      ownOf t ((value :: rest).map (Prod.mk t)) = value :: ownOf t (rest.map (Prod.mk t)) := by
        simp [ownOf]
      _ = value :: rest := by rw [ih]

theorem ownOf_other {t u : ThreadId} (h : u ≠ t) (values : List α) :
    ownOf u (values.map (Prod.mk t)) = [] := by
  simp [ownOf, Ne.symm h]

end Entries

namespace Machine

variable {start machine now later : Machine} {history : List Label} {t : ThreadId}

/-! ## What is asked and what is written -/

/-- The chunks written to the log, in order. -/
def written (history : List Label) : List Log.Chunk :=
  history.flatMap fun
    | .access _ _ a _ => a.chunks
    | _ => []

/-- With this step a thread judges a message. -/
inductive Judging (machine : Machine) : Label → ThreadId × Log.Asked → Prop where
  | mk {t : ThreadId} {u : Use} {p : Action Session.Answer} {level : Log.Level}
    {message : Log.Message} (limit : Log.Level) (hwork : machine.work t = some ⟨u, p⟩)
    (hjudges : Log.Judges p level message) :
    Judging machine (.access t u .loadLevel limit) (t, ⟨level, message, limit⟩)

/-- A run, with the messages that were judged in it. -/
inductive JudgedRun : Machine → List Label → List (ThreadId × Log.Asked) → Machine → Prop where
  | refl (machine : Machine) : JudgedRun machine [] [] machine
  | asks {machine now later : Machine} {history : List Label} {asked : List (ThreadId × Log.Asked)}
    {m : Label} {a : ThreadId × Log.Asked} (first : JudgedRun machine history asked now)
    (last : Step now m later) (hm : now.Judging m a) :
    JudgedRun machine (history ++ [m]) (asked ++ [a]) later
  | other {machine now later : Machine} {history : List Label} {asked : List (ThreadId × Log.Asked)}
    {m : Label} (first : JudgedRun machine history asked now) (last : Step now m later)
    (hm : ∀ a, ¬now.Judging m a) : JudgedRun machine (history ++ [m]) asked later

theorem JudgedRun.run {asked : List (ThreadId × Log.Asked)}
    (h : JudgedRun machine history asked now) :
    Run machine history now := by
  induction h with
  | refl => exact .refl _
  | asks first last hm ih => exact ih.step last
  | other first last hm ih => exact ih.step last

/-- In every run some messages were judged. -/
theorem Run.judgedRun (run : Run machine history now) :
    ∃ asked, JudgedRun machine history asked now := by
  induction run with
  | refl => exact ⟨[], .refl _⟩
  | @step now later history m first last ih =>
    obtain ⟨asked, hasked⟩ := ih
    by_cases hm : ∃ a, now.Judging m a
    · obtain ⟨a, ha⟩ := hm
      exact ⟨asked ++ [a], hasked.asks last ha⟩
    · exact ⟨asked, hasked.other last fun a ha => hm ⟨a, ha⟩⟩

/-! ## Threads and their names -/

/-- The threads that were started stay where they are. -/
theorem Step.roster {m : Label} (step : Step machine m later) :
    ∃ more, later.process.roster = machine.process.roster ++ more ∧
      ∀ name ∈ more, m = .starts name := by
  cases step with
  | access hwork hnext =>
    obtain ⟨resume, rfl, heffect, rfl⟩ := hnext
    exact ⟨[], by simp [Process.perform_roster heffect], by simp⟩
  | starts name => exact ⟨[name], rfl, by simp⟩
  | _ => exact ⟨[], by simp [Process.changePlatform], by simp⟩

theorem Run.roster (run : Run machine history later) :
    ∃ more, later.process.roster = machine.process.roster ++ more ∧
      ∀ name ∈ more, .starts name ∈ history := by
  induction run with
  | refl => exact ⟨[], by simp, by simp⟩
  | step first last ih =>
    obtain ⟨more, hroster, hmore⟩ := ih
    obtain ⟨last', hlast, hlast'⟩ := last.roster
    refine ⟨more ++ last', by rw [hlast, hroster, List.append_assoc], fun name hname => ?_⟩
    rcases List.mem_append.mp hname with hname | hname
    · exact List.mem_append_left _ (hmore name hname)
    · simp [hlast' name hname]

/-- A thread that was started keeps its name. -/
theorem Run.tagOf (run : Run machine history later) (ht : t ≤ machine.process.roster.length) :
    later.process.tagOf t = machine.process.tagOf t := by
  obtain ⟨more, hroster, -⟩ := run.roster
  cases t with
  | zero => rfl
  | succ n =>
    have hn : n < machine.process.roster.length := ht
    simp [Process.tagOf, Process.nameOf, hroster, List.getElem?_append_left hn]

/-- The thread read this tag when it was to write a record. If it had been started by then, the tag
is still the thread's. -/
def Tagged (start : Machine) (history : List Label) (now : Machine) (t : ThreadId) (tag : Log.Tag) :
    Prop :=
  ∃ before after reading u resume, history = before ++ after ∧ Run start before reading ∧
    Run reading after now ∧ reading.work t = some ⟨u, .call .tag resume⟩ ∧
    tag = reading.process.tagOf t ∧
    (t ≤ reading.process.roster.length → tag = now.process.tagOf t)

theorem Tagged.step {tag : Log.Tag} {m : Label} (h : Tagged start history now t tag)
    (last : Step now m later) : Tagged start (history ++ [m]) later t tag := by
  obtain ⟨before, after, reading, u, resume, rfl, hbefore, hafter, hwork, htag, -⟩ := h
  have hlater := hafter.step last
  exact ⟨before, after ++ [m], reading, u, resume, List.append_assoc _ _ _, hbefore, hlater, hwork,
    htag, fun ht => htag.trans (hlater.tagOf ht).symm⟩

/-- A tag is of one line if the names of all threads are. -/
theorem Tagged.oneLine {os : Platform} {tag : Log.Tag}
    (h : Tagged (idle (.fresh os)) history now t tag)
    (hnames : ∀ name, .starts (some name) ∈ history → Text.OneLine name) :
    Text.OneLine tag.render := by
  obtain ⟨before, after, reading, u, resume, rfl, hbefore, -, -, rfl, -⟩ := h
  unfold Process.tagOf
  cases hname : reading.process.nameOf t with
  | none => exact Log.Tag.oneLine_numbered t
  | some name =>
    obtain ⟨more, hroster, hmore⟩ := hbefore.roster
    have hmem : some name ∈ reading.process.roster := by
      cases t with
      | zero => cases hname
      | succ n =>
        exact List.mem_of_getElem? (Option.join_eq_some_iff.mp hname)
    rw [hroster] at hmem
    rcases List.mem_append.mp hmem with hmain | hstarted
    · cases List.mem_singleton.mp hmain
      have hmain : Text.OneLine "main" := by decide
      exact hmain
    · exact hnames name (List.mem_append_left _ (hmore _ hstarted))

/-! ## The invariant -/

/-- What a thread was to log, in its order. -/
def admitted (t : ThreadId) (asked : List (ThreadId × Log.Asked)) :
    List (Log.Level × Log.Message) :=
  ((ownOf t asked).filter Log.Asked.admitted).map Log.Asked.words

/-- What has been written of a record that is not whole yet. -/
def fragment (s : Process) (stages : ThreadId → Log.Stage) : List Log.Chunk :=
  match s.logHolder with
  | some t => (stages t).fragment
  | none => []

/-- A thread with this work is at this stage. -/
def Placed (φ : Log.Stage) : Option Work → Prop
  | some w => Log.AtStage φ w.rest
  | none => φ = .silent

/-- Every thread is where its stage says, and what has been written is what the stages say. -/
structure Framed (start : Machine) (history : List Label) (asked : List (ThreadId × Log.Asked))
    (now : Machine) (stages : ThreadId → Log.Stage) (records : List (ThreadId × Log.Record)) :
    Prop where
  placed : ∀ t, Placed (stages t) (now.work t)
  holder : ∀ t, (stages t).Holds ↔ now.process.logHolder = some t
  written : written history =
    records.flatMap (fun e => e.2.chunks) ++ fragment now.process stages
  pending : ∀ t, admitted t asked = (ownOf t records).map Log.Record.words ++ (stages t).pending
  tagged : ∀ e ∈ records, Tagged start history now e.1 e.2.tag
  tagging : ∀ t r, (stages t).record? = some r → Tagged start history now t r.tag

theorem written_append (first more : List Label) :
    written (first ++ more) = written first ++ written more :=
  List.flatMap_append

theorem admitted_append (t : ThreadId) (first more : List (ThreadId × Log.Asked)) :
    admitted t (first ++ more) = admitted t first ++ admitted t more := by
  simp [admitted, ownOf_append]

variable {asked : List (ThreadId × Log.Asked)} {stages : ThreadId → Log.Stage}
  {records : List (ThreadId × Log.Record)}

theorem framed_start (s : Process) (hs : s.logHolder = none) :
    Framed (idle s) [] [] (idle s) (fun _ => .silent) [] where
  placed t := rfl
  holder t := by simp [Log.Stage.Holds, idle, hs]
  written := by simp [Machine.written, fragment, idle, hs]
  pending t := rfl
  tagged e he := by cases he
  tagging t r hr := by cases hr

/-- Nothing is logged while no access is made. -/
theorem Framed.still {m : Label} (h : Framed start history asked now stages records)
    (last : Step now m later) (hholder : later.process.logHolder = now.process.logHolder)
    (hwritten : Machine.written [m] = [])
    (hplaced : ∀ t, Placed (stages t) (later.work t)) :
    Framed start (history ++ [m]) asked later stages records where
  placed := hplaced
  holder t := by rw [hholder]; exact h.holder t
  written := by
    have hfragment : fragment later.process stages = fragment now.process stages := by
      simp only [fragment, hholder]
    rw [written_append, hwritten, List.append_nil, h.written, hfragment]
  pending := h.pending
  tagged e he := (h.tagged e he).step last
  tagging t r hr := (h.tagging t r hr).step last

section Access

variable {u : Use} {a : Access} {resume : a.Answer → Action Session.Answer}
  {effect : Effect a.Answer} {added : Option Log.Asked} {φ : Log.Stage}

/-- The log is held by the thread whose stage holds it. -/
theorem Framed.holder_access (h : Framed start history asked now stages records)
    (heffect : now.process.perform t a = some effect)
    (moves : (stages t).Moves ⟨a, effect.answer⟩ added φ) (v : ThreadId) :
    (setStage stages t φ v).Holds ↔ effect.process.logHolder = some v := by
  have hafter : effect.process.logHolder = _ := Process.holder_perform heffect .log
  rw [hafter]
  have hown := moves.holds_iff
  by_cases htakes : a.takes? effect.answer = some .log
  · have hfree : now.process.logHolder = none := (Process.perform_takes heffect htakes).2
    have hnobody (w : ThreadId) : ¬(stages w).Holds := by simp [h.holder, hfree]
    rw [if_pos htakes]
    refine forall_setStage (P := fun v (φ : Log.Stage) => φ.Holds ↔ some t = some v) ?_
      (fun v hv => ?_) v
    · simp [hown, htakes]
    · simp [hnobody v, Ne.symm hv]
  · rw [if_neg htakes]
    by_cases hleaves : a.leaves? = some .log
    · have hholds : (stages t).Holds :=
        Classical.byContradiction fun hnot => (moves.of_not_holds hnot).2 hleaves
      have hholder := (h.holder t).mp hholds
      rw [if_pos hleaves]
      refine forall_setStage (P := fun v (φ : Log.Stage) => φ.Holds ↔ none = some v) ?_
        (fun v hv => ?_) v
      · simp [hown, htakes, hleaves]
      · simp [h.holder, hholder, Ne.symm hv]
    · rw [if_neg hleaves]
      refine forall_setStage
        (P := fun v (φ : Log.Stage) => φ.Holds ↔ now.process.logHolder = some v) ?_
        (fun v _ => h.holder v) v
      rw [hown, ← h.holder t]
      simp [htakes, hleaves]

/-- If nobody else has begun a record, what has been begun is begun by this thread. -/
theorem fragment_eq {s : Process} (hholder : ∀ t, (stages t).Holds ↔ s.logHolder = some t)
    (hothers : ∀ v, v ≠ t → (stages v).fragment = []) :
    fragment s stages = (stages t).fragment := by
  have hown (hne : s.logHolder ≠ some t) : (stages t).fragment = [] :=
    Log.Stage.fragment_of_not_holds fun hholds => hne ((hholder t).mp hholds)
  unfold fragment
  cases hlog : s.logHolder with
  | none => exact (hown (by simp [hlog])).symm
  | some v =>
    by_cases hv : v = t
    · subst hv
      rfl
    · exact (hothers v hv).trans (hown (by simp [hlog, hv])).symm

/-- What is written goes to the record that its thread has begun, as nobody else has begun one. -/
theorem Framed.fragment_access (h : Framed start history asked now stages records)
    (heffect : now.process.perform t a = some effect)
    (moves : (stages t).Moves ⟨a, effect.answer⟩ added φ) :
    fragment now.process stages ++ a.chunks =
      (stages t).completed.flatMap Log.Record.chunks ++
        fragment effect.process (setStage stages t φ) := by
  have hholder := h.holder_access heffect moves
  by_cases hother : ∃ v, v ≠ t ∧ now.process.logHolder = some v
  · obtain ⟨v, hv, hlog⟩ := hother
    have hnot : ¬(stages t).Holds := fun hholds => by
      rw [(h.holder t).mp hholds] at hlog
      exact hv (Option.some.inj hlog).symm
    have hlater : effect.process.logHolder = some v := by
      rw [← hholder v, setStage_other stages φ hv]
      exact (h.holder v).mpr hlog
    rw [(moves.of_not_holds hnot).1, Log.Stage.completed_of_not_holds hnot]
    simp [fragment, hlog, hlater, setStage_other stages φ hv]
  · have hothers (v : ThreadId) (hv : v ≠ t) : (stages v).fragment = [] :=
      Log.Stage.fragment_of_not_holds fun hholds => hother ⟨v, hv, (h.holder v).mp hholds⟩
    have hothers' (v : ThreadId) (hv : v ≠ t) : (setStage stages t φ v).fragment = [] := by
      rw [setStage_other stages φ hv]
      exact hothers v hv
    rw [fragment_eq h.holder hothers, fragment_eq hholder hothers', setStage_same]
    exact moves.chunks_eq

/-- A record's tag was read just now, or before. -/
theorem Framed.tagging_access (h : Framed start history asked now stages records)
    (run : Run start history now) (hwork : now.work t = some ⟨u, .call a resume⟩)
    (heffect : now.process.perform t a = some effect)
    (moves : (stages t).Moves ⟨a, effect.answer⟩ added φ)
    (last : Step now (.access t u a effect.answer) later) (v : ThreadId) (r : Log.Record)
    (hr : (setStage stages t φ v).record? = some r) :
    Tagged start (history ++ [.access t u a effect.answer]) later v r.tag := by
  by_cases hv : v = t
  · subst hv
    rw [setStage_same] at hr
    rcases moves.record_of r hr with hbefore | hnow
    · exact (h.tagging v r hbefore).step last
    · cases a with
      | tag =>
        have htag : r.tag = now.process.tagOf v := by
          rw [← eq_of_heq (Signature.Exchange.mk.inj hnow).2]
          cases heffect
          rfl
        exact ⟨history, _, now, u, resume, rfl, run, run_single.mpr last, hwork, htag,
          fun ht => htag.trans ((run_single.mpr last).tagOf ht).symm⟩
      | _ => cases hnow
  · rw [setStage_other stages φ hv] at hr
    exact (h.tagging v r hr).step last

/-- What is pending grows by what its thread judged and shrinks by what the thread completed. -/
theorem Framed.pending_access (h : Framed start history asked now stages records)
    (moves : (stages t).Moves ⟨a, effect.answer⟩ added φ) (v : ThreadId) :
    admitted v (asked ++ added.toList.map (Prod.mk t)) =
      (ownOf v (records ++ (stages t).completed.map (Prod.mk t))).map Log.Record.words ++
        (setStage stages t φ v).pending := by
  rw [admitted_append, ownOf_append, h.pending v]
  by_cases hv : v = t
  · subst hv
    simp only [admitted, ownOf_same, setStage_same, List.map_append, List.append_assoc]
    rw [moves.pending_eq]
  · simp [admitted, ownOf_other hv, setStage_other stages φ hv]

/-- An access, with what is judged and what is completed by it. -/
theorem Framed.access (h : Framed start history asked now stages records)
    (run : Run start history now) (hwork : now.work t = some ⟨u, .call a resume⟩)
    (heffect : now.process.perform t a = some effect)
    (moves : (stages t).Moves ⟨a, effect.answer⟩ added φ)
    (hstage : Log.AtStage φ (resume effect.answer)) :
    Framed start (history ++ [.access t u a effect.answer])
      (asked ++ added.toList.map (Prod.mk t))
      ⟨effect.process, now.setWork t (some ⟨u, resume effect.answer⟩)⟩ (setStage stages t φ)
      (records ++ (stages t).completed.map (Prod.mk t)) := by
  have last : Step now (.access t u a effect.answer)
      ⟨effect.process, now.setWork t (some ⟨u, resume effect.answer⟩)⟩ :=
    .access hwork (.made heffect)
  refine ⟨forall_setWork h.placed hstage, h.holder_access heffect moves, ?written,
    h.pending_access moves, ?tagged, h.tagging_access run hwork heffect moves last⟩
  case written =>
    have hone : Machine.written [.access t u a effect.answer] = a.chunks := by
      simp [Machine.written]
    calc Machine.written (history ++ [.access t u a effect.answer])
        = records.flatMap (fun e => e.2.chunks) ++ (fragment now.process stages ++ a.chunks) := by
          rw [written_append, hone, h.written, List.append_assoc]
      _ = _ := by
          rw [h.fragment_access heffect moves, ← List.append_assoc, List.flatMap_append,
            List.flatMap_map]
  case tagged =>
    intro e he
    rcases List.mem_append.mp he with he | he
    · exact (h.tagged e he).step last
    · obtain ⟨r, hr, rfl⟩ := List.mem_map.mp he
      exact (h.tagging t r (Log.Stage.record_of_completed hr)).step last

end Access

/-! ## Every run -/

/-- What a thread judges when it reads the level. -/
theorem judging_access {u : Use} {a : Access} {resume : a.Answer → Action Session.Answer}
    {answer : a.Answer} (hwork : now.work t = some ⟨u, .call a resume⟩)
    {q : ThreadId × Log.Asked} :
    now.Judging (.access t u a answer) q ↔
      q.1 = t ∧ (⟨a, answer⟩ : Accesses.Exchange) = ⟨.loadLevel, q.2.limit⟩ ∧
        Log.Judges (.call a resume) q.2.level q.2.message := by
  constructor
  · intro hm
    cases hm with
    | mk limit hwork' hjudges =>
      cases hwork.symm.trans hwork'
      exact ⟨rfl, rfl, hjudges⟩
  · obtain ⟨v, level, message, limit⟩ := q
    rintro ⟨rfl, hanswer, hjudges⟩
    cases hanswer
    exact .mk _ hwork hjudges

/-- One step, with what is judged in it. -/
theorem Framed.step {m : Label} (h : Framed start history asked now stages records)
    (run : Run start history now) (last : Step now m later) :
    ∃ (added : Option (ThreadId × Log.Asked)) (stages' : ThreadId → Log.Stage)
      (records' : List (ThreadId × Log.Record)),
      Framed start (history ++ [m]) (asked ++ added.toList) later stages' records' ∧
        ∀ q, added = some q ↔ now.Judging m q := by
  have hsilent (hm : ∀ q, ¬now.Judging m q)
      (hframed : Framed start (history ++ [m]) asked later stages records) :
      ∃ (added : Option (ThreadId × Log.Asked)) (stages' : ThreadId → Log.Stage)
        (records' : List (ThreadId × Log.Record)),
        Framed start (history ++ [m]) (asked ++ added.toList) later stages' records' ∧
          ∀ q, added = some q ↔ now.Judging m q :=
    ⟨none, stages, records, by simpa using hframed,
      fun q => ⟨fun heq => (by cases heq), fun hjudging => absurd hjudging (hm q)⟩⟩
  cases last with
  | @begins t u hidle =>
    have hown : Placed (stages t) (some ⟨u, u.action⟩) := by
      have hstage : stages t = .silent := by simpa [hidle, Placed] using h.placed t
      rw [hstage]
      exact Log.atStage_action u
    have hplaced := forall_setWork (t := t) h.placed hown
    rw [setStage_self] at hplaced
    exact hsilent (fun q hm => by cases hm) (h.still (.begins u hidle) rfl rfl hplaced)
  | @ends t u rest result hwork hresult =>
    have hown : Placed (stages t) none := by
      have hstage : Log.AtStage (stages t) rest := by simpa [hwork, Placed] using h.placed t
      exact hstage.silent hresult
    have hplaced := forall_setWork (t := t) h.placed hown
    rw [setStage_self] at hplaced
    exact hsilent (fun q hm => by cases hm) (h.still (.ends hwork hresult) rfl rfl hplaced)
  | changes c =>
    exact hsilent (fun q hm => by cases hm) (h.still (.changes now c) rfl rfl h.placed)
  | starts name =>
    exact hsilent (fun q hm => by cases hm) (h.still (.starts now name) rfl rfl h.placed)
  | @access t u _ _ a effect hwork hnext =>
    obtain ⟨resume, rfl, heffect, rfl⟩ := hnext
    have hstage : Log.AtStage (stages t) (.call a resume) := by
      simpa [hwork, Placed] using h.placed t
    obtain ⟨added, φ, moves, hrest, hjudges⟩ := hstage.step effect.answer
    refine ⟨added.map (Prod.mk t), setStage stages t φ,
      records ++ (stages t).completed.map (Prod.mk t), ?_, fun q => ?_⟩
    · have hlist : (added.map (Prod.mk t)).toList = added.toList.map (Prod.mk t) := by
        cases added <;> rfl
      rw [hlist]
      exact h.access run hwork heffect moves hrest
    · rw [judging_access hwork]
      constructor
      · rintro hq
        obtain ⟨asked, rfl, rfl⟩ := Option.map_eq_some_iff.mp hq
        exact ⟨rfl, moves.limit rfl, (hjudges _ _).mp rfl⟩
      · obtain ⟨v, level, message, limit⟩ := q
        rintro ⟨rfl, hlimit, hq⟩
        obtain ⟨asked, rfl, hwords⟩ := Option.map_eq_some_iff.mp ((hjudges _ _).mpr hq)
        have hsame : asked.limit = limit :=
          eq_of_heq (Signature.Exchange.mk.inj ((moves.limit rfl).symm.trans hlimit)).2
        obtain ⟨level', message', limit'⟩ := asked
        cases hwords
        cases hsame
        rfl

/-- In every run each thread is at some stage. -/
theorem JudgedRun.framed {s : Process} (hs : s.logHolder = none)
    (judged : JudgedRun (idle s) history asked now) :
    ∃ stages records, Framed (idle s) history asked now stages records := by
  induction judged with
  | refl => exact ⟨_, _, framed_start s hs⟩
  | @asks now later history asked m a first last hm ih =>
    obtain ⟨stages, records, h⟩ := ih
    obtain ⟨added, stages', records', h', hadded⟩ := h.step first.run last
    rw [(hadded a).mpr hm] at h'
    exact ⟨stages', records', h'⟩
  | @other now later history asked m first last hm ih =>
    obtain ⟨stages, records, h⟩ := ih
    obtain ⟨added, stages', records', h', hadded⟩ := h.step first.run last
    cases added with
    | none =>
      rw [Option.toList_none, List.append_nil] at h'
      exact ⟨stages', records', h'⟩
    | some a => exact absurd ((hadded a).mp rfl) (hm a)

/-- Whoever writes a message to the log judges it, unless its level is off, and then nothing is
done. What is written in any run, by any number of threads at once and under every schedule, is
whole records, and a record that is begun only while its thread holds the log. There is one record
for each message that was judged, if its level is not off and not above the level then found in
force, in the order in which its thread asked; the last one may be pending while the thread is about
to read its tag, to take the log or to write. A record carries the tag of its thread, and unless a
thread's name breaks it, what the library says of itself stays on one line. -/
theorem log_whole_records {os : Platform} (run : Run (idle (.fresh os)) history now)
    (naming : Log.Naming) :
    (∀ message, Log.write .off message = .done ()) ∧
    (∀ level message, level ≠ .off →
      Log.write level message = (Log.load >>= fun _ => Log.judge level message)) ∧
    (∃ asked, JudgedRun (idle (.fresh os)) history asked now) ∧
    ∀ asked, JudgedRun (idle (.fresh os)) history asked now →
      ∃ (records : List (ThreadId × Log.Record)) (begun : List Log.Chunk)
        (pending : ThreadId → List (Log.Level × Log.Message)),
        written history = records.flatMap (fun e => e.2.chunks) ++ begun ∧
        Log.renderChunks naming (written history) =
          String.join (records.map fun e => e.2.line naming ++ "\n") ++
            Log.renderChunks naming begun ∧
        (begun ≠ [] → ∃ (t : ThreadId) (r : Log.Record) (left : List Log.Chunk),
          now.process.logHolder = some t ∧ pending t = [r.words] ∧ r.chunks = begun ++ left ∧
          left ≠ [] ∧ Tagged (idle (.fresh os)) history now t r.tag) ∧
        (∀ t, admitted t asked = (ownOf t records).map Log.Record.words ++ pending t) ∧
        (∀ t, (pending t).length ≤ 1 ∧ (pending t ≠ [] → ∃ u a resume,
          now.work t = some ⟨u, .call a resume⟩ ∧ a.OfRecord)) ∧
        (∀ e ∈ records, Tagged (idle (.fresh os)) history now e.1 e.2.tag) ∧
        (naming.OneLine → (∀ name, .starts (some name) ∈ history → Text.OneLine name) →
          ∀ e ∈ records, e.2.message.OfLibrary → Text.OneLine (e.2.line naming)) := by
  refine ⟨Log.write_off, fun _ message hlevel => Log.write_eq hlevel message, run.judgedRun,
    fun asked judged => ?_⟩
  obtain ⟨stages, records, h⟩ := judged.framed rfl
  refine ⟨records, fragment now.process stages, fun t => (stages t).pending, h.written, ?rendered,
    ?begun, h.pending, ?pending, h.tagged, fun hnaming hnames e he hlibrary => ?oneLine⟩
  case rendered =>
    rw [h.written, Log.renderChunks_append, Log.renderChunks_records]
  case begun =>
    intro hbegun
    cases hlog : now.process.logHolder with
    | none => simp [fragment, hlog] at hbegun
    | some t =>
      have hfragment : fragment now.process stages = (stages t).fragment := by
        simp [fragment, hlog]
      rw [hfragment] at hbegun ⊢
      obtain ⟨r, left, hrecord, hpending, hchunks, hleft⟩ := Log.Stage.of_fragment hbegun
      exact ⟨t, r, left, rfl, hpending, hchunks, hleft, h.tagging t r hrecord⟩
  case pending =>
    intro t
    dsimp only
    have hplaced := h.placed t
    cases hwork : now.work t with
    | none =>
      rw [hwork] at hplaced
      rw [show stages t = .silent from hplaced]
      exact ⟨Nat.zero_le 1, fun hne => absurd rfl hne⟩
    | some w =>
      rw [hwork] at hplaced
      obtain ⟨hone, hnext⟩ := Log.AtStage.pending hplaced
      refine ⟨hone, fun hne => ?_⟩
      obtain ⟨a, resume, hrest, ha⟩ := hnext hne
      exact ⟨w.use, a, resume, by rw [← hrest], ha⟩
  case oneLine =>
    exact Log.Record.oneLine_line hnaming ((h.tagged e he).oneLine hnames) hlibrary

/-- The main thread warns while thread 2, which has no name, looks for the slot base and is told a
release of two lines. Thread 2 has to wait for the log until the main thread's record is whole. -/
def contendedLog : List Label × Machine :=
  (idle (.fresh (.fresh (.field [120, 10, 121]) (.plain 0)))).follow <|
    [.begin 1 (.service (.log .warn "first")), .begin 2 (.service .processBase)] ++
    List.replicate 10 (.go 1) ++ List.replicate 7 (.go 2) ++ List.replicate 5 (.go 1) ++
    List.replicate 8 (.go 2)

/-- Addresses are not spelled out, and keys by their numbers. -/
def plainNaming : Log.Naming := ⟨fun _ => "0x", toString⟩

theorem log_whole_records_contended :
    written contendedLog.1 =
      Log.Record.chunks ⟨.warn, .named "main", .text "first"⟩ ++
        Log.Record.chunks ⟨.warn, .numbered 2, .probed (.failed (.malformed "x\ny"))⟩ ∧
    contendedLog.2.work 1 = none ∧ contendedLog.2.work 2 = none ∧
    ∃ asked records, JudgedRun (idle (.fresh (.fresh (.field [120, 10, 121]) (.plain 0))))
        contendedLog.1 asked contendedLog.2 ∧
      written contendedLog.1 = records.flatMap (fun e => e.2.chunks) ∧
      (∀ t, contendedLog.2.work t = none →
        admitted t asked = (ownOf t records).map Log.Record.words) ∧
      ∀ e ∈ records, e.2.message.OfLibrary → Text.OneLine (e.2.line plainNaming) := by
  have run : Run (idle (.fresh (.fresh (.field [120, 10, 121]) (.plain 0)))) contendedLog.1
      contendedLog.2 := run_follow _ _
  have haddress : Text.OneLine "0x" := by decide
  have hnaming : plainNaming.OneLine := ⟨fun _ => haddress, Text.oneLine_nat⟩
  have hnobody : contendedLog.2.process.logHolder = none := rfl
  have hthreads : contendedLog.1.all (fun m => m.thread?.isSome) = true := rfl
  have hnames (name : String) : .starts (some name) ∉ contendedLog.1 := fun hname => by
    cases List.all_eq_true.mp hthreads _ hname
  obtain ⟨-, -, ⟨asked, judged⟩, hall⟩ := log_whole_records run plainNaming
  obtain ⟨records, begun, pending, hwritten, -, hbegun, hadmitted, hpending, -, hline⟩ :=
    hall asked judged
  refine ⟨rfl, rfl, rfl, asked, records, judged, ?_, fun t ht => ?_,
    hline hnaming fun name hname => absurd hname (hnames name)⟩
  · have hnone : begun = [] := Classical.byContradiction fun hne => by
      obtain ⟨t, r, left, hholder, -⟩ := hbegun hne
      rw [hnobody] at hholder
      cases hholder
    rw [hwritten, hnone, List.append_nil]
  · have hnone : pending t = [] := Classical.byContradiction fun hne => by
      obtain ⟨u, a, resume, hwork, -⟩ := (hpending t).2 hne
      rw [ht] at hwork
      cases hwork
    rw [hadmitted t, hnone, List.append_nil]

end Machine

end ExecContext
