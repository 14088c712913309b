import ExecContext.Proofs.Interleaving.Tidy
import Mathlib.Data.List.Induction

set_option autoImplicit false

/-!
# Cells and locks under every schedule

Whatever a machine does, each lock is held by the thread that the rules say holds it, and by no
other. Hence a full cell stays full with its value, a cell is filled with what its initialiser
returned to the one thread that took the cell on, and a cell whose initialiser never fails is taken
on once.
-/

namespace ExecContext

/-! ## One access -/

section Access

variable {u : Use} {φ : LockState} {a : Access} {answer : a.Answer} {l : Lock}

theorem Allowed.below (h : Allowed u φ a) (hwants : a.wants? = some l) : φ.Below l := by
  cases a with
  | enter c => cases hwants; exact h
  | lockLog => cases hwants; exact h
  | _ => cases hwants

theorem Allowed.innermost (h : Allowed u φ a) (hleaves : a.leaves? = some l) :
    φ.locks.head? = some l := by
  have hhead {made : List Accesses.Exchange} (h : φ.holds.head? = some ⟨l, made⟩) :
      φ.locks.head? = some l := by
    rw [LockState.locks, List.head?_map, h]
    rfl
  cases a with
  | publish c value =>
    cases hleaves
    obtain ⟨made, hmade, -⟩ := h
    exact hhead hmade
  | abandon c =>
    cases hleaves
    obtain ⟨made, cause, hmade, -⟩ := h
    exact hhead hmade
  | unlockLog =>
    cases hleaves
    obtain ⟨r, flush, hmade⟩ := h
    exact hhead hmade
  | _ => cases hleaves

/-- The locks after an access: one more, or one less, or the same. -/
theorem locks_record (φ : LockState) (a : Access) (answer : a.Answer) :
    (φ.record a answer).locks =
      match a.takes? answer with
      | some l => l :: φ.locks
      | none => if a.leaves?.isSome then φ.locks.tail else φ.locks := by
  unfold LockState.record LockState.locks
  cases a.takes? answer with
  | some l => simp [LockState.extend, Hold.extend]
  | none =>
    cases a.leaves? <;>
      simp [LockState.extend, Hold.extend, Function.comp_def, List.map_tail]

/-- What is held after an access was taken by it, or was held before. -/
theorem mem_holds_record {h : Hold} (hmem : h ∈ (φ.record a answer).holds) :
    (a.takes? answer = some h.lock ∧ h.made = []) ∨
      ∃ earlier ∈ φ.holds, h = earlier.extend [⟨a, answer⟩] := by
  have hextend (hmem : h ∈ φ.extend [⟨a, answer⟩]) :
      ∃ earlier ∈ φ.holds, h = earlier.extend [⟨a, answer⟩] := by
    obtain ⟨earlier, hearlier, heq⟩ := List.mem_map.mp hmem
    exact ⟨earlier, hearlier, heq.symm⟩
  unfold LockState.record at hmem
  cases htakes : a.takes? answer with
  | some taken =>
    simp only [htakes, List.mem_cons] at hmem
    rcases hmem with rfl | hmem
    · exact Or.inl ⟨rfl, rfl⟩
    · exact Or.inr (hextend hmem)
  | none =>
    cases hleaves : a.leaves? with
    | none =>
      simp only [htakes, hleaves] at hmem
      exact Or.inr (hextend hmem)
    | some left =>
      simp only [htakes, hleaves] at hmem
      exact Or.inr (hextend (List.mem_of_mem_tail hmem))

theorem leaves_of_takes (h : a.takes? answer = some l) : a.leaves? = none := by
  cases a with
  | enter c => rfl
  | lockLog => rfl
  | _ => cases h

/-- A lock is held after an access if it was taken, or was held and not given back. -/
theorem mem_locks_record
    (hordered : φ.locks.Pairwise fun inner outer => outer.layer < inner.layer)
    (h : Allowed u φ a) :
    l ∈ (φ.record a answer).locks ↔
      a.takes? answer = some l ∨ a.leaves? ≠ some l ∧ l ∈ φ.locks := by
  rw [locks_record]
  cases htakes : a.takes? answer with
  | some taken => simp [leaves_of_takes htakes, eq_comm]
  | none =>
    cases hleaves : a.leaves? with
    | none => simp
    | some left =>
      obtain ⟨rest, hrest⟩ := List.head?_eq_some_iff.mp (h.innermost hleaves)
      rw [hrest, List.pairwise_cons] at hordered
      -- the lock given back is held once only, as locks are taken in strict order
      have hnot : left ∉ rest := fun hmem => Nat.lt_irrefl _ (hordered.1 left hmem)
      rw [hrest]
      by_cases hl : left = l
      · subst hl
        simp [hnot]
      · simp [hl, Ne.symm hl]

theorem takes_cell {c : Cell} (h : a.takes? answer = some (.cell c)) :
    (⟨a, answer⟩ : Accesses.Exchange) = ⟨.enter c, none⟩ := by
  cases a with
  | enter d =>
    cases answer with
    | some value => cases h
    | none => cases h; rfl
  | lockLog => cases h
  | _ => cases h

theorem shows_settings (h : a.shows? answer = some .settings) :
    Access.Shows .settings () ⟨a, answer⟩ := by
  cases a with
  | enter d =>
    cases answer with
    | none => cases h
    | some value => cases h; exact Or.inl rfl
  | publish d value => cases h; exact Or.inr rfl
  | _ => cases h

end Access

/-! ## The process and its threads -/

/-- The locks are held by the threads that hold them by the rules, in the order of their layers. -/
structure Agreed (s : Process) (stages : ThreadId → LockState) : Prop where
  holder : ∀ t l, s.holder l = some t ↔ l ∈ (stages t).locks
  ordered : ∀ t, (stages t).locks.Pairwise fun inner outer => outer.layer < inner.layer
  loaded : ∀ t, (stages t).loaded = true → s.cells .settings = .full ()

namespace Agreed

variable {s : Process} {stages : ThreadId → LockState} {t : ThreadId} {u : Use} {a : Access}
  {effect : Effect a.Answer} {l : Lock}

theorem holder_of_head (h : Agreed s stages) (hhead : (stages t).locks.head? = some l) :
    s.holder l = some t :=
  (h.holder t l).mpr (List.mem_of_mem_head? hhead)

/-- A lock is given back by the thread that holds it. -/
theorem holder_of_leaves (h : Agreed s stages) (hallowed : Allowed u (stages t) a)
    (hleaves : a.leaves? = some l) : s.holder l = some t :=
  h.holder_of_head (hallowed.innermost hleaves)

/-- A full cell stays as it is. -/
theorem cells_full (h : Agreed s stages) (hallowed : Allowed u (stages t) a)
    (heffect : s.perform t a = some effect) {c : Cell} {value : c.Content}
    (hcell : s.cells c = .full value) : effect.process.cells c = .full value := by
  refine Process.cells_perform heffect hcell fun hleaves => ?_
  have hholder := h.holder_of_leaves hallowed hleaves
  simp [Process.holder, hcell, Once.owner?] at hholder

theorem holder_access (h : Agreed s stages) (hallowed : Allowed u (stages t) a)
    (heffect : s.perform t a = some effect) (v : ThreadId) (l : Lock) :
    effect.process.holder l = some v ↔
      l ∈ (Discipline.setStage stages t ((stages t).record a effect.answer) v).locks := by
  rw [Process.holder_perform heffect l]
  by_cases hv : v = t
  · subst hv
    rw [Discipline.setStage_same, mem_locks_record (h.ordered v) hallowed, ← h.holder v l]
    by_cases htakes : a.takes? effect.answer = some l
    · simp [htakes]
    · by_cases hleaves : a.leaves? = some l
      · simp [htakes, hleaves]
      · simp [htakes, hleaves]
  · rw [Discipline.setStage_other stages _ hv, ← h.holder v l]
    by_cases htakes : a.takes? effect.answer = some l
    · simp [htakes, Ne.symm hv, (Process.perform_takes heffect htakes).2]
    · by_cases hleaves : a.leaves? = some l
      · simp [htakes, hleaves, Ne.symm hv, h.holder_of_leaves hallowed hleaves]
      · simp [htakes, hleaves]

theorem ordered_access (h : Agreed s stages) (hallowed : Allowed u (stages t) a)
    (heffect : s.perform t a = some effect) :
    ((stages t).record a effect.answer).locks.Pairwise fun inner outer =>
      outer.layer < inner.layer := by
  rw [locks_record]
  split
  · rename_i taken htakes
    have hwants := (Process.perform_takes heffect htakes).1
    exact List.pairwise_cons.mpr ⟨hallowed.below hwants, h.ordered t⟩
  · split
    · exact (h.ordered t).tail
    · exact h.ordered t

/-- After a permitted access the locks are held as the rules say. -/
theorem access (h : Agreed s stages) (hallowed : Allowed u (stages t) a)
    (heffect : s.perform t a = some effect) :
    Agreed effect.process
      (Discipline.setStage stages t ((stages t).record a effect.answer)) := by
  refine ⟨h.holder_access hallowed heffect, ?_, ?_⟩
  · exact Discipline.forall_setStage
      (P := fun _ (φ : LockState) => φ.locks.Pairwise fun inner outer => outer.layer < inner.layer)
      (h.ordered_access hallowed heffect) fun v _ => h.ordered v
  · refine Discipline.forall_setStage
      (P := fun _ (φ : LockState) =>
        φ.loaded = true → effect.process.cells .settings = .full ())
      (fun hloaded => ?_) fun v _ hloaded => h.cells_full hallowed heffect (h.loaded v hloaded)
    simp only [LockState.record, Bool.or_eq_true, beq_iff_eq] at hloaded
    rcases hloaded with hloaded | hshows
    · exact h.cells_full hallowed heffect (h.loaded t hloaded)
    · exact Process.cells_of_shows heffect (shows_settings hshows)

/-- The agreement is about the cells and the log's lock only. -/
theorem of_same {s' : Process} (h : Agreed s stages) (hcells : s'.cells = s.cells)
    (hlog : s'.logHolder = s.logHolder) : Agreed s' stages := by
  have hholder (l : Lock) : s'.holder l = s.holder l := by
    cases l <;> simp [Process.holder, hcells, hlog]
  refine ⟨fun t l => ?_, h.ordered, fun t hloaded => ?_⟩
  · rw [hholder l]
    exact h.holder t l
  · rw [hcells]
    exact h.loaded t hloaded

end Agreed

/-! ## Machines -/

/-- Nobody holds a lock. -/
def Process.Unheld (s : Process) : Prop := ∀ l, s.holder l = none

theorem unheld_fresh (os : Platform) : (Process.fresh os).Unheld := by
  intro l
  cases l <;> rfl

/-- What a thread holds and knows after all that happened. -/
def lockState (history : List Label) (t : ThreadId) : LockState :=
  LockState.start.after (exchanges t history)

theorem lockState_append (first more : List Label) (t : ThreadId) :
    lockState (first ++ more) t = (lockState first t).after (exchanges t more) := by
  rw [lockState, Machine.exchanges_append, LockState.after_append]
  rfl

/-- An access is recorded for the thread that makes it. -/
theorem lockState_access (history : List Label) (t : ThreadId) (u : Use) (a : Access)
    (answer : a.Answer) :
    lockState (history ++ [.access t u a answer]) =
      Discipline.setStage (lockState history) t ((lockState history t).record a answer) := by
  funext v
  rw [lockState_append]
  by_cases hv : v = t
  · subst hv
    simp [exchanges, LockState.after]
  · have hnone : exchanges v [.access t u a answer] = [] :=
      Machine.exchanges_other (by simp [Label.thread?, Ne.symm hv])
    rw [Discipline.setStage_other _ _ hv, hnone]
    rfl

/-- Nothing is recorded where no access is made. -/
theorem lockState_quiet (history : List Label) {m : Label} (h : ∀ t, exchanges t [m] = []) :
    lockState (history ++ [m]) = lockState history := by
  funext t
  rw [lockState_append, h t]
  rfl

namespace Machine

variable {s : Process} {machine now later : Machine} {history before after : List Label}
  {t : ThreadId}

/-- What remains to be run of a thread's use obeys the rules; an idle thread holds nothing. -/
def Fits (φ : LockState) : Option Work → Prop
  | none => φ.holds = []
  | some w => (rules w.use).Obeys (fun φ' _ => φ'.holds = []) w.rest φ

/-- The process and the work of every thread are as the rules say. -/
structure Lawful (history : List Label) (machine : Machine) : Prop where
  agreed : Agreed machine.process (lockState history)
  fits : ∀ t, Fits (lockState history t) (machine.work t)

/-- A thread that holds nothing obeys the rules in any use, and holds nothing after it. -/
theorem fits_action {φ : LockState} (h : φ.holds = []) (u : Use) : Fits φ (some ⟨u, u.action⟩) := by
  have hunder : φ.Under 0 := by
    simp [LockState.Under, LockState.locks, h]
  have hfollows : Follows φ.holds u.action := by
    rw [h]
    intro c made hmem
    cases hmem
  refine Discipline.Obeys.mono (tidy_action hunder u hfollows) ?_
  rintro φ' result ⟨⟨made, -, hholds⟩, -, -⟩
  simp [hholds, LockState.extend, h]

/-- When one thread moves on, the others fit as before. -/
theorem fits_setWork {stages : ThreadId → LockState} (hfits : ∀ v, Fits (stages v) (machine.work v))
    {w : Option Work} {φ : LockState} (hown : Fits φ w) (v : ThreadId) :
    Fits (Discipline.setStage stages t φ v) (machine.setWork t w v) :=
  forall_setWork hfits hown v

/-- A thread may begin a use where it held nothing, and end it where it holds nothing. -/
theorem Lawful.setWork (h : Lawful history machine) {m : Label} (hm : ∀ v, exchanges v [m] = [])
    {w : Option Work} (hw : Fits (lockState history t) w) :
    Lawful (history ++ [m]) ⟨machine.process, machine.setWork t w⟩ := by
  refine ⟨?_, fun v => ?_⟩ <;> rw [lockState_quiet history hm]
  · exact h.agreed
  · have hv := fits_setWork (t := t) h.fits hw v
    rwa [Discipline.setStage_self] at hv

/-- What concerns no thread and no lock changes nothing here. -/
theorem Lawful.aside (h : Lawful history machine) {m : Label} (hm : ∀ v, exchanges v [m] = [])
    {s' : Process} (hcells : s'.cells = machine.process.cells)
    (hlog : s'.logHolder = machine.process.logHolder) :
    Lawful (history ++ [m]) ⟨s', machine.work⟩ := by
  refine ⟨?_, fun v => ?_⟩ <;> rw [lockState_quiet history hm]
  · exact h.agreed.of_same hcells hlog
  · exact h.fits v

theorem Lawful.step {m : Label} (h : Lawful history machine) (step : Step machine m later) :
    Lawful (history ++ [m]) later := by
  cases step with
  | @begins t u hidle =>
    have hrest := h.fits t
    rw [hidle] at hrest
    exact h.setWork (fun _ => rfl) (fits_action hrest u)
  | @access t u _ _ a effect hnow hnext =>
    obtain ⟨resume, rfl, heffect, rfl⟩ := hnext
    have hobeys := h.fits t
    rw [hnow] at hobeys
    obtain ⟨⟨hallowed, -⟩, hresume⟩ := hobeys
    have hown : Fits ((lockState history t).record a effect.answer)
        (some ⟨u, resume effect.answer⟩) := hresume effect.answer _ rfl
    refine ⟨?_, fun v => ?_⟩ <;> rw [lockState_access]
    · exact h.agreed.access hallowed heffect
    · exact fits_setWork h.fits hown v
  | @ends t u rest result hnow hresult =>
    have hend := h.fits t
    rw [hnow, Program.result?_eq_some.mp hresult] at hend
    refine h.setWork (fun _ => rfl) ?_
    cases result with
    | ok answer => exact hend
    | error cause => exact hend
  | changes c => exact h.aside (fun _ => rfl) rfl rfl
  | starts name => exact h.aside (fun _ => rfl) rfl rfl

theorem lawful_idle (hs : s.Unheld) : Lawful [] (idle s) := by
  refine ⟨⟨fun t l => ?_, fun t => List.Pairwise.nil, fun t hloaded => ?_⟩, fun _ => rfl⟩
  · change s.holder l = some t ↔ l ∈ []
    simp [hs l]
  · cases hloaded

/-- Every machine that starts with nobody holding a lock is lawful at all times. -/
theorem Run.lawful (hs : s.Unheld) (run : Run (idle s) history machine) :
    Lawful history machine := by
  generalize hstart : idle s = start at run
  induction run with
  | refl =>
    subst hstart
    exact lawful_idle hs
  | step first last ih => exact ih.step last

/-- Each access was allowed when it was made. -/
theorem Run.allowed (hs : s.Unheld) {u : Use} {a : Access} {answer : a.Answer}
    (run : Run (idle s) (before ++ .access t u a answer :: after) later) :
    Allowed u (lockState before t) a := by
  obtain ⟨now, next, resume, effect, hbefore, hwork, -⟩ := run.accessed
  have hfits := (hbefore.lawful hs).fits t
  rw [hwork] at hfits
  exact hfits.1.1

/-- Each access was allowed already by what the thread had done in the same use. -/
theorem Run.allowed_within {u : Use} {a : Access} {answer : a.Answer}
    (run : Run (idle s) (before ++ .access t u a answer :: after) later) :
    ∃ earlier during, before = earlier ++ .begins t u :: during ∧
      (∀ m ∈ during, m.Within t u) ∧
      Allowed u (LockState.start.after (exchanges t during)) a := by
  obtain ⟨now, next, resume, effect, hbefore, hwork, -⟩ := run.accessed
  obtain ⟨earlier, during, rfl, hwithin, hpath⟩ := hbefore.working hwork
  have hobeys := obeys_path (fits_action (φ := LockState.start) rfl u) hpath
  exact ⟨earlier, during, rfl, hwithin, hobeys.1.1⟩

/-! ## Full cells -/

theorem Lawful.full_step (h : Lawful history machine) {m : Label} (step : Step machine m later)
    {c : Cell} {value : c.Content} (hfull : machine.process.cells c = .full value) :
    later.process.cells c = .full value := by
  cases step with
  | begins u hidle => exact hfull
  | @access t u _ _ a effect hnow hnext =>
    obtain ⟨resume, rfl, heffect, rfl⟩ := hnext
    have hobeys := h.fits t
    rw [hnow] at hobeys
    exact h.agreed.cells_full hobeys.1.1 heffect hfull
  | ends hnow hresult => exact hfull
  | changes c => exact hfull
  | starts name => exact hfull

/-- A full cell stays full with its value. -/
theorem Run.full_stays (hs : s.Unheld) (first : Run (idle s) history now)
    (rest : Run now after later) {c : Cell} {value : c.Content}
    (hfull : now.process.cells c = .full value) : later.process.cells c = .full value := by
  induction rest with
  | refl => exact hfull
  | step more last ih => exact ((first.trans more).lawful hs).full_step last ih

/-- Whatever value a cell was once shown to hold, it holds. -/
theorem Run.shown (hs : s.Unheld) (run : Run (idle s) history later) {u : Use} {a : Access}
    {answer : a.Answer} (hm : .access t u a answer ∈ history) {c : Cell} {value : c.Content}
    (hshows : Access.Shows c value ⟨a, answer⟩) : later.process.cells c = .full value := by
  obtain ⟨before, after, rfl⟩ := List.append_of_mem hm
  obtain ⟨now, next, resume, effect, -, -, heffect, rfl, hone, hnext, -, hafter⟩ := run.accessed
  have hfull : next.process.cells c = .full value := by
    rw [hnext]
    exact Process.cells_of_shows heffect hshows
  exact hone.full_stays hs hafter hfull

/-- What a thread was shown of a cell is what the cell holds. -/
theorem Run.shown_to (hs : s.Unheld) (run : Run (idle s) history later) {during : List Label}
    (hduring : ∀ m ∈ during, m ∈ history) {e : Accesses.Exchange} (he : e ∈ exchanges t during)
    {c : Cell} {value : c.Content} (hshows : Access.Shows c value e) :
    later.process.cells c = .full value := by
  obtain ⟨u, hm⟩ := mem_exchanges.mp he
  exact run.shown hs (hduring _ hm) hshows

/-! ## Filling a cell -/

/-- The accesses under a lock are those made since the lock was taken. -/
theorem hold_split {φ : LockState} (hφ : φ.holds = []) {made inside : List Accesses.Exchange}
    {l : Lock} (h : ⟨l, inside⟩ ∈ (φ.after made).holds) :
    ∃ first a answer, made = first ++ ⟨a, answer⟩ :: inside ∧ a.takes? answer = some l := by
  induction made using List.reverseRecOn generalizing inside with
  | nil =>
    rw [LockState.after, List.foldl_nil, hφ] at h
    cases h
  | append_singleton made e ih =>
    rw [LockState.after_concat] at h
    rcases mem_holds_record h with ⟨htakes, hnil⟩ | ⟨⟨l', inside'⟩, hold, heq⟩
    · obtain rfl : inside = [] := hnil
      exact ⟨made, e.request, e.answer, rfl, htakes⟩
    · cases heq
      obtain ⟨first, a, answer, rfl, htakes⟩ := ih hold
      exact ⟨first, a, answer, by simp, htakes⟩

/-- Under a lock that is still held, less was done before. -/
theorem hold_before {φ : LockState} {made inside more : List Accesses.Exchange} {l : Lock}
    (h : ⟨l, inside ++ more⟩ ∈ (φ.after (made ++ more)).holds) :
    ⟨l, inside⟩ ∈ (φ.after made).holds := by
  induction more using List.reverseRecOn with
  | nil => simpa using h
  | append_singleton more e ih =>
    refine ih ?_
    rw [← List.append_assoc, ← List.append_assoc, LockState.after_concat] at h
    rcases mem_holds_record h with ⟨-, hnil⟩ | ⟨⟨l', inside'⟩, hold, heq⟩
    · exact absurd hnil (by simp)
    · obtain ⟨rfl, hmade⟩ := Hold.mk.inj heq
      obtain ⟨rfl, -⟩ := List.append_inj' hmade rfl
      exact hold

/-- An access of a thread happened at some moment, and so did what the thread did before and
after. -/
theorem exchanges_split {first more : List Accesses.Exchange} {a : Access} {answer : a.Answer}
    (h : exchanges t history = first ++ ⟨a, answer⟩ :: more) :
    ∃ before u after, history = before ++ .access t u a answer :: after ∧
      exchanges t before = first ∧ exchanges t after = more := by
  obtain ⟨before, rest, rfl, hbefore, hrest⟩ := List.filterMap_eq_append_iff.mp h
  obtain ⟨skipped, m, after, rfl, hskipped, hm, hafter⟩ := List.filterMap_eq_cons_iff.mp hrest
  cases m with
  | access v u b reply =>
    simp only at hm
    split at hm
    · rename_i hv
      subst hv
      cases hm
      refine ⟨before ++ skipped, u, after, by simp, ?_, hafter⟩
      have hnone : exchanges v skipped = [] := List.filterMap_eq_nil_iff.mpr hskipped
      rw [exchanges_append, hnone, List.append_nil]
      exact hbefore
    · cases hm
  | _ => cases hm

/-- Thread `t`, in its use `u`, took on cell `c` after `before`, and has been filling it since. -/
structure TookOn (t : ThreadId) (u : Use) (c : Cell) (before during history : List Label) :
    Prop where
  split : history = before ++ .access t u (.enter c) none :: during
  within : ∀ m ∈ during, m.Within t u
  holds : ⟨.cell c, exchanges t during⟩ ∈ (lockState history t).holds

/-- A use that ended made the accesses of a path of its action, each at its moment. -/
theorem Run.made {u : Use} {result : Except Cause Session.Answer}
    (run : Run (idle s) (history ++ .ends t u result :: after) later) :
    ∃ made, u.action.Path made (.ended result) ∧ (∀ e ∈ made, e ∈ exchanges t history) ∧
      ∀ first a answer more, made = first ++ ⟨a, answer⟩ :: more →
        ∃ before during, history = before ++ .access t u a answer :: during ∧
          (∀ e ∈ first, e ∈ exchanges t before) ∧ (∀ m ∈ during, m.Within t u) ∧
          exchanges t during = more := by
  obtain ⟨rest, hrest, earlier, since, rfl, hwithin, hpath⟩ := run.ended
  obtain rfl := Program.result?_eq_some.mp hrest
  refine ⟨_, hpath, fun e he => ?_, fun first a answer more hsplit => ?_⟩
  · rw [exchanges_append]
    exact List.mem_append_right _ he
  · obtain ⟨before, v, during, rfl, rfl, hmore⟩ := exchanges_split hsplit
    obtain rfl : v = u := hwithin (.access t v a answer) (by simp) rfl
    refine ⟨earlier ++ .begins t v :: before, during, by simp, fun e he => ?_,
      fun m hm => hwithin m (by simp [hm]), hmore⟩
    rw [exchanges_append]
    exact List.mem_append_right _ he

/-- A thread that fills a cell has had it all the time since it took it on. -/
theorem TookOn.busy (hs : s.Unheld) {u : Use} {c : Cell} {during during' : List Label}
    (h : TookOn t u c before (during ++ during') history)
    (run : Run (idle s) (before ++ .access t u (.enter c) none :: during) now) :
    now.process.cells c = .busy t := by
  have hholds := h.holds
  have hsplit : before ++ .access t u (.enter c) none :: (during ++ during') =
      (before ++ .access t u (.enter c) none :: during) ++ during' := by simp
  rw [h.split, hsplit, lockState, exchanges_append t during, exchanges_append] at hholds
  have hheld :
      Lock.cell c ∈ (lockState (before ++ .access t u (.enter c) none :: during) t).locks :=
    List.mem_map_of_mem (f := Hold.lock) (hold_before hholds)
  simpa [Process.holder] using ((run.lawful hs).agreed.holder t _).mpr hheld

/-- A thread that fills a cell took it on in the use in which it is now. -/
theorem Run.tookOn (hs : s.Unheld) (run : Run (idle s) history machine) {w : Work}
    (hwork : machine.work t = some w) {c : Cell} {made : List Accesses.Exchange}
    (h : ⟨.cell c, made⟩ ∈ (lockState history t).holds) :
    ∃ before during, TookOn t w.use c before during history ∧ exchanges t during = made := by
  have hhold := h
  obtain ⟨first, since, rfl, hsince, -⟩ := run.working hwork
  obtain ⟨now, next, hfirst, hbegins, -⟩ := run.stepAt
  -- the thread held nothing when it began its use
  have hholds : (lockState first t).holds = [] := by
    have hfits := (hfirst.lawful hs).fits t
    cases hbegins with
    | begins u hidle =>
      rw [hidle] at hfits
      exact hfits
  have hbegun : exchanges t (.begins t w.use :: since) = exchanges t since := rfl
  rw [lockState_append, hbegun] at h
  obtain ⟨earlier, a, answer, hmade, htakes⟩ := hold_split hholds h
  rw [takes_cell htakes] at hmade
  obtain ⟨before, u, during, rfl, -, hduring⟩ := exchanges_split hmade
  obtain rfl : u = w.use := hsince (.access t u (.enter c) none) (by simp) rfl
  rw [← hduring] at hhold
  exact ⟨first ++ .begins t w.use :: before, during,
    ⟨by simp, fun m hm => hsince m (by simp [hm]), hhold⟩, hduring⟩

/-- A thread that fills a cell is at work, in the midst of the cell's initialiser. -/
theorem Run.filling (hs : s.Unheld) (run : Run (idle s) history machine) {c : Cell}
    (hbusy : machine.process.cells c = .busy t) :
    ∃ w before during rest, machine.work t = some w ∧ TookOn t w.use c before during history ∧
      c.compute.Path (exchanges t during) rest := by
  have hlawful := run.lawful hs
  have hholder : machine.process.holder (.cell c) = some t := by
    simp [Process.holder, hbusy, Once.owner?]
  obtain ⟨⟨l, made⟩, hold, rfl⟩ := List.mem_map.mp ((hlawful.agreed.holder t _).mp hholder)
  have hfits := hlawful.fits t
  cases hwork : machine.work t with
  | none =>
    rw [hwork] at hfits
    rw [show (lockState history t).holds = [] from hfits] at hold
    cases hold
  | some w =>
    obtain ⟨before, during, htook, rfl⟩ := run.tookOn hs hwork hold
    obtain ⟨u, rest⟩ := w
    rw [hwork] at hfits
    cases rest with
    | done answer =>
      rw [show (lockState history t).holds = [] from hfits] at hold
      cases hold
    | fail cause =>
      rw [show (lockState history t).holds = [] from hfits] at hold
      cases hold
    | call a resume =>
      obtain ⟨rest, hrest⟩ := hfits.1.2 c _ hold
      exact ⟨_, before, during, rest, rfl, htook, hrest⟩

/-- A cell is filled with what its initialiser returned to the thread that took the cell on. -/
theorem Run.published (hs : s.Unheld) {u : Use} {c : Cell} {value : c.Content}
    (run : Run (idle s) (history ++ .access t u (.publish c value) () :: after) later) :
    ∃ before during, TookOn t u c before during history ∧
      c.compute.Path (exchanges t during) (.ended (.ok value)) := by
  obtain ⟨now, next, resume, effect, hhistory, hwork, -⟩ := run.accessed
  obtain ⟨made, hhead, hpath⟩ := run.allowed hs
  obtain ⟨before, during, htook, rfl⟩ := hhistory.tookOn hs hwork (List.mem_of_mem_head? hhead)
  exact ⟨before, during, htook, hpath⟩

/-- Until a cell is published it is not full: what happens where the cell is full happens after. -/
theorem Run.since_published (hs : s.Unheld) {taken since rest : List Label} {u : Use} {c : Cell}
    {value : c.Content} {m : Label}
    (run : Run (idle s) (taken ++ .access t u (.publish c value) () :: since) later)
    (hsplit : taken ++ .access t u (.publish c value) () :: since = before ++ m :: rest)
    (hfull : ∀ now, Run (idle s) before now → now.process.cells c = .full value) :
    ∃ more, before = taken ++ .access t u (.publish c value) () :: more ∧
      since = more ++ m :: rest := by
  obtain ⟨now, next, resume, effect, htaken, -⟩ := run.accessed
  have hbusy : now.process.cells c = .busy t := by
    simpa [Process.holder] using
      (htaken.lawful hs).agreed.holder_of_leaves (run.allowed hs) (l := .cell c) rfl
  rcases List.append_eq_append_iff.mp hsplit with ⟨more, rfl, hmore⟩ | ⟨more, rfl, -⟩
  · cases more with
    | nil =>
      rw [List.append_nil] at hfull
      rw [hfull now htaken] at hbusy
      cases hbusy
    | cons m' others =>
      obtain ⟨rfl, hothers⟩ := List.cons.inj hmore
      exact ⟨others, rfl, hothers⟩
  · obtain ⟨now', hbefore, hmore⟩ := run_append.mp htaken
    rw [hbefore.full_stays hs hmore (hfull now' hbefore)] at hbusy
    cases hbusy

/-- A cell is given up when its initialiser failed. -/
theorem Run.abandoned (hs : s.Unheld) {u : Use} {c : Cell}
    (run : Run (idle s) (history ++ .access t u (.abandon c) () :: after) later) :
    ∃ before during cause, TookOn t u c before during history ∧
      c.compute.Path (exchanges t during) (.ended (.error cause)) := by
  obtain ⟨now, next, resume, effect, hhistory, hwork, -⟩ := run.accessed
  obtain ⟨made, cause, hhead, hpath⟩ := run.allowed hs
  obtain ⟨before, during, htook, rfl⟩ := hhistory.tookOn hs hwork (List.mem_of_mem_head? hhead)
  exact ⟨before, during, cause, htook, hpath⟩

/-- A cell that came to be full was published. -/
theorem Run.fills {c : Cell} {value : c.Content} (run : Run machine history later)
    (hbefore : machine.process.cells c ≠ .full value)
    (hfull : later.process.cells c = .full value) :
    ∃ before t u after, history = before ++ .access t u (.publish c value) () :: after := by
  induction run with
  | refl => exact absurd hfull hbefore
  | @step now later history m first last ih =>
    by_cases hnow : now.process.cells c = .full value
    · obtain ⟨before, t, u, after, rfl⟩ := ih hnow
      exact ⟨before, t, u, after ++ [m], by simp⟩
    · cases last with
      | begins u hidle => exact absurd hfull hnow
      | @access t u _ _ a effect hwork hnext =>
        obtain ⟨resume, rfl, heffect, rfl⟩ := hnext
        obtain rfl := Process.perform_fills heffect hfull hnow
        exact ⟨history, t, u, [], rfl⟩
      | ends hwork hresult => exact absurd hfull hnow
      | changes c => exact absurd hfull hnow
      | starts name => exact absurd hfull hnow

/-- How a cell came to be full: one thread, in one use, took it on, ran its initialiser, and
published what that returned. -/
theorem Run.filled (hs : s.Unheld) {c : Cell} {value : c.Content}
    (hbefore : s.cells c ≠ .full value) (run : Run (idle s) history later)
    (hfull : later.process.cells c = .full value) :
    ∃ before t u during taken after,
      history = taken ++ .access t u (.publish c value) () :: after ∧
      TookOn t u c before during taken ∧
      c.compute.Path (exchanges t during) (.ended (.ok value)) := by
  obtain ⟨taken, t, u, after, rfl⟩ := run.fills hbefore hfull
  obtain ⟨before, during, htook, hpath⟩ := run.published hs
  exact ⟨before, t, u, during, taken, after, rfl, htook, hpath⟩

/-! ## Counting -/

/-- With this step a thread takes on a cell. -/
def takes (c : Cell) : Label → Bool
  | .access _ _ a answer => a.takes? answer == some (.cell c)
  | _ => false

/-- 0 for a cell that nobody has begun to fill, else 1. -/
def begun {α : Type} : Once α → Nat
  | .empty => 0
  | .busy _ => 1
  | .full _ => 1

/-- A cell whose initialiser never fails is taken on once, when it is first needed. -/
theorem Run.takings (hs : s.Unheld) {c : Cell} (hempty : s.cells c = .empty)
    (hnever : ∀ made cause, ¬c.compute.Path made (.fail cause))
    (run : Run (idle s) history later) :
    history.countP (takes c) = begun (later.process.cells c) := by
  generalize hstart : idle s = start at run
  induction run with
  | refl =>
    subst hstart
    simp [idle, hempty, begun]
  | @step now later history m first last ih =>
    subst hstart
    have hlawful := first.lawful hs
    rw [List.countP_append, ih]
    cases last with
    | begins u hidle => simp [takes]
    | @access t u _ _ a effect hwork hnext =>
      obtain ⟨resume, rfl, heffect, rfl⟩ := hnext
      have hfits := hlawful.fits t
      rw [hwork] at hfits
      have hallowed : Allowed u (lockState history t) a := hfits.1.1
      -- a cell that is given back was held, so it had been taken on
      have hheld (hleaves : a.leaves? = some (.cell c)) : now.process.cells c = .busy t := by
        simpa [Process.holder] using hlawful.agreed.holder_of_leaves hallowed hleaves
      rcases Process.perform_cell heffect c with
        ⟨htakes, hcell, hbusy⟩ | ⟨value, rfl, hfull⟩ | ⟨rfl, -⟩ | ⟨htakes, -, hsame⟩
      · simp [takes, htakes, hcell, hbusy, begun]
      · simp [takes, Access.takes?, hfull, hheld rfl, begun]
      · obtain ⟨made, cause, -, hpath⟩ := hallowed
        exact absurd hpath (hnever made cause)
      · simp [takes, htakes, hsame]
    | ends hwork hresult => simp [takes]
    | changes c' => simp [takes, Process.changePlatform]
    | starts name => simp [takes, Process.start]

end Machine

end ExecContext
