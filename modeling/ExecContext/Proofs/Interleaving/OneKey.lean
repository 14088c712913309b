import ExecContext.Proofs.Interleaving.Machine
import ExecContext.Proofs.Interleaving.KeyDiscipline

set_option autoImplicit false

/-!
# One key for all threads

Any number of threads use the key backend of a process that has no key yet. Whoever comes first
takes on its cell and creates the key; the others wait, and one of them takes over where no key
could be created. Under every schedule at most one key is created, all pointers are stored behind
it, and each thread finds its own (`one_key`).
-/

namespace ExecContext

open Session (Answer)

/-! ## Uses of the key backend -/

namespace Use

/-- A use of the key backend: it is to hold a pointer, or to give back the one that it holds. -/
inductive OfKey : Use → Prop where
  | hold (contexts : List String) (scheduler : Scheduler) (p : Pointer) :
    OfKey (.call contexts ⟨scheduler, .key⟩ (.hold p))
  | held (contexts : List String) (scheduler : Scheduler) :
    OfKey (.call contexts ⟨scheduler, .key⟩ .held)

/-- What the end of a use means to a thread that let the backend hold `own` last: from then on it is
`own'`. -/
def Leads (own : Pointer) : Use → Except Cause Answer → Pointer → Prop
  | .call _ _ (.hold p), .ok answer, own' => answer = .ok ∧ own' = p
  | .call _ _ (.hold _), .error _, own' => own' = own
  | _, result, own' => result = .ok (.pointer own) ∧ own' = own

/-- A use of the key backend keeps to the discipline of the key. -/
theorem OfKey.obeys {u : Use} (hu : u.OfKey) {k₀ : Key} {φ : KeyProgress} (ht : φ.Idle) :
    (keyDiscipline k₀).Obeys (fun φ' result => φ'.Idle ∧ u.Leads φ.own result φ'.own)
      u.action φ := by
  cases hu with
  | hold contexts scheduler p =>
    refine .bind (.bind ((obeys_hold ht p).mono ?_))
    rintro φ' (cause | value) ⟨hidle, hown⟩
    · exact ⟨hidle, hown⟩
    · exact ⟨hidle, rfl, hown⟩
  | held contexts scheduler =>
    refine .bind (.bind ((obeys_held ht).mono ?_))
    rintro φ' result ⟨hidle, hown, rfl⟩
    exact ⟨hidle, rfl, hown⟩

/-- The platform stores this pointer behind a key. -/
def Stores (p : Pointer) (e : Accesses.Exchange) : Prop :=
  ∃ k, e = ⟨.setSpecific k p, (0 : Int32)⟩

/-- A use returns with a pointer held only once the platform has stored it. -/
theorem OfKey.passes {contexts : List String} {r : Resolver} {p : Pointer}
    (hu : OfKey (.call contexts r (.hold p))) :
    (Use.call contexts r (.hold p)).action.Passes (Stores p) := by
  cases hu with
  | hold contexts scheduler p =>
    have hstore (k : Key) : (Storage.storeBehind k p).Passes (Stores p) := by
      intro code
      by_cases hcode : code = 0
      · exact Or.inl ⟨k, by rw [hcode]⟩
      · refine Or.inr ?_
        show Program.Passes _ (if code = 0 then .done () else Storage.failWith (.notStored code))
        rw [if_neg hcode]
        exact .bind _ fun _ => trivial
    exact ((Program.Passes.bind Storage.processKey hstore).before _).before _

end Use

/-! ## What a history tells of the key backend -/

/-- The pointer that thread `t` let the backend hold, if a use that did so returned then. -/
def Label.held? (t : ThreadId) : Label → Option Pointer
  | .ends u (.call _ _ (.hold p)) (.ok _) => if u = t then some p else none
  | _ => none

/-- The pointer that a thread let the backend hold last, null if there is none. -/
def lastHeld (t : ThreadId) (history : List Label) : Pointer :=
  (history.filterMap (Label.held? t)).getLast?.join

theorem lastHeld_concat (t : ThreadId) (history : List Label) (m : Label) :
    lastHeld t (history ++ [m]) = (m.held? t).getD (lastHeld t history) := by
  unfold lastHeld
  cases h : m.held? t <;> simp [List.filterMap_append, h]

theorem Label.held?_other {m : Label} {t : ThreadId} (h : m.thread? ≠ some t) :
    m.held? t = none := by
  cases m with
  | ends u use result =>
    have hne : u ≠ t := fun heq => h (congrArg some heq)
    unfold held?
    split <;> simp_all
  | _ => rfl

/-- A use that ends leads to the pointer that the history then tells. -/
theorem Use.Leads.own {u : Use} {own own' : Pointer} {result : Except Cause Answer}
    (h : u.Leads own result own') (t : ThreadId) :
    ((Label.ends t u result).held? t).getD own = own' := by
  cases u with
  | service service => exact h.2.symm
  | call contexts r c =>
    cases c with
    | hold p =>
      cases result with
      | ok answer =>
        rw [h.2]
        simp [Label.held?]
      | error cause => exact h.symm
    | _ => exact h.2.symm

namespace Machine

variable {s : Process} {now later : Machine} {history : List Label}
  {stages : ThreadId → KeyProgress} {t : ThreadId}

/-! ## Every run -/

/-- How the work of a thread goes on that let the key backend hold `own` last. -/
def KeyWork (k₀ : Key) (own : Pointer) (φ : KeyProgress) : Option Work → Prop
  | none => φ.Idle ∧ φ.own = own
  | some w =>
    (keyDiscipline k₀).Obeys (fun φ' result => φ'.Idle ∧ w.use.Leads own result φ'.own) w.rest φ

/-- The process agrees with how far its threads have come with the key since it was `s`, and each
thread goes on as the history says. -/
structure KeyOrder (s : Process) (history : List Label) (now : Machine)
    (stages : ThreadId → KeyProgress) : Prop where
  invariant : KeyInvariant s.platform s.specific now.process stages
  work : ∀ t, KeyWork s.platform.nextKey (lastHeld t history) (stages t) (now.work t)

/-- At the start nobody has begun. -/
theorem keyOrder_idle (hempty : s.cells .key = .empty)
    (hunused : ∀ k, ¬s.platform.Created k → s.specific k = .empty) :
    KeyOrder s [] (idle s) fun _ => ⟨.outside, none⟩ := by
  refine ⟨⟨.empty hempty (.refl _) fun _ => rfl, fun u => ?_, fun _ _ => rfl⟩,
    fun _ => ⟨Or.inl rfl, rfl⟩⟩
  rw [idle, hunused _ s.platform.not_created_nextKey]
  rfl

/-- One thread has moved on, in its use and with the key. -/
theorem KeyOrder.move (h : KeyOrder s history now stages) {m : Label} (hm : m.thread? = some t)
    {φ : KeyProgress} {w : Option Work} {process : Process}
    (hinvariant : KeyInvariant s.platform s.specific process (Discipline.setStage stages t φ))
    (hown : KeyWork s.platform.nextKey (lastHeld t (history ++ [m])) φ w) :
    KeyOrder s (history ++ [m]) ⟨process, now.setWork t w⟩ (Discipline.setStage stages t φ) := by
  refine ⟨hinvariant, fun v => ?_⟩
  change KeyWork _ _ _ (now.setWork t w v)
  by_cases hv : v = t
  · subst hv
    rw [Discipline.setStage_same, setWork_same]
    exact hown
  · have hother : m.held? v = none := Label.held?_other (by simpa [hm] using Ne.symm hv)
    rw [Discipline.setStage_other _ _ hv, setWork_other _ _ hv, lastHeld_concat, hother]
    exact h.work v

/-- What is no thread's doing leaves all threads where they are. -/
theorem KeyOrder.stay (h : KeyOrder s history now stages) {m : Label} (hm : m.thread? = none)
    {process : Process} (hinvariant : KeyInvariant s.platform s.specific process stages) :
    KeyOrder s (history ++ [m]) ⟨process, now.work⟩ stages := by
  refine ⟨hinvariant, fun v => ?_⟩
  rw [lastHeld_concat, Label.held?_other (by simp [hm])]
  exact h.work v

/-- Each step keeps the order, and the key that is there for all. -/
theorem KeyOrder.step (h : KeyOrder s history now stages) {m : Label} (last : Step now m later)
    (hm : ∀ t u, m = .begins t u → u.OfKey) :
    (∃ stages', KeyOrder s (history ++ [m]) later stages') ∧
      ∀ k, now.process.cells .key = .full k → later.process.cells .key = .full k := by
  cases last with
  | @begins t u hidle =>
    have hwork := h.work t
    rw [hidle] at hwork
    obtain ⟨hready, hown⟩ := hwork
    have hobeys : KeyWork s.platform.nextKey (stages t).own (stages t) (some ⟨u, u.action⟩) :=
      (hm t u rfl).obeys hready
    rw [hown] at hobeys
    refine ⟨⟨_, h.move (φ := stages t) rfl ?_ ?_⟩, fun k hk => hk⟩
    · rw [Discipline.setStage_self]
      exact h.invariant
    · rw [lastHeld_concat]
      exact hobeys
  | @access t u _ _ a effect hwork hnext =>
    obtain ⟨resume, rfl, heffect, rfl⟩ := hnext
    have hobeys := h.work t
    rw [hwork] at hobeys
    obtain ⟨hpermits, hresume⟩ := hobeys
    obtain ⟨φ, hmove, hinvariant⟩ :=
      (keeps_keyInvariant s.platform s.specific).access h.invariant hpermits heffect
    refine ⟨⟨_, h.move rfl hinvariant ?_⟩, fun k hk => h.invariant.full_stays hk hpermits heffect⟩
    rw [lastHeld_concat]
    exact hresume effect.answer φ hmove
  | @ends t u rest result hwork hresult =>
    have hobeys := h.work t
    rw [hwork, Program.result?_eq_some.mp hresult] at hobeys
    have hended : (stages t).Idle ∧ u.Leads (lastHeld t history) result (stages t).own := by
      cases result with
      | ok value => exact hobeys
      | error cause => exact hobeys
    refine ⟨⟨_, h.move (φ := stages t) rfl ?_ ⟨hended.1, ?_⟩⟩, fun k hk => hk⟩
    · rw [Discipline.setStage_self]
      exact h.invariant
    · rw [lastHeld_concat, hended.2.own]
  | changes c =>
    exact ⟨⟨_, h.stay rfl ((keeps_keyInvariant _ _).platform c h.invariant)⟩, fun k hk => hk⟩
  | starts name =>
    refine ⟨⟨stages, h.stay rfl ?_⟩, fun k hk => hk⟩
    have haside : KeyInvariant s.platform s.specific (now.process.start name).2
        (Discipline.setStage stages 0 (stages 0)) := h.invariant.aside rfl (fun _ hn => hn) rfl
    rwa [Discipline.setStage_self] at haside

/-- Threads that only use the key backend keep the order under every schedule. -/
theorem KeyOrder.run (h : KeyOrder s history now stages) {more : List Label}
    (run : Run now more later) (huses : ∀ t u, .begins t u ∈ more → u.OfKey) :
    (∃ stages', KeyOrder s (history ++ more) later stages') ∧
      ∀ k, now.process.cells .key = .full k → later.process.cells .key = .full k := by
  induction run with
  | refl => exact ⟨⟨stages, by simpa using h⟩, fun k hk => hk⟩
  | @step middle later more m first last ih =>
    obtain ⟨⟨stages', h'⟩, hstays⟩ := ih fun t u hu => huses t u (by simp [hu])
    obtain ⟨hlater, hstays'⟩ := h'.step last fun t u hu => huses t u (by simp [hu])
    rw [List.append_assoc] at hlater
    exact ⟨hlater, fun k hk => hstays' k (hstays k hk)⟩

/-! ## What is stored and read -/

/-- A thread that is about to store or to read behind a key was given the published one. -/
theorem KeyOrder.published (h : KeyOrder s history now stages) {u : Use} {a : Access} {k : Key}
    {resume : a.Answer → Action Answer} (hwork : now.work t = some ⟨u, .call a resume⟩)
    (ha : (∃ p, a = .setSpecific k p) ∨ a = .getSpecific k) :
    now.process.cells .key = .full k := by
  have hobeys := h.work t
  rw [hwork] at hobeys
  rcases ha with ⟨p, rfl⟩ | rfl
  · obtain ⟨⟨hstage, rfl⟩, -⟩ := hobeys
    exact (h.invariant.state.of_ready hstage).1
  · obtain ⟨⟨hstage, rfl⟩, -⟩ := hobeys
    exact (h.invariant.state.of_ready hstage).1

/-- Behind a key that is not the published one stands what stood there at the start. -/
theorem KeyOrder.unchanged (h : KeyOrder s history now stages)
    (hunused : ∀ k, ¬s.platform.Created k → s.specific k = .empty) {k : Key}
    (hk : now.process.cells .key ≠ .full k) : now.process.specific k = s.specific k := by
  by_cases hkey : k = s.platform.nextKey
  · subst hkey
    have hnone (k : Key) : now.process.cells .key ≠ .full k := by
      intro hfull
      obtain ⟨rfl, -⟩ := h.invariant.state.of_full hfull
      exact hk hfull
    rw [hunused _ s.platform.not_created_nextKey]
    funext u
    rw [h.invariant.own u, h.invariant.state.own_none hnone u]
    rfl
  · exact h.invariant.others k hkey

/-- What an idle thread finds is what it let the backend hold last. -/
theorem KeyOrder.kept (h : KeyOrder s history now stages) (hwork : now.work t = none) :
    now.process.kept .key t = lastHeld t history := by
  have hidle := h.work t
  rw [hwork] at hidle
  rw [← hidle.2]
  by_cases hfull : ∃ k, now.process.cells .key = .full k
  · obtain ⟨k, hk⟩ := hfull
    obtain ⟨rfl, -⟩ := h.invariant.state.of_full hk
    rw [Process.kept_of_keyOf (Process.keyOf_key_iff.mpr hk)]
    exact h.invariant.own t
  · have hnone (k : Key) (hk : now.process.cells .key = .full k) : False := hfull ⟨k, hk⟩
    rw [Process.kept_key_of_not_full hnone, h.invariant.state.own_none hnone]

section Start

variable (hempty : s.cells .key = .empty)
  (hunused : ∀ k, ¬s.platform.Created k → s.specific k = .empty)

include hempty hunused

theorem Run.keyOrder (run : Run (idle s) history now)
    (huses : ∀ t u, .begins t u ∈ history → u.OfKey) : ∃ stages, KeyOrder s history now stages :=
  ((keyOrder_idle hempty hunused).run run huses).1

/-- The key behind which a thread stored is the published one for good. -/
theorem Run.stored_behind (run : Run (idle s) history now)
    (huses : ∀ v w, .begins v w ∈ history → w.OfKey) {u : Use} {k : Key} {p : Pointer}
    {code : Int32} (hm : .access t u (.setSpecific k p) code ∈ history) :
    now.process.cells .key = .full k := by
  obtain ⟨before, after, rfl⟩ := List.append_of_mem hm
  obtain ⟨middle, next, hbefore, hstep, hafter⟩ := run.stepAt
  obtain ⟨stages, h⟩ := hbefore.keyOrder hempty hunused fun v w hw => huses v w (by simp [hw])
  refine (h.run ((run_single.mpr hstep).trans hafter) fun v w hw => ?_).2 k ?_
  · exact huses v w (List.mem_append_right _ hw)
  · cases hstep with
    | access hwork hnext =>
      obtain ⟨resume, rfl, -, -⟩ := hnext
      exact h.published hwork (Or.inl ⟨p, rfl⟩)

/-- A use that let a pointer be held has stored it behind the published key. -/
theorem Run.stored {before after : List Label} {contexts : List String} {r : Resolver}
    {p : Pointer} {answer : Answer}
    (run : Run (idle s) (before ++ .ends t (.call contexts r (.hold p)) (.ok answer) :: after) now)
    (huses : ∀ v u,
      .begins v u ∈ before ++ .ends t (.call contexts r (.hold p)) (.ok answer) :: after →
        u.OfKey) :
    ∃ earlier during k, before = earlier ++ .begins t (.call contexts r (.hold p)) :: during ∧
      .access t (.call contexts r (.hold p)) (.setSpecific k p) (0 : Int32) ∈ during ∧
      now.process.cells .key = .full k := by
  obtain ⟨rest, hresult, earlier, during, rfl, hwithin, hpath⟩ := run.ended
  rw [Program.result?_eq_some.mp hresult] at hpath
  have hkey := huses t (.call contexts r (.hold p)) (by simp)
  obtain ⟨e, he, k, rfl⟩ := hpath.passes hkey.passes
  obtain ⟨u, hu⟩ := mem_exchanges.mp he
  obtain rfl : u = .call contexts r (.hold p) := hwithin _ hu rfl
  exact ⟨earlier, during, k, rfl, hu, run.stored_behind hempty hunused huses
    (List.mem_append_left _ (List.mem_append_right _ (List.mem_cons_of_mem _ hu)))⟩

/-- What is given back to a thread is what it let the backend hold last. -/
theorem Run.found {before after : List Label} {contexts : List String} {r : Resolver}
    {result : Except Cause Answer}
    (run : Run (idle s) (before ++ .ends t (.call contexts r .held) result :: after) now)
    (huses : ∀ v u, .begins v u ∈ before ++ .ends t (.call contexts r .held) result :: after →
      u.OfKey) :
    result = .ok (.pointer (lastHeld t before)) := by
  obtain ⟨middle, next, hbefore, hstep, -⟩ := run.stepAt
  obtain ⟨stages, h⟩ := hbefore.keyOrder hempty hunused fun v w hw => huses v w (by simp [hw])
  cases hstep with
  | ends hwork hresult =>
    have hobeys := h.work t
    rw [hwork, Program.result?_eq_some.mp hresult] at hobeys
    cases result with
    | ok value => exact hobeys.2.1
    | error cause => exact hobeys.2.1

end Start

/-! ## Any number of threads -/

/-- **One key.** Let any number of threads use the key backend of a process without a key, under any
schedule, while the platform fails at whatever it likes. At most one key is created; once it is
published it stays. Pointers are stored and read behind the published key alone, and a use that lets
a pointer be held returns only once it was stored there. A thread is given back the pointer that it
last let the backend hold, null if there is none. -/
theorem one_key (hempty : s.cells .key = .empty)
    (hunused : ∀ k, ¬s.platform.Created k → s.specific k = .empty)
    (run : Run (idle s) history now) (huses : ∀ t u, .begins t u ∈ history → u.OfKey) :
    now.process.platform.keysMade ≤ s.platform.keysMade + 1 ∧
    (∀ k, now.process.cells .key = .full k →
      k = s.platform.nextKey ∧ now.process.platform.keysMade = s.platform.keysMade + 1 ∧
      ∀ more later, Run now more later → (∀ t u, .begins t u ∈ more → u.OfKey) →
        later.process.cells .key = .full k) ∧
    (∀ t u k p resume, now.work t = some ⟨u, .call (.setSpecific k p) resume⟩ →
      now.process.cells .key = .full k) ∧
    (∀ t u k resume, now.work t = some ⟨u, .call (.getSpecific k) resume⟩ →
      now.process.cells .key = .full k) ∧
    (∀ k, now.process.cells .key ≠ .full k → now.process.specific k = s.specific k) ∧
    (∀ before after t contexts r p answer,
      history = before ++ .ends t (.call contexts r (.hold p)) (.ok answer) :: after →
      ∃ earlier during k, before = earlier ++ .begins t (.call contexts r (.hold p)) :: during ∧
        .access t (.call contexts r (.hold p)) (.setSpecific k p) (0 : Int32) ∈ during ∧
        now.process.cells .key = .full k) ∧
    (∀ before after t contexts r result,
      history = before ++ .ends t (.call contexts r .held) result :: after →
      result = .ok (.pointer (lastHeld t before))) ∧
    (∀ t, now.work t = none → now.process.kept .key t = lastHeld t history) := by
  obtain ⟨⟨stages, h⟩, -⟩ := (keyOrder_idle hempty hunused).run run huses
  refine ⟨h.invariant.state.made_le, ?stays, ?stores, ?reads, ?others, ?stored, ?found, ?kept⟩
  case stays =>
    intro k hk
    obtain ⟨rfl, hmade, -⟩ := h.invariant.state.of_full hk
    refine ⟨rfl, hmade.made, ?_⟩
    intro more later rest hrest
    exact (h.run rest hrest).2 _ hk
  case stores =>
    intro t u k p resume hwork
    exact h.published hwork (Or.inl ⟨p, rfl⟩)
  case reads =>
    intro t u k resume hwork
    exact h.published hwork (Or.inr rfl)
  case others =>
    intro k hk
    exact h.unchanged hunused hk
  case stored =>
    rintro before after t contexts r p answer rfl
    exact run.stored hempty hunused huses
  case found =>
    rintro before after t contexts r result rfl
    exact run.found hempty hunused huses
  case kept =>
    intro t hwork
    exact h.kept hwork

/-- Two threads, of which the second waits until the first has published the key. -/
def keyRace : List Label × Machine :=
  let start := idle { (Process.fresh (.fresh (.field [49, 49]) (.plain 0))).setCell .settings
    (.full ()) with level := .off }
  let hold (c : ContextId) : Use := .call [] ⟨⟨.absent, 0⟩, .key⟩ (.hold (some (.context c)))
  let held : Use := .call [] ⟨⟨.absent, 0⟩, .key⟩ .held
  start.follow [.begin 1 (hold 0), .begin 2 (hold 1), .go 1, .go 2, .go 1, .go 1, .go 2, .go 1,
    .go 1, .go 2, .go 1, .go 2, .go 1, .begin 1 held, .go 2, .begin 2 held, .go 1, .go 2, .go 2,
    .go 1, .go 2, .go 1]

theorem one_key_race :
    keyRace.1[18]? = some (.ends 2 (.call [] ⟨⟨.absent, 0⟩, .key⟩ .held)
        (.ok (.pointer (some (.context 1))))) ∧
      keyRace.2.process.platform.keysMade = 1 ∧
      keyRace.2.process.kept .key 1 = some (.context 0) := by
  have huses : ∀ t u, .begins t u ∈ keyRace.1 → u.OfKey := by
    intro t u hu
    have hchoice := begin_mem_of_follow hu
    simp only [List.mem_cons, reduceCtorEq, Choice.begin.injEq, List.not_mem_nil, or_false,
      false_or] at hchoice
    rcases hchoice with ⟨-, rfl⟩ | ⟨-, rfl⟩ | ⟨-, rfl⟩ | ⟨-, rfl⟩
    · exact .hold _ _ _
    · exact .hold _ _ _
    · exact .held _ _
    · exact .held _ _
  obtain ⟨-, hstays, -, -, -, -, -, hkept⟩ :=
    one_key rfl (fun _ _ => rfl) (run_follow _ _) huses
  have hfull : keyRace.2.process.cells .key = .full 0 := rfl
  have hlast : lastHeld 1 keyRace.1 = some (.context 0) := rfl
  exact ⟨rfl, (hstays 0 hfull).2.1, (hkept 1 rfl).trans hlast⟩

end Machine

end ExecContext
