import ExecContext.Proofs.Interleaving.OpenCalls
import ExecContext.Proofs.Kernel.OneBase
import Mathlib.Data.Finset.Card

set_option autoImplicit false

/-!
# The account of calls to the platform

How often the kernel was asked, and how often a key was asked for, is settled by what came of it:
each call was made by a use for the release that has ended, or by a registration that failed for
want of a key, or it filled a cell, or the thread that made it still has it open. An account is kept
by each single access of a thread, so it is right at every moment of every run.
-/

namespace ExecContext

/-! ## What is counted -/

/-- The access fills a cell. -/
def Access.fills (c : Cell) : Access → Bool
  | .publish d _ => d == c
  | _ => false

theorem Access.fills_eq_false {c : Cell} {a : Access} (h : ∀ value, a ≠ .publish c value) :
    a.fills c = false := by
  cases a with
  | publish d value =>
    by_cases hd : d = c
    · subst hd
      exact absurd rfl (h value)
    · simp [fills, hd]
  | _ => rfl

/-- An access fills one cell at most. -/
theorem Access.fills_one (a : Access) {c d : Cell} (hcd : c ≠ d) (h : a.fills c = true) :
    a.fills d = false :=
  fills_eq_false fun value heq => hcd (Eq.symm (by simpa [heq, fills] using h))

namespace Label

/-- An access of this kind is made. -/
def makes (kind : Access → Bool) : Label → Bool
  | .access _ _ a _ => kind a
  | _ => false

/-- A use ends in this way. -/
def closes (kind : Use → Except Cause Session.Answer → Bool) : Label → Bool
  | .ends _ u result => kind u result
  | _ => false

end Label

namespace Use

/-- The use is for the release, however it ends. -/
def asksRelease : Use → Except Cause Session.Answer → Bool
  | .service .askRelease, _ => true
  | _, _ => false

/-- The use was to register, be it no context, and failed for want of a key. -/
def lacksKey : Use → Except Cause Session.Answer → Bool
  | .call _ _ c, .error (.storage (.noKey _)) => c.registers
  | _, _ => false

end Use

/-- How many values are in a cell: 1 if it is full, else 0. -/
def Once.count {α : Type} : Once α → Nat
  | .full _ => 1
  | _ => 0

theorem countP_concat (p : Label → Bool) (history : List Label) (m : Label) :
    (history ++ [m]).countP p = history.countP p + (p m).toNat := by
  rw [List.countP_append, List.countP_singleton]
  cases p m <;> rfl

/-- What is of one kind or of another one, and never of both, is counted for each kind. -/
theorem countP_makes_or {p q : Access → Bool} (h : ∀ a, p a = true → q a = false)
    (history : List Label) :
    history.countP (Label.makes fun a => p a || q a) =
      history.countP (Label.makes p) + history.countP (Label.makes q) := by
  induction history with
  | nil => rfl
  | cons m rest ih =>
    rw [List.countP_cons, List.countP_cons, List.countP_cons, ih]
    cases m with
    | access t u a answer =>
      cases hp : p a with
      | true => simp [Label.makes, hp, h a hp]; omega
      | false =>
        cases hq : q a with
        | true => simp [Label.makes, hp, hq]; omega
        | false => simp [Label.makes, hp, hq]
    | _ => simp [Label.makes]

/-! ## How many threads have a call open -/

/-- So many threads are at a stage of this kind. -/
def Tally (kind : OpenCall → Bool) (stages : ThreadId → OpenCall) (n : Nat) : Prop :=
  ∃ threads : Finset ThreadId, (∀ t, t ∈ threads ↔ kind (stages t) = true) ∧ threads.card = n

/-- When one thread moves on, the tally is one more, or one less, or the same. -/
theorem Tally.setStage {kind : OpenCall → Bool} {stages : ThreadId → OpenCall} {n : Nat}
    (h : Tally kind stages n) (t : ThreadId) (φ : OpenCall) :
    ∃ n', Tally kind (Discipline.setStage stages t φ) n' ∧
      n + (kind φ).toNat = n' + (kind (stages t)).toNat := by
  obtain ⟨threads, hmem, rfl⟩ := h
  have hothers {v : ThreadId} (hv : v ≠ t) :
      kind (Discipline.setStage stages t φ v) = true ↔ v ∈ threads := by
    rw [Discipline.setStage_other _ _ hv, hmem v]
  cases hnow : kind φ with
  | true =>
    refine ⟨_, ⟨insert t threads, fun v => ?_, rfl⟩, ?_⟩
    · by_cases hv : v = t
      · subst hv
        simp [hnow]
      · rw [hothers hv]
        simp [hv]
    · cases hbefore : kind (stages t) with
      | true => rw [Finset.insert_eq_of_mem ((hmem t).mpr hbefore)]
      | false =>
        have hnot : t ∉ threads := fun ht => by simp [(hmem t).mp ht] at hbefore
        rw [Finset.card_insert_of_notMem hnot]
        rfl
  | false =>
    refine ⟨_, ⟨threads.erase t, fun v => ?_, rfl⟩, ?_⟩
    · by_cases hv : v = t
      · subst hv
        simp [hnow]
      · rw [hothers hv]
        simp [hv]
    · cases hbefore : kind (stages t) with
      | true => exact (Finset.card_erase_add_one ((hmem t).mpr hbefore)).symm
      | false =>
        have hnot : t ∉ threads := fun ht => by simp [(hmem t).mp ht] at hbefore
        rw [Finset.erase_eq_of_notMem hnot]

/-! ## Accounts -/

/-- An account of calls: each is open from then on, until a cell is filled or a use ends. -/
structure Account where
  /-- such a call is open -/
  isOpen : OpenCall → Bool
  /-- such a call -/
  calls : Access → Bool
  /-- a cell is filled with what came of it -/
  fills : Access → Bool
  /-- the uses that may end with it -/
  closed : Use → Except Cause Session.Answer → Bool
  nothing : isOpen .nothing = false
  access : ∀ {φ : OpenCall} {a : Access} (answer : a.Answer), φ.Permits a →
    (calls a).toNat + (isOpen φ).toNat = (fills a).toNat + (isOpen (φ.next a answer)).toNat
  ends : ∀ u result, isOpen (u.openCall result) = closed u result

namespace Account

/-- The kernel was asked: for the slot base, or for the release. -/
def asked : Account where
  isOpen
    | .asked => true
    | _ => false
  calls := Access.asks
  fills := Access.fills .slotBase
  closed := Use.asksRelease
  nothing := rfl
  access {φ a} answer h := by
    cases a with
    | uname => rw [show φ = .nothing from h]; rfl
    | createKey => rw [show φ = .nothing from h]; rfl
    | publish c value =>
      cases c with
      | slotBase => rw [show φ = .asked from h]; rfl
      | key => rw [show φ = .created (.ok value) from h]; rfl
      | direct => rw [show φ = .created (.ok value.key) from h]; rfl
      | settings => simp [Access.asks, Access.fills, OpenCall.next]
    | _ => simp [Access.asks, Access.fills, OpenCall.next]
  ends u result := by
    cases u with
    | service s => cases s <;> rfl
    | call contexts r c =>
      cases hc : c.registers with
      | false => simp [Use.openCall, hc, Use.asksRelease]
      | true =>
        rcases result with ((_ | (code | code)) | answer) <;>
          simp [Use.openCall, hc, Use.asksRelease, OpenCall.ofResult, OpenCall.ofCause]

/-- A key was asked for: for one of the two cells of a key, or there was none. -/
def created : Account where
  isOpen
    | .created _ => true
    | _ => false
  calls := Access.creates
  fills a := a.fills .key || a.fills .direct
  closed := Use.lacksKey
  nothing := rfl
  access {φ a} answer h := by
    cases a with
    | uname => rw [show φ = .nothing from h]; rfl
    | createKey => rw [show φ = .nothing from h]; rfl
    | publish c value =>
      cases c with
      | slotBase => rw [show φ = .asked from h]; rfl
      | key => rw [show φ = .created (.ok value) from h]; rfl
      | direct => rw [show φ = .created (.ok value.key) from h]; rfl
      | settings => simp [Access.creates, Access.fills, OpenCall.next]
    | _ => simp [Access.creates, Access.fills, OpenCall.next]
  ends u result := by
    cases u with
    | service s => cases s <;> rfl
    | call contexts r c =>
      cases hc : c.registers with
      | false =>
        rcases result with ((_ | (code | code)) | answer) <;> simp [Use.openCall, hc, Use.lacksKey]
      | true =>
        rcases result with ((_ | (code | code)) | answer) <;>
          simp [Use.openCall, hc, Use.lacksKey, OpenCall.ofResult, OpenCall.ofCause]

theorem isOpen_asked {φ : OpenCall} : asked.isOpen φ = true ↔ φ = .asked := by
  cases φ <;> simp [asked]

theorem isOpen_created {φ : OpenCall} :
    created.isOpen φ = true ↔ ∃ answer, φ = .created answer := by
  cases φ <;> simp [created]

/-- Every call was closed by a cell or by the end of a use, or a thread has it open. -/
def Balanced (account : Account) (history : List Label) : Prop :=
  ∃ n, Tally account.isOpen (openCall history) n ∧
    history.countP (Label.makes account.calls) =
      history.countP (Label.closes account.closed) +
        history.countP (Label.makes account.fills) + n

variable {account : Account} {history : List Label} {t : ThreadId} {u : Use} {a : Access}

theorem balanced_start (account : Account) : account.Balanced [] := by
  refine ⟨0, ⟨∅, fun t => ?_, rfl⟩, rfl⟩
  simp [openCall, account.nothing]

theorem Balanced.quiet (h : account.Balanced history) {m : Label} (hm : m.Quiet) :
    account.Balanced (history ++ [m]) := by
  obtain ⟨n, htally, hcount⟩ := h
  refine ⟨n, openCall_quiet history hm ▸ htally, ?_⟩
  cases m with
  | access => exact hm.elim
  | ends => exact hm.elim
  | _ => simpa [countP_concat, Label.makes, Label.closes] using hcount

theorem Balanced.access (h : account.Balanced history) (ha : (openCall history t).Permits a)
    (answer : a.Answer) : account.Balanced (history ++ [.access t u a answer]) := by
  obtain ⟨n, htally, hcount⟩ := h
  obtain ⟨n', htally', hn'⟩ := htally.setStage t ((openCall history t).next a answer)
  have hone := account.access answer ha
  refine ⟨n', openCall_access history t u a answer ▸ htally', ?_⟩
  simp only [countP_concat, Label.makes, Label.closes, Bool.toNat_false]
  omega

theorem Balanced.ends (h : account.Balanced history) {result : Except Cause Session.Answer}
    (hopen : openCall history t = u.openCall result) :
    account.Balanced (history ++ [.ends t u result]) := by
  obtain ⟨n, htally, hcount⟩ := h
  obtain ⟨n', htally', hn'⟩ := htally.setStage t .nothing
  rw [hopen, account.ends, account.nothing] at hn'
  refine ⟨n', openCall_ends history t u result ▸ htally', ?_⟩
  simp only [countP_concat, Label.makes, Label.closes, Bool.toNat_false]
    at hn' ⊢
  omega

end Account

/-- The use needs nothing of the platform: it is not for the release, and the cell that it needs, if
any, is full. -/
def Use.Supplied (u : Use) (s : Process) : Prop :=
  u ≠ .service .askRelease ∧ ∀ c, u.cell? = some c → ∃ value, s.cells c = .full value

namespace Machine

variable {s : Process} {os : Platform} {machine now later : Machine}
  {history before during after : List Label} {t : ThreadId} {u : Use} {a : Access}
  {answer : a.Answer}

/-- Every account is balanced at every moment. -/
theorem Run.balanced (run : Run (idle s) history machine) (account : Account) :
    account.Balanced history := by
  induction run with
  | refl => exact account.balanced_start
  | step first last ih =>
    cases last with
    | begins u hidle => exact ih.quiet trivial
    | access hwork hnext =>
      obtain ⟨resume, rfl, heffect, rfl⟩ := hnext
      exact ih.access (first.permits hwork) _
    | ends hwork hresult => exact ih.ends (first.openCall_result hwork hresult)
    | changes c => exact ih.quiet trivial
    | starts name => exact ih.quiet trivial

/-! ## Cells and counters -/

/-- A cell is filled at most once. -/
theorem Run.fillings (hs : s.Unheld) {c : Cell} (hempty : s.cells c = .empty)
    (run : Run (idle s) history later) :
    history.countP (Label.makes (Access.fills c)) = (later.process.cells c).count := by
  induction run with
  | refl => simp [idle, hempty, Once.count]
  | @step now later history m first last ih =>
    rw [countP_concat, ih]
    cases last with
    | begins u hidle => rfl
    | @access t u _ _ a effect hwork hnext =>
      obtain ⟨resume, rfl, heffect, rfl⟩ := hnext
      have hfits := (first.lawful hs).fits t
      rw [hwork] at hfits
      have hallowed : Allowed u (lockState history t) a := hfits.1.1
      -- a cell that is given back was held, so it was not full
      have hheld (hleaves : a.leaves? = some (.cell c)) : now.process.cells c = .busy t := by
        simpa [Process.holder] using
          (first.lawful hs).agreed.holder_of_leaves hallowed hleaves
      rcases Process.perform_cell heffect c with
        ⟨htakes, hcell, hbusy⟩ | ⟨value, rfl, hfull⟩ | ⟨rfl, hgiven⟩ | ⟨-, hleaves, hsame⟩
      · have hnone : a.fills c = false := Access.fills_eq_false fun value heq => by
          subst heq
          cases htakes
        rw [Label.makes, hnone, hcell, hbusy]
        rfl
      · simp [Label.makes, Access.fills, hfull, hheld rfl, Once.count]
      · rw [hgiven, hheld rfl]
        rfl
      · have hnone : a.fills c = false := Access.fills_eq_false fun value heq => by
          subst heq
          exact hleaves rfl
        rw [Label.makes, hnone, hsame]
        rfl
    | ends hwork hresult => rfl
    | changes c' => rfl
    | starts name => rfl

theorem Run.counts (run : Run (idle s) history machine) :
    machine.process.platform.unameCalls =
        s.platform.unameCalls + history.countP (Label.makes Access.asks) ∧
      machine.process.platform.createCalls =
        s.platform.createCalls + history.countP (Label.makes Access.creates) := by
  induction run with
  | refl => exact ⟨rfl, rfl⟩
  | @step now later history m first last ih =>
    obtain ⟨hasked, hcreated⟩ := ih
    rw [countP_concat, countP_concat, ← Nat.add_assoc, ← Nat.add_assoc, ← hasked, ← hcreated]
    cases last with
    | begins u hidle => exact ⟨rfl, rfl⟩
    | @access t u _ _ a effect hwork hnext =>
      obtain ⟨resume, rfl, heffect, rfl⟩ := hnext
      obtain ⟨hasked, hcreated⟩ := Process.perform_platform heffect
      exact ⟨hasked, hcreated⟩
    | ends hwork hresult => exact ⟨rfl, rfl⟩
    | changes c => cases c <;> exact ⟨rfl, rfl⟩
    | starts name => exact ⟨rfl, rfl⟩

/-! ## Uses that need nothing -/

/-- A thread that makes an access in a use has begun the use once only since. -/
theorem Working.since {w : Work} (h : Working t (before ++ .begins t u :: during) w)
    (hwithin : ∀ m ∈ during, m.Within t u) :
    w.use = u ∧ u.action.Path (exchanges t during) w.rest := by
  obtain ⟨earlier, since, hsplit, hsince, hpath⟩ := h
  rcases List.append_eq_append_iff.mp hsplit with ⟨more, -, hmore⟩ | ⟨more, -, hmore⟩
  · cases more with
    | nil =>
      obtain ⟨hbegins, rfl⟩ := List.cons.inj hmore
      cases hbegins
      exact ⟨rfl, hpath⟩
    | cons m others =>
      obtain ⟨-, rfl⟩ := List.cons.inj hmore
      exact absurd rfl (hwithin (.begins t w.use) (by simp))
  · cases more with
    | nil =>
      obtain ⟨hbegins, rfl⟩ := List.cons.inj hmore
      cases hbegins
      exact ⟨rfl, hpath⟩
    | cons m others =>
      obtain ⟨-, rfl⟩ := List.cons.inj hmore
      exact absurd rfl (hsince (.begins t u) (by simp))

/-- A full cell is not taken on. -/
theorem Run.not_taken (hs : s.Unheld) (first : Run (idle s) before now) {c : Cell}
    {value : c.Content} (hfull : now.process.cells c = .full value)
    (rest : Run now history later) : .access t u (.enter c) none ∉ history := by
  intro hm
  obtain ⟨earlier, after, rfl⟩ := List.append_of_mem hm
  obtain ⟨then', next, resume, effect, hearlier, -, heffect, hanswer, -⟩ := rest.accessed
  rw [Process.perform, first.full_stays hs hearlier hfull] at heffect
  cases heffect
  cases hanswer

/-- A use that needs nothing of the platform when it begins makes free accesses only. -/
theorem Run.supplied (hs : s.Unheld) (first : Run (idle s) before now)
    (rest : Run now (.begins t u :: (during ++ .access t u a answer :: after)) later)
    (hwithin : ∀ m ∈ during, m.Within t u) (hsupplied : u.Supplied now.process) : a.Free := by
  have run : Run (idle s) ((before ++ .begins t u :: during) ++ .access t u a answer :: after)
      later := by simpa using first.trans rest
  obtain ⟨there, next, resume, effect, hthere, hwork, -⟩ := run.accessed
  obtain ⟨-, hpath⟩ := (hthere.working hwork).since hwithin
  rcases hpath.until (until_action hsupplied.1) with ⟨e, he, c, hc, rfl⟩ | huntil
  · obtain ⟨value, hfull⟩ := hsupplied.2 c hc
    obtain ⟨v, hm⟩ := mem_exchanges.mp he
    exact absurd (by simp [hm]) (first.not_taken hs hfull rest (t := t) (u := v))
  · exact huntil.1

/-! ## The account of a run -/

/-- **The account of a run**, at any moment of it. The kernel was asked once for each use for the
release that has ended, once if the slot base is found, and once for each thread that has such a
call open; a key was asked for once for each registration that failed for want of one, once for each
of the cells of a key that is full, and once for each thread that has such a call open. A thread
that is idle has none open, so between uses the accounts are exact. The direct backend has the slot
base that was found, and its key is not that of the key backend. A use that needs nothing of the
platform when it begins, as one that only reads, or writes to the log, or binds through a backend
that is set up or has no cell, adds nothing to either account. -/
theorem calls_accounted (run : Run (idle (.fresh os)) history machine) :
    (∃ asking creating : Finset ThreadId,
      (∀ t, t ∈ asking ↔ openCall history t = .asked) ∧
      (∀ t, t ∈ creating ↔ ∃ answer, openCall history t = .created answer) ∧
      machine.process.platform.unameCalls =
        os.unameCalls + history.countP (Label.closes Use.asksRelease) +
          (machine.process.cells .slotBase).count + asking.card ∧
      machine.process.platform.createCalls =
        os.createCalls + history.countP (Label.closes Use.lacksKey) +
          (machine.process.cells .key).count + (machine.process.cells .direct).count +
            creating.card) ∧
    (∀ t, machine.work t = none → openCall history t = .nothing) ∧
    ((∀ t, machine.work t = none) →
      machine.process.platform.unameCalls =
        os.unameCalls + history.countP (Label.closes Use.asksRelease) +
          (machine.process.cells .slotBase).count ∧
      machine.process.platform.createCalls =
        os.createCalls + history.countP (Label.closes Use.lacksKey) +
          (machine.process.cells .key).count + (machine.process.cells .direct).count) ∧
    (∀ slot, machine.process.cells .direct = .full slot →
      machine.process.cells .slotBase = .full slot.base) ∧
    (∀ k slot, machine.process.cells .key = .full k → machine.process.cells .direct = .full slot →
      k ≠ slot.key) ∧
    ∀ before now t u during a answer after, Run (idle (.fresh os)) before now →
      Run now (.begins t u :: (during ++ .access t u a answer :: after)) machine →
      (∀ m ∈ during, m.Within t u) → u.Supplied now.process → a ≠ .uname ∧ a ≠ .createKey := by
  have hidle (t : ThreadId) (h : machine.work t = none) : openCall history t = .nothing := by
    simpa [h, Settles] using run.settles t
  obtain ⟨hasks, hcreates⟩ := run.counts
  obtain ⟨_, ⟨asking, hasking, rfl⟩, hasked⟩ := run.balanced .asked
  obtain ⟨_, ⟨creating, hcreating, rfl⟩, hcreated⟩ := run.balanced .created
  have hfilled (c : Cell) : history.countP (Label.makes (Access.fills c)) =
      (machine.process.cells c).count := run.fillings (unheld_fresh os) rfl
  have hunames : machine.process.platform.unameCalls =
      os.unameCalls + history.countP (Label.closes Use.asksRelease) +
        (machine.process.cells .slotBase).count + asking.card := by
    simp only [Account.asked, hfilled] at hasked
    simp only [Process.fresh] at hasks
    omega
  have hkeys : machine.process.platform.createCalls =
      os.createCalls + history.countP (Label.closes Use.lacksKey) +
        (machine.process.cells .key).count + (machine.process.cells .direct).count +
          creating.card := by
    have hapart : ∀ a : Access, a.fills .key = true → a.fills .direct = false :=
      fun a => a.fills_one (by simp)
    simp only [Account.created, countP_makes_or hapart, hfilled] at hcreated
    simp only [Process.fresh] at hcreates
    omega
  refine ⟨⟨asking, creating, fun t => (hasking t).trans Account.isOpen_asked,
    fun t => (hcreating t).trans Account.isOpen_created, hunames, hkeys⟩, hidle, ?exact,
    fun slot hfull => base_of_direct run hfull, ?apart, ?supplied⟩
  case exact =>
    intro hall
    have hnobody {account : Account} {threads : Finset ThreadId}
        (hthreads : ∀ t, t ∈ threads ↔ account.isOpen (openCall history t) = true) :
        threads = ∅ := by
      apply Finset.eq_empty_of_forall_notMem
      intro t ht
      have hopen := (hthreads t).mp ht
      rw [hidle t (hall t), account.nothing] at hopen
      cases hopen
    rw [hnobody hasking] at hunames
    rw [hnobody hcreating] at hkeys
    exact ⟨hunames, hkeys⟩
  case apart =>
    intro k slot hkey hdirect heq
    have hplaces := (run.keysApart fun _ => rfl).apart (.cell .key) (.cell .direct) k
      (by simp [keyAt, hkey, Once.value?, Cell.key?])
      (by simp [keyAt, hdirect, Once.value?, Cell.key?, heq])
    cases hplaces
  case supplied =>
    intro before now t u during a answer after first rest hwithin hsupplied
    have hfree := first.supplied (unheld_fresh os) rest hwithin hsupplied
    constructor <;> (rintro rfl; exact hfree)

/-- A registration through the direct backend. -/
def directBinding : Use :=
  .call [] ⟨⟨.absent, 0⟩, .direct⟩ (.bind 0)

/-- The kernel reports nothing. Thread 1 fails to register for want of a key; then keys can be
created, thread 2 registers through the direct backend and thread 1 clears its binding through the
key backend. Thread 3 has asked for the release and not ended. -/
def busyPlatform : List Label × Machine :=
  (idle (.fresh (.fresh (.failure 5) (.plain 0)))).follow <|
    [.change (.setFaults (some 11) none),
      .begin 1 (.call [] ⟨⟨.absent, 0⟩, .direct⟩ (.hold none))] ++ List.replicate 30 (.go 1) ++
    [.change (.setFaults (some 0) none), .begin 2 directBinding] ++
    List.replicate 12 (.go 2) ++ [.begin 1 (.call [] ⟨⟨.absent, 0⟩, .key⟩ .unbind)] ++
    List.replicate 7 (.go 1) ++ [.begin 3 (.service .askRelease), .go 3]

/-- Both accounts are right, and whatever thread 2 does to register once more adds to neither. -/
theorem calls_accounted_busy :
    busyPlatform.2.process.platform.unameCalls = 2 ∧
    busyPlatform.2.process.platform.createCalls = 3 ∧
    busyPlatform.1.countP (Label.closes Use.lacksKey) = 1 ∧
    busyPlatform.2.process.cells .key = .full 1 ∧
    busyPlatform.2.process.cells .direct = .full ⟨0, 96⟩ ∧
    (∃ asking : Finset ThreadId, asking.card = 1 ∧
      ∀ t, t ∈ asking ↔ openCall busyPlatform.1 t = .asked) ∧
    (∀ t answer, openCall busyPlatform.1 t ≠ .created answer) ∧
    ∀ during a answer after machine,
      Run busyPlatform.2
        (.begins 2 directBinding :: (during ++ .access 2 directBinding a answer :: after)) machine →
      (∀ m ∈ during, m.Within 2 directBinding) → a ≠ .uname ∧ a ≠ .createKey := by
  have run : Run (idle (.fresh (.fresh (.failure 5) (.plain 0)))) busyPlatform.1 busyPlatform.2 :=
    run_follow _ _
  obtain ⟨⟨asking, creating, hasking, hcreating, hunames, hkeys⟩, -⟩ := calls_accounted run
  have hasked : busyPlatform.2.process.platform.unameCalls = 2 := rfl
  have hcreated : busyPlatform.2.process.platform.createCalls = 3 := rfl
  have hended : busyPlatform.1.countP (Label.closes Use.asksRelease) = 0 := rfl
  have hfailed : busyPlatform.1.countP (Label.closes Use.lacksKey) = 1 := rfl
  have hbase : busyPlatform.2.process.cells .slotBase = .full 96 := rfl
  have hkey : busyPlatform.2.process.cells .key = .full 1 := rfl
  have hdirect : busyPlatform.2.process.cells .direct = .full ⟨0, 96⟩ := rfl
  rw [hasked, hended, hbase] at hunames
  rw [hcreated, hfailed, hkey, hdirect] at hkeys
  simp only [Platform.fresh, Once.count] at hunames hkeys
  refine ⟨hasked, hcreated, hfailed, hkey, hdirect, ⟨asking, by omega, hasking⟩,
    fun t answer hopen => ?_, fun during a answer after machine rest hwithin => ?_⟩
  · have hmem := (hcreating t).mpr ⟨answer, hopen⟩
    rw [Finset.card_eq_zero.mp (show creating.card = 0 by omega)] at hmem
    simp at hmem
  · obtain ⟨-, -, -, -, -, hsupplied⟩ := calls_accounted (run.trans rest)
    refine hsupplied _ _ 2 directBinding during a answer after run rest hwithin ⟨nofun, ?_⟩
    intro c hc
    obtain rfl : Cell.direct = c := Option.some.inj hc
    exact ⟨_, hdirect⟩

end Machine

end ExecContext
