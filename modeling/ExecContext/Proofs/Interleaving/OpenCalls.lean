import ExecContext.Proofs.Interleaving.CallDiscipline

set_option autoImplicit false

/-!
# Open calls

Which call to the platform a thread has open is settled by what happened so far (`openCall`): in
every run each thread keeps to the discipline, and one that is idle has none open (`Run.settles`).
As the call for a key is open until the key is put in a cell, no key is ever in two places
(`Run.keysApart`).
-/

namespace ExecContext

/-! ## Labels -/

namespace Label

/-- No access is made and no use ends. -/
def Quiet : Label → Prop
  | .access .. => False
  | .ends .. => False
  | _ => True

/-- The call that thread `t` has open after a step. -/
def openAfter (t : ThreadId) (φ : OpenCall) : Label → OpenCall
  | .access u _ a answer => if u = t then φ.next a answer else φ
  | .ends u _ _ => if u = t then .nothing else φ
  | _ => φ

end Label

/-- The call that a thread has open after all that happened. -/
def openCall (history : List Label) (t : ThreadId) : OpenCall :=
  history.foldl (Label.openAfter t) .nothing

/-- The call that is open after one more step. -/
theorem openCall_concat (history : List Label) (m : Label) (t : ThreadId) :
    openCall (history ++ [m]) t = m.openAfter t (openCall history t) :=
  List.foldl_append ..

theorem openCall_quiet (history : List Label) {m : Label} (h : m.Quiet) :
    openCall (history ++ [m]) = openCall history := by
  funext t
  rw [openCall_concat]
  cases m with
  | access => exact h.elim
  | ends => exact h.elim
  | _ => rfl

theorem openCall_access (history : List Label) (t : ThreadId) (u : Use) (a : Access)
    (answer : a.Answer) :
    openCall (history ++ [.access t u a answer]) =
      Discipline.setStage (openCall history) t ((openCall history t).next a answer) := by
  funext v
  rw [openCall_concat]
  by_cases hv : v = t
  · subst hv
    simp [Label.openAfter]
  · simp [Label.openAfter, Discipline.setStage_other _ _ hv, Ne.symm hv]

theorem openCall_ends (history : List Label) (t : ThreadId) (u : Use)
    (result : Except Cause Session.Answer) :
    openCall (history ++ [.ends t u result]) =
      Discipline.setStage (openCall history) t .nothing := by
  funext v
  rw [openCall_concat]
  by_cases hv : v = t
  · subst hv
    simp [Label.openAfter]
  · simp [Label.openAfter, Discipline.setStage_other _ _ hv, Ne.symm hv]

/-! ## The platform -/

namespace Access

/-- The kernel is asked. -/
def asks : Access → Bool
  | .uname => true
  | _ => false

/-- A key is asked for. -/
def creates : Access → Bool
  | .createKey => true
  | _ => false

end Access

namespace Process

variable {s : Process} {t : ThreadId} {a : Access} {effect : Effect a.Answer}

/-- The counters of the platform count the calls. -/
theorem perform_platform (h : s.perform t a = some effect) :
    effect.process.platform.unameCalls = s.platform.unameCalls + a.asks.toNat ∧
      effect.process.platform.createCalls = s.platform.createCalls + a.creates.toNat := by
  constructor
  · cases a with
    | uname =>
      cases h
      rfl
    | _ => exact perform_frame h .unameCalls (by simp [Access.changes?])
  · cases a with
    | createKey =>
      simp only [perform, createKey] at h
      split at h <;> cases h <;> rfl
    | _ => exact congrArg Prod.fst (perform_frame h .keys (by simp [Access.changes?]))

/-- The number of keys created grows only. -/
theorem perform_keysMade (h : s.perform t a = some effect) :
    s.platform.keysMade ≤ effect.process.platform.keysMade := by
  cases a with
  | createKey =>
    simp only [perform, createKey] at h
    split at h <;> cases h
    · exact Nat.le_succ _
    · exact Nat.le_refl _
  | _ =>
    have hkeys := perform_frame h .keys (by simp [Access.changes?])
    exact Nat.le_of_eq (congrArg Prod.snd hkeys).symm

/-- A key stays created. -/
theorem perform_created (h : s.perform t a = some effect) {k : Key}
    (hk : s.platform.Created k) : effect.process.platform.Created k := by
  obtain ⟨-, -, -, -, hhost⟩ := perform_surroundings h
  exact hk.mono hhost (perform_keysMade h)

/-- A key that is created is the next one. -/
theorem perform_creates {k : Key} (h : s.perform t a = some effect)
    (hcreated : (⟨a, effect.answer⟩ : Accesses.Exchange) = ⟨.createKey, .ok k⟩) :
    k = s.platform.nextKey ∧ effect.process.platform.Created k := by
  cases a with
  | createKey =>
    simp only [perform, createKey] at h
    split at h
    · cases h
      cases hcreated
      exact ⟨rfl, s.platform.keysMade, Nat.lt_succ_self _, rfl⟩
    · cases h
      cases hcreated
  | _ => cases hcreated

end Process

/-! ## Machines -/

namespace Machine

variable {s : Process} {machine : Machine} {history : List Label} {t : ThreadId} {u : Use}
  {a : Access}

/-- What remains to be run of a thread's use keeps to the discipline; an idle thread has no
open call. -/
def Settles (φ : OpenCall) : Option Work → Prop
  | none => φ = .nothing
  | some w => callDiscipline.Obeys (fun φ' result => φ' = w.use.openCall result) w.rest φ

theorem Run.settles (run : Run (idle s) history machine) (t : ThreadId) :
    Settles (openCall history t) (machine.work t) := by
  induction run generalizing t with
  | refl => rfl
  | @step now later history m first last ih =>
    cases last with
    | @begins v u hidle =>
      have hnothing : openCall history v = .nothing := by simpa [hidle, Settles] using ih v
      have hown : Settles (openCall history v) (some ⟨u, u.action⟩) := by
        rw [hnothing]
        exact callDiscipline_action u
      have hall := forall_setWork (t := v) ih hown t
      rw [Discipline.setStage_self] at hall
      rw [openCall_quiet history (m := .begins v u) trivial]
      exact hall
    | @access v u _ _ a effect hwork hnext =>
      obtain ⟨resume, rfl, heffect, rfl⟩ := hnext
      have hobeys : callDiscipline.Obeys (fun φ result => φ = u.openCall result) (.call a resume)
          (openCall history v) := by simpa [hwork, Settles] using ih v
      have hown : Settles ((openCall history v).next a effect.answer)
          (some ⟨u, resume effect.answer⟩) := hobeys.2 effect.answer _ rfl
      rw [openCall_access]
      exact forall_setWork ih hown t
    | @ends v u rest result hwork hresult =>
      have hown : Settles .nothing none := rfl
      rw [openCall_ends]
      exact forall_setWork ih hown t
    | changes c =>
      rw [openCall_quiet history (m := .changes c) trivial]
      exact ih t
    | starts name =>
      rw [openCall_quiet history (m := .starts name) trivial]
      exact ih t

/-- An access is permitted by the call that the thread has open. -/
theorem Run.permits (run : Run (idle s) history machine) {resume : a.Answer → Action Session.Answer}
    (hwork : machine.work t = some ⟨u, .call a resume⟩) : (openCall history t).Permits a := by
  have hsettles := run.settles t
  rw [hwork] at hsettles
  exact hsettles.1

/-- When a use ends, the call that is open is the one that its result tells of. -/
theorem Run.openCall_result (run : Run (idle s) history machine) {rest : Action Session.Answer}
    {result : Except Cause Session.Answer} (hwork : machine.work t = some ⟨u, rest⟩)
    (hresult : rest.result? = some result) : openCall history t = u.openCall result := by
  have hsettles := run.settles t
  rw [hwork, Program.result?_eq_some.mp hresult] at hsettles
  cases result with
  | ok value => exact hsettles
  | error cause => exact hsettles

end Machine

/-! ## Keys -/

/-- Where a key may be. -/
inductive KeyPlace where
  | cell (c : Cell)
  /-- with a thread that asked for it and has the call open -/
  | thread (t : ThreadId)

/-- The key in what a cell holds. -/
def Cell.key? : (c : Cell) → c.Content → Option Key
  | .key, k => some k
  | .direct, slot => some slot.key
  | _, _ => none

/-- The key that came of the open call. -/
def OpenCall.key? : OpenCall → Option Key
  | .created (.ok k) => some k
  | _ => none

/-- The key at a place. -/
def keyAt (s : Process) (stages : ThreadId → OpenCall) : KeyPlace → Option Key
  | .cell c => (s.cells c).value?.bind c.key?
  | .thread t => (stages t).key?

/-- The keys at all places are different ones, and have been created. -/
structure KeysApart (s : Process) (stages : ThreadId → OpenCall) : Prop where
  old : ∀ p k, keyAt s stages p = some k → s.platform.Created k
  apart : ∀ p q k, keyAt s stages p = some k → keyAt s stages q = some k → p = q

namespace KeysApart

variable {s : Process} {stages : ThreadId → OpenCall} {t : ThreadId} {a : Access}
  {effect : Effect a.Answer} {k : Key}

theorem permits_key {φ : OpenCall} {c : Cell} {value : c.Content} (h : φ.Permits (.publish c value))
    (hk : c.key? value = some k) : φ = .created (.ok k) := by
  cases c with
  | key => cases hk; exact h
  | direct => cases hk; exact h
  | _ => cases hk

/-- A key with a thread was there before, or has just been created. -/
theorem key_next {φ : OpenCall} {answer : a.Answer} (h : (φ.next a answer).key? = some k) :
    φ.key? = some k ∨ (⟨a, answer⟩ : Accesses.Exchange) = ⟨.createKey, .ok k⟩ := by
  cases a with
  | uname => cases h
  | createKey =>
    cases answer with
    | ok k' => cases h; exact Or.inr rfl
    | error code => cases h
  | publish c value =>
    cases c with
    | settings => exact Or.inl h
    | _ => cases h
  | _ => exact Or.inl h

/-- How a key comes to be at a place after an access of thread `t`. -/
inductive Arrival (s : Process) (stages : ThreadId → OpenCall) (t : ThreadId) (a : Access)
    (answer : a.Answer) (k : Key) : KeyPlace → Prop where
  /-- it was there before -/
  | stayed {p : KeyPlace} (hold : keyAt s stages p = some k) : Arrival s stages t a answer k p
  /-- the thread has just created it -/
  | created (hcreated : (⟨a, answer⟩ : Accesses.Exchange) = ⟨.createKey, .ok k⟩) :
      Arrival s stages t a answer k (.thread t)
  /-- the thread has just put it in a cell -/
  | published {c : Cell} {value : c.Content} (hpublish : a = .publish c value)
      (hkey : c.key? value = some k) : Arrival s stages t a answer k (.cell c)

/-- A key that is at a place after an access has come there. -/
theorem arrival (heffect : s.perform t a = some effect) {p : KeyPlace}
    (h : keyAt effect.process (Discipline.setStage stages t ((stages t).next a effect.answer)) p =
      some k) : Arrival s stages t a effect.answer k p := by
  cases p with
  | thread v =>
    by_cases hv : v = t
    · subst hv
      simp only [keyAt, Discipline.setStage_same] at h
      rcases key_next h with hold | hcreated
      · exact .stayed hold
      · exact .created hcreated
    · simp only [keyAt, Discipline.setStage_other _ _ hv] at h
      exact .stayed h
  | cell c =>
    obtain ⟨value, hvalue, hkey⟩ := Option.bind_eq_some_iff.mp h
    have hfull : effect.process.cells c = .full value := by
      cases hcell : effect.process.cells c with
      | full v => rw [hcell] at hvalue; cases hvalue; rfl
      | _ => rw [hcell] at hvalue; cases hvalue
    by_cases hbefore : s.cells c = .full value
    · refine .stayed ?_
      simp only [keyAt, hbefore]
      exact hkey
    · exact .published (Process.perform_fills heffect hfull hbefore) hkey

/-- A thread that puts a key in a cell had created it. -/
theorem keyAt_of_permits {c : Cell} {value : c.Content}
    (ha : (stages t).Permits (.publish c value)) (hkey : c.key? value = some k) :
    keyAt s stages (.thread t) = some k := by
  rw [keyAt, permits_key ha hkey]
  rfl

/-- A key that is created was nowhere before. -/
theorem keyAt_ne_created (h : KeysApart s stages) (heffect : s.perform t a = some effect)
    (hcreated : (⟨a, effect.answer⟩ : Accesses.Exchange) = ⟨.createKey, .ok k⟩) (p : KeyPlace) :
    keyAt s stages p ≠ some k := by
  intro hold
  have hmade := h.old p k hold
  rw [(Process.perform_creates heffect hcreated).1] at hmade
  exact s.platform.not_created_nextKey hmade

/-- A key that is put in a cell stays nowhere else. -/
theorem not_stays_published (h : KeysApart s stages) (ha : (stages t).Permits a) {c : Cell}
    {value : c.Content} (hpublish : a = .publish c value) (hkey : c.key? value = some k)
    {p : KeyPlace} (hold : keyAt s stages p = some k)
    (hnow : keyAt effect.process
      (Discipline.setStage stages t ((stages t).next a effect.answer)) p = some k) : False := by
  subst hpublish
  obtain rfl := h.apart p (.thread t) k hold (keyAt_of_permits ha hkey)
  have hc : c ≠ .settings := by
    rintro rfl
    cases hkey
  rw [keyAt, Discipline.setStage_same, OpenCall.next_publish _ hc] at hnow
  cases hnow

/-- A key that is created is new, and one that is put in a cell leaves the thread that
created it. -/
theorem access (h : KeysApart s stages) (ha : (stages t).Permits a)
    (heffect : s.perform t a = some effect) :
    KeysApart effect.process
      (Discipline.setStage stages t ((stages t).next a effect.answer)) where
  old p k hp := by
    cases arrival heffect hp with
    | stayed hold => exact Process.perform_created heffect (h.old p k hold)
    | created hcreated => exact (Process.perform_creates heffect hcreated).2
    | published hpublish hkey =>
      subst hpublish
      exact Process.perform_created heffect (h.old _ k (keyAt_of_permits ha hkey))
  apart p q k hp hq := by
    cases arrival heffect hp with
    | stayed hold =>
      cases arrival heffect hq with
      | stayed hold' => exact h.apart p q k hold hold'
      | created hcreated => exact absurd hold (h.keyAt_ne_created heffect hcreated p)
      | published hpublish hkey => exact (h.not_stays_published ha hpublish hkey hold hp).elim
    | created hcreated =>
      cases arrival heffect hq with
      | stayed hold => exact absurd hold (h.keyAt_ne_created heffect hcreated q)
      | created _ => rfl
      | published hpublish _ =>
        subst hpublish
        cases hcreated
    | published hpublish hkey =>
      cases arrival heffect hq with
      | stayed hold => exact (h.not_stays_published ha hpublish hkey hold hq).elim
      | created hcreated =>
        subst hpublish
        cases hcreated
      | published hpublish' _ =>
        subst hpublish
        cases hpublish'
        rfl

/-- Nothing is created where each key is where it was. -/
theorem of_less {s' : Process} {stages' : ThreadId → OpenCall} (h : KeysApart s stages)
    (hstays : ∀ k, s.platform.Created k → s'.platform.Created k)
    (hless : ∀ p k, keyAt s' stages' p = some k → keyAt s stages p = some k) :
    KeysApart s' stages' where
  old p k hp := hstays k (h.old p k (hless p k hp))
  apart p q k hp hq := h.apart p q k (hless p k hp) (hless q k hq)

/-- A thread may forget its open call. -/
theorem forget (h : KeysApart s stages) (t : ThreadId) :
    KeysApart s (Discipline.setStage stages t .nothing) := by
  refine h.of_less (fun _ hk => hk) fun p k hp => ?_
  cases p with
  | cell c => exact hp
  | thread v =>
    by_cases hv : v = t
    · subst hv
      rw [keyAt, Discipline.setStage_same] at hp
      cases hp
    · rw [keyAt, Discipline.setStage_other _ _ hv] at hp
      exact hp

end KeysApart

namespace Machine

variable {s : Process} {machine : Machine} {history : List Label}

/-- No key is in two places. -/
theorem Run.keysApart (hs : ∀ c, s.cells c = .empty) (run : Run (idle s) history machine) :
    KeysApart machine.process (openCall history) := by
  induction run with
  | refl =>
    have hnone (p : KeyPlace) : keyAt s (openCall []) p = none := by
      cases p with
      | cell c => simp [keyAt, hs c, Once.value?]
      | thread t => rfl
    exact ⟨fun p k hp => absurd hp (by simp [idle, hnone]),
      fun p q k hp => absurd hp (by simp [idle, hnone])⟩
  | @step now later history m first last ih =>
    cases last with
    | @begins t u hidle =>
      rw [openCall_quiet history (m := .begins t u) trivial]
      exact ih
    | @access t u _ _ a effect hwork hnext =>
      obtain ⟨resume, rfl, heffect, rfl⟩ := hnext
      rw [openCall_access]
      exact ih.access (first.permits hwork) heffect
    | @ends t u rest result hwork hresult =>
      rw [openCall_ends]
      exact ih.forget t
    | changes c =>
      rw [openCall_quiet history (m := .changes c) trivial]
      exact ih.of_less (fun k hk => hk.change c) fun p k hp => by cases p <;> exact hp
    | starts name =>
      rw [openCall_quiet history (m := .starts name) trivial]
      exact ih.of_less (fun k hk => hk) fun p k hp => by cases p <;> exact hp

end Machine

end ExecContext
