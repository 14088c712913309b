import ExecContext.Proofs.Interleaving.Discipline
import ExecContext.Proofs.Log.Accesses
import ExecContext.Proofs.Process.Locks
import ExecContext.Proofs.Storage.Kept

set_option autoImplicit false

/-!
# The discipline of the key

The key of the key backend is created by the thread that has taken on its cell, and used by the
threads that were given it. Where every thread keeps to this (`keyDiscipline`), at most one key is
created, nothing is stored behind any other, and what a thread reads behind the key is what it
stored there itself (`keeps_keyInvariant`). What the key backend does keeps to it (`obeys_hold`,
`obeys_held`).
-/

namespace ExecContext

/-! ## Keys created since a start -/

/-- The platform gives what it gave at the start, and `n` keys were created since. -/
structure Platform.Since (start now : Platform) (n : Nat) : Prop where
  host : now.host = start.host
  made : now.keysMade = start.keysMade + n

theorem Platform.Since.refl (start : Platform) : start.Since start 0 := ⟨rfl, rfl⟩

/-- While no key was created since, the next one is the one that was next at the start. -/
theorem Platform.Since.nextKey {start now : Platform} (h : start.Since now 0) :
    now.nextKey = start.nextKey := by
  rw [Platform.nextKey, h.host, h.made]
  rfl

/-! ## The discipline of the key -/

/-- How far a thread has come with the key. -/
inductive KeyStage where
  /-- it knows nothing of the key -/
  | outside
  /-- it has taken on the cell, and perhaps created the key -/
  | taken (made : Bool)
  /-- it has been given the key -/
  | ready
  deriving DecidableEq

/-- How far a thread has come with the key, and the pointer that it stored last behind it. -/
structure KeyProgress where
  stage : KeyStage
  own : Pointer

/-- The thread has not taken on the cell. -/
def KeyProgress.Idle (φ : KeyProgress) : Prop := φ.stage = .outside ∨ φ.stage = .ready

/-- The key is created by the thread that has taken on the cell and used by those that were given
it; what a thread reads behind it is its own pointer. -/
def keyDiscipline (k₀ : Key) : Discipline KeyProgress where
  permits φ
    | .enter .key => φ.Idle
    | .peek .key => φ.Idle
    | .publish .key k => φ.stage = .taken true ∧ k = k₀
    | .abandon .key => φ.stage = .taken false
    | .createKey => φ.stage = .taken false
    | .setSpecific k _ => φ.stage = .ready ∧ k = k₀
    | .getSpecific k => φ.stage = .ready ∧ k = k₀
    | _ => True
  moves φ a answer φ' :=
    match a, answer with
    | .enter .key, none => φ' = { φ with stage := .taken false }
    | .enter .key, some k => k = k₀ ∧ φ' = { φ with stage := .ready }
    | .peek .key, none => φ.own = none ∧ φ' = φ
    | .peek .key, some k => k = k₀ ∧ φ' = { φ with stage := .ready }
    | .publish .key _, _ => φ' = { φ with stage := .ready }
    | .abandon .key, _ => φ' = { φ with stage := .outside }
    | .createKey, .ok k => k = k₀ ∧ φ' = { φ with stage := .taken true }
    | .createKey, .error _ => φ' = φ
    | .setSpecific _ p, code => φ' = if code = 0 then { φ with own := p } else φ
    | .getSpecific _, p => p = φ.own ∧ φ' = φ
    | _, _ => φ' = φ

/-- The access touches neither the cell of the key nor anything behind a key. -/
def Aside : Access → Prop
  | .enter c => c ≠ .key
  | .peek c => c ≠ .key
  | .publish c _ => c ≠ .key
  | .abandon c => c ≠ .key
  | .createKey => False
  | .setSpecific .. => False
  | .getSpecific _ => False
  | _ => True

/-- Such an access is permitted at every stage and leads to no other. -/
theorem keyDiscipline_aside (k₀ : Key) (φ : KeyProgress) {a : Access} (ha : Aside a) :
    (keyDiscipline k₀).permits φ a ∧
      ∀ answer φ', (keyDiscipline k₀).moves φ a answer φ' ↔ φ' = φ := by
  cases a with
  | enter c => cases c <;> first | exact absurd rfl ha | exact ⟨trivial, fun _ _ => Iff.rfl⟩
  | peek c => cases c <;> first | exact absurd rfl ha | exact ⟨trivial, fun _ _ => Iff.rfl⟩
  | publish c value =>
    cases c <;> first | exact absurd rfl ha | exact ⟨trivial, fun _ _ => Iff.rfl⟩
  | abandon c => cases c <;> first | exact absurd rfl ha | exact ⟨trivial, fun _ _ => Iff.rfl⟩
  | createKey => exact ha.elim
  | setSpecific k p => exact ha.elim
  | getSpecific k => exact ha.elim
  | _ => exact ⟨trivial, fun _ _ => Iff.rfl⟩

/-- What such an access leaves as it was. -/
theorem perform_aside {s : Process} {t : ThreadId} {a : Access} {effect : Effect a.Answer}
    (ha : Aside a) (heffect : s.perform t a = some effect) :
    effect.process.cells .key = s.cells .key ∧
      (∀ start n, Platform.Since start s.platform n → start.Since effect.process.platform n) ∧
      effect.process.specific = s.specific := by
  have hcell : a.changes? ≠ some (.cell .key) := by
    cases a <;>
      first
        | exact ha.elim
        | exact fun heq => ha (Process.Part.cell.inj (Option.some.inj heq))
        | exact nofun
  have hkeys : a.changes? ≠ some .keys := by
    cases a <;> first | exact ha.elim | exact nofun
  have hspecific : a.changes? ≠ some .specific := by
    cases a <;> first | exact ha.elim | exact nofun
  obtain ⟨-, -, -, -, hhost⟩ := Process.perform_surroundings heffect
  have hmade := congrArg Prod.snd (Process.perform_frame heffect _ hkeys)
  exact ⟨Process.perform_frame heffect _ hcell,
    fun start n h => ⟨hhost.trans h.host, hmade.trans h.made⟩,
    Process.perform_frame heffect _ hspecific⟩

/-! ## The invariant -/

/-- How far the process has come with the key since the platform was `start`, and with it every
thread. -/
inductive KeyState (start : Platform) (s : Process) (stages : ThreadId → KeyProgress) : Prop where
  /-- nobody has begun -/
  | empty (hcell : s.cells .key = .empty) (hmade : start.Since s.platform 0)
    (hall : ∀ u, stages u = ⟨.outside, none⟩)
  /-- a thread has taken on the cell -/
  | taken (t : ThreadId) (made : Bool) (hcell : s.cells .key = .busy t)
    (hmade : start.Since s.platform made.toNat) (hown : stages t = ⟨.taken made, none⟩)
    (hothers : ∀ u, u ≠ t → stages u = ⟨.outside, none⟩)
  /-- the key is there for all -/
  | full (hcell : s.cells .key = .full start.nextKey) (hmade : start.Since s.platform 1)
    (hall : ∀ u, (stages u).Idle)

/-- Behind the key each thread has stored its own pointer, and behind any other key nothing has been
stored since `before`. -/
structure KeyInvariant (start : Platform) (before : Key → Slots) (s : Process)
    (stages : ThreadId → KeyProgress) : Prop where
  state : KeyState start s stages
  own : ∀ u, s.specific start.nextKey u = (stages u).own
  others : ∀ k, k ≠ start.nextKey → s.specific k = before k

section Invariant

variable {start : Platform} {before : Key → Slots} {s s' : Process}
  {stages : ThreadId → KeyProgress} {t : ThreadId}

/-- The thread that has taken on the cell is alone in it. -/
theorem KeyState.of_taken (h : KeyState start s stages) {made : Bool}
    (ht : (stages t).stage = .taken made) :
    s.cells .key = .busy t ∧ start.Since s.platform made.toNat ∧
      stages t = ⟨.taken made, none⟩ ∧ ∀ u, u ≠ t → stages u = ⟨.outside, none⟩ := by
  cases h with
  | empty _ _ hall =>
    rw [hall t] at ht
    cases ht
  | taken u made' hcell hmade hown hothers =>
    by_cases hu : t = u
    · subst hu
      rw [hown] at ht
      cases ht
      exact ⟨hcell, hmade, hown, hothers⟩
    · rw [hothers t hu] at ht
      cases ht
  | full _ _ hall =>
    rcases hall t with hidle | hidle <;> rw [hidle] at ht <;> cases ht

/-- A thread that was given the key was given the one that the cell holds. -/
theorem KeyState.of_ready (h : KeyState start s stages) (ht : (stages t).stage = .ready) :
    s.cells .key = .full start.nextKey ∧ start.Since s.platform 1 ∧ ∀ u, (stages u).Idle := by
  cases h with
  | empty _ _ hall =>
    rw [hall t] at ht
    cases ht
  | taken u made _ _ hown hothers =>
    by_cases hu : t = u
    · rw [hu, hown] at ht
      cases ht
    · rw [hothers t hu] at ht
      cases ht
  | full hcell hmade hall => exact ⟨hcell, hmade, hall⟩

/-- A thread that finds no key has stored nothing. -/
theorem KeyState.own_none (h : KeyState start s stages) (hcell : ∀ k, s.cells .key ≠ .full k)
    (t : ThreadId) : (stages t).own = none := by
  cases h with
  | empty _ _ hall => rw [hall t]
  | taken u made _ _ hown hothers =>
    by_cases hu : t = u
    · rw [hu, hown]
    · rw [hothers t hu]
  | full hfull _ _ => exact absurd hfull (hcell _)

/-- At most one key has been created. -/
theorem KeyState.made_le (h : KeyState start s stages) :
    s.platform.keysMade ≤ start.keysMade + 1 := by
  cases h with
  | empty _ hmade _ => exact Nat.le_trans (Nat.le_of_eq hmade.made) (Nat.le_succ _)
  | taken u made _ hmade _ _ =>
    rw [hmade.made]
    exact Nat.add_le_add_left (Bool.toNat_le made) _
  | full _ hmade _ => exact Nat.le_of_eq hmade.made

theorem KeyState.of_full (h : KeyState start s stages) {k : Key} (hk : s.cells .key = .full k) :
    k = start.nextKey ∧ start.Since s.platform 1 ∧ ∀ u, (stages u).Idle := by
  cases h with
  | empty hcell _ _ =>
    rw [hk] at hcell
    cases hcell
  | taken u made hcell _ _ _ =>
    rw [hk] at hcell
    cases hcell
  | full hcell hmade hall =>
    rw [hk] at hcell
    cases hcell
    exact ⟨rfl, hmade, hall⟩

/-! ## One access -/

/-- What touches neither the key nor anything behind a key keeps the invariant. -/
theorem KeyInvariant.aside (h : KeyInvariant start before s stages)
    (hcell : s'.cells .key = s.cells .key)
    (hmade : ∀ n, start.Since s.platform n → start.Since s'.platform n)
    (hspecific : s'.specific = s.specific) :
    KeyInvariant start before s' (Discipline.setStage stages t (stages t)) := by
  rw [Discipline.setStage_self]
  refine ⟨?_, fun u => by rw [hspecific]; exact h.own u, fun k hk => by
    rw [hspecific]; exact h.others k hk⟩
  cases h.state with
  | empty hc hn hall => exact .empty (hcell.trans hc) (hmade _ hn) hall
  | taken u made hc hn hown hothers =>
    exact .taken u made (hcell.trans hc) (hmade _ hn) hown hothers
  | full hc hn hall => exact .full (hcell.trans hc) (hmade _ hn) hall

/-- Where the key is there for all, a thread that was given it may have stored another pointer. -/
theorem KeyInvariant.ready (h : KeyInvariant start before s stages)
    (hcell : s'.cells .key = .full start.nextKey)
    (hmade : start.Since s'.platform 1) (hall : ∀ u, u ≠ t → (stages u).Idle) {p : Pointer}
    (hspecific : ∀ k, s'.specific k =
      if k = start.nextKey then (s.specific start.nextKey).set t p else s.specific k) :
    KeyInvariant start before s' (Discipline.setStage stages t ⟨.ready, p⟩) := by
  have hidle : ∀ u, (Discipline.setStage stages t ⟨.ready, p⟩ u).Idle :=
    Discipline.forall_setStage (P := fun _ (φ : KeyProgress) => φ.Idle) (Or.inr rfl) hall
  refine ⟨.full hcell hmade hidle, ?_, fun k hk => ?_⟩
  · rw [hspecific, if_pos rfl]
    refine Discipline.forall_setStage
      (P := fun u (φ : KeyProgress) => (s.specific start.nextKey).set t p u = φ.own) ?_
      fun u hu => ?_
    · rw [Slots.set_same]
    · rw [Slots.set_other _ _ hu]
      exact h.own u
  · rw [hspecific, if_neg hk]
    exact h.others k hk

/-- Where the key is not there for all, only the thread that has taken on the cell moves on. -/
theorem KeyInvariant.early (h : KeyInvariant start before s stages) {stage : KeyStage}
    (hspecific : s'.specific = s.specific) (hown : (stages t).own = none)
    (hstate : KeyState start s' (Discipline.setStage stages t ⟨stage, none⟩)) :
    KeyInvariant start before s' (Discipline.setStage stages t ⟨stage, none⟩) := by
  refine ⟨hstate, ?_, fun k hk => by rw [hspecific]; exact h.others k hk⟩
  rw [hspecific]
  exact Discipline.forall_setStage
    (P := fun u (φ : KeyProgress) => s.specific start.nextKey u = φ.own) ((h.own t).trans hown)
    fun u _ => h.own u

/-- Storing the pointer that is stored already. -/
theorem specific_same (h : KeyInvariant start before s stages) (k : Key) :
    s.specific k =
      if k = start.nextKey then (s.specific start.nextKey).set t (stages t).own
      else s.specific k := by
  by_cases hk : k = start.nextKey
  · subst hk
    rw [if_pos rfl, ← h.own t]
    funext u
    by_cases hu : u = t
    · subst hu
      rw [Slots.set_same]
    · rw [Slots.set_other _ _ hu]
  · rw [if_neg hk]

/-- An access of a thread is answered as the discipline promises. -/
def Answered (start : Platform) (before : Key → Slots) (s : Process)
    (stages : ThreadId → KeyProgress) (t : ThreadId) (a : Access) : Prop :=
  ∀ effect, s.perform t a = some effect →
    ∃ φ, (keyDiscipline start.nextKey).moves (stages t) a effect.answer φ ∧
      KeyInvariant start before effect.process (Discipline.setStage stages t φ)

theorem answered_enter (h : KeyInvariant start before s stages) :
    Answered start before s stages t (.enter .key) := by
  intro effect heffect
  simp only [Process.perform] at heffect
  cases h.state with
  | empty hcell hmade hall =>
    rw [hcell] at heffect
    cases heffect
    have hown : (stages t).own = none := by rw [hall t]
    refine ⟨⟨.taken false, none⟩, ?_, h.early rfl hown (.taken t false ?_ hmade ?_ fun u hu => ?_)⟩
    · simp [keyDiscipline, hall t]
    · exact Process.setCell_same s .key _
    · exact Discipline.setStage_same _ _ _
    · rw [Discipline.setStage_other stages _ hu]
      exact hall u
  | taken u made hcell hmade hown hothers =>
    rw [hcell] at heffect
    cases heffect
  | full hcell hmade hall =>
    rw [hcell] at heffect
    cases heffect
    exact ⟨⟨.ready, (stages t).own⟩, ⟨rfl, rfl⟩,
      h.ready hcell hmade (fun u _ => hall u) (specific_same h)⟩

theorem answered_peek (h : KeyInvariant start before s stages) :
    Answered start before s stages t (.peek .key) := by
  intro effect heffect
  cases heffect
  have hnone (hcell : ∀ k, s.cells .key ≠ .full k) :
      (stages t).own = none ∧ stages t = stages t :=
    ⟨h.state.own_none hcell t, rfl⟩
  cases hcell : s.cells .key with
  | full k =>
    obtain ⟨rfl, hmade, hall⟩ := h.state.of_full hcell
    refine ⟨⟨.ready, (stages t).own⟩, ?_,
      h.ready hcell hmade (fun u _ => hall u) (specific_same h)⟩
    exact ⟨rfl, rfl⟩
  | empty =>
    refine ⟨stages t, ?_, h.aside rfl (fun _ hn => hn) rfl⟩
    exact hnone (by simp [hcell])
  | busy u =>
    refine ⟨stages t, ?_, h.aside rfl (fun _ hn => hn) rfl⟩
    exact hnone (by simp [hcell])

theorem answered_publish (h : KeyInvariant start before s stages)
    (ht : (stages t).stage = .taken true) :
    Answered start before s stages t (.publish .key start.nextKey) := by
  obtain ⟨-, hmade, hown, hothers⟩ := h.state.of_taken ht
  intro effect heffect
  cases heffect
  have hnone : (stages t).own = none := by rw [hown]
  have hidle : ∀ u, (Discipline.setStage stages t ⟨.ready, none⟩ u).Idle := by
    refine Discipline.forall_setStage (P := fun _ (φ : KeyProgress) => φ.Idle) (Or.inr rfl) ?_
    intro u hu
    rw [hothers u hu]
    exact Or.inl rfl
  exact ⟨⟨.ready, none⟩, by rw [hown]; rfl,
    h.early rfl hnone (.full (Process.setCell_same s .key _) hmade hidle)⟩

theorem answered_abandon (h : KeyInvariant start before s stages)
    (ht : (stages t).stage = .taken false) :
    Answered start before s stages t (.abandon .key) := by
  obtain ⟨-, hmade, hown, hothers⟩ := h.state.of_taken ht
  intro effect heffect
  cases heffect
  have hnone : (stages t).own = none := by rw [hown]
  have houtside : ∀ u, Discipline.setStage stages t ⟨.outside, none⟩ u = ⟨.outside, none⟩ :=
    Discipline.forall_setStage (P := fun _ (φ : KeyProgress) => φ = ⟨.outside, none⟩) rfl hothers
  exact ⟨⟨.outside, none⟩, by rw [hown]; rfl,
    h.early rfl hnone (.empty (Process.setCell_same s .key _) hmade houtside)⟩

theorem answered_createKey (h : KeyInvariant start before s stages)
    (ht : (stages t).stage = .taken false) :
    Answered start before s stages t .createKey := by
  obtain ⟨hcell, hmade, hown, hothers⟩ := h.state.of_taken ht
  intro effect heffect
  simp only [Process.perform, Process.createKey, Option.some.injEq] at heffect
  split at heffect
  · subst heffect
    have hnone : (stages t).own = none := by rw [hown]
    refine ⟨⟨.taken true, none⟩, ?_, h.early rfl hnone (.taken t true hcell ?_ ?_ fun u hu => ?_)⟩
    · rw [hown]
      exact ⟨hmade.nextKey, rfl⟩
    · exact ⟨hmade.host, congrArg Nat.succ hmade.made⟩
    · rw [Discipline.setStage_same]
    · rw [Discipline.setStage_other stages _ hu, hothers u hu]
  · subst heffect
    exact ⟨stages t, rfl, h.aside rfl (fun _ hn => ⟨hn.host, hn.made⟩) rfl⟩

theorem answered_setSpecific (h : KeyInvariant start before s stages)
    (ht : (stages t).stage = .ready) (p : Pointer) :
    Answered start before s stages t (.setSpecific start.nextKey p) := by
  obtain ⟨hcell, hmade, hall⟩ := h.state.of_ready ht
  intro effect heffect
  simp only [Process.perform, Process.setSpecific, Option.some.injEq] at heffect
  split at heffect
  · subst heffect
    refine ⟨⟨.ready, p⟩, ?_, h.ready ?_ ?_ (fun u _ => hall u) ?_⟩
    · simp [keyDiscipline, ← ht]
    · exact hcell
    · exact hmade
    · exact fun k => rfl
  · rename_i hfault
    subst heffect
    refine ⟨stages t, ?_, h.aside rfl (fun _ hn => hn) rfl⟩
    simp [keyDiscipline, Effect.read, hfault]

theorem answered_getSpecific (h : KeyInvariant start before s stages) :
    Answered start before s stages t (.getSpecific start.nextKey) := by
  intro effect heffect
  cases heffect
  exact ⟨stages t, ⟨h.own t, rfl⟩, h.aside rfl (fun _ hn => hn) rfl⟩

theorem answered_aside (h : KeyInvariant start before s stages) {a : Access} (ha : Aside a) :
    Answered start before s stages t a := by
  intro effect heffect
  obtain ⟨hcell, hmade, hspecific⟩ := perform_aside ha heffect
  exact ⟨stages t, ((keyDiscipline_aside start.nextKey (stages t) ha).2 _ _).mpr rfl,
    h.aside hcell (fun n => hmade start n) hspecific⟩

/-- Every access that the discipline permits is answered as it promises. -/
theorem keeps_keyInvariant (start : Platform) (before : Key → Slots) :
    (keyDiscipline start.nextKey).Keeps (KeyInvariant start before) where
  platform := by
    intro s stages c h
    have hmade (n : Nat) (hn : start.Since s.platform n) :
        start.Since (s.changePlatform c).platform n := by
      cases c <;> exact ⟨hn.host, hn.made⟩
    have haside : KeyInvariant start before (s.changePlatform c)
        (Discipline.setStage stages 0 (stages 0)) := h.aside rfl hmade rfl
    rwa [Discipline.setStage_self] at haside
  access := by
    intro s stages t a effect h hpermits heffect
    by_cases ha : Aside a
    · exact answered_aside h ha effect heffect
    · cases a with
      | enter c =>
        obtain rfl := Classical.not_not.mp ha
        exact answered_enter h effect heffect
      | peek c =>
        obtain rfl := Classical.not_not.mp ha
        exact answered_peek h effect heffect
      | publish c k =>
        obtain rfl := Classical.not_not.mp ha
        obtain ⟨ht, rfl⟩ := hpermits
        exact answered_publish h ht effect heffect
      | abandon c =>
        obtain rfl := Classical.not_not.mp ha
        exact answered_abandon h hpermits effect heffect
      | createKey => exact answered_createKey h hpermits effect heffect
      | setSpecific k p =>
        obtain ⟨ht, rfl⟩ := hpermits
        exact answered_setSpecific h ht p effect heffect
      | getSpecific k =>
        obtain ⟨ht, rfl⟩ := hpermits
        exact answered_getSpecific h effect heffect
      | _ => exact (ha trivial).elim

/-- The key that is there for all stays: only a thread that has taken on the cell may fill it or
give it up. -/
theorem KeyInvariant.full_stays (h : KeyInvariant start before s stages) {k : Key}
    (hfull : s.cells .key = .full k) {a : Access} {effect : Effect a.Answer}
    (hpermits : (keyDiscipline start.nextKey).permits (stages t) a)
    (heffect : s.perform t a = some effect) : effect.process.cells .key = .full k := by
  have hnever {made : Bool} (ht : (stages t).stage = .taken made) : False := by
    have hbusy := (h.state.of_taken ht).1
    rw [hfull] at hbusy
    cases hbusy
  refine Process.cells_perform heffect hfull fun hleaves => ?_
  cases a with
  | publish c value =>
    cases hleaves
    exact hnever hpermits.1
  | abandon c =>
    cases hleaves
    exact hnever hpermits
  | _ => cases hleaves

end Invariant

/-! ## Programs that obey -/

/-- Logging touches neither the cell of the key nor anything behind a key. -/
theorem aside_of_log {a : Access} (h : a.OfLog) : Aside a := by
  cases a with
  | enter c => exact fun hc => Cell.noConfusion (hc.symm.trans h)
  | publish c value => exact fun hc => Cell.noConfusion (hc.symm.trans h)
  | abandon c => exact fun hc => Cell.noConfusion (hc.symm.trans h)
  | peek c => exact h.elim
  | createKey => exact h.elim
  | setSpecific k p => exact h.elim
  | getSpecific k => exact h.elim
  | _ => trivial

section Obeys

variable {k₀ : Key} {φ : KeyProgress}

/-- A report to the log does not touch the key. -/
theorem obeys_write (level : Log.Level) (message : Log.Message) :
    (keyDiscipline k₀).Obeys (fun φ' result => φ' = φ ∧ ∃ value, result = .ok value)
      (Log.write level message) φ := by
  refine .of_within ((Log.within_write level message).mono fun a ha => ?_)
  obtain ⟨hpermits, hmoves⟩ := keyDiscipline_aside k₀ φ (aside_of_log ha)
  exact ⟨hpermits, fun answer φ' => (hmoves answer φ').mp⟩

/-- A failure is reported and leads nowhere else. -/
theorem obeys_failWith {α : Type} (failure : StorageFailure) :
    (keyDiscipline k₀).Obeys (fun φ' result => φ' = φ ∧ result = .error (.storage failure))
      (Storage.failWith failure : Action α) φ := by
  refine .bind ((obeys_write _ _).mono ?_)
  rintro φ' result ⟨rfl, value, rfl⟩
  exact ⟨rfl, rfl⟩

/-- The thread that has taken on the cell creates the key, or does not. -/
theorem obeys_createKey (ht : φ.stage = .taken false) :
    (keyDiscipline k₀).Obeys (fun φ' result =>
      match result with
      | .ok k => k = k₀ ∧ φ' = { φ with stage := .taken true }
      | .error _ => φ' = φ) Storage.createKey φ := by
  refine ⟨ht, fun answer φ' hmove => ?_⟩
  cases answer with
  | error code =>
    obtain rfl : φ' = φ := hmove
    refine (obeys_failWith _).mono ?_
    rintro φ'' result ⟨rfl, rfl⟩
    rfl
  | ok k =>
    obtain ⟨rfl, rfl⟩ := hmove
    show (keyDiscipline k).Obeys _ (Log.write .debug (.keyCreated k) >>= fun _ => .done k) _
    refine .bind ((obeys_write _ _).mono ?_)
    rintro φ'' result ⟨rfl, value, rfl⟩
    exact ⟨rfl, rfl⟩

/-- Whoever asks for the key is given the one there is, creates it, or is left outside. -/
theorem obeys_processKey (ht : φ.Idle) :
    (keyDiscipline k₀).Obeys (fun φ' result =>
      φ'.own = φ.own ∧
        match result with
        | .ok k => k = k₀ ∧ φ'.stage = .ready
        | .error _ => φ'.stage = .outside) Storage.processKey φ := by
  refine ⟨ht, fun answer φ' hmove => ?_⟩
  cases answer with
  | some k =>
    obtain ⟨rfl, rfl⟩ := hmove
    exact ⟨rfl, rfl, rfl⟩
  | none =>
    obtain rfl : φ' = { φ with stage := .taken false } := hmove
    refine .bind (.onFailure ((obeys_createKey rfl).mono ?_))
    rintro φ' (cause | k) hresult
    · obtain rfl := hresult
      exact ⟨rfl, fun _ φ'' hmove => by obtain rfl := hmove; exact ⟨rfl, rfl⟩⟩
    · obtain ⟨rfl, rfl⟩ := hresult
      exact ⟨⟨rfl, rfl⟩, fun _ φ'' hmove => by obtain rfl := hmove; exact ⟨rfl, rfl, rfl⟩⟩

/-- A thread that was given the key stores behind it, or does not. -/
theorem obeys_storeBehind (ht : φ.stage = .ready) (p : Pointer) :
    (keyDiscipline k₀).Obeys (fun φ' result =>
      match result with
      | .ok _ => φ' = { φ with own := p }
      | .error _ => φ' = φ) (Storage.storeBehind k₀ p) φ := by
  refine ⟨⟨ht, rfl⟩, fun code φ' hmove => ?_⟩
  show (keyDiscipline k₀).Obeys _
    (if code = 0 then .done () else Storage.failWith (.notStored code)) φ'
  obtain rfl : φ' = if code = 0 then { φ with own := p } else φ := hmove
  split
  · rfl
  · refine (obeys_failWith _).mono ?_
    rintro φ' result ⟨rfl, rfl⟩
    rfl

/-- What is held becomes the thread's own pointer. -/
theorem obeys_hold (ht : φ.Idle) (p : Pointer) :
    (keyDiscipline k₀).Obeys (fun φ' result =>
      φ'.Idle ∧
        match result with
        | .ok _ => φ'.own = p
        | .error _ => φ'.own = φ.own) (Backend.hold p .key) φ := by
  refine .bind ((obeys_processKey ht).mono ?_)
  rintro φ' (cause | k) ⟨hown, hstage⟩
  · exact ⟨Or.inl hstage, hown⟩
  · obtain ⟨rfl, hstage⟩ := hstage
    refine (obeys_storeBehind hstage p).mono ?_
    rintro φ'' (cause | value) hresult
    · obtain rfl := hresult
      exact ⟨Or.inr hstage, hown⟩
    · obtain rfl := hresult
      exact ⟨Or.inr hstage, rfl⟩

/-- What is given back is the thread's own pointer. -/
theorem obeys_held (ht : φ.Idle) :
    (keyDiscipline k₀).Obeys (fun φ' result =>
      φ'.Idle ∧ φ'.own = φ.own ∧ result = .ok φ.own) (Backend.held .key) φ := by
  refine ⟨ht, fun answer φ' hmove => ?_⟩
  cases answer with
  | none =>
    obtain ⟨hown, rfl⟩ := hmove
    exact ⟨ht, rfl, by rw [hown]⟩
  | some k =>
    obtain ⟨rfl, rfl⟩ := hmove
    refine ⟨⟨rfl, rfl⟩, fun q φ'' hread => ?_⟩
    obtain ⟨rfl, rfl⟩ := hread
    exact ⟨Or.inr rfl, rfl, rfl⟩

end Obeys

/-- Every permitted access may be answered. -/
theorem keyDiscipline_total (k₀ : Key) (φ : KeyProgress) (a : Access)
    (ha : (keyDiscipline k₀).permits φ a) :
    ∃ answer φ', (keyDiscipline k₀).moves φ a answer φ' := by
  have haside (h : Aside a) (answer : a.Answer) :
      ∃ answer φ', (keyDiscipline k₀).moves φ a answer φ' :=
    ⟨answer, φ, ((keyDiscipline_aside k₀ φ h).2 answer φ).mpr rfl⟩
  cases a with
  | enter c =>
    cases c with
    | key => exact ⟨some k₀, _, rfl, rfl⟩
    | _ => exact haside Cell.noConfusion none
  | peek c =>
    cases c with
    | key => exact ⟨some k₀, _, rfl, rfl⟩
    | _ => exact haside Cell.noConfusion none
  | publish c value =>
    cases c with
    | key => exact ⟨(), _, rfl⟩
    | _ => exact haside Cell.noConfusion ()
  | abandon c =>
    cases c with
    | key => exact ⟨(), _, rfl⟩
    | _ => exact haside Cell.noConfusion ()
  | createKey => exact ⟨.ok k₀, _, rfl, rfl⟩
  | setSpecific k p => exact ⟨0, _, rfl⟩
  | getSpecific k => exact ⟨φ.own, _, rfl, rfl⟩
  | _ => exact haside trivial default

end ExecContext
