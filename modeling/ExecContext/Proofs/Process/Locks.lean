import ExecContext.Proofs.Process.Paths

set_option autoImplicit false

/-!
# What threads wait for

A thread may have to wait for a cell that another thread fills, and for the log that another thread
writes to. Both are locks here: an access may want one, take it, or give it back. The lemmas say of
one access by whom each lock is held after it, and what it does to a full cell.
-/

namespace ExecContext

/-! ## Locks -/

/-- Something that one thread holds at a time. -/
inductive Lock where
  /-- the right to fill a cell -/
  | cell (c : Cell)
  /-- the right to write to the log -/
  | log
  deriving DecidableEq, Repr

/-- The place of a lock in the order in which a thread takes locks, outermost first. -/
def Lock.layer : Lock → Nat
  | .cell .direct => 0
  | .cell .key => 0
  | .cell .slotBase => 1
  | .cell .settings => 2
  | .log => 3

theorem Lock.layer_lt (l : Lock) : l.layer < 4 := by
  cases l with
  | cell c => cases c <;> decide
  | log => decide

/-- The thread that fills a cell. -/
def Once.owner? {α : Type} : Once α → Option ThreadId
  | .busy t => some t
  | _ => none

@[simp] theorem Once.owner?_eq_some {α : Type} {state : Once α} {t : ThreadId} :
    state.owner? = some t ↔ state = .busy t := by
  cases state <;> simp [Once.owner?]

/-- The thread that holds a lock. -/
def Process.holder (s : Process) : Lock → Option ThreadId
  | .cell c => (s.cells c).owner?
  | .log => s.logHolder

theorem Process.holder_setCell (s : Process) (c : Cell) (state : Once c.Content) (l : Lock) :
    (s.setCell c state).holder l = if l = .cell c then state.owner? else s.holder l := by
  cases l with
  | log => rfl
  | cell d =>
    by_cases h : d = c
    · subst h
      simp [holder, setCell]
    · simp [holder, setCell, Cells.set_other, h]

/-! ## What an access does to locks -/

namespace Access

/-- The lock without which the access has to wait. -/
def wants? : Access → Option Lock
  | .enter c => some (.cell c)
  | .lockLog => some .log
  | _ => none

/-- The lock that the thread holds once it is given this answer. -/
def takes? : (a : Access) → a.Answer → Option Lock
  | .enter c, none => some (.cell c)
  | .lockLog, _ => some .log
  | _, _ => none

/-- The lock that the access gives back. -/
def leaves? : Access → Option Lock
  | .publish c _ => some (.cell c)
  | .abandon c => some (.cell c)
  | .unlockLog => some .log
  | _ => none

/-- With this answer, the access shows that a cell holds a value. -/
def Shows (c : Cell) (value : c.Content) (e : Accesses.Exchange) : Prop :=
  e = ⟨.enter c, some value⟩ ∨ e = ⟨.publish c value, ()⟩

end Access

namespace Process

variable {s : Process} {t : ThreadId} {a : Access} {effect : Effect a.Answer} {c : Cell}
  {value : c.Content}

/-- An access has to wait just while the lock that it wants is held. -/
theorem perform_eq_none :
    s.perform t a = none ↔ ∃ l u, a.wants? = some l ∧ s.holder l = some u := by
  cases a with
  | enter c =>
    cases hcell : s.cells c <;> simp [perform, Access.wants?, holder, hcell, Once.owner?]
  | lockLog =>
    cases hholder : s.logHolder <;> simp [perform, Access.wants?, holder, hholder]
  | _ => simp [perform, Access.wants?]

/-- A lock that is taken was wanted, and nobody held it. -/
theorem perform_takes {l : Lock} (h : s.perform t a = some effect)
    (htakes : a.takes? effect.answer = some l) : a.wants? = some l ∧ s.holder l = none := by
  cases a with
  | enter c =>
    simp only [perform] at h
    cases hcell : s.cells c with
    | full value =>
      simp only [hcell] at h
      cases h
      cases htakes
    | empty =>
      simp only [hcell] at h
      cases h
      cases htakes
      exact ⟨rfl, by simp [holder, hcell, Once.owner?]⟩
    | busy u => simp [hcell] at h
  | lockLog =>
    cases htakes
    cases hholder : s.logHolder with
    | none => exact ⟨rfl, hholder⟩
    | some u => simp [perform, hholder] at h
  | _ => cases htakes

/-- What concerns no lock leaves the cells and the log's lock as they were. -/
theorem perform_plain (h : s.perform t a = some effect) (hwants : a.wants? = none)
    (hleaves : a.leaves? = none) :
    effect.process.cells = s.cells ∧ effect.process.logHolder = s.logHolder := by
  refine ⟨funext fun c => perform_frame h (.cell c) ?_,
    perform_frame h .logHolder ?_⟩ <;>
  cases a <;> first | cases hwants; done | cases hleaves; done | exact nofun

/-- Who holds a lock after an access: the thread if it took the lock, nobody if it gave it back. -/
theorem holder_perform (h : s.perform t a = some effect) (l : Lock) :
    effect.process.holder l =
      if a.takes? effect.answer = some l then some t
      else if a.leaves? = some l then none
      else s.holder l := by
  cases a with
  | enter c =>
    simp only [perform] at h
    cases hcell : s.cells c with
    | full value =>
      simp only [hcell] at h
      cases h
      rfl
    | empty =>
      simp only [hcell] at h
      cases h
      rw [holder_setCell]
      simp [Access.takes?, Access.leaves?, Once.owner?, eq_comm]
    | busy u => simp [hcell] at h
  | publish c value =>
    cases h
    change (s.setCell c (.full value)).holder l = _
    rw [holder_setCell]
    simp [Access.takes?, Access.leaves?, Once.owner?, eq_comm]
  | abandon c =>
    cases h
    change (s.setCell c .empty).holder l = _
    rw [holder_setCell]
    simp [Access.takes?, Access.leaves?, Once.owner?, eq_comm]
  | lockLog =>
    simp only [perform] at h
    split at h <;> cases h
    cases l <;> simp [Access.takes?, Access.leaves?, holder, Effect.write]
  | unlockLog =>
    cases h
    cases l <;> simp [Access.takes?, Access.leaves?, holder, Effect.write]
  | _ =>
    obtain ⟨hcells, hlog⟩ := perform_plain h rfl rfl
    cases l <;> simp [Access.takes?, Access.leaves?, holder, hcells, hlog]

/-- What an access makes of a cell: it takes the cell on, publishes it, abandons it, or leaves it as
it was. -/
theorem perform_cell (h : s.perform t a = some effect) (c : Cell) :
    (a.takes? effect.answer = some (.cell c) ∧ s.cells c = .empty ∧
      effect.process.cells c = .busy t) ∨
    (∃ value, a = .publish c value ∧ effect.process.cells c = .full value) ∨
    (a = .abandon c ∧ effect.process.cells c = .empty) ∨
    (a.takes? effect.answer ≠ some (.cell c) ∧ a.leaves? ≠ some (.cell c) ∧
      effect.process.cells c = s.cells c) := by
  have hlock {d : Cell} (hne : d ≠ c) : some (Lock.cell d) ≠ some (.cell c) := by simpa using hne
  have hset {d : Cell} (hne : d ≠ c) (state : Once d.Content) :
      (s.setCell d state).cells c = s.cells c :=
    Cells.set_other s.cells state (Ne.symm hne)
  cases a with
  | enter d =>
    simp only [perform] at h
    cases hd : s.cells d with
    | full v =>
      simp only [hd] at h
      cases h
      exact Or.inr (Or.inr (Or.inr
        ⟨by simp [Access.takes?, Effect.read], by simp [Access.leaves?], rfl⟩))
    | empty =>
      simp only [hd] at h
      cases h
      by_cases hne : d = c
      · subst hne
        exact Or.inl ⟨rfl, hd, Cells.set_same s.cells d _⟩
      · exact Or.inr (Or.inr (Or.inr ⟨hlock hne, by simp [Access.leaves?], hset hne _⟩))
    | busy u => simp [hd] at h
  | publish d v =>
    cases h
    by_cases hne : d = c
    · subst hne
      exact Or.inr (Or.inl ⟨v, rfl, Cells.set_same s.cells d _⟩)
    · exact Or.inr (Or.inr (Or.inr ⟨by simp [Access.takes?], hlock hne, hset hne _⟩))
  | abandon d =>
    cases h
    by_cases hne : d = c
    · subst hne
      exact Or.inr (Or.inr (Or.inl ⟨rfl, Cells.set_same s.cells d _⟩))
    · exact Or.inr (Or.inr (Or.inr ⟨by simp [Access.takes?], hlock hne, hset hne _⟩))
  | lockLog =>
    simp only [perform] at h
    split at h <;> cases h
    exact Or.inr (Or.inr (Or.inr ⟨by simp [Access.takes?], by simp [Access.leaves?], rfl⟩))
  | unlockLog =>
    cases h
    exact Or.inr (Or.inr (Or.inr ⟨by simp [Access.takes?], by simp [Access.leaves?], rfl⟩))
  | _ =>
    exact Or.inr (Or.inr (Or.inr ⟨by simp [Access.takes?], by simp [Access.leaves?],
      congrFun (perform_plain h rfl rfl).1 c⟩))

/-- A full cell is changed only by a thread that gives it back. -/
theorem cells_perform (h : s.perform t a = some effect) (hcell : s.cells c = .full value)
    (hleaves : a.leaves? ≠ some (.cell c)) : effect.process.cells c = .full value := by
  rcases perform_cell h c with ⟨-, hempty, -⟩ | ⟨v, rfl, -⟩ | ⟨rfl, -⟩ | ⟨-, -, hsame⟩
  · rw [hcell] at hempty
    cases hempty
  · exact absurd rfl hleaves
  · exact absurd rfl hleaves
  · rw [hsame, hcell]

/-- A cell that comes to be full was published. -/
theorem perform_fills (h : s.perform t a = some effect)
    (hcell : effect.process.cells c = .full value) (hbefore : s.cells c ≠ .full value) :
    a = .publish c value := by
  rcases perform_cell h c with ⟨-, -, hbusy⟩ | ⟨v, rfl, hfull⟩ | ⟨-, hempty⟩ | ⟨-, -, hsame⟩
  · rw [hcell] at hbusy
    cases hbusy
  · rw [hcell] at hfull
    cases hfull
    rfl
  · rw [hcell] at hempty
    cases hempty
  · rw [hsame] at hcell
    exact absurd hcell hbefore

/-- A cell that an access shows to be full is full after it. -/
theorem cells_of_shows (h : s.perform t a = some effect)
    (hshows : Access.Shows c value ⟨a, effect.answer⟩) : effect.process.cells c = .full value := by
  rcases hshows with heq | heq
  · cases a with
    | enter d =>
      simp only [perform] at h
      cases hd : s.cells d with
      | full v =>
        simp only [hd] at h
        cases h
        cases heq
        exact hd
      | empty =>
        simp only [hd] at h
        cases h
        cases heq
      | busy u => simp [hd] at h
    | _ => cases heq
  · cases a with
    | publish d v =>
      cases heq
      cases h
      exact Cells.set_same s.cells _ _
    | _ => cases heq

end Process

end ExecContext
