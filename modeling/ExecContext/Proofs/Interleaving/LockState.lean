import ExecContext.Proofs.Interleaving.Machine
import ExecContext.Proofs.Process.Locks

set_option autoImplicit false

/-!
# What a thread holds

All that a thread may do next is settled by what it has done so far: which locks it holds and what
it did under each, whether it has been shown that the log's settings are loaded, and the level at
which it last found the log. The rules say that locks are taken in one order and given back
innermost first, that a cell is filled by what its initialiser returned, and that the log's level is
read and overridden only after it was loaded. Every use of a process obeys them (`tidy_action`).
-/

namespace ExecContext

/-! ## One-time cells and their initialisers -/

/-- What computes the value of a cell. -/
def Cell.compute : (c : Cell) → Action c.Content
  | .settings => do
    let settings ← Log.environmentSettings
    Log.install settings
  | .key => Storage.createKey
  | .direct => do
    let base ← Kernel.processBase
    let key ← Storage.createKey
    let slot : DirectSlot := ⟨key, base⟩
    Log.write .debug (.directReady slot)
    return slot
  | .slotBase => do
    let release ← Kernel.askRelease
    Kernel.reportedBase release

/-- The value of a cell, computed if need be. -/
def Cell.get (c : Cell) : Action c.Content :=
  Action.getOrFill c c.compute

theorem load_eq_get : Log.load = Cell.get .settings := rfl
theorem processKey_eq_get : Storage.processKey = Cell.get .key := rfl
theorem directSlot_eq_get : Storage.directSlot = Cell.get .direct := rfl
theorem processBase_eq_get : Kernel.processBase = Cell.get .slotBase := rfl

/-- What the use of a cell comes to: its value is shown, or its initialiser failed and it is given
up. -/
theorem path_get_ended {c : Cell} {made : List Accesses.Exchange} {result : Except Cause c.Content}
    (h : c.get.Path made (.ended result)) :
    (∃ value, result = .ok value ∧ ∃ e ∈ made, Access.Shows c value e) ∨
      ∃ inside cause, result = .error cause ∧ c.compute.Path inside (.fail cause) ∧
        made = ⟨.enter c, none⟩ :: (inside ++ [⟨.abandon c, ()⟩]) := by
  obtain ⟨answer, others, rfl, hothers⟩ := Program.path_call_ended.mp h
  cases answer with
  | some value =>
    obtain ⟨rfl, hresult⟩ := Program.path_done.mp hothers
    cases result <;> cases hresult
    exact Or.inl ⟨value, rfl, _, List.mem_singleton_self _, Or.inl rfl⟩
  | none =>
    rcases Program.path_bind_ended.mp hothers with
      ⟨cause, hcause, rfl⟩ | ⟨own, more, value, rfl, -, hmore⟩
    · have hfailed : (c.compute.onFailure (.call (Access.abandon c) .done)).Path others
          (.ended (.error cause)) := hcause
      rcases Program.path_onFailure_ended hfailed with
        ⟨value, heq, -⟩ | ⟨own, more, cause', rfl, hown, hmore⟩
      · cases heq
      · obtain ⟨_, rest, rfl, hrest⟩ := Program.path_call_ended.mp hmore
        obtain ⟨rfl, heq⟩ := Program.path_fail.mp hrest
        cases heq
        exact Or.inr ⟨own, cause, rfl, hown, rfl⟩
    · obtain ⟨_, rest, rfl, hrest⟩ := Program.path_call_ended.mp hmore
      obtain ⟨rfl, hresult⟩ := Program.path_done.mp hrest
      cases result <;> cases hresult
      exact Or.inl ⟨value, rfl, ⟨.publish c value, ()⟩, by simp, Or.inr rfl⟩

/-- The use of a cell whose initialiser never fails returns, and shows the value. -/
theorem path_get_returned {c : Cell} (hnever : ∀ inside cause, ¬c.compute.Path inside (.fail cause))
    {made : List Accesses.Exchange} {result : Except Cause c.Content}
    (h : c.get.Path made (.ended result)) :
    ∃ value, result = .ok value ∧ ∃ e ∈ made, Access.Shows c value e := by
  rcases path_get_ended h with hreturned | ⟨inside, cause, -, hfail, -⟩
  · exact hreturned
  · exact absurd hfail (hnever inside cause)

/-! ## What a thread holds -/

/-- A lock that a thread holds, and what the thread did since it took the lock. -/
structure Hold where
  lock : Lock
  made : List Accesses.Exchange

/-- The hold after more was done. -/
def Hold.extend (h : Hold) (more : List Accesses.Exchange) : Hold :=
  { h with made := h.made ++ more }

/-- The locks that a thread holds, and what it knows of the log's settings. -/
structure LockState where
  /-- the locks, the one taken last in front -/
  holds : List Hold
  /-- the thread has been shown that the log's settings are loaded -/
  loaded : Bool
  /-- the level that the thread last read -/
  limit : Option Log.Level

/-- The level that an access reads. -/
def Access.limit? : (a : Access) → a.Answer → Option Log.Level
  | .loadLevel, limit => some limit
  | _, _ => none

/-- The cell that an access shows to be full. -/
def Access.shows? : (a : Access) → a.Answer → Option Cell
  | .enter c, some _ => some c
  | .publish c _, _ => some c
  | _, _ => none

namespace LockState

/-- A thread that has done nothing. -/
def start : LockState := ⟨[], false, none⟩

/-- The locks held, the one taken last in front. -/
def locks (φ : LockState) : List Lock := φ.holds.map Hold.lock

/-- The holds after more was done under all of them. -/
def extend (φ : LockState) (more : List Accesses.Exchange) : List Hold :=
  φ.holds.map fun h => h.extend more

/-- What a thread holds and knows after one more access. -/
def record (φ : LockState) (a : Access) (answer : a.Answer) : LockState where
  holds :=
    match a.takes? answer with
    | some l => ⟨l, []⟩ :: φ.extend [⟨a, answer⟩]
    | none =>
      match a.leaves? with
      | some _ => (φ.extend [⟨a, answer⟩]).tail
      | none => φ.extend [⟨a, answer⟩]
  loaded := φ.loaded || a.shows? answer == some .settings
  limit := (a.limit? answer).or φ.limit

/-- What a thread holds and knows after these accesses. -/
def after (φ : LockState) (made : List Accesses.Exchange) : LockState :=
  made.foldl (fun φ e => φ.record e.request e.answer) φ

/-- The locks held all come before this one. -/
def Below (φ : LockState) (l : Lock) : Prop := ∀ held ∈ φ.locks, held.layer < l.layer

/-- The locks held are all of lower layers. -/
def Under (φ : LockState) (layer : Nat) : Prop := ∀ held ∈ φ.locks, held.layer < layer

variable {φ φ' : LockState} {first more : List Accesses.Exchange}

theorem after_append (φ : LockState) (first more : List Accesses.Exchange) :
    φ.after (first ++ more) = (φ.after first).after more :=
  List.foldl_append

theorem after_concat (φ : LockState) (made : List Accesses.Exchange) (e : Accesses.Exchange) :
    φ.after (made ++ [e]) = (φ.after made).record e.request e.answer :=
  φ.after_append made [e]

theorem extend_nil (φ : LockState) : φ.extend [] = φ.holds := by
  simp [extend, Hold.extend]

theorem map_extend (holds : List Hold) (first more : List Accesses.Exchange) :
    (holds.map fun h => h.extend first).map (fun h => h.extend more) =
      holds.map fun h => h.extend (first ++ more) := by
  simp [Hold.extend]

theorem locks_of_extend (h : φ'.holds = φ.extend more) : φ'.locks = φ.locks := by
  simp [locks, h, extend, Hold.extend]

theorem Under.of_locks {layer : Nat} (h : φ.Under layer) (hlocks : φ'.locks = φ.locks) :
    φ'.Under layer := by
  unfold Under
  rw [hlocks]
  exact h

theorem Under.mono {layer layer' : Nat} (h : φ.Under layer) (hle : layer ≤ layer') :
    φ.Under layer' :=
  fun held hheld => Nat.lt_of_lt_of_le (h held hheld) hle

/-- Under a lock just taken, only locks of higher layers are left to take. -/
theorem Under.cons {l : Lock} {layer : Nat} (h : φ.Below l) (hl : l.layer < layer)
    (hlocks : φ'.locks = l :: φ.locks) : φ'.Under layer := by
  intro held hheld
  rw [hlocks] at hheld
  rcases List.mem_cons.mp hheld with rfl | hheld
  · exact hl
  · exact Nat.lt_trans (h held hheld) hl

end LockState

/-! ## The rules -/

/-- What a record's writer does while it holds the log. -/
def Log.Record.written (r : Log.Record) (flush : Bool) : List Accesses.Exchange :=
  [⟨.writeLog (.header r.level r.tag), ()⟩, ⟨.writeLog (.message r.message), ()⟩,
    ⟨.writeLog .newline, ()⟩, ⟨.loadFlush, flush⟩] ++
    if flush then [⟨.flushLog, ()⟩] else []

/-- What a thread may do by what it holds and knows. -/
def Allowed (u : Use) (φ : LockState) : Access → Prop
  | .enter c => φ.Below (.cell c)
  | .publish c value =>
    ∃ made, φ.holds.head? = some ⟨.cell c, made⟩ ∧ c.compute.Path made (.done value)
  | .abandon c =>
    ∃ made cause, φ.holds.head? = some ⟨.cell c, made⟩ ∧ c.compute.Path made (.fail cause)
  | .loadLevel => φ.loaded = true
  | .storeLevel level =>
    φ.locks.head? = some (.cell .settings) ∨
      φ.loaded = true ∧ u = .service (.setLevel level)
  | .lockLog => φ.Below .log
  | .writeLog chunk =>
    φ.locks.head? = some .log ∧ ∀ level tag, chunk = .header level tag →
      ∃ limit, φ.limit = some limit ∧ level ≤ limit
  | .flushLog => φ.locks.head? = some .log
  | .unlockLog => ∃ r flush, φ.holds.head? = some ⟨.log, Log.Record.written r flush⟩
  | _ => True

/-- What was done since a cell was taken on is what the cell's initialiser does. -/
def OnPath (holds : List Hold) : Prop :=
  ∀ c made, ⟨.cell c, made⟩ ∈ holds → ∃ rest, c.compute.Path made rest

/-- The rules for a thread in a use. -/
def rules (u : Use) : Discipline LockState where
  permits φ a := Allowed u φ a ∧ OnPath φ.holds
  moves φ a answer φ' := φ' = φ.record a answer

section Rules

variable {u : Use} {φ : LockState} {α β : Type}

/-- Whatever cell is being filled, the program is in its place in the initialiser. -/
def Follows (holds : List Hold) (p : Action α) : Prop :=
  ∀ c made, ⟨.cell c, made⟩ ∈ holds →
    ∃ place : Program.Place Accesses Cause α c.Content, c.compute.Path made (place.fill p)

theorem Follows.onPath {holds : List Hold} {p : Action α} (h : Follows holds p) :
    OnPath holds := by
  intro c made hmem
  obtain ⟨place, hplace⟩ := h c made hmem
  exact ⟨_, hplace⟩

theorem Follows.extend {p q : Action α} {more : List Accesses.Exchange}
    (h : Follows φ.holds p) (hpath : p.Path more q) : Follows (φ.extend more) q := by
  intro c made hmem
  obtain ⟨⟨l, inside⟩, hold, heq⟩ := List.mem_map.mp hmem
  cases heq
  obtain ⟨place, hplace⟩ := h c inside hold
  exact ⟨place, Program.path_append.mpr ⟨_, hplace, place.path hpath⟩⟩

theorem Follows.of_bind {holds : List Hold} {p : Action α} {next : α → Action β}
    (h : Follows holds (p >>= next)) : Follows holds p := by
  intro c made hmem
  obtain ⟨place, hplace⟩ := h c made hmem
  exact ⟨place.before next, hplace⟩

theorem Follows.of_onFailure {holds : List Hold} {p : Action α} {cleanup : Action Unit}
    (h : Follows holds (p.onFailure cleanup)) : Follows holds p := by
  intro c made hmem
  obtain ⟨place, hplace⟩ := h c made hmem
  exact ⟨place.guarded cleanup, hplace⟩

/-- One access that is allowed, then the rest. -/
theorem obeys_call {post : LockState → Except Cause α → Prop} {a : Access}
    {resume : a.Answer → Action α} (hallowed : Allowed u φ a) (hpath : OnPath φ.holds)
    (h : ∀ answer, (rules u).Obeys post (resume answer) (φ.record a answer)) :
    (rules u).Obeys post (.call a resume) φ := by
  refine ⟨⟨hallowed, hpath⟩, fun answer φ' hmove => ?_⟩
  obtain rfl := hmove
  exact h answer

/-- A program that obeys the rules obeys them in what remains to be run of it. -/
theorem obeys_path {post : LockState → Except Cause α → Prop} {p rest : Action α}
    {made : List Accesses.Exchange} (h : (rules u).Obeys post p φ) (hpath : p.Path made rest) :
    (rules u).Obeys post rest (φ.after made) := by
  induction made generalizing p φ with
  | nil =>
    obtain rfl := hpath
    exact h
  | cons e others ih =>
    obtain ⟨resume, rfl, hrest⟩ := hpath
    exact ih (h.2 e.answer _ rfl) hrest

/-- A program obeys the rules, gives back every lock that it takes, and returns only where `Q`
holds. -/
def Tidy (u : Use) (Q : α → LockState → Prop) (p : Action α) (φ : LockState) : Prop :=
  Follows φ.holds p → (rules u).Obeys (fun φ' result =>
    (∃ made, p.Path made (.ended result) ∧ φ'.holds = φ.extend made) ∧
      (φ.loaded = true → φ'.loaded = true) ∧ ∀ value, result = .ok value → Q value φ') p φ

/-- Nothing is said of where a program returns. -/
abbrev Anywhere (_ : α) (_ : LockState) : Prop := True

theorem Tidy.mono {Q R : α → LockState → Prop} {p : Action α} (h : Tidy u Q p φ)
    (hQ : ∀ value φ', Q value φ' → R value φ') : Tidy u R p φ :=
  fun hfollows => Discipline.Obeys.mono (h hfollows) fun φ' _ ⟨hmade, hloaded, hvalue⟩ =>
    ⟨hmade, hloaded, fun value heq => hQ value φ' (hvalue value heq)⟩

theorem Tidy.done {Q : α → LockState → Prop} {value : α} (h : Q value φ) :
    Tidy u Q (.done value) φ := by
  intro _
  refine ⟨⟨[], rfl, (LockState.extend_nil φ).symm⟩, id, fun v heq => ?_⟩
  cases heq
  exact h

theorem Tidy.fail {Q : α → LockState → Prop} {cause : Cause} : Tidy u Q (.fail cause) φ := by
  intro _
  refine ⟨⟨[], rfl, (LockState.extend_nil φ).symm⟩, id, fun v heq => ?_⟩
  cases heq

/-- An access that concerns no lock, and what comes after it. -/
theorem Tidy.call {Q : α → LockState → Prop} {a : Access} {resume : a.Answer → Action α}
    (hallowed : Allowed u φ a) (htakes : ∀ answer, a.takes? answer = none)
    (hleaves : a.leaves? = none)
    (h : ∀ answer, Tidy u Q (resume answer) (φ.record a answer)) :
    Tidy u Q (.call a resume) φ := by
  intro hfollows
  refine obeys_call hallowed hfollows.onPath fun answer => ?_
  have hrecord : (φ.record a answer).holds = φ.extend [⟨a, answer⟩] := by
    simp [LockState.record, htakes, hleaves]
  have hrest : Follows (φ.record a answer).holds (resume answer) := by
    rw [hrecord]
    exact hfollows.extend ⟨resume, rfl, rfl⟩
  refine Discipline.Obeys.mono (h answer hrest) ?_
  rintro φ' result ⟨⟨made, hpath, hholds⟩, hloaded, hvalue⟩
  refine ⟨⟨⟨a, answer⟩ :: made, ⟨resume, rfl, hpath⟩, ?_⟩, fun hφ => hloaded ?_, hvalue⟩
  · rw [hholds, LockState.extend, hrecord]
    exact LockState.map_extend φ.holds [⟨a, answer⟩] made
  · simp [LockState.record, hφ]

/-- A sequence is tidy if its second part is wherever the first one returns. -/
theorem Tidy.bind {Q : α → LockState → Prop} {R : β → LockState → Prop} {p : Action α}
    {next : α → Action β} (h : Tidy u Q p φ)
    (hnext : ∀ value φ', φ'.locks = φ.locks → Q value φ' → Tidy u R (next value) φ') :
    Tidy u R (p >>= next) φ := by
  intro hfollows
  refine Discipline.Obeys.bind (Discipline.Obeys.mono (h hfollows.of_bind) ?_)
  rintro φ' result ⟨⟨made, hpath, hholds⟩, hloaded, hvalue⟩
  cases result with
  | error cause =>
    refine ⟨⟨made, hpath.bind next, hholds⟩, hloaded, fun v heq => ?_⟩
    cases heq
  | ok value =>
    have hrest : Follows φ'.holds (next value) := by
      rw [hholds]
      exact hfollows.extend (hpath.bind next)
    have hobeys := hnext value φ' (LockState.locks_of_extend hholds) (hvalue value rfl) hrest
    refine Discipline.Obeys.mono hobeys ?_
    rintro φ'' result ⟨⟨more, hmore, hholds'⟩, hloaded', hvalue'⟩
    refine ⟨⟨made ++ more, ?_, ?_⟩, fun hφ => hloaded' (hloaded hφ), hvalue'⟩
    · exact Program.path_append.mpr ⟨next value, hpath.bind next, hmore⟩
    · rw [hholds', LockState.extend, hholds]
      exact LockState.map_extend φ.holds made more

/-- Under a lock just taken the thread goes on in its place, and begins what the lock is for. -/
theorem Follows.taken {l : Lock} {p : Action α} {more : List Accesses.Exchange}
    (houter : Follows (φ.extend more) p)
    (hown : ∀ c, l = .cell c → ∃ place : Program.Place Accesses Cause α c.Content,
      c.compute = place.fill p) : Follows (⟨l, []⟩ :: φ.extend more) p := by
  intro c made hmem
  rcases List.mem_cons.mp hmem with heq | hmem
  · cases heq
    obtain ⟨place, hplace⟩ := hown c rfl
    exact ⟨place, hplace.symm⟩
  · exact houter c made hmem

/-- A cell may be used where its lock may be taken, if its initialiser is tidy. -/
theorem Tidy.get {c : Cell} (hbelow : φ.Below (.cell c))
    (hcompute : ∀ φ', φ'.locks = .cell c :: φ.locks → Tidy u Anywhere c.compute φ') :
    Tidy u (fun _ φ' => c = .settings → φ'.loaded = true) c.get φ := by
  intro hfollows
  refine obeys_call hbelow hfollows.onPath fun answer => ?_
  cases answer with
  | some value =>
    refine ⟨⟨[⟨.enter c, some value⟩], ⟨_, rfl, rfl⟩, rfl⟩, fun hφ => ?_, fun v _ hc => ?_⟩
    · simp [LockState.record, hφ]
    · simp [LockState.record, Access.shows?, hc]
  | none =>
    have hlocks : (φ.record (.enter c) none).locks = .cell c :: φ.locks := by
      simp [LockState.record, Access.takes?, LockState.locks, LockState.extend, Hold.extend]
    -- what was done from entering the cell on, to some point of its initialiser
    have hinside {made : List Accesses.Exchange} {rest : Action c.Content}
        (hpath : c.compute.Path made rest) : c.get.Path (⟨.enter c, none⟩ :: made)
          ((rest.onFailure (.call (Access.abandon c) .done)) >>= fun value =>
            .call (Access.publish c value) fun _ => .done value) :=
      ⟨_, rfl, (hpath.onFailure _).bind _⟩
    have hbegun : Follows (φ.record (.enter c) none).holds c.compute := by
      refine Follows.taken ?_ fun d hd => ?_
      · exact (hfollows.extend (hinside (show c.compute.Path [] _ from rfl))).of_bind.of_onFailure
      · cases hd
        exact ⟨.here, rfl⟩
    refine Discipline.Obeys.bind (Discipline.Obeys.onFailure
      (Discipline.Obeys.mono (hcompute _ hlocks hbegun) ?_))
    rintro φ₂ result ⟨⟨made, hpath, hholds⟩, hloaded, -⟩
    replace hholds : φ₂.holds = ⟨.cell c, made⟩ :: φ.extend (⟨.enter c, none⟩ :: made) := by
      rw [hholds]
      simp [LockState.extend, LockState.record, Access.takes?, Hold.extend]
    have hkept (hφ : φ.loaded = true) : φ₂.loaded = true :=
      hloaded (by simp [LockState.record, hφ])
    have honPath : OnPath φ₂.holds := by
      rw [hholds]
      intro d inside hmem
      rcases List.mem_cons.mp hmem with heq | hmem
      · cases heq
        exact ⟨_, hpath⟩
      · exact (hfollows.extend (hinside hpath)).onPath d inside hmem
    cases result with
    | ok value =>
      refine obeys_call ⟨made, by rw [hholds]; rfl, hpath⟩ honPath fun answer => ?_
      refine ⟨⟨_, (hinside hpath).concat answer, ?_⟩, fun hφ => ?_, fun v _ hc => ?_⟩
      · simp [LockState.record, Access.takes?, Access.leaves?, LockState.extend, hholds,
          Hold.extend]
      · simp [LockState.record, hkept hφ]
      · simp [LockState.record, Access.shows?, hc]
    | error cause =>
      refine obeys_call ⟨made, cause, by rw [hholds]; rfl, hpath⟩ honPath fun answer => ?_
      refine ⟨⟨_, (hinside hpath).concat answer, ?_⟩, fun hφ => ?_, fun v heq => ?_⟩
      · simp [LockState.record, Access.takes?, Access.leaves?, LockState.extend, hholds,
          Hold.extend]
      · simp [LockState.record, hkept hφ]
      · cases heq

end Rules

end ExecContext
