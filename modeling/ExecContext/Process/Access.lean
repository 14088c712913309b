import ExecContext.Log.Settings
import ExecContext.Process.Event
import ExecContext.Process.State

set_option autoImplicit false

/-!
# Accesses to a process

The smallest steps of a thread: each touches the process once, so that between any two accesses of
one thread other threads may run. `perform` says what an access answers, what it leaves behind and
what can be seen of it. An access that has to wait for another thread has no effect until that
thread is done, and one that has an effect changes one part of the process at most
(`perform_frame`).
-/

namespace ExecContext

/-! ## Accesses -/

/-- One access of a thread to its process. -/
inductive Access where
  /-- enter a one-time cell: read it if it is full, else take on filling it -/
  | enter (c : Cell)
  /-- read a one-time cell without filling it -/
  | peek (c : Cell)
  /-- fill a cell that was taken on -/
  | publish (c : Cell) (value : c.Content)
  /-- give up filling a cell -/
  | abandon (c : Cell)
  /-- read the log's level -/
  | loadLevel
  /-- replace the log's level -/
  | storeLevel (level : Log.Level)
  /-- read the log's flush flag -/
  | loadFlush
  /-- replace the log's flush flag -/
  | storeFlush (flush : Bool)
  /-- take the log for writing -/
  | lockLog
  /-- write a chunk to the log -/
  | writeLog (chunk : Log.Chunk)
  /-- flush the log -/
  | flushLog
  /-- give the log back -/
  | unlockLog
  /-- read the calling thread's tag -/
  | tag
  /-- read an environment variable -/
  | readVariable (name : String)
  /-- ask the kernel about itself -/
  | uname
  /-- create a key -/
  | createKey
  /-- store a pointer behind a key; the answer is 0, or the code of the failure -/
  | setSpecific (k : Key) (p : Pointer)
  /-- read the pointer behind a key -/
  | getSpecific (k : Key)
  /-- read the slot of a key from the thread's segment, the slots taken to start at `base` -/
  | readSlot (base : Nat) (k : Key)
  /-- read the native backend's variable -/
  | loadNative
  /-- replace the native backend's variable -/
  | storeNative (p : Pointer)
  /-- read the spy backend's variable -/
  | loadSpy
  /-- replace the spy backend's variable -/
  | storeSpy (p : Pointer)
  /-- read what a scheduler does on the calling thread -/
  | activity (s : Scheduler)
  /-- change what a scheduler does on the calling thread -/
  | setActivity (s : Scheduler) (a : Activity)
  /-- add to the call counter of a context and read the sum -/
  | addCalls (c : ContextId) (amount : Int64)
  /-- print a line -/
  | print (line : Line)
  /-- let a request be observed -/
  | observe (q : Resolver.Query)

/-- What an access answers. -/
abbrev Access.Answer : Access → Type
  | .enter c => Option c.Content
  | .peek c => Option c.Content
  | .loadLevel => Log.Level
  | .loadFlush => Bool
  | .tag => Log.Tag
  | .readVariable _ => Option String
  | .uname => Kernel.UnameReply
  | .createKey => Except Int32 Key
  | .setSpecific .. => Int32
  | .getSpecific _ => Pointer
  | .readSlot .. => Pointer
  | .loadNative => Pointer
  | .loadSpy => Pointer
  | .activity _ => Activity
  | .addCalls .. => Int64
  | _ => Unit

/-- The accesses, with their answers. -/
abbrev Accesses : Signature where
  Request := Access
  Answer := Access.Answer

/-- What a thread does to its process. -/
abbrev Action (α : Type) := Program Accesses Cause α

/-! ## Performing an access -/

/-- What an access does. -/
structure Effect (α : Type) where
  answer : α
  process : Process
  events : List Event

namespace Effect

/-- An access that only reads. -/
def read {α : Type} (s : Process) (answer : α) : Effect α := ⟨answer, s, []⟩

/-- An access that only changes the process. -/
def write (s : Process) : Effect Unit := ⟨(), s, []⟩

/-- An access that only shows something. -/
def emit (s : Process) (event : Event) : Effect Unit := ⟨(), s, [event]⟩

end Effect

namespace Process

/-- The process with one cell replaced. -/
def setCell (s : Process) (c : Cell) (state : Once c.Content) : Process :=
  { s with cells := s.cells.set c state }

/-- Asks the platform for a key. Every key is new; a failing platform creates none. -/
def createKey (s : Process) : Effect (Except Int32 Key) :=
  let os := { s.platform with createCalls := s.platform.createCalls + 1 }
  if os.createFault = 0 then
    ⟨.ok os.nextKey, { s with platform := { os with keysMade := os.keysMade + 1 } }, []⟩
  else
    ⟨.error os.createFault, { s with platform := os }, []⟩

/-- Stores a thread's pointer behind a key, unless the platform fails. -/
def setSpecific (s : Process) (t : ThreadId) (k : Key) (p : Pointer) : Effect Int32 :=
  if s.platform.storeFault = 0 then
    ⟨0, { s with specific := fun k' => if k' = k then (s.specific k).set t p else s.specific k' },
      []⟩
  else
    .read s s.platform.storeFault

/-- The word at a byte address of a thread's segment, as a pointer: what is stored behind a key, if
the word is a key's slot. -/
def wordAt (s : Process) (t : ThreadId) (address : Nat) : Pointer :=
  match s.platform.host.keyAt? address with
  | some k => s.specific k t
  | none => s.platform.host.otherWord t address

/-- The word of a thread's segment in which the slot of a key is, if the slots start at `base`. -/
def readSlot (s : Process) (t : ThreadId) (base : Nat) (k : Key) : Pointer :=
  s.wordAt t (Host.slotFrom base k)

/-- What an access of thread `t` does to a process; `none` if it has to wait. -/
def perform (s : Process) (t : ThreadId) : (a : Access) → Option (Effect a.Answer)
  | .enter c =>
    match s.cells c with
    | .full value => some (.read s (some value))
    | .empty => some ⟨none, s.setCell c (.busy t), []⟩
    | .busy _ => none
  | .peek c => some (.read s (s.cells c).value?)
  | .publish c value => some (.write (s.setCell c (.full value)))
  | .abandon c => some (.write (s.setCell c .empty))
  | .loadLevel => some (.read s s.level)
  | .storeLevel level => some (.write { s with level := level })
  | .loadFlush => some (.read s s.flush)
  | .storeFlush flush => some (.write { s with flush := flush })
  | .lockLog =>
    match s.logHolder with
    | none => some (.write { s with logHolder := some t })
    | some _ => none
  | .writeLog chunk => some (.emit s (.logged t chunk))
  | .flushLog => some (.emit s (.flushed t))
  | .unlockLog => some (.write { s with logHolder := none })
  | .tag => some (.read s (s.tagOf t))
  | .readVariable name => some (.read s (s.platform.textOf name))
  | .uname =>
    some ⟨s.platform.uname,
      { s with platform := { s.platform with unameCalls := s.platform.unameCalls + 1 } }, []⟩
  | .createKey => some s.createKey
  | .setSpecific k p => some (s.setSpecific t k p)
  | .getSpecific k => some (.read s (s.specific k t))
  | .readSlot base k => some (.read s (s.readSlot t base k))
  | .loadNative => some (.read s (s.native t))
  | .storeNative p => some (.write { s with native := s.native.set t p })
  | .loadSpy => some (.read s (s.spy t))
  | .storeSpy p => some (.write { s with spy := s.spy.set t p })
  | .activity sched => some (.read s (s.activities sched.number (sched.seat t)))
  | .setActivity sched a =>
    some (.write { s with activities := s.activities.set sched.number (sched.seat t) a })
  | .addCalls c amount =>
    let sum := s.calls c + amount
    some ⟨sum, { s with calls := fun d => if d = c then sum else s.calls d }, []⟩
  | .print line => some (.emit s (.printed t line))
  | .observe q => some (.emit s (.observed t q))

end Process

/-! ## What an access may change -/

/-- A part of a process that is changed apart from the others. -/
inductive Process.Part where
  | roster
  | cell (c : Cell)
  | level
  | flush
  | logHolder
  | native
  | specific
  | spy
  | activities
  | calls
  /-- how often the kernel was asked -/
  | unameCalls
  /-- how often a key was asked for, and the number of keys created -/
  | keys
  /-- all else of the platform -/
  | surroundings

namespace Access

/-- The part of the process that an access may change. -/
def changes? : Access → Option Process.Part
  | .enter c => some (.cell c)
  | .publish c _ => some (.cell c)
  | .abandon c => some (.cell c)
  | .storeLevel _ => some .level
  | .storeFlush _ => some .flush
  | .lockLog => some .logHolder
  | .unlockLog => some .logHolder
  | .uname => some .unameCalls
  | .createKey => some .keys
  | .setSpecific .. => some .specific
  | .storeNative _ => some .native
  | .storeSpy _ => some .spy
  | .setActivity .. => some .activities
  | .addCalls .. => some .calls
  | _ => none

/-- What is seen of an access of thread `t`. -/
def events (t : ThreadId) : Access → List Event
  | .writeLog chunk => [.logged t chunk]
  | .flushLog => [.flushed t]
  | .print line => [.printed t line]
  | .observe q => [.observed t q]
  | _ => []

end Access

namespace Process

/-- A part of the process is the same in another one. -/
def Agrees (s s' : Process) : Part → Prop
  | .roster => s'.roster = s.roster
  | .cell c => s'.cells c = s.cells c
  | .level => s'.level = s.level
  | .flush => s'.flush = s.flush
  | .logHolder => s'.logHolder = s.logHolder
  | .native => s'.native = s.native
  | .specific => s'.specific = s.specific
  | .spy => s'.spy = s.spy
  | .activities => s'.activities = s.activities
  | .calls => s'.calls = s.calls
  | .unameCalls => s'.platform.unameCalls = s.platform.unameCalls
  | .keys =>
    (s'.platform.createCalls, s'.platform.keysMade) = (s.platform.createCalls, s.platform.keysMade)
  | .surroundings => s'.platform.surroundings = s.platform.surroundings

theorem agrees_refl (s : Process) (part : Part) : s.Agrees s part := by
  cases part <;> rfl

/-- A cell is replaced and all else is the same. -/
theorem agrees_setCell (s : Process) {c : Cell} (state : Once c.Content) {part : Part}
    (hpart : some (Part.cell c) ≠ some part) : s.Agrees (s.setCell c state) part := by
  cases part with
  | cell d =>
    refine Cells.set_other s.cells state fun hd => ?_
    subst hd
    exact hpart rfl
  | _ => rfl

variable {s : Process} {t : ThreadId} {a : Access} {effect : Effect a.Answer}

/-- **Footprint.** An access leaves every part of the process as it was but the one that it may
change. -/
theorem perform_frame (h : s.perform t a = some effect) (part : Part)
    (hpart : a.changes? ≠ some part) : s.Agrees effect.process part := by
  cases a with
  | enter c =>
    simp only [perform] at h
    split at h
    · cases h
      exact s.agrees_refl part
    · cases h
      exact s.agrees_setCell _ hpart
    · cases h
  | publish c value =>
    cases h
    exact s.agrees_setCell _ hpart
  | abandon c =>
    cases h
    exact s.agrees_setCell _ hpart
  | lockLog =>
    simp only [perform] at h
    split at h
    · cases h
      cases part <;> first | rfl | exact absurd rfl hpart
    · cases h
  | createKey =>
    simp only [perform, createKey] at h
    split at h <;> cases h <;> cases part <;> first | rfl | exact absurd rfl hpart
  | setSpecific k p =>
    simp only [perform, setSpecific] at h
    split at h <;> cases h <;> cases part <;> first | rfl | exact absurd rfl hpart
  | _ =>
    cases h
    cases part <;> first | rfl | exact absurd rfl hpart

/-- No access starts a thread. -/
theorem perform_roster (h : s.perform t a = some effect) :
    effect.process.roster = s.roster := by
  refine perform_frame h .roster ?_
  cases a <;> exact nofun

/-- No access changes what the platform is like, or what the process is given. -/
theorem perform_surroundings (h : s.perform t a = some effect) :
    effect.process.platform.environment = s.platform.environment ∧
      effect.process.platform.uname = s.platform.uname ∧
      effect.process.platform.createFault = s.platform.createFault ∧
      effect.process.platform.storeFault = s.platform.storeFault ∧
      effect.process.platform.host = s.platform.host := by
  have hsame : s.Agrees effect.process .surroundings := by
    refine perform_frame h _ ?_
    cases a <;> exact nofun
  simpa [Agrees, Platform.surroundings] using hsame

/-- What is seen of an access is settled by the access. -/
theorem perform_events (h : s.perform t a = some effect) : effect.events = a.events t := by
  cases a with
  | enter c =>
    simp only [perform] at h
    split at h <;> cases h <;> rfl
  | lockLog =>
    simp only [perform] at h
    split at h <;> cases h
    rfl
  | createKey =>
    simp only [perform, createKey] at h
    split at h <;> cases h <;> rfl
  | setSpecific k p =>
    simp only [perform, setSpecific] at h
    split at h <;> cases h <;> rfl
  | _ =>
    cases h
    rfl

end Process

end ExecContext
