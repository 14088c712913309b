import ExecContext.Resolver.Query

set_option autoImplicit false

/-!
# Schedulers

A resolver has a scheduler of its own. It may be absent, which is never active and has no fibers; it
may run one fiber always; it may know each thread's activity separately; or it may have one activity
for all threads.
-/

namespace ExecContext

/-- How a scheduler keeps its activity. -/
inductive SchedulerKind where
  /-- there is no scheduler -/
  | absent
  /-- the same fiber runs on all threads at all times -/
  | constant (f : Fiber)
  /-- for each thread on its own -/
  | perThread
  /-- once for all threads -/
  | shared
  deriving DecidableEq, Repr, Inhabited

/-- A scheduler: how it works, and its number among the schedulers of the process. -/
structure Scheduler where
  kind : SchedulerKind
  number : Nat
  deriving DecidableEq, Repr, Inhabited

/-- Where a scheduler keeps the activity of a thread: at the thread's seat, or at the one seat that
all threads share. -/
def Scheduler.seat (s : Scheduler) (t : ThreadId) : Option ThreadId :=
  if s.kind = .shared then none else some t

/-- What a scheduler does at one seat. -/
structure Activity where
  /-- it owns the thread -/
  active : Bool
  /-- the fiber that runs -/
  fiber : Option Fiber
  deriving DecidableEq, Repr

namespace Activity

/-- Not active, without a fiber. -/
def idle : Activity := ⟨false, none⟩

instance : Inhabited Activity := ⟨idle⟩

/-- Active, running a fiber under a context. -/
def running (c : ContextId) : Activity := ⟨true, some ⟨c⟩⟩

end Activity

/-- The activities of all schedulers: by the scheduler's number, then by seat. -/
abbrev Activities := Nat → Option ThreadId → Activity

namespace Activities

/-- All schedulers are idle. -/
def idle : Activities := fun _ _ => .idle

/-- The activities after one seat is changed. -/
def set (activities : Activities) (number : Nat) (seat : Option ThreadId) (a : Activity) :
    Activities :=
  fun n s => if n = number ∧ s = seat then a else activities n s

@[simp] theorem set_same (activities : Activities) (number : Nat) (seat : Option ThreadId)
    (a : Activity) : activities.set number seat a number seat = a := by
  simp [set]

theorem set_other (activities : Activities) {number n : Nat} {seat s : Option ThreadId}
    (a : Activity) (h : ¬(n = number ∧ s = seat)) :
    activities.set number seat a n s = activities n s := by
  simp [set, h]

end Activities

/-- A resolver: the scheduler that it asks and the backend that it binds through. -/
structure Resolver where
  scheduler : Scheduler
  backend : Backend
  deriving DecidableEq, Repr, Inhabited

end ExecContext
