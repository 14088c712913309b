import ExecContext.Storage.Pointer

set_option autoImplicit false

/-!
# What a process is given

Two things below a process never change while it runs: which keys it is given when it asks for one,
and how the segments of its threads are laid out. The slots of the keys are an array of words in
each segment; what stands in the other words is not the process's own.
-/

namespace ExecContext

/-! ## Keys -/

/-- The keys that a process is given, one after another and none of them twice. -/
structure KeySupply where
  key : Nat → Key
  distinct : ∀ i j, key i = key j → i = j

/-- The keys from 0 on. -/
def KeySupply.consecutive : KeySupply where
  key i := i
  distinct _ _ h := h

/-! ## Segments -/

/-- What a process is given and never changes. -/
structure Host where
  keys : KeySupply
  /-- the number of words in front of the key slots in a thread's segment -/
  firstSlot : Nat
  /-- the word at each byte address of a thread's segment that is not the slot of a key -/
  otherWord : ThreadId → Nat → Pointer

namespace Host

/-- Keys from 0 on, and segments in which all words but the key slots are null. -/
def plain (firstSlot : Nat) : Host where
  keys := .consecutive
  firstSlot := firstSlot
  otherWord _ _ := none

instance : Inhabited Host := ⟨.plain 0⟩

/-- The byte offset at which the key slots start. -/
def slotsAt (host : Host) : Nat := 8 * host.firstSlot

/-- The byte address of the slot of a key, the slots taken to start at `base`. -/
def slotFrom (base : Nat) (k : Key) : Nat := base + 8 * k

/-- The key whose slot is at a byte address. -/
def keyAt? (host : Host) (address : Nat) : Option Key :=
  if address % 8 = 0 ∧ host.slotsAt ≤ address then some ((address - host.slotsAt) / 8) else none

/-- A key's slot is the only one at its address. -/
theorem keyAt?_eq_some_iff {host : Host} {address : Nat} {k : Key} :
    host.keyAt? address = some k ↔ address = slotFrom host.slotsAt k := by
  unfold keyAt? slotFrom slotsAt
  constructor
  · intro h
    split at h
    · cases h
      omega
    · cases h
  · rintro rfl
    have hindex : (8 * host.firstSlot + 8 * k - 8 * host.firstSlot) / 8 = k := by omega
    rw [if_pos (by omega), hindex]

@[simp] theorem keyAt?_slotFrom (host : Host) (k : Key) :
    host.keyAt? (slotFrom host.slotsAt k) = some k :=
  keyAt?_eq_some_iff.mpr rfl

/-- The word that a thread finds at a byte address while nothing is stored behind any key. -/
def idleWord (host : Host) (t : ThreadId) (address : Nat) : Pointer :=
  match host.keyAt? address with
  | some _ => none
  | none => host.otherWord t address

/-- Two places at which the slots are taken to start lead to the same slot of a key only if they are
the same. -/
theorem slotFrom_inj {base base' : Nat} {k : Key} :
    slotFrom base k = slotFrom base' k ↔ base = base' := by
  unfold slotFrom
  omega

end Host

end ExecContext
