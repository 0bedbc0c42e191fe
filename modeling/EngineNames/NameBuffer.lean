import EngineNames.Trap

/-!
# Name buffers

The string header that a name function writes to or returns: a data pointer, the number of units in
use with the terminating null, and the number of units reserved. A name function may assign all
three as it likes. Whoever allocated the storage is fixed when the buffer is made, and so is the
storage that was allocated here; a buffer whose pointer no longer designates that storage is
detached. Reading and writing go by the counts, so they trap where these say more than there is.
-/

namespace EngineNames

/-- Who allocated the storage of a buffer. -/
inductive Owner where
  | tool
  | target
deriving DecidableEq, Repr

/-- What a data pointer designates. -/
inductive Storage where
  | null
  /-- The allocation that the buffer was made with. -/
  | allocation
  /-- Storage of somebody else, with these units. -/
  | foreign (units : List UInt16)
deriving DecidableEq, Repr

/-- A string header with the allocation behind it. -/
structure NameBuffer where
  owner : Owner
  /-- The units of the storage that was allocated here, if any was. -/
  allocation : Option (List UInt16)
  data : Storage
  /-- Units in use, the terminating null included. -/
  num : Int32
  /-- Units reserved. -/
  max : Int32
deriving DecidableEq, Repr

/-- Units written over others from a position on. -/
def overwrite (storage : List UInt16) (start : Nat) (units : List UInt16) :
    Except Trap (List UInt16) :=
  if start + units.length ≤ storage.length then
    .ok (storage.take start ++ units ++ storage.drop (start + units.length))
  else .error .outOfBounds

namespace NameBuffer

/-- The largest number of units that is ever allocated. -/
def maxCapacity : Nat :=
  0x100000

/-- A buffer without storage. -/
def unallocated (owner : Owner) : NameBuffer :=
  ⟨owner, none, .null, 0, 0⟩

/-- A buffer with zeroed storage of its own. A capacity of zero or above `maxCapacity` gives a
buffer without storage. -/
def withCapacity (capacity : Nat) : NameBuffer :=
  if capacity = 0 || maxCapacity < capacity then unallocated .tool
  else ⟨.tool, some (List.replicate capacity 0), .allocation, 0, Int32.ofNat capacity⟩

/-- A string of the target: its units, or none for a null pointer, with the two counts. -/
def ofTarget (units : Option (List UInt16)) (num max : Int32) : NameBuffer :=
  match units with
  | some units => ⟨.target, none, .foreign units, num, max⟩
  | none => ⟨.target, none, .null, num, max⟩

/-- The units that the data pointer designates. -/
def units? (b : NameBuffer) : Option (List UInt16) :=
  match b.data with
  | .null => none
  | .allocation => b.allocation
  | .foreign units => some units

def isUsable (b : NameBuffer) : Bool :=
  b.units?.isSome

/-- Whether the storage that was allocated here is no longer designated. -/
def isDetached (b : NameBuffer) : Bool :=
  b.allocation.isSome && b.data != .allocation

/-- Units reserved; a negative count means none. -/
def capacity (b : NameBuffer) : Nat :=
  b.max.toInt.toNat

/-- Units in use. In a buffer of ours they never exceed the capacity. -/
def len (b : NameBuffer) : Nat :=
  let num := b.num.toInt.toNat
  match b.owner with
  | .tool => min num b.capacity
  | .target => num

/-- The units in use up to the first null. -/
def wide (b : NameBuffer) : Except Trap (List UInt16) :=
  match b.units? with
  | none => .ok []
  | some units =>
      if b.len ≤ units.length then .ok ((units.take b.len).takeWhile (· != 0))
      else .error .outOfBounds

def isEmpty (b : NameBuffer) : Except Trap Bool :=
  b.wide.map List.isEmpty

/-- Drops the contents and keeps the storage. -/
def reset (b : NameBuffer) : NameBuffer :=
  { b with num := 0 }

/-- Writes units over the designated storage, with no regard for the counts. -/
def poke (b : NameBuffer) (start : Nat) (units : List UInt16) : Except Trap NameBuffer :=
  match b.data with
  | .null => .error .outOfBounds
  | .allocation => do
      let allocation ← b.allocation.mapM (overwrite · start units)
      return { b with allocation }
  | .foreign storage => do
      let storage ← overwrite storage start units
      return { b with data := .foreign storage }

/-- Points the buffer to other storage that is exactly as long as its units, and counts them. -/
def redirect (b : NameBuffer) (units : Option (List UInt16)) : NameBuffer :=
  match units with
  | some units =>
      let count := Int32.ofNat units.length
      { b with data := .foreign units, num := count, max := count }
  | none => { b with data := .null, num := 0, max := 0 }

/-- Whether units may be appended at all: only to storage that was allocated here. -/
def isWritable (b : NameBuffer) : Bool :=
  b.owner == .tool && b.isUsable && !b.isDetached

/-- Appends units and a null to the contents, if the buffer takes them. -/
def append? (b : NameBuffer) (units : List UInt16) : Except Trap (Option NameBuffer) := do
  if b.isWritable then
    let start := (← b.wide).length
    let stop := start + units.length + 1
    if stop ≤ b.capacity then
      let written ← b.poke start (units ++ [0])
      return some { written with num := Int32.ofNat stop }
    else return none
  else return none

theorem capacity_reset (b : NameBuffer) : b.reset.capacity = b.capacity :=
  rfl

theorem len_reset (b : NameBuffer) : b.reset.len = 0 := by
  cases h : b.owner <;> simp [reset, len, h]

theorem wide_reset (b : NameBuffer) : b.reset.wide = .ok [] := by
  unfold wide
  rw [len_reset]
  split
  · rfl
  · simp

theorem append?_of_not_isWritable {b : NameBuffer} (h : b.isWritable = false)
    (units : List UInt16) : b.append? units = .ok none := by
  rw [append?, h]
  rfl

end NameBuffer

end EngineNames
