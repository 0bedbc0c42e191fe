import EngineNames.Build
import EngineNames.TargetProcess
import EngineNames.Text.Utf16

/-!
# Name tables

The engine keeps all names in one table. A pool is a list of blocks; the high bits of an index
choose the block and the low bits a position in it, where a header tells the length of the entry and
whether it holds bytes or UTF-16 units. An entry of length zero may stand for another entry with a
number. An array is a list of chunks of pointers to entries whose characters end in a null. Each
location is an exact sum: one that leaves the address space leads nowhere. Only a string in pieces
of which one holds nothing is read for ever.
-/

namespace EngineNames

/-- A name table and the layout by which it is read. -/
inductive NameTable where
  | pool (address : Address) (layout : PoolLayout)
  | array (address : Address) (layout : ArrayLayout)
deriving DecidableEq, Repr

/-- What a pool entry holds. -/
inductive PoolEntry where
  | plain (units : List UInt16)
  /-- The name of another entry, with a number. -/
  | numbered (index number : UInt32)
deriving DecidableEq, Repr

/-- What comes of reading a string to its null. -/
inductive Terminated where
  | found (units : List UInt16)
  | unreadable
  /-- A read succeeded and gave nothing, so that no number of further reads ends the string. -/
  | stalled
deriving DecidableEq, Repr

namespace Memory

/-- Units of two bytes each, or bytes widened to units. -/
def readCharacters (m : Memory) (wide : Bool) (a : Address) (length : Nat) :
    Except ProcessError (List UInt16) :=
  if wide then m.readUnits a length
  else (m.readBytes a length).map (·.map UInt8.toUInt16)

/-- How many units are read at a time from a string whose length is not known. -/
def pieceLength : Nat :=
  32

/-- The units of a string before its null, or `maxLength` of them. They are read in pieces from the
start of the string; `done` are the units that were read so far. -/
def readTerminatedFrom (m : Memory) (wide : Bool) (a : Address) (maxLength : Nat)
    (done : List UInt16) : Terminated :=
  if _hlt : done.length < maxLength then
    match Address.ofNat? (a.toNat + done.length * if wide then 2 else 1) with
    | none => .unreadable
    | some position =>
        match m.readCharacters wide position (min pieceLength (maxLength - done.length)) with
        | .error _ => .unreadable
        | .ok piece =>
            let text := piece.takeWhile (· != 0)
            if text.length < piece.length then .found (done ++ text)
            else if _hne : piece = [] then .stalled
            else readTerminatedFrom m wide a maxLength (done ++ piece)
  else .found done
termination_by maxLength - done.length
decreasing_by
  have := List.length_pos_iff.mpr _hne
  simp only [List.length_append]
  omega

end Memory

namespace NameTable

/-- The table of a build at an address. -/
def ofBuild (a : Address) (b : Build) : NameTable :=
  if b.usesPool then .pool a b.pool else .array a b.array

def address : NameTable → Address
  | pool a _ => a
  | array a _ => a

/-- The block and the position in it that an index stands for. An index has 32 bits, so with as many
low bits or more there is only one block. -/
def splitIndex (bits index : UInt32) : Nat × Nat :=
  let blockLength := 1 <<< min bits.toNat 32
  (index.toNat / blockLength, index.toNat % blockLength)

/-- The address of a block; none for a null pointer. -/
def readBlock (m : Memory) (a : Address) (layout : PoolLayout) (block : Nat) : Option Address := do
  if layout.maxBlocks.toNat ≤ block then none
  else
    let slot ← Address.ofNat? ((← a.add? layout.blocksOffset).toNat + 8 * block)
    let found ← (m.readPointer slot).toOption
    if found = 0 then none else some found

/-- The length and the width that a header tells. Shifting out all of its 16 bits leaves no length.
-/
def splitHeader (layout : PoolLayout) (header : UInt16) : Nat × Bool :=
  (header.toNat >>> min layout.lengthShift.toNat 16, header &&& layout.wideMask != 0)

/-- The entry at an address. -/
def readEntry (m : Memory) (layout : PoolLayout) (b : Build) (entry : Address) :
    Option PoolEntry := do
  let headerAt ← entry.add? b.poolHeaderOffset
  let (length, wide) := splitHeader layout (← (m.readUInt16 headerAt).toOption)
  if length = 0 then
    if b.outlineNumbers then
      let data ← entry.add? b.poolNumberedOffset
      let index ← (m.readUInt32 data).toOption
      let number ← (m.readUInt32 (← data.add? 4)).toOption
      some (.numbered index number)
    else none
  else if layout.maxNameLength.toNat < length then none
  else
    let units ← (m.readCharacters wide (← headerAt.add? 2) length).toOption
    some (.plain units)

/-- The pool entry of an index. -/
def readPoolEntry (m : Memory) (a : Address) (layout : PoolLayout) (b : Build) (index : UInt32) :
    Option PoolEntry := do
  let (block, position) := splitIndex layout.blockOffsetBits index
  let start ← readBlock m a layout block
  readEntry m layout b (← start.add? (← Address.mul? (UInt64.ofNat position) layout.stride))

/-- The address of the array entry of an index; none where a pointer is null. -/
def arrayEntry? (m : Memory) (a : Address) (layout : ArrayLayout) (index : UInt32) :
    Option Address := do
  if layout.elementsPerChunk = 0 then none
  else
    let chunk := index.toNat / layout.elementsPerChunk.toNat
    let position := index.toNat % layout.elementsPerChunk.toNat
    let start ← (m.readPointer (← Address.ofNat? (a.toNat + 8 * chunk))).toOption
    if start = 0 then none
    else
      let entry ← (m.readPointer (← Address.ofNat? (start.toNat + 8 * position))).toOption
      if entry = 0 then none else some entry

/-- The width of the characters of an array entry, and where they start. -/
def arrayText? (m : Memory) (a : Address) (layout : ArrayLayout) (index : UInt32) :
    Option (Bool × Address) := do
  let entry ← arrayEntry? m a layout index
  let field ← (m.readUInt32 (← entry.add? layout.entryIndexOffset)).toOption
  some (field &&& 1 != 0, ← entry.add? layout.entryStringOffset)

/-- What comes of reading the array entry of an index. -/
def lookupArray (m : Memory) (a : Address) (layout : ArrayLayout) (index : UInt32) : Terminated :=
  match arrayText? m a layout index with
  | none => .unreadable
  | some (wide, text) => m.readTerminatedFrom wide text layout.maxNameLength.toNat []

/-- What a number adds to a name: nothing for zero, otherwise an underscore and its predecessor. -/
def numberSuffix (number : UInt32) : List UInt16 :=
  if number = 0 then [] else Utf16.ofString ("_" ++ toString (number.toNat - 1))

/-- The name that an index stands for and the number that goes with it. In a pool an entry may bring
a number of its own, but what it refers to may not. -/
def readBase (t : NameTable) (m : Memory) (b : Build) (index number : UInt32) :
    Except Trap (Option (List UInt16 × UInt32)) :=
  match t with
  | pool a layout =>
      match readPoolEntry m a layout b index with
      | some (.plain units) => .ok (some (units, number))
      | some (.numbered target own) =>
          match readPoolEntry m a layout b target with
          | some (.plain units) => .ok (some (units, own))
          | _ => .ok none
      | none => .ok none
  | array a layout =>
      match lookupArray m a layout index with
      | .found units => .ok (some (units, number))
      | .unreadable => .ok none
      | .stalled => .error .endless

/-- The name of an index and a number. -/
def readName? (t : NameTable) (m : Memory) (b : Build) (index number : UInt32) :
    Except Trap (Option (List UInt16)) :=
  (t.readBase m b index number).map fun found =>
    found.map fun (units, own) => units ++ numberSuffix own

end NameTable

end EngineNames
