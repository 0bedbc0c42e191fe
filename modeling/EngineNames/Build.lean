import EngineNames.Address

/-!
# Builds of the engine

Builds of the engine disagree on how a name value is laid out and how the global name table stores
its entries. A `Build` holds these facts about the inspected process. Nothing ties them together: a
build may combine them in ways that no engine does.
-/

namespace EngineNames

/-- Where the number of a name stands on builds that keep a display index. -/
inductive NumberPlacement where
  | afterComparisonIndex
  | afterDisplayIndex
deriving DecidableEq, Repr

/-- How a name pool is laid out. -/
structure PoolLayout where
  /-- Offset of the block pointers in the pool. -/
  blocksOffset : UInt64 := 0x10
  /-- How many low bits of a comparison index point into a block. -/
  blockOffsetBits : UInt32 := 16
  /-- How many block pointers there are. -/
  maxBlocks : UInt64 := 8192
  /-- What the position in a block counts in. -/
  stride : UInt64 := 2
  /-- How far the header of an entry is shifted to give the length. -/
  lengthShift : UInt32 := 6
  /-- The header bits that mark an entry of UTF-16 units. -/
  wideMask : UInt16 := 1
  /-- The longest name that is believed. -/
  maxNameLength : UInt64 := 1024
deriving DecidableEq, Repr

/-- How a chunked array of entry pointers is laid out. -/
structure ArrayLayout where
  /-- How many entry pointers a chunk holds. -/
  elementsPerChunk : UInt64 := 0x4000
  /-- Offset of the index field in an entry. -/
  entryIndexOffset : UInt64 := 0
  /-- Offset of the characters in an entry. -/
  entryStringOffset : UInt64 := 0x10
  /-- The longest name that is believed. -/
  maxNameLength : UInt64 := 1024
deriving DecidableEq, Repr

/-- What is known about the build of the inspected process. -/
structure Build where
  /-- Names are stored in a pool rather than in a chunked array. -/
  usesPool : Bool := false
  /-- Names carry a display index beside the comparison index. -/
  casePreserving : Bool := false
  /-- Numbers are stored in pool entries of their own rather than in name values. -/
  outlineNumbers : Bool := false
  numberPlacement : NumberPlacement := .afterComparisonIndex
  /-- Objects hold their name before their class. -/
  nameBeforeClass : Bool := false
  /-- Properties are fields rather than objects. -/
  fieldProperties : Bool := false
  /-- A mask bit tells the kinds of field owners apart. -/
  masksFieldOwner : Bool := false
  /-- Vectors have components of double precision. -/
  doubleVectors : Bool := false
  /-- Weak object pointers have no tag. -/
  untaggedWeakPointers : Bool := false
  /-- Enumerations list bare names without values. -/
  bareEnumNames : Bool := false
  pool : PoolLayout := {}
  array : ArrayLayout := {}
deriving DecidableEq, Repr

/-- Where the 32-bit fields of a name value stand, and how long the value is. -/
structure HandleLayout where
  comparisonIndex : Nat
  displayIndex : Option Nat
  number : Option Nat
  size : Nat
deriving DecidableEq, Repr

namespace Build

/-- The layout of a name value. The comparison index comes first; of the two optional fields the one
that is placed first follows it. -/
def handleLayout (b : Build) : HandleLayout :=
  match b.casePreserving, b.outlineNumbers, b.numberPlacement with
  | false, true, _ => ⟨0, none, none, 4⟩
  | false, false, _ => ⟨0, none, some 4, 8⟩
  | true, true, _ => ⟨0, some 4, none, 8⟩
  | true, false, .afterComparisonIndex => ⟨0, some 8, some 4, 12⟩
  | true, false, .afterDisplayIndex => ⟨0, some 4, some 8, 12⟩

/-- Offset of the header in a pool entry. -/
def poolHeaderOffset (b : Build) : UInt64 :=
  if b.casePreserving then 4 else 0

/-- Offset of the index and number that an entry without characters stands for. -/
def poolNumberedOffset (b : Build) : UInt64 :=
  if b.casePreserving then 8 else 2

end Build

end EngineNames
