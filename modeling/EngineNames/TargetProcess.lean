import EngineNames.Address
import EngineNames.Pattern

/-!
# Inspected processes

A process is known by what can be asked of it: bytes at an address, its modules, its memory regions,
and where a pattern occurs. Each answer may be a failure. The questions below are made of these:
words of fixed size, text, a module by name, executable memory.
-/

namespace EngineNames

/-- Why a process gave no answer. -/
inductive ProcessError where
  | readFailed (address : Address) (size : Nat) (reason : String)
  | invalidAddress (address : Address)
  | moduleNotFound (name : String)
  | other (reason : String)
deriving DecidableEq, Repr

namespace ProcessError

def message : ProcessError → String
  | readFailed address size reason =>
      s!"Memory read failed at {address.hex} (size: {size}): {reason}"
  | invalidAddress address => s!"Invalid memory address: {address.hex}"
  | moduleNotFound name => s!"Module not found: {name}"
  | other reason => s!"Platform error: {reason}"

end ProcessError

/-- A loaded image. -/
structure Module where
  base : Address
  size : UInt64
  name : String
deriving DecidableEq, Repr

namespace Module

def contains (m : Module) (a : Address) : Bool :=
  m.base ≤ a && a - m.base < m.size

/-- Whether the module has this name, up to the case of ASCII letters. -/
def isNamed (m : Module) (name : String) : Bool :=
  m.name.toList.map Char.toLower == name.toList.map Char.toLower

end Module

/-- A range of addresses with one protection. -/
structure Region where
  start : Address
  /-- One past the last address. -/
  stop : Address
  readable : Bool
  executable : Bool
deriving DecidableEq, Repr

namespace Region

/-- The length in bytes; a range that ends before it starts is empty. -/
def size (r : Region) : UInt64 :=
  if r.start ≤ r.stop then r.stop - r.start else 0

def contains (r : Region) (a : Address) : Bool :=
  r.start ≤ a && a < r.stop

end Region

/-- An occurrence of a pattern. -/
structure Occurrence where
  /-- Where the first byte stands. -/
  address : Address
  /-- Its distance from the start of the range that was searched. -/
  offset : UInt64
deriving DecidableEq, Repr

/-- The memory of a process. -/
structure Memory where
  /-- The bytes from an address on. An answer may be shorter than what was asked for. -/
  readBytes : Address → Nat → Except ProcessError (List UInt8)
  /-- Whether anything can be read at an address. -/
  isReadable : Address → Bool

/-- A process under inspection. -/
structure TargetProcess extends Memory where
  /-- The loaded images, the main image first. -/
  modules : Except ProcessError (List Module)
  regions : Except ProcessError (List Region)
  /-- The occurrences of a pattern from one address up to another. -/
  findPattern : Pattern → Address → Address → Except ProcessError (List Occurrence)

/-- The value of bytes, the least significant one first. -/
def littleEndian : List UInt8 → Nat
  | [] => 0
  | b :: rest => b.toNat + 256 * littleEndian rest

/-- The 16-bit units that bytes make up in pairs; a last byte without a partner is dropped. -/
def pairUnits : List UInt8 → List UInt16
  | low :: high :: rest => UInt16.ofNat (low.toNat + 256 * high.toNat) :: pairUnits rest
  | _ => []

namespace Memory

/-- Exactly this many bytes. -/
def readExact (m : Memory) (a : Address) (size : Nat) : Except ProcessError (List UInt8) := do
  let bytes ← m.readBytes a size
  if bytes.length = size then pure bytes
  else throw (.readFailed a size s!"Expected {size} bytes, got {bytes.length}")

/-- The value of a little-endian word of this many bytes. -/
def readWord (m : Memory) (a : Address) (size : Nat) : Except ProcessError Nat :=
  (m.readExact a size).map littleEndian

def readUInt8 (m : Memory) (a : Address) : Except ProcessError UInt8 :=
  (m.readWord a 1).map UInt8.ofNat

def readUInt16 (m : Memory) (a : Address) : Except ProcessError UInt16 :=
  (m.readWord a 2).map UInt16.ofNat

def readUInt32 (m : Memory) (a : Address) : Except ProcessError UInt32 :=
  (m.readWord a 4).map UInt32.ofNat

/-- A 32-bit word read as a signed number. -/
def readInt32 (m : Memory) (a : Address) : Except ProcessError Int :=
  (m.readWord a 4).map fun word => (word : Int).bmod UInt32.size

def readUInt64 (m : Memory) (a : Address) : Except ProcessError UInt64 :=
  (m.readWord a 8).map UInt64.ofNat

def readPointer (m : Memory) (a : Address) : Except ProcessError Address :=
  m.readUInt64 a

/-- The units that a read of `2 * length` bytes gives. -/
def readUnits (m : Memory) (a : Address) (length : Nat) : Except ProcessError (List UInt16) :=
  (m.readBytes a (2 * length)).map pairUnits

/-- The units before the first zero, of at most `length`. -/
def readUnitsToNull (m : Memory) (a : Address) (length : Nat) :
    Except ProcessError (List UInt16) :=
  (m.readUnits a length).map (·.takeWhile (· != 0))

/-- The bytes before the first zero, of at most `length`. -/
def readBytesToNull (m : Memory) (a : Address) (length : Nat) :
    Except ProcessError (List UInt8) :=
  (m.readBytes a length).map (·.takeWhile (· != 0))

end Memory

namespace TargetProcess

/-- The first module with this name, up to the case of ASCII letters. -/
def moduleNamed (p : TargetProcess) (name : String) : Except ProcessError Module := do
  match (← p.modules).find? (·.isNamed name) with
  | some found => pure found
  | none => throw (.moduleNotFound name)

def mainModule (p : TargetProcess) : Except ProcessError Module := do
  match (← p.modules).head? with
  | some main => pure main
  | none => throw (.moduleNotFound "<main image>")

def executableRegions (p : TargetProcess) : Except ProcessError (List Region) :=
  p.regions.map (·.filter Region.executable)

/-- Whether an address lies in executable memory. If the regions cannot be listed, none does. -/
def isExecutable (p : TargetProcess) (a : Address) : Bool :=
  match p.executableRegions with
  | .ok regions => regions.any (·.contains a)
  | .error _ => false

/-- The occurrences of a pattern in a region; a region that cannot be searched has none. -/
def occurrencesIn (p : TargetProcess) (pattern : Pattern) (r : Region) : List Occurrence :=
  (p.findPattern pattern r.start r.stop).toOption.getD []

/-- The occurrences of a pattern in executable memory, region by region. -/
def scan (p : TargetProcess) (pattern : Pattern) : Except ProcessError (List Occurrence) :=
  p.executableRegions.map (·.flatMap (p.occurrencesIn pattern))

end TargetProcess

end EngineNames
