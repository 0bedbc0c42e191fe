import EngineNames.Handle
import EngineNames.Strategy

/-!
# Resolvers

A resolver gets names from handles through one strategy that was bound to a process. What it does
with a handle is the same for all strategies: a handle that leads nowhere resolves to the empty
name. A call of the appending function uses the scratch buffer of the session, or a buffer of its
own while another call holds the scratch buffer. Reading a handle traps where a field of the name
value has no address, and so does resolving one where a name is read for ever or beyond its storage.
-/

namespace EngineNames

/-- How a resolver came to its strategy. -/
inductive BindPath where
  | override
  | detection
  | thunk
deriving DecidableEq, Repr

namespace BindPath

def label : BindPath → String
  | override => "explicit override"
  | detection => "auto-detect"
  | thunk => "fallback"

end BindPath

/-- What came of a try to bind. -/
inductive Outcome where
  | bound (kind : StrategyKind) (address : Address)
  | failed (reason : String)
deriving DecidableEq, Repr

/-- One try to bind. -/
structure Attempt where
  path : BindPath
  outcome : Outcome
deriving DecidableEq, Repr

/-- Gets names from handles. -/
structure Resolver (σ : Type) where
  process : TargetProcess
  build : Build
  layout : HandleLayout
  invoker : Invoker σ
  strategy : Strategy
  path : BindPath
  attempts : List Attempt
  /-- Every resolved name is put into the registry of the session. -/
  tracked : Bool

/-- The bytes of a 32-bit word, the least significant one first. -/
def wordBytes (word : UInt32) : List UInt8 :=
  [word.toUInt8, (word >>> 8).toUInt8, (word >>> 16).toUInt8, (word >>> 24).toUInt8]

/-- Bytes with a word written over them. -/
def putWord (bytes : List UInt8) (offset : Nat) (word : UInt32) : List UInt8 :=
  bytes.take offset ++ wordBytes word ++ bytes.drop (offset + 4)

theorem length_putWord {bytes : List UInt8} {offset : Nat} (word : UInt32)
    (h : offset + 4 ≤ bytes.length) : (putWord bytes offset word).length = bytes.length := by
  simp [putWord, wordBytes]
  omega

namespace HandleLayout

/-- How many bytes a name value takes up when it is made here. -/
def imageSize (layout : HandleLayout) : Nat :=
  Address.roundUp layout.size 8

/-- The bytes of a name value with this index and number. -/
def image (layout : HandleLayout) (index : UInt32) (number : Option UInt32) : List UInt8 :=
  let blank := List.replicate layout.imageSize 0
  let indexed := putWord blank layout.comparisonIndex index
  let displayed :=
    match layout.displayIndex with
    | some offset => putWord indexed offset index
    | none => indexed
  match layout.number with
  | some offset => putWord displayed offset (number.getD 0)
  | none => displayed

/-- The comparison index and the number of a handle. Without a number field the number is zero. -/
def read? (layout : HandleLayout) (m : Memory) :
    Handle → Except Trap (Option (UInt32 × UInt32))
  | .index comparison number =>
      .ok (some (comparison, if layout.number.isSome then number.getD 0 else 0))
  | .address a => do
      if a = 0 then return none
      else
        match m.readUInt32 (← a.advance layout.comparisonIndex) with
        | .error _ => return none
        | .ok index =>
            match layout.number with
            | none => return some (index, 0)
            | some offset =>
                match m.readUInt32 (← a.advance offset) with
                | .error _ => return none
                | .ok number => return some (index, number)

end HandleLayout

namespace Resolver

variable {σ : Type}

/-- Puts every resolved name into the registry of the session. -/
def withTracking (r : Resolver σ) : Resolver σ :=
  { r with tracked := true }

/-- What a name function is given for a handle. -/
def nameArg (r : Resolver σ) : Handle → NameArg
  | .address a => .address a
  | .index comparison number => .image (r.layout.image comparison number)

/-- Whether a handle is worth resolving: an address has to be readable and not null. -/
def accepts (r : Resolver σ) : Handle → Bool
  | .address a => a != 0 && r.process.isReadable a
  | .index _ _ => true

/-- The buffer for the next call, emptied. One that lost its storage is replaced. -/
def prepare (b : NameBuffer) : NameBuffer :=
  (if b.isDetached || !b.isUsable then NameBuffer.withCapacity scratchCapacity else b).reset

/-- Calls the appending function with a buffer. Gives the name, if the call went well, and the
buffer as the call left it. -/
def callAppend (r : Resolver σ) (f : Callable) (name : NameArg) (b : NameBuffer) :
    Run σ (Option (List UInt16) × NameBuffer) := do
  match ← r.invoker.appendString f name (prepare b) with
  | (.ok (), b) => return (some (← b.wide), b)
  | (.error _, b) => return (none, b)

/-- Calls the appending function with the scratch buffer, which nobody else has until the call ends.
If another call has it, a new buffer is used and given up afterwards. -/
def appendName (r : Resolver σ) (f : Callable) (name : NameArg) :
    Run σ (Option (List UInt16)) := do
  match (← get).scratch with
  | some scratch =>
      modify fun s => { s with scratch := none }
      let (units, scratch) ← r.callAppend f name scratch
      modify fun s => { s with scratch := some scratch }
      return units
  | none =>
      let (units, _) ← r.callAppend f name (NameBuffer.withCapacity scratchCapacity)
      return units

/-- Calls the function that returns a string. -/
def returnName (r : Resolver σ) (f : Callable) (name : NameArg) :
    Run σ (Option (List UInt16)) := do
  match ← r.invoker.toString f name with
  | .ok b => return some (← b.wide)
  | .error _ => return none

/-- The units of a handle's name in a table. -/
def readUnits? (r : Resolver σ) (table : NameTable) (h : Handle) :
    Except Trap (Option (List UInt16)) := do
  match ← r.layout.read? r.process.toMemory h with
  | some (index, number) => table.readName? r.process.toMemory r.build index number
  | none => return none

/-- The units of a handle's name. -/
def units? (r : Resolver σ) (h : Handle) : Run σ (Option (List UInt16)) := do
  if r.accepts h then
    match r.strategy with
    | .nameTable table => r.readUnits? table h
    | .appendString f => r.appendName f (r.nameArg h)
    | .toString f => r.returnName f (r.nameArg h)
  else return none

/-- Puts a name into the registry; one that collides is left out. -/
def track (name : Name) (s : Session σ) : Session σ :=
  match s.registry.registerName name with
  | .ok registry => { s with registry }
  | .error _ => s

/-- The name of a handle. -/
def resolve (r : Resolver σ) (h : Handle) : Run σ Name := do
  let name := match ← r.units? h with
    | some units => Name.ofUnits units
    | none => Name.empty
  if r.tracked then modify (track name)
  return name

/-- The units of a name with its package path. -/
def rawUnits (r : Resolver σ) (h : Handle) : Run σ (List UInt16) :=
  Name.raw <$> r.resolve h

/-- A name with its package path. -/
def rawText (r : Resolver σ) (h : Handle) : Run σ String :=
  Name.rawText <$> r.resolve h

/-- The units of a name without its package path. -/
def displayUnits (r : Resolver σ) (h : Handle) : Run σ (List UInt16) :=
  Name.displayUnits <$> r.resolve h

/-- A name without its package path. -/
def displayText (r : Resolver σ) (h : Handle) : Run σ String :=
  Name.display <$> r.resolve h

/-- The identifier made from a name. -/
def identifier (r : Resolver σ) (h : Handle) : Run σ String :=
  Name.identifier <$> r.resolve h

/-- The name of a bare comparison index, without its package path. -/
def indexText (r : Resolver σ) (index : UInt32) : Run σ String :=
  r.displayText (.index index none)

/-- The comparison index of a handle. -/
def comparisonIndex? (r : Resolver σ) (h : Handle) : Except Trap (Option UInt32) :=
  (r.layout.read? r.process.toMemory h).map (·.map Prod.fst)

/-- The number of a handle, zero if it cannot be read. -/
def number (r : Resolver σ) (h : Handle) : Except Trap UInt32 :=
  (r.layout.read? r.process.toMemory h).map fun found => (found.map Prod.snd).getD 0

/-- Whether two handles can be read and have the same index and number. -/
def sameName (r : Resolver σ) (g h : Handle) : Except Trap Bool := do
  match ← r.layout.read? r.process.toMemory g, ← r.layout.read? r.process.toMemory h with
  | some x, some y => return x == y
  | _, _ => return false

end Resolver

end EngineNames
