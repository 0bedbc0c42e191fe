import EngineNames.Call
import EngineNames.NameTable
import EngineNames.Signature

/-!
# Strategies

A strategy is a way to get from a name to its characters: one of two name functions, or the name
table itself. Each of the three functions below finds one in a process, or tells why there is none:
where an operator says that it is, at a candidate address, or behind the call inside a thunk. The
last two ask a scanner, and trap where it does.
-/

namespace EngineNames

inductive StrategyKind where
  | appendString
  | toString
  | nameTable
deriving DecidableEq, Repr

namespace StrategyKind

def label : StrategyKind → String
  | appendString => "AppendString"
  | toString => "ToString"
  | nameTable => "NameTable"

end StrategyKind

/-- A way to get from a name to its characters. -/
inductive Strategy where
  | appendString (function : Callable)
  | toString (function : Callable)
  | nameTable (table : NameTable)
deriving DecidableEq, Repr

namespace Strategy

def kind : Strategy → StrategyKind
  | appendString _ => .appendString
  | toString _ => .toString
  | nameTable _ => .nameTable

def address : Strategy → Address
  | appendString f => f.address
  | toString f => f.address
  | nameTable t => t.address

end Strategy

/-- What was looked for and not found. -/
inductive Sought where
  | nameTable
  | nameFunction
  | conversionThunk
deriving DecidableEq, Repr

namespace Sought

def label : Sought → String
  | nameTable => "name table"
  | nameFunction => "AppendString/ToString"
  | conversionThunk => "name conversion thunk"

end Sought

/-- How many bytes of a thunk are searched for a call. -/
def thunkWindow : Nat :=
  0x40

/-- Why there is no strategy. -/
inductive StrategyError where
  | process (error : ProcessError)
  /-- No candidate was given. -/
  | noCandidate (sought : Sought)
  /-- Candidates for the name functions were given, but none of them is executable. -/
  | rejected (candidates : List (StrategyKind × Address))
  | noCallInThunk (thunk : Address)
  /-- The offset from the base of a module leaves the address space. -/
  | overflowsModule (kind : StrategyKind) (offset : UInt64) (base : Address)
  | outsideModule (kind : StrategyKind) (offset : UInt64) (image : Module)
  | notExecutable (kind : StrategyKind) (address : Address)
  | notReadable (address : Address)
deriving DecidableEq, Repr

namespace StrategyError

def notFound (name reason : String) : String :=
  s!"Failed to find offset for {name}: {reason}"

def invalidOffset (kind : StrategyKind) (offset : UInt64) (reason : String) : String :=
  s!"Invalid offset {Address.hex offset} for {kind.label}: {reason}"

def notExecutableText (kind : StrategyKind) (address : Address) : String :=
  invalidOffset kind address "not inside executable memory"

def message : StrategyError → String
  | process error => "Platform error: " ++ error.message
  | noCandidate sought => notFound sought.label "no signature matched"
  | rejected candidates =>
      notFound Sought.nameFunction.label
        ("; ".intercalate (candidates.map fun (kind, address) => notExecutableText kind address))
  | noCallInThunk thunk =>
      let window := Address.hex (.ofNat thunkWindow)
      notFound StrategyKind.appendString.label
        s!"no call into executable memory within {window} bytes of {thunk.hex}"
  | overflowsModule kind offset base =>
      invalidOffset kind offset s!"overflows from module base {base.hex}"
  | outsideModule kind offset image =>
      invalidOffset kind offset s!"outside {image.name} ({Address.hex image.size} bytes)"
  | notExecutable kind address => notExecutableText kind address
  | notReadable address => invalidOffset .nameTable address "not readable"

end StrategyError

/-- Where an operator says that a name function or the name table is. -/
structure Override where
  /-- Offset from the base of the module. -/
  offset : UInt64
  kind : StrategyKind := .appendString
  /-- A name table at this place is a pool. -/
  isPool : Bool := false
  /-- The module that the offset counts from; the main module if none is named. -/
  moduleName : Option String := none
  convention : Convention := .c
deriving DecidableEq, Repr

namespace TargetProcess

/-- The strategy that calls the function at an address, which has to be executable. -/
def functionStrategy (p : TargetProcess) (kind : StrategyKind) (a : Address)
    (convention : Convention) : Except StrategyError Strategy :=
  if p.isExecutable a then
    match kind with
    | .toString => .ok (.toString ⟨a, convention⟩)
    | _ => .ok (.appendString ⟨a, convention⟩)
  else .error (.notExecutable kind a)

/-- The strategy that walks the table at an address, which has to be readable. -/
def tableStrategy (p : TargetProcess) (a : Address) (b : Build) : Except StrategyError Strategy :=
  if p.isReadable a then .ok (.nameTable (.ofBuild a b)) else .error (.notReadable a)

/-- The address that an override denotes. It has to lie in the module. -/
def overrideAddress (p : TargetProcess) (o : Override) : Except StrategyError Address := do
  let image ← (match o.moduleName with
    | some name => p.moduleNamed name
    | none => p.mainModule).mapError .process
  match image.base.add? o.offset with
  | none => throw (.overflowsModule o.kind o.offset image.base)
  | some a => if image.contains a then pure a else throw (.outsideModule o.kind o.offset image)

/-- The strategy that an override asks for. It tells by itself whether a table is a pool. -/
def overrideStrategy (p : TargetProcess) (b : Build) (o : Override) :
    Except StrategyError Strategy := do
  let a ← p.overrideAddress o
  match o.kind with
  | .nameTable => p.tableStrategy a { b with usesPool := o.isPool }
  | kind => p.functionStrategy kind a o.convention

/-- The first name function that is executable; `rejected` are the candidates that were not. -/
def firstFunction (p : TargetProcess) (rejected : List (StrategyKind × Address)) :
    List (StrategyKind × Option Address) → Except StrategyError Strategy
  | [] => .error (if rejected.isEmpty then .noCandidate .nameFunction else .rejected rejected)
  | (_, none) :: rest => firstFunction p rejected rest
  | (kind, some a) :: rest =>
      match p.functionStrategy kind a .c with
      | .ok strategy => .ok strategy
      | .error _ => firstFunction p (rejected ++ [(kind, a)]) rest

/-- The strategy at the candidates of a scanner: the function that appends before the one that
returns a string. Both are looked for before either is looked at. If only the table is wanted, no
function is looked for. -/
def detectedStrategy (p : TargetProcess) (b : Build) (s : Scanner) (tableOnly : Bool) :
    Except Trap (Except StrategyError Strategy) :=
  if tableOnly then do
    match ← s.nameTable with
    | none => return .error (.noCandidate .nameTable)
    | some a => return p.tableStrategy a b
  else do
    let appending ← s.appendString
    let returning ← s.toString
    return p.firstFunction [] [(.appendString, appending), (.toString, returning)]

/-- The executable target of a call at an offset of a thunk: the byte `E8`, with four bytes of
distance from the end of the call. The end has to be an address. -/
def targetOfCall? (p : TargetProcess) (thunk : Address) (offset : Nat) (opcode : UInt8)
    (operand : List UInt8) : Except Trap (Option Address) :=
  if opcode = 0xE8 then do
    let stop ← thunk.advance (offset + 5)
    let distance := (littleEndian operand : Int).bmod UInt32.size
    return (stop.displace? distance).filter p.isExecutable
  else .ok none

/-- The first call with an executable target in the code of a thunk from an offset on. -/
def callTarget? (p : TargetProcess) (thunk : Address) (offset : Nat) :
    List UInt8 → Except Trap (Option Address)
  | opcode :: b0 :: b1 :: b2 :: b3 :: rest => do
      match ← p.targetOfCall? thunk offset opcode [b0, b1, b2, b3] with
      | some target => return some target
      | none => callTarget? p thunk (offset + 1) (b0 :: b1 :: b2 :: b3 :: rest)
  | _ => .ok none

/-- The strategy that calls what the conversion thunk calls. -/
def thunkStrategy (p : TargetProcess) (s : Scanner) :
    Except Trap (Except StrategyError Strategy) := do
  match ← s.conversionThunk with
  | none => return .error (.noCandidate .conversionThunk)
  | some thunk =>
      match p.readBytes thunk thunkWindow with
      | .error e => return .error (.process e)
      | .ok code =>
          match ← p.callTarget? thunk 0 code with
          | none => return .error (.noCallInThunk thunk)
          | some a => return p.functionStrategy .appendString a .c

end TargetProcess

end EngineNames
