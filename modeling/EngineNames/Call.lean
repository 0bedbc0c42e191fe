import EngineNames.NameBuffer
import EngineNames.TargetProcess
import EngineNames.Registry

/-!
# Calls into the target

A name function is an address and a calling convention. An `Invoker` calls it: it may write to the
buffer that it is given, keep a state of its own, and resolve further names while it runs. What it
shares with the resolvers that call it is the `Session`: the scratch buffer, which is missing while
a call holds it, and the registry.
-/

namespace EngineNames

/-- How a function is called. -/
inductive Convention where
  | c
  | system
deriving DecidableEq, Repr

/-- A function of the target. -/
structure Callable where
  address : Address
  convention : Convention
deriving DecidableEq, Repr

/-- The name that a function is called for. -/
inductive NameArg where
  /-- A name value in the target. -/
  | address (location : Address)
  /-- The bytes of a name value that was made here. -/
  | image (bytes : List UInt8)
deriving DecidableEq, Repr

/-- How many units the scratch buffer holds. -/
def scratchCapacity : Nat :=
  1024

/-- What all calls of a thread share; `σ` is the state of the invoker. -/
structure Session (σ : Type) where
  /-- The buffer that is used again for each call; none while a call holds it. -/
  scratch : Option NameBuffer
  registry : Registry
  world : σ

namespace Session

variable {σ : Type}

/-- A session before its first call. -/
def start (world : σ) : Session σ :=
  ⟨some (NameBuffer.withCapacity scratchCapacity), Registry.empty, world⟩

end Session

/-- What is done in a session. Where it traps, there is no session to go on with. -/
abbrev Run (σ : Type) :=
  StateT (Session σ) (Except Trap)

/-- Calls the name functions of a target. -/
structure Invoker (σ : Type) where
  /-- Appends a name to the buffer, and gives the buffer back however the call ended. -/
  appendString : Callable → NameArg → NameBuffer → Run σ (Except ProcessError Unit × NameBuffer)
  /-- Gives a string of the target. -/
  toString : Callable → NameArg → Run σ (Except ProcessError NameBuffer)

/-- What the functions at the addresses of a process do when they are called from within it: the
first changes the header that it is given, the second makes one. -/
structure NativeCode (σ : Type) where
  appendString : Callable → NameArg → NameBuffer → Run σ NameBuffer
  toString : Callable → NameArg → Run σ NameBuffer

namespace Invoker

variable {σ : Type}

/-- Refuses calls to the null function and calls for the null name. -/
def checkCall (f : Callable) (name : NameArg) : Except ProcessError Unit :=
  if f.address = 0 then .error (.invalidAddress 0)
  else if name = .address 0 then .error (.other "null FName passed to name function")
  else .ok ()

/-- Calls functions of the process that it runs in. -/
def native (code : NativeCode σ) : Invoker σ where
  appendString f name buffer := do
    match checkCall f name with
    | .error e => return (.error e, buffer)
    | .ok () =>
        if buffer.isUsable then return (.ok (), ← code.appendString f name buffer)
        else return (.error (.other "name buffer has no storage"), buffer)
  toString f name := do
    match checkCall f name with
    | .error e => return .error e
    | .ok () => return .ok (← code.toString f name)

end Invoker

end EngineNames
