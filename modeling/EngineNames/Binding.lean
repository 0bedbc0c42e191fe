import EngineNames.Resolver

/-!
# Binding a resolver

A resolver is bound to its strategy once. Until that succeeds there is an unbound resolver, which
keeps a record of what was tried; a bind that fails hands it back with the error, and it can be
bound again as if nothing had happened but for the record. A bind that traps hands nothing back.
-/

namespace EngineNames

/-- What decides how a resolver is bound. -/
structure BindPlan where
  /-- If it is present, nothing else is tried. -/
  override : Option Override := none
  /-- Detection looks only for the name table. -/
  tableOnly : Bool := false
  /-- The conversion thunk is tried when detection fails. -/
  allowThunk : Bool := false
deriving DecidableEq, Repr

/-- A failed bind: the path that was tried last and what went wrong on it. -/
structure BindError where
  path : BindPath
  cause : StrategyError
deriving DecidableEq, Repr

namespace BindError

def message (e : BindError) : String :=
  s!"FName initialization failed ({e.path.label}): {e.cause.message}"

end BindError

/-- A resolver without a strategy. -/
structure Unbound (σ : Type) where
  process : TargetProcess
  build : Build
  invoker : Invoker σ
  attempts : List Attempt := []
  /-- How many binds failed. -/
  failures : Nat := 0

/-- A failed bind with the resolver that is still unbound. -/
structure BindFailure (σ : Type) where
  resolver : Unbound σ
  error : BindError

namespace Attempt

/-- The record of a try. -/
def ofOutcome (path : BindPath) : Except StrategyError Strategy → Attempt
  | .ok strategy => ⟨path, .bound strategy.kind strategy.address⟩
  | .error e => ⟨path, .failed e.message⟩

end Attempt

namespace Unbound

variable {σ : Type}

/-- Adds a try to the record. -/
def record (u : Unbound σ) (path : BindPath) (outcome : Except StrategyError Strategy) :
    Unbound σ :=
  { u with attempts := u.attempts ++ [.ofOutcome path outcome] }

/-- Hands the resolver back with the failure counted. -/
def fail (u : Unbound σ) (path : BindPath) (cause : StrategyError) : BindFailure σ :=
  ⟨{ u with failures := u.failures + 1 }, ⟨path, cause⟩⟩

/-- The resolver with a strategy. -/
def complete (u : Unbound σ) (path : BindPath) (strategy : Strategy) : Resolver σ where
  process := u.process
  build := u.build
  layout := u.build.handleLayout
  invoker := u.invoker
  strategy := strategy
  path := path
  attempts := u.attempts
  tracked := false

/-- The same resolver for a build that has a pool, or has none. -/
def withPool (u : Unbound σ) (usesPool : Bool) : Unbound σ :=
  { u with build := { u.build with usesPool } }

/-- Binds what an operator asks for. The override also tells whether the build has a pool. -/
def bindOverride (u : Unbound σ) (o : Override) : Except (BindFailure σ) (Resolver σ) :=
  let outcome := u.process.overrideStrategy u.build o
  let u := u.record .override outcome
  match outcome with
  | .ok strategy => .ok ((u.withPool o.isPool).complete .override strategy)
  | .error e => .error (u.fail .override e)

/-- Binds one of the candidates, without the thunk. -/
def bindDetected (u : Unbound σ) (s : Scanner) (tableOnly : Bool) :
    Except Trap (Except (BindFailure σ) (Resolver σ)) := do
  let outcome ← u.process.detectedStrategy u.build s tableOnly
  let u := u.record .detection outcome
  match outcome with
  | .ok strategy => return .ok (u.complete .detection strategy)
  | .error e => return .error (u.fail .detection e)

/-- Binds what the conversion thunk calls. -/
def bindThunk (u : Unbound σ) (s : Scanner) :
    Except Trap (Except (BindFailure σ) (Resolver σ)) := do
  let outcome ← u.process.thunkStrategy s
  let u := u.record .thunk outcome
  match outcome with
  | .ok strategy => return .ok (u.complete .thunk strategy)
  | .error e => return .error (u.fail .thunk e)

/-- Binds by a plan: the override alone if there is one, otherwise the candidates, then the thunk if
it is allowed. A plan that fails counts as one failure, on the path that was tried last. -/
def bind (u : Unbound σ) (plan : BindPlan) (s : Scanner) :
    Except Trap (Except (BindFailure σ) (Resolver σ)) :=
  match plan.override with
  | some o => .ok (u.bindOverride o)
  | none => do
      let detected ← u.process.detectedStrategy u.build s plan.tableOnly
      let u := u.record .detection detected
      match detected with
      | .ok strategy => return .ok (u.complete .detection strategy)
      | .error e =>
          if plan.allowThunk then
            let behindThunk ← u.process.thunkStrategy s
            let u := u.record .thunk behindThunk
            match behindThunk with
            | .ok strategy => return .ok (u.complete .thunk strategy)
            | .error e => return .error (u.fail .thunk e)
          else return .error (u.fail .detection e)

end Unbound

end EngineNames
