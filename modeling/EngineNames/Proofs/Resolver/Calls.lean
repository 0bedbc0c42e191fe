import EngineNames.Proofs.Binding.Bound
import EngineNames.Proofs.Resolver.Identity
import EngineNames.Proofs.Resolver.Queries
import EngineNames.Proofs.Resolver.Reuse

/-! # Calls into the target

An invoker can be made to put the calls that it is asked for on record, without any difference to
what they do. The record of a bound resolver shows one call for each handle that is worth resolving,
of the function that was found executable, for an address that was checked or for the image of a
name value. A resolver that walks the table makes no call at all. What the calls themselves resolve
goes through resolvers of their own and is on their records.

A run that traps leaves no record. That it makes no other calls shows in an invoker that does
something else for them: the run stays the same.
-/

namespace EngineNames

variable {σ : Type}

/-! ## Records of calls -/

/-- A call of a function of the target for a name. -/
inductive Invocation where
  | append (f : Callable) (name : NameArg)
  | string (f : Callable) (name : NameArg)
deriving DecidableEq, Repr

namespace Session

/-- The same session with a record of calls. -/
def withLog (s : Session σ) (log : List Invocation) : Session (σ × List Invocation) :=
  ⟨s.scratch, s.registry, (s.world, log)⟩

def withoutLog (s : Session (σ × List Invocation)) : Session σ :=
  ⟨s.scratch, s.registry, s.world.1⟩

def log (s : Session (σ × List Invocation)) : List Invocation :=
  s.world.2

end Session

namespace Invoker

/-- Makes a call that does not get to see the record, and puts it there. -/
def record {α : Type} (call : Invocation) (made : Run σ α) :
    Run (σ × List Invocation) α := do
  let s ← get
  let (answer, left) ← made.run s.withoutLog
  set (left.withLog (s.log ++ [call]))
  return answer

/-- Makes the same calls, and puts each on record. -/
def recorded (i : Invoker σ) : Invoker (σ × List Invocation) where
  appendString f name b := record (.append f name) (i.appendString f name b)
  toString f name := record (.string f name) (i.toString f name)

/-- Two invokers do the same when they are asked for this call. -/
def Agrees (i j : Invoker σ) : Invocation → Prop
  | .append f name => ∀ b, j.appendString f name b = i.appendString f name b
  | .string f name => j.toString f name = i.toString f name

end Invoker

/-- The call that a strategy has made for a name. -/
def Strategy.invocation? : Strategy → NameArg → Option Invocation
  | .appendString f, name => some (.append f name)
  | .toString f, name => some (.string f name)
  | .nameTable _, _ => none

namespace Resolver

/-- The same resolver with an invoker that records its calls. -/
def recorded (r : Resolver σ) : Resolver (σ × List Invocation) :=
  { r with invoker := r.invoker.recorded }

/-- The calls for a handle. -/
def invocations (r : Resolver σ) (h : Handle) : List Invocation :=
  if r.accepts h then (r.strategy.invocation? (r.nameArg h)).toList else []

/-- The calls for the handles that these queries resolve. -/
def calls (r : Resolver σ) (queries : List Query) : List Invocation :=
  (queries.filterMap Query.resolved?).flatMap r.invocations

variable {r : Resolver σ} {h : Handle} {s : Session σ} {log : List Invocation}

variable {j : Invoker σ}

theorem IsBound.sound (hr : r.IsBound) : r.strategy.Sound r.process r.build := by
  induction hr with
  | answer hq =>
      obtain ⟨errors, hg⟩ := Unbound.granted_of_answer hq
      rw [hg.process]
      exact hg.sound.1
  | withTracking _ ih => exact ih

end Resolver

end EngineNames
