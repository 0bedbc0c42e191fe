/-!
# Traps

Some runs come to no answer, not even to a failure: they stop at a sum that leaves the address
space, they get at storage that is not there, or they never end. `Except Trap` is what such runs
come to; a failure that the program reports is part of an answer.
-/

namespace EngineNames

/-- Why a run comes to no answer. -/
inductive Trap where
  /-- A sum that is taken to be an address is none. -/
  | overflow
  /-- Units are read or written where there is no storage. -/
  | outOfBounds
  /-- A loop goes on for ever. -/
  | endless
deriving DecidableEq, Repr

section Except

variable {ε α β : Type} {x : Except ε α} {f : α → Except ε β}

@[simp]
theorem ok_bind (a : α) (f : α → Except ε β) : (Except.ok a >>= f) = f a :=
  rfl

@[simp]
theorem error_bind (e : ε) (f : α → Except ε β) : (Except.error e >>= f) = .error e :=
  rfl

/-- A run with an answer got through its first part. -/
theorem bind_eq_ok_iff {b : β} : x >>= f = .ok b ↔ ∃ a, x = .ok a ∧ f a = .ok b := by
  cases x <;> simp

/-- A run that traps does so in its first part or goes on from there. -/
theorem bind_eq_error_iff {e : ε} :
    x >>= f = .error e ↔ x = .error e ∨ ∃ a, x = .ok a ∧ f a = .error e := by
  cases x <;> simp

theorem map_eq_ok_iff {f : α → β} {b : β} : x.map f = .ok b ↔ ∃ a, x = .ok a ∧ f a = b := by
  cases x <;> simp [Except.map]

theorem map_eq_error_iff {f : α → β} {e : ε} : x.map f = .error e ↔ x = .error e := by
  cases x <;> simp [Except.map]

end Except

end EngineNames
