import EngineNames.Address

/-!
# Name handles

A name is referred to by the address of its value in the inspected process, or by its comparison
index and number. Addresses are ordered before indices; indices are ordered by index, then by
number, a missing number before any other.
-/

namespace EngineNames

/-- Reference to a name. -/
inductive Handle where
  /-- The address of a name value in the inspected process. -/
  | address (location : Address)
  /-- A bare comparison index; a missing number means an unnumbered name. -/
  | index (comparison : UInt32) (number : Option UInt32)
deriving DecidableEq, Repr

namespace Handle

def compareNumber : Option UInt32 → Option UInt32 → Ordering
  | none, none => .eq
  | none, some _ => .lt
  | some _, none => .gt
  | some m, some n => compare m n

def compare : Handle → Handle → Ordering
  | address a, address b => Ord.compare a b
  | address _, index _ _ => .lt
  | index _ _, address _ => .gt
  | index i m, index j n => (Ord.compare i j).then (compareNumber m n)

instance : Ord Handle :=
  ⟨compare⟩

end Handle

end EngineNames
