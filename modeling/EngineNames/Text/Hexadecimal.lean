/-!
# Hexadecimal text

Hexadecimal digits and their values. Letters of either case are read, small letters are written.
-/

namespace EngineNames.Hexadecimal

/-- The value of a digit. -/
def digit? (c : Char) : Option Nat :=
  if '0' ≤ c && c ≤ '9' then some (c.toNat - '0'.toNat)
  else if 'a' ≤ c && c ≤ 'f' then some (c.toNat - 'a'.toNat + 10)
  else if 'A' ≤ c && c ≤ 'F' then some (c.toNat - 'A'.toNat + 10)
  else none

/-- The digit with a value below sixteen. -/
def digit (n : Nat) : Char :=
  if n < 10 then Char.ofNat ('0'.toNat + n) else Char.ofNat ('a'.toNat + (n - 10))

/-- The value of digits that continue a value. -/
def valueFrom? (value : Nat) : List Char → Option Nat
  | [] => some value
  | c :: rest => do valueFrom? (16 * value + (← digit? c)) rest

/-- The number that digits denote, the most significant one first. -/
def value? (digits : List Char) : Option Nat :=
  valueFrom? 0 digits

/-- A digit that was written is read as its value. -/
theorem digit?_digit {n : Nat} (h : n < 16) : digit? (digit n) = some n := by
  revert n
  decide

end EngineNames.Hexadecimal
