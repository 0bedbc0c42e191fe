import EngineNames.Trap

/-!
# Addresses

Locations, offsets and sizes in the 64-bit address space of the inspected process. `add?`, `mul?`
and `displace?` give nothing where the exact result is no address; `advance` traps there.
-/

namespace EngineNames

/-- A location, an offset or a size in the address space of the inspected process. -/
abbrev Address := UInt64

namespace Address

/-- The address that a number denotes, if it is one. -/
def ofNat? (n : Nat) : Option Address :=
  if n < UInt64.size then some (UInt64.ofNat n) else none

/-- The exact sum. -/
def add? (a b : Address) : Option Address :=
  ofNat? (a.toNat + b.toNat)

/-- The exact product. -/
def mul? (a b : Address) : Option Address :=
  ofNat? (a.toNat * b.toNat)

/-- The address that lies a signed distance away. -/
def displace? (a : Address) (distance : Int) : Option Address :=
  match (a.toNat : Int) + distance with
  | .ofNat n => ofNat? n
  | .negSucc _ => none

/-- The address that lies a distance further on. There has to be one. -/
def advance (a : Address) (distance : Nat) : Except Trap Address :=
  match ofNat? (a.toNat + distance) with
  | some b => .ok b
  | none => .error .overflow

/-- The size rounded up to a multiple of the alignment; alignment zero asks for nothing. -/
def roundUp (size alignment : Nat) : Nat :=
  if alignment = 0 then size
  else
    let remainder := size % alignment
    if remainder = 0 then size else size + (alignment - remainder)

/-- The same for sizes in the address space, where the result has to be one again. -/
def alignUp (size alignment : UInt64) : Except Trap UInt64 :=
  advance 0 (roundUp size.toNat alignment.toNat)

/-- Upper-case hexadecimal digits without leading zeros, after `0x`. -/
def hex (a : Address) : String :=
  "0x" ++ String.ofList ((Nat.toDigits 16 a.toNat).map Char.toUpper)

theorem ofNat?_eq_some_iff {n : Nat} {a : Address} : ofNat? n = some a ↔ n = a.toNat := by
  unfold ofNat?
  split
  · rename_i h
    rw [Option.some.injEq, ← UInt64.toNat_inj, UInt64.toNat_ofNat_of_lt' h]
  · rename_i h
    simp only [reduceCtorEq, false_iff]
    intro he
    exact h (he ▸ a.toNat_lt)

theorem add?_eq_some_iff {a b c : Address} :
    add? a b = some c ↔ a.toNat + b.toNat = c.toNat :=
  ofNat?_eq_some_iff

theorem mul?_eq_some_iff {a b c : Address} :
    mul? a b = some c ↔ a.toNat * b.toNat = c.toNat :=
  ofNat?_eq_some_iff

theorem ofNat?_eq_none_iff {n : Nat} : ofNat? n = none ↔ UInt64.size ≤ n := by
  rw [← Nat.not_lt, ofNat?]
  split
  · rename_i h
    exact iff_of_false (Option.some_ne_none _) (not_not_intro h)
  · rename_i h
    exact iff_of_true rfl h

theorem advance_eq_ok_iff {a b : Address} {distance : Nat} :
    a.advance distance = .ok b ↔ a.toNat + distance = b.toNat := by
  rw [← ofNat?_eq_some_iff, advance]
  cases ofNat? (a.toNat + distance) <;> simp

theorem advance_eq_error_iff {a : Address} {distance : Nat} {t : Trap} :
    a.advance distance = .error t ↔ t = .overflow ∧ UInt64.size ≤ a.toNat + distance := by
  rw [← ofNat?_eq_none_iff, advance]
  cases ofNat? (a.toNat + distance) <;> simp [eq_comm]

theorem advance_of_lt {a : Address} {distance : Nat} (h : a.toNat + distance < UInt64.size) :
    a.advance distance = .ok (.ofNat (a.toNat + distance)) :=
  advance_eq_ok_iff.mpr (UInt64.toNat_ofNat_of_lt' h).symm

theorem advance_of_le {a : Address} {distance : Nat} (h : UInt64.size ≤ a.toNat + distance) :
    a.advance distance = .error .overflow :=
  advance_eq_error_iff.mpr ⟨rfl, h⟩

end Address

end EngineNames
