import EngineNames.TargetProcess
import Mathlib.Algebra.Group.Nat.Defs
import Mathlib.Tactic.Common

/-! # Bytes that a memory holds

Words and characters are written as bytes, and reading them back where a memory holds these bytes
gives them again.
-/

namespace EngineNames

/-! ## Words and units as bytes -/

/-- The bytes of a word of this size, the least significant one first. -/
def littleEndianBytes : ℕ → ℕ → List UInt8
  | 0, _ => []
  | size + 1, value => UInt8.ofNat value :: littleEndianBytes size (value / 256)

@[simp] theorem length_littleEndianBytes (size value : ℕ) :
    (littleEndianBytes size value).length = size := by
  induction size generalizing value with
  | zero => rfl
  | succ size ih => simp [littleEndianBytes, ih]

theorem littleEndian_littleEndianBytes {size value : ℕ} (h : value < 256 ^ size) :
    littleEndian (littleEndianBytes size value) = value := by
  induction size generalizing value with
  | zero =>
      obtain rfl : value = 0 := by simpa using h
      rfl
  | succ size ih =>
      have hq : value / 256 < 256 ^ size := by
        rw [Nat.div_lt_iff_lt_mul (by decide)]
        simpa only [Nat.pow_succ] using h
      rw [littleEndianBytes, littleEndian, ih hq, UInt8.toNat_ofNat']
      exact Nat.mod_add_div value 256

/-- Units as bytes, two for each. -/
def unitBytes : List UInt16 → List UInt8
  | [] => []
  | u :: rest => littleEndianBytes 2 u.toNat ++ unitBytes rest

@[simp] theorem length_unitBytes (units : List UInt16) :
    (unitBytes units).length = 2 * units.length := by
  induction units with
  | nil => rfl
  | cons u rest ih =>
      rw [unitBytes, List.length_append, length_littleEndianBytes, ih, List.length_cons]
      omega

theorem pairUnits_unitBytes (units : List UInt16) : pairUnits (unitBytes units) = units := by
  induction units with
  | nil => rfl
  | cons u rest ih =>
      have hu : littleEndian (littleEndianBytes 2 u.toNat) = u.toNat :=
        littleEndian_littleEndianBytes u.toNat_lt
      simp only [littleEndianBytes, littleEndian, Nat.mul_zero, Nat.add_zero] at hu
      simp only [unitBytes, littleEndianBytes, List.cons_append, List.nil_append, pairUnits, hu,
        ih, UInt16.ofNat_toNat]

theorem Address.exists_toNat_eq {location : ℕ} (h : location < 2 ^ 64) :
    ∃ a : Address, a.toNat = location :=
  ⟨.ofNat location, UInt64.toNat_ofNat_of_lt' h⟩

namespace Memory

/-! ## Reading what is held -/

/-- Reading as many bytes at a location as these gives exactly these. -/
def Holds (m : Memory) (location : ℕ) (bytes : List UInt8) : Prop :=
  ∃ a : Address, a.toNat = location ∧ m.readBytes a bytes.length = .ok bytes

variable {m : Memory} {a : Address} {bytes : List UInt8}

theorem Holds.lt {location : ℕ} (h : m.Holds location bytes) : location < 2 ^ 64 := by
  obtain ⟨a, rfl, _⟩ := h
  exact a.toNat_lt

theorem Holds.readBytes (h : m.Holds a.toNat bytes) :
    m.readBytes a bytes.length = .ok bytes := by
  obtain ⟨own, ho, hr⟩ := h
  obtain rfl := UInt64.toNat_inj.mp ho
  exact hr

theorem Holds.readWord {size value : ℕ} (h : m.Holds a.toNat (littleEndianBytes size value))
    (hv : value < 256 ^ size) : m.readWord a size = .ok value := by
  have hr := h.readBytes
  rw [length_littleEndianBytes] at hr
  simp only [Memory.readWord, readExact, hr, bind, Except.bind, length_littleEndianBytes, if_true]
  exact congrArg Except.ok (littleEndian_littleEndianBytes hv)

theorem Holds.readUInt16 {word : UInt16} (h : m.Holds a.toNat (littleEndianBytes 2 word.toNat)) :
    m.readUInt16 a = .ok word := by
  rw [Memory.readUInt16, h.readWord word.toNat_lt]
  exact congrArg Except.ok UInt16.ofNat_toNat

theorem Holds.readUInt32 {word : UInt32} (h : m.Holds a.toNat (littleEndianBytes 4 word.toNat)) :
    m.readUInt32 a = .ok word := by
  rw [Memory.readUInt32, h.readWord word.toNat_lt]
  exact congrArg Except.ok UInt32.ofNat_toNat

theorem Holds.readPointer {target : Address}
    (h : m.Holds a.toNat (littleEndianBytes 8 target.toNat)) : m.readPointer a = .ok target := by
  rw [Memory.readPointer, readUInt64, h.readWord target.toNat_lt]
  exact congrArg Except.ok UInt64.ofNat_toNat

theorem Holds.readUnits {units : List UInt16} (h : m.Holds a.toNat (unitBytes units)) :
    m.readUnits a units.length = .ok units := by
  have hr := h.readBytes
  rw [length_unitBytes] at hr
  rw [Memory.readUnits, hr]
  exact congrArg Except.ok (pairUnits_unitBytes units)

end Memory

end EngineNames
