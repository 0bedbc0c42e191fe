import EngineNames.Proofs.Memory.ShortReads
import Mathlib.Data.Nat.Init

/-! # Coherent reads

Whatever reads of a memory succeed, and however short they come back, they agree with each other:
there is one byte at each location, and a read gives the bytes there from its first one on. An odd
byte at the end of a read of units is dropped, and so read again with the next unit.
-/

namespace EngineNames

/-- What is made of a result comes from a result. -/
theorem exists_of_map_eq_ok {ε α β : Type} {x : Except ε α} {f : α → β} {r : β}
    (h : x.map f = .ok r) : ∃ a, x = .ok a ∧ f a = r := by
  cases x with
  | error e => cases h
  | ok a => exact ⟨a, rfl, Except.ok.inj h⟩

/-- The value of the little-endian word of this many bytes at a location. -/
def wordFrom (contents : ℕ → UInt8) (location size : ℕ) : ℕ :=
  littleEndian (bytesFrom contents location size)

variable {contents : ℕ → UInt8} {wide : Bool} {location : ℕ}

@[simp] theorem length_bytesFrom (n : ℕ) : (bytesFrom contents location n).length = n := by
  induction n generalizing location with
  | zero => rfl
  | succ n ih => rw [bytesFrom, List.length_cons, ih]

theorem eq_bytesFrom_of_prefix {bytes : List UInt8} {n : ℕ}
    (h : bytes <+: bytesFrom contents location n) :
    bytes = bytesFrom contents location bytes.length ∧ bytes.length ≤ n := by
  induction bytes generalizing location n with
  | nil => exact ⟨rfl, Nat.zero_le n⟩
  | cons byte rest ih =>
      cases n with
      | zero => exact absurd (List.prefix_nil.mp h) (List.cons_ne_nil byte rest)
      | succ n =>
          obtain ⟨rfl, hrest⟩ := List.cons_prefix_cons.mp h
          obtain ⟨heq, hle⟩ := ih hrest
          refine ⟨?_, Nat.succ_le_succ hle⟩
          rw [List.length_cons, bytesFrom, ← heq]

theorem littleEndian_lt (bytes : List UInt8) : littleEndian bytes < 256 ^ bytes.length := by
  induction bytes with
  | nil => decide
  | cons byte rest ih =>
      have hbyte := byte.toNat_lt
      rw [littleEndian, List.length_cons, Nat.pow_succ]
      omega

theorem wordFrom_lt (size : ℕ) : wordFrom contents location size < 256 ^ size := by
  have h := littleEndian_lt (bytesFrom contents location size)
  rwa [length_bytesFrom] at h

/-- Bytes make up as many units as there are complete ones among them. -/
theorem charactersOf_bytesFrom (n : ℕ) : charactersOf wide (bytesFrom contents location n) =
    unitsFrom contents wide location (n / unitSize wide) := by
  cases wide with
  | false =>
      rw [charactersOf, map_toUInt16_bytesFrom, unitSize, if_neg Bool.false_ne_true, Nat.div_one]
  | true =>
      rw [charactersOf, unitSize, if_pos rfl]
      induction n using Nat.twoStepInduction generalizing location with
      | zero => rfl
      | one => rfl
      | more n ih _ =>
          rw [bytesFrom, bytesFrom, pairUnits, ih, Nat.add_div_right n (by decide), unitsFrom]
          rfl

namespace Memory

variable {m : Memory} {a : Address} {n : ℕ}

/-- A read that succeeds gives the bytes at the locations that were asked for, or the first few of
them. -/
def Coherent (m : Memory) (contents : ℕ → UInt8) : Prop :=
  ∀ (a : Address) size bytes, m.readBytes a size = .ok bytes →
    bytes <+: bytesFrom contents a.toNat size

theorem Shows.coherent (hm : m.Shows contents) : m.Coherent contents := by
  intro a size bytes hr
  obtain rfl := hm a size bytes hr
  exact List.prefix_rfl

theorem Coherent.limited (hm : m.Coherent contents) (limit : ℕ) :
    (m.limited limit).Coherent contents := by
  intro a size bytes h
  obtain ⟨whole, hr, rfl⟩ := exists_of_map_eq_ok h
  exact (List.take_prefix limit whole).trans (hm a size whole hr)

namespace Coherent

variable (hm : m.Coherent contents)
include hm

theorem readWord {size value : ℕ} (h : m.readWord a size = .ok value) :
    value = wordFrom contents a.toNat size := by
  obtain ⟨bytes, hr, hlength⟩ := exists_of_readWord_eq_ok h
  obtain ⟨heq, -⟩ := eq_bytesFrom_of_prefix (hm a size bytes hr)
  have hvalue : m.readWord a size = .ok (littleEndian bytes) := by
    simp [Memory.readWord, readExact, hr, hlength, bind, Except.bind, pure, Except.pure, Except.map]
  rw [hvalue] at h
  rw [wordFrom, ← hlength, ← heq]
  exact (Except.ok.inj h).symm

theorem readPointer {target : Address} (h : m.readPointer a = .ok target) :
    target.toNat = wordFrom contents a.toNat 8 := by
  obtain ⟨value, hword, rfl⟩ := exists_of_map_eq_ok h
  obtain rfl := hm.readWord hword
  exact UInt64.toNat_ofNat_of_lt' (wordFrom_lt 8)

theorem readUInt32 {word : UInt32} (h : m.readUInt32 a = .ok word) :
    word.toNat = wordFrom contents a.toNat 4 := by
  obtain ⟨value, hword, rfl⟩ := exists_of_map_eq_ok h
  obtain rfl := hm.readWord hword
  exact UInt32.toNat_ofNat_of_lt' (wordFrom_lt 4)

/-- Characters that were read are those at the location, as many as there are. -/
theorem readCharacters {units : List UInt16} (h : m.readCharacters wide a n = .ok units) :
    units = unitsFrom contents wide a.toNat units.length ∧ units.length ≤ n := by
  rw [readCharacters_eq] at h
  obtain ⟨bytes, hr, rfl⟩ := exists_of_map_eq_ok h
  obtain ⟨heq, hle⟩ := eq_bytesFrom_of_prefix (hm a _ bytes hr)
  rw [length_charactersOf]
  refine ⟨?_, Nat.div_le_of_le_mul hle⟩
  rw [← charactersOf_bytesFrom, ← heq]

end Coherent

end Memory

end EngineNames
