import EngineNames.NameBuffer
import Mathlib.Data.List.Basic

/-! # Buffers in foreign hands

A foreign function that is given a buffer may write units to its storage and assign its counts. It
cannot make the storage longer or shorter, and what it writes is all that it knows of the contents.
-/

namespace EngineNames

/-- Storage with units written to some of its positions. -/
def overlay (writes : ℕ → Option UInt16) (storage : List UInt16) : List UInt16 :=
  storage.mapIdx fun i unit => (writes i).getD unit

theorem length_overlay (writes : ℕ → Option UInt16) (storage : List UInt16) :
    (overlay writes storage).length = storage.length :=
  List.length_mapIdx

namespace NameBuffer

/-- The buffer after a function that kept its storage, wrote to it and assigned both counts. -/
def scribble (b : NameBuffer) (writes : ℕ → Option UInt16) (num max : Int32) : NameBuffer :=
  { b with allocation := b.allocation.map (overlay writes), num, max }

/-- A buffer of ours with this storage of its own. -/
structure Owns (b : NameBuffer) (storage : List UInt16) : Prop where
  owner : b.owner = .tool
  data : b.data = .allocation
  allocation : b.allocation = some storage

namespace Owns

variable {b : NameBuffer} {storage : List UInt16}

theorem units?_eq (h : b.Owns storage) : b.units? = some storage := by
  rw [units?, h.data, h.allocation]

theorem isUsable (h : b.Owns storage) : b.isUsable = true := by
  rw [NameBuffer.isUsable, h.units?_eq]
  rfl

theorem isDetached (h : b.Owns storage) : b.isDetached = false := by
  simp [NameBuffer.isDetached, h.data]

theorem isWritable (h : b.Owns storage) : b.isWritable = true := by
  simp [NameBuffer.isWritable, h.owner, h.isUsable, h.isDetached]

theorem len_eq (h : b.Owns storage) : b.len = min b.num.toInt.toNat b.capacity := by
  rw [len, h.owner]

theorem wide_eq (h : b.Owns storage) (hlen : b.len ≤ storage.length) :
    b.wide = .ok ((storage.take b.len).takeWhile (· != 0)) := by
  simp only [wide, h.units?_eq, if_pos hlen]

theorem wide_of_lt_len (h : b.Owns storage) (hlen : storage.length < b.len) :
    b.wide = .error .outOfBounds := by
  simp only [wide, h.units?_eq, if_neg (Nat.not_le.mpr hlen)]

/-- Storage is read as far as it is counted, if there is as much of it. -/
theorem wide_eq_ok_iff (h : b.Owns storage) {w : List UInt16} : b.wide = .ok w ↔
    b.len ≤ storage.length ∧ (storage.take b.len).takeWhile (· != 0) = w := by
  rcases Nat.lt_or_ge storage.length b.len with hlt | hle
  · rw [h.wide_of_lt_len hlt]
    simp [Nat.not_le.mpr hlt]
  · rw [h.wide_eq hle]
    simp [hle]

theorem length_le_of_wide (h : b.Owns storage) {w : List UInt16} (hw : b.wide = .ok w) :
    w.length ≤ storage.length := by
  obtain ⟨-, rfl⟩ := h.wide_eq_ok_iff.mp hw
  exact Nat.le_trans (List.takeWhile_prefix _).length_le (List.length_take_le' _ _)

theorem reset (h : b.Owns storage) : b.reset.Owns storage :=
  ⟨h.owner, h.data, h.allocation⟩

theorem scribble (h : b.Owns storage) (writes : ℕ → Option UInt16) (num max : Int32) :
    (b.scribble writes num max).Owns (overlay writes storage) := by
  refine ⟨h.owner, h.data, ?_⟩
  rw [NameBuffer.scribble, h.allocation, Option.map_some]

end Owns

theorem owns_withCapacity {c : ℕ} (hpos : 0 < c) (hmax : c ≤ maxCapacity) :
    (withCapacity c).Owns (List.replicate c 0) := by
  have h : ¬(decide (c = 0) || decide (maxCapacity < c)) = true := by
    simp only [Bool.or_eq_true, decide_eq_true_eq]
    omega
  rw [withCapacity, if_neg h]
  exact ⟨rfl, rfl, rfl⟩

theorem capacity_withCapacity {c : ℕ} (hpos : 0 < c) (hmax : c ≤ maxCapacity) :
    (withCapacity c).capacity = c := by
  have h : ¬(decide (c = 0) || decide (maxCapacity < c)) = true := by
    simp only [Bool.or_eq_true, decide_eq_true_eq]
    omega
  have hlt : c < 2 ^ 31 := by
    have hsmall : maxCapacity < 2 ^ 31 := by decide
    omega
  rw [withCapacity, if_neg h, capacity, Int32.toInt_ofNat_of_lt hlt, Int.toNat_natCast]

end NameBuffer

end EngineNames
