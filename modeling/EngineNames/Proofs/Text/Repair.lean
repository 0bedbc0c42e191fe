import EngineNames.Text.Utf16
import Mathlib

/-! # What decoding forgets

A surrogate without its partner is read as the replacement character. Decoding forgets which one it
was, and nothing else: what is left are the units with these surrogates repaired.
-/

namespace EngineNames.Utf16

/-- A surrogate gives way to the replacement character. -/
def repairUnit (u : UInt16) : UInt16 :=
  if isLead u || isTrail u then 0xFFFD else u

/-- Each surrogate without its partner gives way to the replacement character. -/
def repair : List UInt16 → List UInt16
  | [] => []
  | [u] => [repairUnit u]
  | u :: v :: rest =>
      if isLead u && isTrail v then u :: v :: repair rest
      else repairUnit u :: repair (v :: rest)

/-- Every surrogate is half of a pair. -/
inductive WellFormed : List UInt16 → Prop where
  | nil : WellFormed []
  | single {u : UInt16} {rest : List UInt16} (lead : isLead u = false) (trail : isTrail u = false)
      (tail : WellFormed rest) : WellFormed (u :: rest)
  | pair {u v : UInt16} {rest : List UInt16} (lead : isLead u = true) (trail : isTrail v = true)
      (tail : WellFormed rest) : WellFormed (u :: v :: rest)

/-! ## Encoding what was decoded -/

theorem isLead_iff {u : UInt16} : isLead u = true ↔ 0xD800 ≤ u.toNat ∧ u.toNat < 0xDC00 := by
  simp [isLead, UInt16.le_iff_toNat_le, UInt16.lt_iff_toNat_lt]

theorem isTrail_iff {u : UInt16} : isTrail u = true ↔ 0xDC00 ≤ u.toNat ∧ u.toNat < 0xE000 := by
  simp [isTrail, UInt16.le_iff_toNat_le, UInt16.lt_iff_toNat_lt]

theorem encodeChar_single (u : UInt16) : encodeChar (single u) = [repairUnit u] := by
  unfold single repairUnit
  cases hs : isLead u || isTrail u with
  | true => rfl
  | false =>
      have hu := u.toNat_lt
      obtain ⟨hl, ht⟩ := Bool.or_eq_false_iff.mp hs
      rw [← Bool.not_eq_true, isLead_iff] at hl
      rw [← Bool.not_eq_true, isTrail_iff] at ht
      have hv : u.toNat.isValidChar := by
        unfold Nat.isValidChar
        omega
      have hc : (Char.ofNat u.toNat).toNat = u.toNat := by
        rw [Char.toNat_ofNat, if_pos hv]
      have hlt : (Char.ofNat u.toNat).toNat < 0x10000 := by omega
      simp only [Bool.false_eq_true, if_false]
      rw [encodeChar, if_pos hlt, hc, UInt16.ofNat_toNat]

theorem encodeChar_pair {u v : UInt16} (hu : isLead u = true) (hv : isTrail v = true) :
    encodeChar (pair u v) = [u, v] := by
  rw [isLead_iff] at hu
  rw [isTrail_iff] at hv
  have hvalid : Nat.isValidChar (0x10000 + (u.toNat - 0xD800) * 0x400 + (v.toNat - 0xDC00)) := by
    unfold Nat.isValidChar
    omega
  have hc : (pair u v).toNat = 0x10000 + (u.toNat - 0xD800) * 0x400 + (v.toNat - 0xDC00) := by
    rw [pair, Char.toNat_ofNat, if_pos hvalid]
  have hlead : 0xD800 + ((pair u v).toNat - 0x10000) / 0x400 = u.toNat := by omega
  have htrail : 0xDC00 + ((pair u v).toNat - 0x10000) % 0x400 = v.toNat := by omega
  rw [encodeChar, if_neg (by omega)]
  simp only [hlead, htrail, UInt16.ofNat_toNat]

/-- All that is left of units after decoding are the repaired units. -/
theorem encode_decode (units : List UInt16) : encode (decode units) = repair units := by
  unfold encode
  induction units using decode.induct with
  | case1 => rfl
  | case2 u => simp [decode, repair, encodeChar_single]
  | case3 u v rest h ih =>
      have hp := h
      rw [Bool.and_eq_true] at hp
      simp [decode, repair, h, encodeChar_pair hp.1 hp.2, ih]
  | case4 u v rest h ih => simp [decode, repair, h, encodeChar_single, ih]

theorem decode_repair (units : List UInt16) : decode (repair units) = decode units := by
  rw [← encode_decode, decode_encode]

/-- Units that read as one text are those that are repaired to the same units. -/
theorem toString_eq_iff {units others : List UInt16} :
    toString units = toString others ↔ repair units = repair others := by
  unfold toString
  rw [String.ofList_inj]
  constructor
  · intro h
    rw [← encode_decode, h, encode_decode]
  · intro h
    rw [← decode_repair, h, decode_repair]

/-! ## Nothing to repair -/

theorem repair_cons_of_isLead_eq_false {u : UInt16} (h : isLead u = false) (rest : List UInt16) :
    repair (u :: rest) = repairUnit u :: repair rest := by
  cases rest with
  | nil => rfl
  | cons v rest => simp [repair, h]

theorem repairUnit_eq_self_iff {u : UInt16} :
    repairUnit u = u ↔ isLead u = false ∧ isTrail u = false := by
  unfold repairUnit
  split
  · rename_i h
    constructor
    · -- The replacement character is no surrogate.
      rintro rfl
      exact absurd h (by decide)
    · rintro ⟨hl, ht⟩
      simp [hl, ht] at h
  · rename_i h
    simpa using h

theorem WellFormed.repair_eq {units : List UInt16} (h : WellFormed units) :
    repair units = units := by
  induction h with
  | nil => rfl
  | single lead trail _ ih =>
      rw [repair_cons_of_isLead_eq_false lead, repairUnit_eq_self_iff.mpr ⟨lead, trail⟩, ih]
  | pair lead trail _ ih => simp [repair, lead, trail, ih]

/-- Only ill-formed units are changed, and then there is a replacement character among them. -/
theorem repair_eq_or_mem (units : List UInt16) : repair units = units ∨ 0xFFFD ∈ repair units := by
  have hunit (u : UInt16) : repairUnit u = u ∨ 0xFFFD = repairUnit u := by
    unfold repairUnit
    split <;> simp
  induction units using repair.induct with
  | case1 => exact .inl rfl
  | case2 u => simpa [repair] using hunit u
  | case3 u v rest h ih =>
      rcases ih with ih | ih
      · simp [repair, h, ih]
      · simp [repair, h, ih]
  | case4 u v rest h ih =>
      rcases ih with ih | ih
      · rcases hunit u with hu | hu
        · simp [repair, h, ih, hu]
        · simp [repair, h, ← hu]
      · simp [repair, h, ih]

end EngineNames.Utf16
