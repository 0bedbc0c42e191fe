import EngineNames.Proofs.Memory.Contents

/-! # A memory of one mapping

Bytes are mapped from one location on. The reads inside the mapping succeed, and no others.
-/

namespace EngineNames

namespace Memory

def ofMapping (start : ℕ) (bytes : List UInt8) : Memory where
  readBytes a size :=
    if start ≤ a.toNat ∧ a.toNat + size ≤ start + bytes.length then
      .ok ((bytes.drop (a.toNat - start)).take size)
    else .error (.readFailed a size "unmapped")
  isReadable a := start ≤ a.toNat && decide (a.toNat < start + bytes.length)

/-- The mapped bytes, and zeros around them. -/
def mappedBytes (start : ℕ) (bytes : List UInt8) (location : ℕ) : UInt8 :=
  bytes.getD (location - start) 0

variable {start : ℕ} {bytes : List UInt8}

theorem take_drop_eq_bytesFrom {skip size : ℕ} (h : skip + size ≤ bytes.length) :
    (bytes.drop skip).take size = bytesFrom (mappedBytes start bytes) (start + skip) size := by
  induction size generalizing skip with
  | zero => rfl
  | succ size ih =>
      have hlt : skip < bytes.length := by omega
      have hb : mappedBytes start bytes (start + skip) = bytes[skip] := by
        rw [mappedBytes, Nat.add_sub_cancel_left, List.getD_eq_getElem?_getD,
          List.getElem?_eq_getElem hlt, Option.getD_some]
      rw [List.drop_eq_getElem_cons hlt, List.take_succ_cons, bytesFrom, hb, ih (by omega)]
      rfl

theorem shows_ofMapping : (ofMapping start bytes).Shows (mappedBytes start bytes) := by
  intro a size found hr
  simp only [ofMapping] at hr
  split at hr
  · rename_i hin
    cases hr
    rw [take_drop_eq_bytesFrom (by omega), Nat.add_sub_cancel' hin.1]
  · cases hr

theorem readable_ofMapping_iff {location size : ℕ} : (ofMapping start bytes).Readable location size ↔
    location < 2 ^ 64 ∧ start ≤ location ∧ location + size ≤ start + bytes.length := by
  constructor
  · rintro ⟨a, found, rfl, hr⟩
    simp only [ofMapping] at hr
    split at hr
    · rename_i hin
      exact ⟨a.toNat_lt, hin⟩
    · cases hr
  · rintro ⟨hlt, hin⟩
    obtain ⟨a, rfl⟩ := Address.exists_toNat_eq hlt
    exact ⟨a, _, rfl, if_pos hin⟩

theorem maps_ofMapping (h : start + bytes.length ≤ 2 ^ 64) : (ofMapping start bytes).Maps
    fun location => start ≤ location ∧ location < start + bytes.length := by
  intro location size hs
  rw [readable_ofMapping_iff]
  constructor
  · rintro ⟨_, hle, hin⟩ i hi
    omega
  · intro hall
    have hfirst := hall 0 hs
    have hlast := hall (size - 1) (by omega)
    omega

end Memory

end EngineNames
