import EngineNames.Registry
import Mathlib.Data.List.Nodup

/-! # The first suffix that is free -/

namespace EngineNames.Registry

/-! ## Candidates -/

theorem repr_injective : Function.Injective Nat.repr := by
  intro m n h
  have hl : Nat.toDigits 10 m = Nat.toDigits 10 n := by
    simpa only [Nat.toList_repr] using congrArg String.toList h
  have hv := congrArg (Nat.ofDigitChars 10 · 0) hl
  simpa only [Nat.ofDigitChars_ten_toDigits] using hv

theorem candidate_succ_ne (identifier : String) (k : ℕ) :
    candidate identifier (k + 1) ≠ identifier := by
  intro h
  have hl := congrArg String.length h
  have hu : "_".length = 1 := rfl
  simp only [candidate, String.length_append, hu] at hl
  omega

/-- No two suffixes make the same identifier. -/
theorem candidate_injective (identifier : String) :
    Function.Injective (candidate identifier) := by
  intro i j h
  cases i with
  | zero =>
      cases j with
      | zero => rfl
      | succ j => exact (candidate_succ_ne identifier j h.symm).elim
  | succ i =>
      cases j with
      | zero => exact (candidate_succ_ne identifier i h).elim
      | succ j =>
          simp only [candidate, String.append_assoc, String.append_right_inj] at h
          exact repr_injective h

/-! ## Admitted candidates -/

theorem admits_eq_true_iff {r : Registry} {raw identifier : String} :
    r.admits raw identifier = true ↔
      r.owner? identifier = none ∨ r.owner? identifier = some raw := by
  unfold admits
  cases r.owner? identifier <;> simp

theorem admits_eq_false_iff {r : Registry} {raw identifier : String} :
    r.admits raw identifier = false ↔
      ∃ existing, r.owner? identifier = some existing ∧ existing ≠ raw := by
  unfold admits
  cases r.owner? identifier <;> simp

theorem mem_of_owner?_eq_some {r : Registry} {identifier raw : String}
    (h : r.owner? identifier = some raw) : identifier ∈ r.entries.map Prod.fst := by
  by_contra hm
  have hn : r.entries.lookup identifier = none := by
    rw [List.lookup_eq_none_iff]
    intro entry he
    have hne : identifier ≠ entry.1 := by
      rintro rfl
      exact hm (List.mem_map_of_mem he)
    simpa using hne
  rw [owner?, hn] at h
  cases h

/-- Among one more candidate than there are entries, some candidate is admitted: the candidates
are distinct and a refused one is the identifier of an entry. -/
theorem exists_admits (r : Registry) (raw identifier : String) :
    ∃ k ≤ r.size, r.admits raw (candidate identifier k) = true := by
  by_contra! h
  have hnodup : ((List.range (r.size + 1)).map (candidate identifier)).Nodup :=
    List.nodup_range.map (candidate_injective identifier)
  have hsub : (List.range (r.size + 1)).map (candidate identifier) ⊆
      r.entries.map Prod.fst := by
    intro c hc
    obtain ⟨k, hk, rfl⟩ := List.mem_map.mp hc
    have hk' : k ≤ r.size := Nat.lt_succ_iff.mp (List.mem_range.mp hk)
    obtain ⟨existing, he, _⟩ := admits_eq_false_iff.mp (by simpa using h k hk')
    exact mem_of_owner?_eq_some he
  have hlen := hnodup.length_le_of_subset hsub
  simp only [List.length_map, List.length_range] at hlen
  exact absurd hlen (Nat.not_succ_le_self _)

/-- The chosen suffix is the least one whose candidate is admitted. -/
structure IsFirstSuffix (r : Registry) (raw identifier : String) (k : ℕ) : Prop where
  admitted : r.admits raw (candidate identifier k) = true
  least : ∀ j < k, r.admits raw (candidate identifier j) = false

theorem IsFirstSuffix.unique {r : Registry} {raw identifier : String} {i j : ℕ}
    (hi : IsFirstSuffix r raw identifier i) (hj : IsFirstSuffix r raw identifier j) : i = j := by
  rcases Nat.lt_trichotomy i j with h | h | h
  · have hf := hj.least i h
    rw [hi.admitted] at hf
    cases hf
  · exact h
  · have hf := hi.least j h
    rw [hj.admitted] at hf
    cases hf

theorem firstSuffix_isFirstSuffix (r : Registry) (raw identifier : String) :
    IsFirstSuffix r raw identifier (r.firstSuffix raw identifier) := by
  unfold firstSuffix
  cases hf : (List.range (r.size + 1)).find? fun k => r.admits raw (candidate identifier k) with
  | none =>
      obtain ⟨k, hk, ha⟩ := exists_admits r raw identifier
      have hn := List.find?_eq_none.mp hf k (List.mem_range.mpr (Nat.lt_succ_of_le hk))
      exact absurd ha hn
  | some k =>
      obtain ⟨ha, _, hl⟩ := List.find?_range_eq_some.mp hf
      exact ⟨ha, fun j hj => by simpa using hl j hj⟩

theorem firstSuffix_eq_iff {r : Registry} {raw identifier : String} {k : ℕ} :
    r.firstSuffix raw identifier = k ↔ IsFirstSuffix r raw identifier k := by
  constructor
  · rintro rfl
    exact firstSuffix_isFirstSuffix r raw identifier
  · exact (firstSuffix_isFirstSuffix r raw identifier).unique

end EngineNames.Registry
