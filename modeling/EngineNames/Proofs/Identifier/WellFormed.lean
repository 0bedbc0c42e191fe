import EngineNames.Identifier
import Mathlib.Tactic.Common

/-! # Well-formed identifiers -/

namespace EngineNames.Identifier

/-- Whether an identifier may begin with a character: with an underscore or a starting character,
but with no small ASCII letter other than `b`. -/
def opens (c : Char) : Bool :=
  (c == '_' || isStart c) && !(c.isLower && c != 'b')

/-- Whether characters are spelled like an identifier. -/
def isSpelled : List Char → Bool
  | [] => false
  | c :: rest => opens c && rest.all isContinue

/-- Identifiers, said without looking at how they are made. -/
structure WellFormed (word : String) : Prop where
  spelled : isSpelled word.toList = true
  unreserved : ∀ entry ∈ reservedWords, word ≠ entry.1

theorem wellFormed_iff (word : String) :
    WellFormed word ↔ isSpelled word.toList = true ∧ ∀ entry ∈ reservedWords, word ≠ entry.1 :=
  ⟨fun h => ⟨h.spelled, h.unreserved⟩, fun h => ⟨h.1, h.2⟩⟩

instance (word : String) : Decidable (WellFormed word) :=
  decidable_of_iff' _ (wellFormed_iff word)

theorem isSpelled_append {front rest : List Char} (hf : isSpelled front = true)
    (hr : ∀ c ∈ rest, isContinue c = true) : isSpelled (front ++ rest) = true := by
  cases front with
  | nil => cases hf
  | cons c front =>
      simp only [isSpelled, Bool.and_eq_true, List.all_eq_true] at hf
      simp only [isSpelled, List.cons_append, Bool.and_eq_true, List.all_eq_true]
      refine ⟨hf.1, ?_⟩
      intro d hd
      rcases List.mem_append.mp hd with hd | hd
      · exact hf.2 d hd
      · exact hr d hd

theorem isContinue_underscore : isContinue '_' = true := by
  have hm : (0x5F, 0x5F) ∈ extenderRanges := by decide
  have he : inRanges extenderRanges '_' = true := List.any_eq_true.mpr ⟨_, hm, by decide⟩
  rw [isContinue, he, Bool.or_true]

theorem isContinue_of_isSpelled {word : List Char} (h : isSpelled word = true) :
    ∀ c ∈ word, isContinue c = true := by
  cases word with
  | nil => cases h
  | cons first rest =>
      simp only [isSpelled, opens, Bool.and_eq_true, Bool.or_eq_true, beq_iff_eq,
        List.all_eq_true] at h
      obtain ⟨⟨hf, _⟩, hr⟩ := h
      intro c hc
      rcases List.mem_cons.mp hc with rfl | hc
      · rcases hf with rfl | hf
        · exact isContinue_underscore
        · exact isContinue_of_isStart hf
      · exact hr c hc

/-! ## Letters, digits and operators -/

theorem isLower_iff_val {c : Char} :
    c.isLower = true ↔ 'a'.val ≤ c.val ∧ c.val ≤ 'z'.val := by
  change (decide ('a'.val ≤ c.val) && decide (c.val ≤ 'z'.val)) = true ↔ _
  rw [Bool.and_eq_true, decide_eq_true_eq, decide_eq_true_eq]

theorem isLower_iff {c : Char} : c.isLower = true ↔ 97 ≤ c.toNat ∧ c.toNat ≤ 122 := by
  rw [isLower_iff_val, UInt32.le_iff_toNat_le, UInt32.le_iff_toNat_le]
  exact Iff.rfl

theorem toNat_toUpper_of_isLower {c : Char} (h : c.isLower = true) :
    c.toUpper.toNat + 32 = c.toNat := by
  obtain ⟨h₁, h₂⟩ := isLower_iff.mp h
  have hv : c.toUpper.val = c.val + ('A'.val - 'a'.val) := by
    delta Char.toUpper
    rw [dif_pos (isLower_iff_val.mp h)]
  have hd : ('A'.val - 'a'.val).toNat = 2 ^ 32 - 32 := by decide
  rw [← Char.toNat_val] at h₁ h₂ ⊢
  rw [← Char.toNat_val, hv, UInt32.toNat_add, hd]
  omega

theorem opens_toUpper {c : Char} (h : c.isLower = true) : opens c.toUpper = true := by
  have ht := toNat_toUpper_of_isLower h
  obtain ⟨h₁, h₂⟩ := isLower_iff.mp h
  have hs : isStart c.toUpper = true := by
    have hm : (0x41, 0x5A) ∈ startRanges := List.mem_cons_self
    refine List.any_eq_true.mpr ⟨_, hm, ?_⟩
    simp only [Bool.and_eq_true, decide_eq_true_eq]
    omega
  have hl : c.toUpper.isLower = false := by
    rw [← Bool.not_eq_true, isLower_iff]
    omega
  simp [opens, hs, hl]

theorem isSpelled_of_digitWord? {c : Char} {word : String} (h : digitWord? c = some word) :
    isSpelled word.toList = true := by
  unfold digitWord? at h
  split at h
  case h_11 => cases h
  all_goals
    obtain rfl := Option.some.inj h
    decide

theorem isSpelled_of_operatorWord? {c : Char} {word : String}
    (h : operatorWord? c = some word) : isSpelled word.toList = true := by
  unfold operatorWord? at h
  split at h
  case h_5 => cases h
  all_goals
    obtain rfl := Option.some.inj h
    decide

/-- The tables hold no character before the digits, and no starting one before the letters. -/
theorem inRanges_eq_false {ranges : List (ℕ × ℕ)} {bound : ℕ} {c : Char}
    (hb : ∀ range ∈ ranges, bound ≤ range.1) (hc : c.toNat < bound) :
    inRanges ranges c = false := by
  refine List.any_eq_false.mpr ?_
  intro range hm
  have hr := hb range hm
  simp only [Bool.and_eq_true, decide_eq_true_eq]
  omega

theorem isStart_eq_false {c : Char} (h : c.toNat < 0x41) : isStart c = false :=
  inRanges_eq_false (by decide +kernel) h

theorem isContinue_eq_false {c : Char} (h : c.toNat < 0x30) : isContinue c = false := by
  have he : inRanges extenderRanges c = false := inRanges_eq_false (by decide +kernel) h
  rw [isContinue, isStart_eq_false (by omega), he]
  rfl

/-- An identifier has no operator to spell out. -/
theorem operatorWord?_of_isContinue {c : Char} (h : isContinue c = true) :
    operatorWord? c = none := by
  unfold operatorWord?
  split
  case h_5 => rfl
  all_goals
    rw [isContinue_eq_false (by decide)] at h
    cases h

theorem digitWord?_of_opens {c : Char} (h : opens c = true) : digitWord? c = none := by
  unfold digitWord?
  split
  case h_11 => rfl
  all_goals
    rw [opens, isStart_eq_false (by decide)] at h
    cases h

end EngineNames.Identifier
