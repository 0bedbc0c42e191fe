import EngineNames.Json.Reader
import EngineNames.Json.Value
import Mathlib.Tactic.Common

/-! # Quoted texts

A text can be quoted in many ways, for each character may be escaped. All of them are read as the
text, and the compact one is among them. What is only passed over may hold surrogates that are not
the halves of a pair.
-/

namespace EngineNames.Json

/-- These characters between quotes stand for this text. -/
inductive Spells : List Char → List Char → Prop where
  | nil : Spells [] []
  | plain {c written text} (hquote : c ≠ '"') (hslash : c ≠ '\\') (hc : 0x20 ≤ c.toNat)
      (rest : Spells written text) : Spells (c :: written) (c :: text)
  | short {e c written text} (he : escaped? e = some c) (rest : Spells written text) :
      Spells ('\\' :: e :: written) (c :: text)
  | unit {a b c d u written text} (hu : unit? a b c d = some u) (hlead : Utf16.isLead u = false)
      (htrail : Utf16.isTrail u = false) (rest : Spells written text) :
      Spells ('\\' :: 'u' :: a :: b :: c :: d :: written) (Utf16.single u :: text)
  | pair {a b c d u a' b' c' d' v written text} (hu : unit? a b c d = some u)
      (hlead : Utf16.isLead u = true) (hv : unit? a' b' c' d' = some v)
      (htrail : Utf16.isTrail v = true) (rest : Spells written text) :
      Spells ('\\' :: 'u' :: a :: b :: c :: d :: '\\' :: 'u' :: a' :: b' :: c' :: d' :: written)
        (Utf16.pair u v :: text)

/-- These characters may stand between quotes. -/
inductive Quotable : List Char → Prop where
  | nil : Quotable []
  | plain {c written} (hquote : c ≠ '"') (hslash : c ≠ '\\') (hc : 0x20 ≤ c.toNat)
      (rest : Quotable written) : Quotable (c :: written)
  | short {e c written} (he : escaped? e = some c) (rest : Quotable written) :
      Quotable ('\\' :: e :: written)
  | unit {a b c d u written} (hu : unit? a b c d = some u) (rest : Quotable written) :
      Quotable ('\\' :: 'u' :: a :: b :: c :: d :: written)

variable {written text : List Char}

theorem Spells.quotable (h : Spells written text) : Quotable written := by
  induction h with
  | nil => exact .nil
  | plain hquote hslash hc _ ih => exact .plain hquote hslash hc ih
  | short he _ ih => exact .short he ih
  | unit hu _ _ _ ih => exact .unit hu ih
  | pair hu _ hv _ _ ih => exact .unit hu (.unit hv ih)

theorem escaped?_ne_u {e c : Char} (h : escaped? e = some c) : e ≠ 'u' := by
  rintro rfl
  simp [escaped?] at h

/-! ## Reading -/

variable {c : Char}

/-- A character other than a backslash. -/
theorem quoted_cons (hslash : c ≠ '\\') (rest : List Char) : quoted none (c :: rest) =
    if c = '"' then .ok ([], rest)
    else if c.toNat < 0x20 then .error .malformed else prepend c (quoted none rest) := by
  rw [quoted.eq_def]
  split <;> simp_all

theorem skipQuoted_cons (hslash : c ≠ '\\') (rest : List Char) : skipQuoted (c :: rest) =
    if c = '"' then .ok ((), rest)
    else if c.toNat < 0x20 then .error .malformed else skipQuoted rest := by
  rw [skipQuoted.eq_def]
  split <;> simp_all

theorem skipQuoted_short {e : Char} (he : escaped? e = some c) (rest : List Char) :
    skipQuoted ('\\' :: e :: rest) = skipQuoted rest := by
  rw [skipQuoted.eq_5 _ _ (escaped?_ne_u he), he]
  rfl

theorem skipQuoted_unit {a b c d : Char} {u : UInt16} (hu : unit? a b c d = some u)
    (rest : List Char) :
    skipQuoted ('\\' :: 'u' :: a :: b :: c :: d :: rest) = skipQuoted rest := by
  rw [skipQuoted.eq_2, hu]
  rfl

theorem quoted_plain (hquote : c ≠ '"') (hslash : c ≠ '\\') (hc : 0x20 ≤ c.toNat)
    (rest : List Char) : quoted none (c :: rest) = prepend c (quoted none rest) := by
  rw [quoted_cons hslash, if_neg hquote, if_neg (Nat.not_lt.mpr hc)]

/-- Every way to quote a text is read as the text. -/
theorem Spells.quoted_eq (h : Spells written text) (rest : List Char) :
    quoted none (written ++ '"' :: rest) = .ok (text, rest) := by
  induction h with
  | nil => exact quoted_cons (by decide) rest
  | plain hquote hslash hc _ ih =>
      rw [List.cons_append, quoted_plain hquote hslash hc, ih]
      rfl
  | short he _ ih =>
      rw [List.cons_append, List.cons_append, quoted.eq_5 _ _ _ (escaped?_ne_u he) he, ih]
      rfl
  | unit hu hlead htrail _ ih =>
      simp only [List.cons_append, quoted.eq_2, hu, hlead, htrail, ih]
      rfl
  | pair hu hlead hv htrail _ ih =>
      simp only [List.cons_append, quoted.eq_2, hu, hlead, hv, htrail, ih, if_true]
      rfl

theorem Quotable.skipQuoted_eq (h : Quotable written) (rest : List Char) :
    skipQuoted (written ++ '"' :: rest) = .ok ((), rest) := by
  induction h with
  | nil => exact skipQuoted_cons (by decide) rest
  | plain hquote hslash hc _ ih =>
      rw [List.cons_append, skipQuoted_cons hslash, if_neg hquote, if_neg (Nat.not_lt.mpr hc), ih]
  | short he _ ih =>
      rw [List.cons_append, List.cons_append, skipQuoted_short he, ih]
  | unit hu _ ih =>
      simp only [List.cons_append]
      rw [skipQuoted_unit hu, ih]

/-! ## The compact form -/

/-- How a character is written: with an escape of its own, by its number, or as itself. -/
theorem escape_cases (c : Char) : (∃ e, escaped? e = some c ∧ escape c = ['\\', e]) ∨
    (c.toNat < 0x20 ∧ escape c = ['\\', 'u', '0', '0', Hexadecimal.digit (c.toNat / 16),
      Hexadecimal.digit (c.toNat % 16)]) ∨
    (c ≠ '"' ∧ c ≠ '\\' ∧ 0x20 ≤ c.toNat ∧ escape c = [c]) := by
  unfold escape
  split_ifs with hquote hslash hb hf hn hr ht hlt
  · exact .inl ⟨'"', by rw [hquote]; rfl, rfl⟩
  · exact .inl ⟨'\\', by rw [hslash]; rfl, rfl⟩
  · exact .inl ⟨'b', hb ▸ rfl, rfl⟩
  · exact .inl ⟨'f', hf ▸ rfl, rfl⟩
  · exact .inl ⟨'n', hn ▸ rfl, rfl⟩
  · exact .inl ⟨'r', hr ▸ rfl, rfl⟩
  · exact .inl ⟨'t', ht ▸ rfl, rfl⟩
  · exact .inr (.inl ⟨hlt, rfl⟩)
  · exact .inr (.inr ⟨hquote, hslash, Nat.le_of_not_lt hlt, rfl⟩)

/-- The number of a control character is read as the character. -/
theorem unit?_of_control (h : c.toNat < 0x20) :
    unit? '0' '0' (Hexadecimal.digit (c.toNat / 16)) (Hexadecimal.digit (c.toNat % 16)) =
      some (UInt16.ofNat c.toNat) := by
  have hvalue : Hexadecimal.value? ['0', '0', Hexadecimal.digit (c.toNat / 16),
      Hexadecimal.digit (c.toNat % 16)] = some (16 * (c.toNat / 16) + c.toNat % 16) := by
    have hzero : Hexadecimal.digit? '0' = some 0 := rfl
    simp only [Hexadecimal.value?, Hexadecimal.valueFrom?, hzero,
      Hexadecimal.digit?_digit (show c.toNat / 16 < 16 by omega),
      Hexadecimal.digit?_digit (show c.toNat % 16 < 16 by omega), Option.bind_eq_bind,
      Option.bind_some, Nat.mul_zero, Nat.zero_add]
  rw [unit?, hvalue, Nat.div_add_mod]
  rfl

theorem spells_control (h : c.toNat < 0x20) (rest : Spells written text) :
    Spells ('\\' :: 'u' :: '0' :: '0' :: Hexadecimal.digit (c.toNat / 16) ::
      Hexadecimal.digit (c.toNat % 16) :: written) (c :: text) := by
  have hsize : c.toNat < UInt16.size := Nat.lt_trans h (by decide)
  have hlead : Utf16.isLead (UInt16.ofNat c.toNat) = false := by
    rw [Utf16.isLead_ofNat hsize]
    simp
    omega
  have htrail : Utf16.isTrail (UInt16.ofNat c.toNat) = false := by
    rw [Utf16.isTrail_ofNat hsize]
    simp
    omega
  have hsingle : Utf16.single (UInt16.ofNat c.toNat) = c := by
    rw [Utf16.single, hlead, htrail, UInt16.toNat_ofNat_of_lt' hsize]
    exact Char.ofNat_toNat c
  have hspells := Spells.unit (unit?_of_control h) hlead htrail rest
  rwa [hsingle] at hspells

theorem spells_escape (text : List Char) : Spells (text.flatMap escape) text := by
  induction text with
  | nil => exact .nil
  | cons c text ih =>
      rw [List.flatMap_cons]
      rcases escape_cases c with ⟨e, he, hc⟩ | ⟨hlt, hc⟩ | ⟨hquote, hslash, hle, hc⟩
      · exact hc ▸ .short he ih
      · exact hc ▸ spells_control hlt ih
      · exact hc ▸ .plain hquote hslash hle ih

end EngineNames.Json
