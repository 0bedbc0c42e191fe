import EngineNames.Text.Hexadecimal
import Mathlib.Data.List.Forall2
import Mathlib.Data.Nat.Digits.Defs

/-! # Numbers in hexadecimal

A digit of either case has one value, and digits denote the number that has their values as its
digits in base sixteen.
-/

namespace EngineNames.Hexadecimal

/-- The character is a digit with this value; letters may be small or capital. -/
def IsDigit (c : Char) (value : ℕ) : Prop :=
  value < 10 ∧ c.toNat = 48 + value ∨
    10 ≤ value ∧ value < 16 ∧ (c.toNat = 97 + (value - 10) ∨ c.toNat = 65 + (value - 10))

/-- The characters are digits, and in base sixteen they are the number. -/
def Spells (digits : List Char) (n : ℕ) : Prop :=
  ∃ values, List.Forall₂ IsDigit digits values ∧ Nat.ofDigits 16 values.reverse = n

theorem exists_isDigit {value : ℕ} (h : value < 16) : ∃ c, IsDigit c value := by
  have hall : ∀ v : Fin 16, IsDigit (Nat.digitChar v) v := by
    unfold IsDigit
    decide
  exact ⟨Nat.digitChar value, hall ⟨value, h⟩⟩

theorem digit?_eq_some_iff {c : Char} {value : ℕ} :
    digit? c = some value ↔ IsDigit c value := by
  simp only [digit?, IsDigit, Bool.and_eq_true, decide_eq_true_eq, Char.le_def,
    UInt32.le_iff_toNat_le, Char.toNat_val, Char.reduceToNat]
  split
  · rw [Option.some.injEq]
    omega
  · split
    · rw [Option.some.injEq]
      omega
    · split
      · rw [Option.some.injEq]
        omega
      · simp only [reduceCtorEq, false_iff]
        omega

theorem valueFrom?_eq_some_iff {digits : List Char} {start n : ℕ} :
    valueFrom? start digits = some n ↔
      ∃ values, List.Forall₂ IsDigit digits values ∧
        values.foldl (fun done value => 16 * done + value) start = n := by
  induction digits generalizing start with
  | nil => simp [valueFrom?]
  | cons c digits ih =>
      rw [valueFrom?, Option.bind_eq_bind, Option.bind_eq_some_iff]
      constructor
      · rintro ⟨value, hvalue, hrest⟩
        obtain ⟨values, hdigits, hn⟩ := ih.mp hrest
        exact ⟨value :: values, .cons (digit?_eq_some_iff.mp hvalue) hdigits, hn⟩
      · rintro ⟨values, hall, hn⟩
        obtain ⟨value, values, hvalue, hdigits, rfl⟩ := List.forall₂_cons_left_iff.mp hall
        exact ⟨value, digit?_eq_some_iff.mpr hvalue, ih.mpr ⟨values, hdigits, hn⟩⟩

/-- The most significant digit comes first, so the sum goes by Horner's rule. -/
theorem ofDigits_reverse (values : List ℕ) : Nat.ofDigits 16 values.reverse =
    values.foldl (fun done value => 16 * done + value) 0 := by
  rw [Nat.ofDigits_eq_foldr, List.foldr_reverse]
  simp only [Nat.cast_id, Nat.add_comm]

theorem value?_eq_some_iff {digits : List Char} {n : ℕ} :
    value? digits = some n ↔ Spells digits n := by
  rw [value?, valueFrom?_eq_some_iff, Spells]
  simp only [ofDigits_reverse]

end EngineNames.Hexadecimal
