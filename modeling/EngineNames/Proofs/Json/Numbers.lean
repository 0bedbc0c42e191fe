import EngineNames.Json.Numeral
import Mathlib.Algebra.Group.Nat.Defs
import Mathlib.Data.List.TakeDrop
import Mathlib.Tactic.Common

/-! # Numbers in JSON texts

A number is read to its end if nothing behind it could belong to it. One that is written with plain
digits is the natural number that they denote, if it fits a word.
-/

namespace EngineNames.Json

/-- At least one digit, and nothing else. -/
structure Digits (ds : List Char) : Prop where
  ne_nil : ds ≠ []
  isDigit : ∀ c ∈ ds, isDigit c = true

/-- Digits without a zero in front, or zero. -/
structure Whole (ds : List Char) : Prop extends Digits ds where
  head : ds.head? = some '0' → ds = ['0']

/-- A point with digits behind it, or nothing. -/
inductive Fraction : List Char → Prop where
  | absent : Fraction []
  | given {ds} (h : Digits ds) : Fraction ('.' :: ds)

/-- A power of ten, or nothing. -/
inductive Exponent : List Char → Prop where
  | absent : Exponent []
  | given {e sign ds} (he : e = 'e' ∨ e = 'E') (hsign : sign = [] ∨ sign = ['+'] ∨ sign = ['-'])
      (h : Digits ds) : Exponent (e :: (sign ++ ds))

inductive Number : List Char → Prop where
  | intro {sign whole fraction exponent} (hsign : sign = [] ∨ sign = ['-']) (hwhole : Whole whole)
      (hfraction : Fraction fraction) (hexponent : Exponent exponent) :
      Number (sign ++ (whole ++ (fraction ++ exponent)))

/-- No digit comes first. -/
def NoDigit (rest : List Char) : Prop :=
  ∀ c ∈ rest.head?, isDigit c = false

/-- What stands here is no part of a number in front of it. -/
def Ends (rest : List Char) : Prop :=
  ∀ c ∈ rest.head?, isDigit c = false ∧ c ≠ '.' ∧ c ≠ 'e' ∧ c ≠ 'E'

variable {ds rest : List Char} {atEnd : Fault}

theorem Ends.noDigit (h : Ends rest) : NoDigit rest :=
  fun c hc => (h c hc).1

theorem Exponent.noDigit {exponent : List Char} (h : Exponent exponent) (hrest : Ends rest) :
    NoDigit (exponent ++ rest) := by
  cases h with
  | absent => exact hrest.noDigit
  | given he =>
      intro c hc
      obtain rfl := Option.some.inj hc
      rcases he with rfl | rfl <;> rfl

theorem Fraction.noDigit {fraction : List Char} (h : Fraction fraction) (hrest : NoDigit rest) :
    NoDigit (fraction ++ rest) := by
  cases h with
  | absent => exact hrest
  | given =>
      intro c hc
      obtain rfl := Option.some.inj hc
      rfl

/-! ## Reading -/

theorem ok_bind {α β : Type} (a : α) (f : α → Except Fault β) : (Except.ok a >>= f) = f a :=
  rfl

theorem span_isDigit (h : ∀ c ∈ ds, isDigit c = true) (hrest : NoDigit rest) :
    (ds ++ rest).span isDigit = (ds, rest) := by
  rw [List.span_eq_takeWhile_dropWhile]
  induction ds with
  | nil =>
      cases rest with
      | nil => rfl
      | cons c rest => simp [hrest c rfl]
  | cons c ds ih =>
      obtain ⟨hc, hds⟩ := List.forall_mem_cons.mp h
      simpa [hc] using ih hds

theorem Digits.someDigits_eq (h : Digits ds) (hrest : NoDigit rest) :
    someDigits atEnd (ds ++ rest) = .ok (ds, rest) := by
  obtain ⟨c, cs, rfl⟩ := List.exists_cons_of_ne_nil h.ne_nil
  rw [someDigits, span_isDigit h.isDigit hrest]

theorem Whole.wholeDigits_eq (h : Whole ds) (hrest : NoDigit rest) :
    wholeDigits atEnd (ds ++ rest) = .ok (ds, rest) := by
  obtain ⟨c, cs, rfl⟩ := List.exists_cons_of_ne_nil h.ne_nil
  by_cases hc : c = '0'
  · subst hc
    obtain rfl : cs = [] := (List.cons.inj (h.head rfl)).2
    cases rest with
    | nil => rfl
    | cons d rest => simp [wholeDigits, hrest d rfl]
  · rw [wholeDigits.eq_def]
    split
    · simp_all
    · exact h.toDigits.someDigits_eq hrest

theorem fractionDigits_absent (h : rest.head? ≠ some '.') :
    fractionDigits atEnd rest = .ok ([], rest) := by
  rw [fractionDigits.eq_def]
  split
  · simp at h
  · rfl

theorem Fraction.exists_fractionDigits {fraction : List Char} (h : Fraction fraction)
    (atEnd : Fault) (hdigit : NoDigit rest) (hpoint : rest.head? ≠ some '.') :
    ∃ ds, fractionDigits atEnd (fraction ++ rest) = .ok (ds, rest) := by
  cases h with
  | absent => exact ⟨[], fractionDigits_absent hpoint⟩
  | given h => exact ⟨_, h.someDigits_eq hdigit⟩

theorem exponentDigits_absent (h : Ends rest) :
    exponentDigits atEnd rest = .ok ((false, []), rest) := by
  cases rest with
  | nil => rfl
  | cons c rest =>
      obtain ⟨_, _, he, hE⟩ := h c rfl
      simp [exponentDigits, he, hE]

/-- No sign is a digit. -/
theorem sign_ne_of_isDigit {c : Char} (h : isDigit c = true) : c ≠ '-' ∧ c ≠ '+' := by
  constructor <;> rintro rfl <;> exact absurd h (by decide)

theorem Digits.numberSign_eq (h : Digits ds) (rest : List Char) :
    numberSign (ds ++ rest) = (false, ds ++ rest) := by
  obtain ⟨c, cs, rfl⟩ := List.exists_cons_of_ne_nil h.ne_nil
  obtain ⟨hminus, _⟩ := sign_ne_of_isDigit (h.isDigit c List.mem_cons_self)
  simp [numberSign, hminus]

theorem Digits.exponentSign_eq (h : Digits ds) (rest : List Char) :
    exponentSign (ds ++ rest) = (false, ds ++ rest) := by
  obtain ⟨c, cs, rfl⟩ := List.exists_cons_of_ne_nil h.ne_nil
  obtain ⟨hminus, hplus⟩ := sign_ne_of_isDigit (h.isDigit c List.mem_cons_self)
  simp [exponentSign, hminus, hplus]

theorem Exponent.exists_exponentDigits {exponent : List Char} (h : Exponent exponent)
    (atEnd : Fault) (hrest : Ends rest) :
    ∃ digits, exponentDigits atEnd (exponent ++ rest) = .ok (digits, rest) := by
  cases h with
  | absent => exact ⟨_, exponentDigits_absent hrest⟩
  | @given e sign ds he hsign h =>
      have hmark : (decide (e = 'e') || decide (e = 'E')) = true := by simpa using he
      have hstart : ∃ negative, exponentSign (sign ++ (ds ++ rest)) = (negative, ds ++ rest) := by
        rcases hsign with rfl | rfl | rfl
        · exact ⟨false, h.exponentSign_eq rest⟩
        · exact ⟨false, rfl⟩
        · exact ⟨true, rfl⟩
      obtain ⟨negative, hnegative⟩ := hstart
      refine ⟨(negative, ds), ?_⟩
      rw [List.cons_append, List.append_assoc, exponentDigits, if_pos hmark, hnegative]
      simp only [h.someDigits_eq hrest.noDigit]
      rfl

theorem Exponent.head_ne_point {exponent : List Char} (h : Exponent exponent) (hrest : Ends rest) :
    (exponent ++ rest).head? ≠ some '.' := by
  cases h with
  | absent => exact fun hpoint => (hrest '.' hpoint).2.1 rfl
  | given he =>
      intro hpoint
      obtain rfl := Option.some.inj hpoint
      simp at he

/-- A number is read to its end, whatever the fault of an unfinished one. -/
theorem Number.exists_numeral {t : List Char} (h : Number t) (atEnd : Fault) (hrest : Ends rest) :
    ∃ x, numeral atEnd (t ++ rest) = .ok (x, rest) := by
  obtain ⟨hsign, hwhole, hfraction, hexponent⟩ := h
  rename_i sign whole fraction exponent
  have hbehind := hexponent.noDigit hrest
  obtain ⟨digits, hdigits⟩ := hfraction.exists_fractionDigits atEnd hbehind
    (hexponent.head_ne_point hrest)
  obtain ⟨power, hpower⟩ := hexponent.exists_exponentDigits atEnd hrest
  have hstart : ∃ negative, numberSign (sign ++ (whole ++ (fraction ++ (exponent ++ rest)))) =
      (negative, whole ++ (fraction ++ (exponent ++ rest))) := by
    rcases hsign with rfl | rfl
    · exact ⟨false, hwhole.numberSign_eq _⟩
    · exact ⟨true, rfl⟩
  obtain ⟨negative, hnegative⟩ := hstart
  refine ⟨⟨negative, whole, digits, power.1, power.2⟩, ?_⟩
  simp only [numeral, List.append_assoc, hnegative, hdigits, hpower, ok_bind,
    hwhole.wholeDigits_eq (hfraction.noDigit hbehind)]
  rfl

/-! ## Natural numbers -/

theorem Whole.numeral_eq (h : Whole ds) (hrest : Ends rest) :
    numeral atEnd (ds ++ rest) = .ok (⟨false, ds, [], false, []⟩, rest) := by
  have hpoint : rest.head? ≠ some '.' := fun hpoint => (hrest '.' hpoint).2.1 rfl
  simp only [numeral, h.numberSign_eq, h.wholeDigits_eq hrest.noDigit, ok_bind,
    fractionDigits_absent hpoint, exponentDigits_absent hrest]
  rfl

theorem decimal_toDigits (n : ℕ) : decimal (Nat.toDigits 10 n) = n :=
  Nat.ofDigitChars_toDigits (by decide) (by decide)

theorem digitChar_ne_zero {n : ℕ} (hlt : n < 10) (h : n ≠ 0) : n.digitChar ≠ '0' := by
  have hall : ∀ n : Fin 10, n.val ≠ 0 → n.val.digitChar ≠ '0' := by decide
  exact hall ⟨n, hlt⟩ h

theorem head?_toDigits {n : ℕ} (h : n ≠ 0) : (Nat.toDigits 10 n).head? ≠ some '0' := by
  induction n using Nat.strongRecOn with
  | _ n ih =>
      rcases Nat.lt_or_ge n 10 with hlt | hge
      · rw [Nat.toDigits_of_lt_base hlt]
        simpa using digitChar_ne_zero hlt h
      · have hfront := ih (n / 10) (by omega) (by omega)
        obtain ⟨c, cs, hc⟩ := List.exists_cons_of_ne_nil (Nat.toDigits_ne_nil (n := n / 10) (b := 10))
        rw [Nat.toDigits_of_base_le (by decide) hge, hc]
        rwa [hc] at hfront

/-- Numbers are written without zeros in front. -/
theorem whole_toDigits (n : ℕ) : Whole (Nat.toDigits 10 n) where
  ne_nil := Nat.toDigits_ne_nil
  isDigit _ hc := Nat.isDigit_of_mem_toDigits (by decide) (by decide) hc
  head h := by
    by_cases hn : n = 0
    · subst hn
      rfl
    · exact absurd h (head?_toDigits hn)

theorem le_foldl_digits (ds : List Char) (n : ℕ) :
    n ≤ ds.foldl (fun n c => 10 * n + digitValue c) n := by
  induction ds generalizing n with
  | nil => exact Nat.le_refl n
  | cons c ds ih => exact Nat.le_trans (by omega) (ih (10 * n + digitValue c))

/-- All digits of a number that fits a word are taken in. -/
theorem leading_of_lt {n : ℕ} (h : ds.foldl (fun n c => 10 * n + digitValue c) n < UInt64.size) :
    Numeral.leading n ds = (ds.foldl (fun n c => 10 * n + digitValue c) n, 0) := by
  induction ds generalizing n with
  | nil => rfl
  | cons c ds ih =>
      rw [Numeral.leading, if_pos (Nat.lt_of_le_of_lt (le_foldl_digits ds _) h)]
      exact ih h

theorem nearestDouble_le {n : ℕ} (h : n < UInt64.size) : Numeral.nearestDouble n ≤ 2 ^ 65 := by
  have hlog : n.log2 - 52 ≤ 11 := by
    have hlt : n.log2 < 64 := by
      by_cases hn : n = 0
      · subst hn
        decide
      · exact (Nat.log2_lt hn).mpr h
    omega
  have hunit : 1 <<< (n.log2 - 52) ≤ 2 ^ 11 := by
    rw [Nat.one_shiftLeft]
    exact Nat.pow_le_pow_right (by decide) hlog
  have hquotient := Nat.div_mul_le_self n (1 <<< (n.log2 - 52))
  have hsize : UInt64.size = 2 ^ 64 := rfl
  rw [Numeral.nearestDouble]
  split
  · rw [Nat.add_one_mul]
    omega
  · omega

theorem scaled_of_lt (h : decimal ds < UInt64.size) :
    Numeral.scaled ⟨false, ds, [], false, []⟩ = (decimal ds, 0) := by
  rw [Numeral.scaled, leading_of_lt h]
  rfl

/-- A number that fits a word lies in the range of double precision. -/
theorem inRange_of_lt (h : decimal ds < UInt64.size) :
    Numeral.inRange ⟨false, ds, [], false, []⟩ = true := by
  rw [Numeral.inRange, scaled_of_lt h]
  split
  · rfl
  · rfl
  · rename_i n e _ hscaled
    obtain ⟨rfl, he⟩ := Prod.mk.inj hscaled
    obtain rfl : e = 0 := by simpa using he.symm
    have hone : Numeral.nearestDouble (Nat.pow 10 0) = 1 := by decide
    have hle := nearestDouble_le h
    have hbound : (2 : ℕ) ^ 65 < 1 <<< 1024 - 1 <<< 970 := by decide +kernel
    rw [hone, Nat.mul_one]
    simpa using Nat.lt_of_le_of_lt hle hbound

theorem natural?_of_lt (h : decimal ds < UInt64.size) :
    Numeral.natural? ⟨false, ds, [], false, []⟩ = some (decimal ds) := by
  simp [Numeral.natural?, h]

end EngineNames.Json
