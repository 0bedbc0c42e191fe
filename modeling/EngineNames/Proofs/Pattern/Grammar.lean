import EngineNames.Proofs.Pattern.Tokens
import EngineNames.Proofs.Text.Hexadecimal

/-! # The grammar of patterns

A token is a question mark, two of them, or a number below 256 in hexadecimal, with a plus sign in
front or without one. A text is a pattern if it is made of such tokens and one of them at least is a
number; each token stands for an element. So every way to write a pattern down is read as the
pattern, and every text that is refused has one of three faults.
-/

namespace EngineNames.Pattern

open Hexadecimal (IsDigit Spells)

/-- Digits that spell a byte, after a plus sign if there is one. -/
def DenotesByte (token : List Char) (b : UInt8) : Prop :=
  ∃ digits, (token = digits ∨ token = '+' :: digits) ∧ digits ≠ [] ∧ Spells digits b.toNat

/-- A token stands for an element of a pattern. -/
def Denotes (token : List Char) : Option UInt8 → Prop
  | none => token = ['?'] ∨ token = ['?', '?']
  | some b => DenotesByte token b

/-- What can be wrong with a text that is made of these tokens, and the error that says so. -/
inductive Fault (text : String) (ts : List (List Char)) : PatternError → Prop where
  | invalidByte {earlier token later} (h : ts = earlier ++ token :: later)
      (hearlier : ∀ t ∈ earlier, ∃ e, Denotes t e) (htoken : ∀ e, ¬ Denotes token e) :
      Fault text ts (.invalidByte (String.ofList token) text)
  | empty (h : ts = []) : Fault text ts .empty
  | onlyWildcards (hne : ts ≠ []) (h : ∀ t ∈ ts, Denotes t none) :
      Fault text ts (.onlyWildcards text)

/-! ## Tokens -/

theorem hexByte?_eq_some_iff {digits : List Char} {b : UInt8} :
    hexByte? digits = some b ↔ digits ≠ [] ∧ Spells digits b.toNat := by
  unfold hexByte?
  split
  · rename_i hempty
    simp [List.isEmpty_iff.mp hempty]
  · rename_i hempty
    have hne : digits ≠ [] := fun hnil => hempty (List.isEmpty_iff.mpr hnil)
    rw [← Hexadecimal.value?_eq_some_iff]
    cases Hexadecimal.value? digits with
    | none => simp
    | some value =>
        have hb := b.toNat_lt
        by_cases hlt : value < 256
        · simp only [hlt, if_true, Option.some.injEq, ← UInt8.toNat_inj,
            UInt8.toNat_ofNat_of_lt' hlt]
          exact (and_iff_right hne).symm
        · simp only [hlt, if_false, Option.some.injEq, reduceCtorEq, false_iff]
          omega

/-- The sign is no digit. -/
theorem not_spells_plus {digits : List Char} {n : ℕ} : ¬ Spells ('+' :: digits) n := by
  rintro ⟨values, hall, _⟩
  obtain ⟨value, _, hvalue, _⟩ := List.forall₂_cons_left_iff.mp hall
  have hplus : '+'.toNat = 43 := rfl
  unfold IsDigit at hvalue
  omega

theorem byte?_eq_some_iff {token : List Char} {b : UInt8} :
    byte? token = some b ↔ DenotesByte token b := by
  unfold byte?
  split
  · rename_i digits
    rw [hexByte?_eq_some_iff]
    constructor
    · rintro ⟨hne, hdigits⟩
      exact ⟨digits, .inr rfl, hne, hdigits⟩
    · rintro ⟨other, rfl | htoken, hne, hdigits⟩
      · exact absurd hdigits not_spells_plus
      · obtain rfl := (List.cons.inj htoken).2
        exact ⟨hne, hdigits⟩
  · rename_i hplus
    rw [hexByte?_eq_some_iff]
    constructor
    · rintro ⟨hne, hdigits⟩
      exact ⟨token, .inl rfl, hne, hdigits⟩
    · rintro ⟨digits, rfl | htoken, hne, hdigits⟩
      · exact ⟨hne, hdigits⟩
      · exact absurd htoken (hplus digits)

/-- The question mark is no digit either. -/
theorem byte?_question (rest : List Char) : byte? ('?' :: rest) = none := by
  rw [Option.eq_none_iff_forall_ne_some]
  intro b hb
  obtain ⟨digits, rfl | htoken, _, values, hall, _⟩ := byte?_eq_some_iff.mp hb
  · obtain ⟨value, _, hvalue, _⟩ := List.forall₂_cons_left_iff.mp hall
    have hquestion : '?'.toNat = 63 := rfl
    unfold IsDigit at hvalue
    omega
  · cases (List.cons.inj htoken).1

theorem token?_eq_some_iff {token : List Char} {e : Option UInt8} :
    token? token = some e ↔ Denotes token e := by
  unfold token?
  split
  · rename_i hquestion
    have hmarks : token = ['?'] ∨ token = ['?', '?'] := by simpa using hquestion
    cases e with
    | none => simpa [Denotes] using hmarks
    | some b =>
        simp only [Option.some.injEq, reduceCtorEq, Denotes, false_iff]
        rw [← byte?_eq_some_iff]
        rcases hmarks with rfl | rfl <;> simp [byte?_question]
  · rename_i hquestion
    cases e with
    | none => simpa [Denotes] using hquestion
    | some b =>
        rw [Option.map_eq_some_iff]
        simp only [Option.some.injEq, exists_eq_right, Denotes, byte?_eq_some_iff]

/-- A token stands for one thing at most. -/
theorem Denotes.unique {token : List Char} {e f : Option UInt8} (he : Denotes token e)
    (hf : Denotes token f) : e = f := by
  rw [← token?_eq_some_iff] at he hf
  exact Option.some.inj (he.symm.trans hf)

/-! ## Lists of tokens -/

variable {text : String} {ts : List (List Char)} {pattern : Pattern}

theorem elements_of_denotes (text : String) (h : List.Forall₂ Denotes ts pattern) :
    elements text ts = .ok pattern := by
  induction h with
  | nil => rfl
  | cons hd _ ih => rw [elements, token?_eq_some_iff.mpr hd, ih]; rfl

theorem elements_of_invalid {earlier later : List (List Char)} {token : List Char}
    (hearlier : ∀ t ∈ earlier, ∃ e, Denotes t e) (htoken : ∀ e, ¬ Denotes token e) :
    elements text (earlier ++ token :: later) =
      .error (.invalidByte (String.ofList token) text) := by
  induction earlier with
  | nil =>
      have hnone : token? token = none :=
        Option.eq_none_iff_forall_ne_some.mpr fun e he => htoken e (token?_eq_some_iff.mp he)
      rw [List.nil_append, elements, hnone]
  | cons t earlier ih =>
      obtain ⟨⟨e, he⟩, hearlier⟩ := List.forall_mem_cons.mp hearlier
      rw [List.cons_append, elements, token?_eq_some_iff.mpr he, ih hearlier]
      rfl

/-- All tokens stand for something, or there is a first one that does not. -/
theorem denotes_or_invalid (ts : List (List Char)) : (∃ pattern, List.Forall₂ Denotes ts pattern) ∨
    ∃ earlier token later, ts = earlier ++ token :: later ∧
      (∀ t ∈ earlier, ∃ e, Denotes t e) ∧ ∀ e, ¬ Denotes token e := by
  induction ts with
  | nil => exact .inl ⟨[], .nil⟩
  | cons t ts ih =>
      by_cases ht : ∃ e, Denotes t e
      · rcases ih with ⟨pattern, hall⟩ | ⟨earlier, token, later, rfl, hearlier, htoken⟩
        · obtain ⟨e, he⟩ := ht
          exact .inl ⟨e :: pattern, .cons he hall⟩
        · exact .inr ⟨t :: earlier, token, later, rfl, List.forall_mem_cons.mpr ⟨ht, hearlier⟩,
            htoken⟩
      · exact .inr ⟨[], t, ts, rfl, fun _ h => absurd h List.not_mem_nil,
          fun e he => ht ⟨e, he⟩⟩

/-- What is on the left side of related lists has something related to it on the right side. -/
theorem exists_of_mem_forall₂ {α β : Type} {R : α → β → Prop} {xs : List α} {ys : List β}
    (h : List.Forall₂ R xs ys) {x : α} (hx : x ∈ xs) : ∃ y ∈ ys, R x y := by
  induction h with
  | nil => cases hx
  | @cons head other xs ys hr _ ih =>
      rcases List.mem_cons.mp hx with rfl | hx
      · exact ⟨other, List.mem_cons_self, hr⟩
      · obtain ⟨y, hy, hr⟩ := ih hx
        exact ⟨y, List.mem_cons_of_mem other hy, hr⟩

/-- Tokens that stand for elements, one of which is a byte, or one of the three faults. -/
theorem pattern_or_fault (text : String) (ts : List (List Char)) :
    (∃ pattern, List.Forall₂ Denotes ts pattern ∧ ∃ b, some b ∈ pattern) ∨
      ∃ e, Fault text ts e := by
  rcases denotes_or_invalid ts with ⟨pattern, hall⟩ | ⟨_, _, _, hts, hearlier, htoken⟩
  · by_cases hbyte : ∃ b, some b ∈ pattern
    · exact .inl ⟨pattern, hall, hbyte⟩
    · by_cases hne : ts = []
      · exact .inr ⟨_, .empty hne⟩
      · refine .inr ⟨_, .onlyWildcards hne fun t ht => ?_⟩
        obtain ⟨e, hin, he⟩ := exists_of_mem_forall₂ hall ht
        cases e with
        | none => exact he
        | some b => exact absurd ⟨b, hin⟩ hbyte
  · exact .inr ⟨_, .invalidByte hts hearlier htoken⟩

/-! ## Texts -/

theorem ofString_of_elements (hmade : MadeOf text.toList ts)
    (h : elements text ts = .ok pattern) : ofString text =
      if pattern.isEmpty then .error .empty
      else if pattern.all Option.isNone then .error (.onlyWildcards text) else .ok pattern := by
  rw [ofString, madeOf_iff.mp hmade, h]
  rfl

theorem ofString_of_denotes (hmade : MadeOf text.toList ts)
    (h : List.Forall₂ Denotes ts pattern) (hbyte : ∃ b, some b ∈ pattern) :
    ofString text = .ok pattern := by
  obtain ⟨b, hb⟩ := hbyte
  have hempty : pattern.isEmpty = false := by
    simpa using List.ne_nil_of_mem hb
  have hall : pattern.all Option.isNone = false := by
    rw [List.all_eq_false]
    exact ⟨some b, hb, Bool.false_ne_true⟩
  rw [ofString_of_elements hmade (elements_of_denotes text h), hempty, hall]
  rfl

theorem ofString_of_fault {e : PatternError} (hmade : MadeOf text.toList ts)
    (h : Fault text ts e) : ofString text = .error e := by
  cases h with
  | invalidByte h hearlier htoken =>
      subst h
      rw [ofString, madeOf_iff.mp hmade, elements_of_invalid hearlier htoken]
      rfl
  | empty h =>
      subst h
      exact ofString_of_elements hmade rfl
  | onlyWildcards hne h =>
      have hall : List.Forall₂ Denotes ts (ts.map fun _ => none) :=
        List.forall₂_map_right_iff.mpr (List.forall₂_same.mpr h)
      have hempty : (ts.map fun _ => (none : Option UInt8)).isEmpty = false := by
        simpa using hne
      have hnone : (ts.map fun _ => (none : Option UInt8)).all Option.isNone = true := by
        simp
      rw [ofString_of_elements hmade (elements_of_denotes text hall), hempty, hnone]
      rfl

theorem ofString_eq_ok_iff : ofString text = .ok pattern ↔
    ∃ ts, MadeOf text.toList ts ∧ List.Forall₂ Denotes ts pattern ∧ ∃ b, some b ∈ pattern := by
  constructor
  · intro h
    have hmade := madeOf_tokens text.toList
    refine ⟨tokens text.toList, hmade, ?_⟩
    rcases pattern_or_fault text (tokens text.toList) with ⟨found, hall, hbyte⟩ | ⟨e, hfault⟩
    · rw [ofString_of_denotes hmade hall hbyte] at h
      obtain rfl := Except.ok.inj h
      exact ⟨hall, hbyte⟩
    · rw [ofString_of_fault hmade hfault] at h
      cases h
  · rintro ⟨ts, hmade, hall, hbyte⟩
    exact ofString_of_denotes hmade hall hbyte

theorem ofString_eq_error_iff {e : PatternError} :
    ofString text = .error e ↔ ∃ ts, MadeOf text.toList ts ∧ Fault text ts e := by
  constructor
  · intro h
    have hmade := madeOf_tokens text.toList
    refine ⟨tokens text.toList, hmade, ?_⟩
    rcases pattern_or_fault text (tokens text.toList) with ⟨found, hall, hbyte⟩ | ⟨e', hfault⟩
    · rw [ofString_of_denotes hmade hall hbyte] at h
      cases h
    · rw [ofString_of_fault hmade hfault] at h
      rwa [← Except.error.inj h]
  · rintro ⟨ts, hmade, hfault⟩
    exact ofString_of_fault hmade hfault

/-! ## Ways to write a pattern -/

/-- An element that is written as one question mark or two, or as one digit or two. -/
inductive Rendered : Option UInt8 → List Char → Prop where
  | mark : Rendered none ['?']
  | marks : Rendered none ['?', '?']
  | digit {b c} (h : IsDigit c b.toNat) : Rendered (some b) [c]
  | digits {b high low} (hhigh : IsDigit high (b.toNat / 16)) (hlow : IsDigit low (b.toNat % 16)) :
      Rendered (some b) [high, low]

/-- A text with all elements of a pattern in order, white space between any two of them, and maybe
white space around them. -/
inductive Written (pattern : Pattern) : List Char → Prop where
  | intro {ts before text after} (h : List.Forall₂ Rendered pattern ts) (hbefore : Blank before)
      (hjoined : Joined ts text) (hafter : Blank after) : Written pattern (before ++ text ++ after)

theorem Rendered.denotes {e : Option UInt8} {token : List Char} (h : Rendered e token) :
    Denotes token e := by
  cases h with
  | mark => exact .inl rfl
  | marks => exact .inr rfl
  | @digit b c h =>
      refine ⟨[c], .inl rfl, List.cons_ne_nil _ _, [b.toNat], .cons h .nil, ?_⟩
      simp
  | @digits b high low hhigh hlow =>
      refine ⟨[high, low], .inl rfl, List.cons_ne_nil _ _, [b.toNat / 16, b.toNat % 16],
        .cons hhigh (.cons hlow .nil), ?_⟩
      simp [Nat.ofDigits_cons]
      omega

theorem exists_rendered (e : Option UInt8) : ∃ token, Rendered e token := by
  cases e with
  | none => exact ⟨_, .mark⟩
  | some b =>
      have hb := b.toNat_lt
      have hhigh : b.toNat / 16 < 16 := by omega
      obtain ⟨high, hhigh⟩ := Hexadecimal.exists_isDigit hhigh
      obtain ⟨low, hlow⟩ := Hexadecimal.exists_isDigit (Nat.mod_lt b.toNat (by decide : 0 < 16))
      exact ⟨_, .digits hhigh hlow⟩

/-- No digit is white space. -/
theorem not_mem_whiteSpace {c : Char} {value : ℕ} (h : IsDigit c value) :
    c.toNat ∉ whiteSpace := by
  unfold IsDigit at h
  simp only [whiteSpace, List.mem_cons, List.not_mem_nil, or_false]
  omega

theorem Rendered.isToken {e : Option UInt8} {token : List Char} (h : Rendered e token) :
    IsToken token := by
  have hmark : '?'.toNat ∉ whiteSpace := by decide
  cases h with
  | mark => exact ⟨List.cons_ne_nil _ _, by simpa using hmark⟩
  | marks => exact ⟨List.cons_ne_nil _ _, by simpa using hmark⟩
  | digit h => exact ⟨List.cons_ne_nil _ _, by simpa using not_mem_whiteSpace h⟩
  | digits hhigh hlow =>
      exact ⟨List.cons_ne_nil _ _, by simpa using
        ⟨not_mem_whiteSpace hhigh, not_mem_whiteSpace hlow⟩⟩

/-- All patterns can be written, but for the one without elements. -/
theorem exists_written (h : pattern ≠ []) : ∃ text : String, Written pattern text.toList := by
  have hall : ∃ ts, List.Forall₂ Rendered pattern ts := by
    choose token htoken using exists_rendered
    exact ⟨pattern.map token, List.forall₂_map_right_iff.mpr
      (List.forall₂_same.mpr fun e _ => htoken e)⟩
  obtain ⟨ts, hall⟩ := hall
  have htokens : ∀ t ∈ ts, IsToken t := by
    intro t ht
    obtain ⟨e, _, he⟩ := exists_of_mem_forall₂ hall.flip ht
    exact he.isToken
  have hne : ts ≠ [] := by
    rintro rfl
    exact h (List.forall₂_nil_right_iff.mp hall)
  obtain ⟨text, hjoined⟩ := exists_joined hne htokens
  refine ⟨String.ofList ([] ++ text ++ []), ?_⟩
  rw [String.toList_ofList]
  exact .intro hall blank_nil hjoined blank_nil

/-- What a pattern is written as is read as the pattern. -/
theorem Written.ofString_eq (h : Written pattern text.toList) (hbyte : ∃ b, some b ∈ pattern) :
    ofString text = .ok pattern := by
  generalize htext : text.toList = cs at h
  cases h with
  | @intro ts before joined after h hbefore hjoined hafter =>
      have hmade : MadeOf text.toList ts := htext ▸ .joined hbefore hjoined hafter
      have hall : List.Forall₂ Denotes ts pattern := (h.imp fun _ _ hr => hr.denotes).flip
      exact ofString_of_denotes hmade hall hbyte

/-- The patterns that texts are read as are those with a byte. -/
theorem exists_ofString_eq_ok_iff :
    (∃ text, ofString text = .ok pattern) ↔ ∃ b, some b ∈ pattern := by
  constructor
  · rintro ⟨text, h⟩
    obtain ⟨_, _, _, hbyte⟩ := ofString_eq_ok_iff.mp h
    exact hbyte
  · intro hbyte
    obtain ⟨b, hb⟩ := hbyte
    obtain ⟨text, hwritten⟩ := exists_written (List.ne_nil_of_mem hb)
    exact ⟨text, hwritten.ofString_eq ⟨b, hb⟩⟩

/-! ## All together -/

/-- What becomes of a text that is read as a pattern. -/
structure GrammarSpec (text : String) : Prop where
  splits : ∃! ts, MadeOf text.toList ts
  accepts_iff : (∃ pattern, ofString text = .ok pattern) ↔ ∃ ts, MadeOf text.toList ts ∧
    ts ≠ [] ∧ (∀ t ∈ ts, ∃ e, Denotes t e) ∧ ∃ t ∈ ts, ∃ b, DenotesByte t b
  /-- The elements are what the tokens stand for, one by one. -/
  pattern_iff : ∀ pattern, ofString text = .ok pattern ↔ ∃ ts, MadeOf text.toList ts ∧
    List.Forall₂ Denotes ts pattern ∧ ∃ b, some b ∈ pattern
  fails_iff : ∀ e, ofString text = .error e ↔ ∃ ts, MadeOf text.toList ts ∧ Fault text ts e
  config : ∀ e, ofString text = .error e → ∃ reason, e.message = "Configuration error: " ++ reason
  written : ∀ pattern, (∃ b, some b ∈ pattern) → Written pattern text.toList →
    ofString text = .ok pattern

/-- Texts are read by the grammar of patterns, and it is the inverse of writing them. -/
theorem ofString_spec (text : String) : GrammarSpec text where
  splits := ⟨_, madeOf_tokens text.toList, fun _ h => (madeOf_iff.mp h).symm⟩
  accepts_iff := by
    constructor
    · rintro ⟨pattern, h⟩
      obtain ⟨ts, hmade, hall, b, hb⟩ := ofString_eq_ok_iff.mp h
      obtain ⟨t, ht, hdenotes⟩ := exists_of_mem_forall₂ hall.flip hb
      refine ⟨ts, hmade, List.ne_nil_of_mem ht, fun t ht => ?_, t, ht, b, hdenotes⟩
      obtain ⟨e, _, he⟩ := exists_of_mem_forall₂ hall ht
      exact ⟨e, he⟩
    · rintro ⟨ts, hmade, _, hvalid, t, ht, b, hb⟩
      rcases denotes_or_invalid ts with ⟨pattern, hall⟩ | ⟨_, token, _, rfl, _, htoken⟩
      · obtain ⟨e, hin, he⟩ := exists_of_mem_forall₂ hall ht
        obtain rfl : e = some b := he.unique hb
        exact ⟨pattern, ofString_of_denotes hmade hall ⟨b, hin⟩⟩
      · obtain ⟨e, he⟩ := hvalid token (List.mem_append_right _ List.mem_cons_self)
        exact absurd he (htoken e)
  pattern_iff _ := ofString_eq_ok_iff
  fails_iff _ := ofString_eq_error_iff
  config e _ := ⟨e.reason, rfl⟩
  written _ hbyte h := h.ofString_eq hbyte

/-- White space of several kinds, a sign, leading zeros, and letters of either case. -/
example : ofString "\u3000\t48 +8b\u00A0? \n??\u20280000E8 " =
    .ok [some 0x48, some 0x8B, none, none, some 0xE8] := by
  decide +kernel

end EngineNames.Pattern
