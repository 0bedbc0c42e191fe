import EngineNames.Pattern
import Mathlib.Tactic.Common

/-! # Tokens of a pattern

A text is made of tokens if it is the tokens in this order, with white space between any two of them
and maybe around them all. Each text is made of one list of tokens only, and that is the list that
is read.
-/

namespace EngineNames.Pattern

/-- The code points of the Unicode property `White_Space`. -/
def whiteSpace : List ℕ :=
  [0x9, 0xA, 0xB, 0xC, 0xD, 0x20, 0x85, 0xA0, 0x1680, 0x2000, 0x2001, 0x2002, 0x2003, 0x2004,
    0x2005, 0x2006, 0x2007, 0x2008, 0x2009, 0x200A, 0x2028, 0x2029, 0x202F, 0x205F, 0x3000]

/-- Nothing but white space. -/
def Blank (gap : List Char) : Prop :=
  ∀ c ∈ gap, c.toNat ∈ whiteSpace

/-- Something, and no white space in it. -/
structure IsToken (token : List Char) : Prop where
  ne_nil : token ≠ []
  solid : ∀ c ∈ token, c.toNat ∉ whiteSpace

/-- Tokens with white space between them. -/
inductive Joined : List (List Char) → List Char → Prop where
  | one {token} (h : IsToken token) : Joined [token] token
  | more {token gap tokens text} (h : IsToken token) (hgap : Blank gap) (hne : gap ≠ [])
      (rest : Joined tokens text) : Joined (token :: tokens) (token ++ gap ++ text)

/-- A text is made of these tokens, with white space around them if there is any. -/
inductive MadeOf : List Char → List (List Char) → Prop where
  | blank {text} (h : Blank text) : MadeOf text []
  | joined {before text after tokens} (hbefore : Blank before) (h : Joined tokens text)
      (hafter : Blank after) : MadeOf (before ++ text ++ after) tokens

theorem IsToken.isEmpty_reverse {token : List Char} (h : IsToken token) :
    token.reverse.isEmpty = false := by
  simpa using h.ne_nil

/-- What is read of a token, backwards, is a token by itself. -/
theorem isToken_reverse {run : List Char} (hne : ¬ run.isEmpty = true)
    (h : ∀ c ∈ run, c.toNat ∉ whiteSpace) : IsToken run.reverse where
  ne_nil hnil := hne (List.isEmpty_iff.mpr (List.reverse_eq_nil_iff.mp hnil))
  solid c hc := h c (List.mem_reverse.mp hc)

/-- Tokens can be joined in some way. -/
theorem exists_joined {ts : List (List Char)} (hne : ts ≠ []) (h : ∀ t ∈ ts, IsToken t) :
    ∃ text, Joined ts text := by
  induction ts with
  | nil => exact absurd rfl hne
  | cons token ts ih =>
      obtain ⟨htoken, hrest⟩ := List.forall_mem_cons.mp h
      by_cases hlast : ts = []
      · exact ⟨token, hlast ▸ .one htoken⟩
      · obtain ⟨text, hjoined⟩ := ih hlast hrest
        have hspace : Blank [' '] := by simp [Blank, whiteSpace]
        exact ⟨_, .more htoken hspace (List.cons_ne_nil ' ' []) hjoined⟩

theorem isBlank_iff {c : Char} : isBlank c = true ↔ c.toNat ∈ whiteSpace := by
  simp only [isBlank, Bool.or_eq_true, Bool.and_eq_true, decide_eq_true_eq, beq_iff_eq,
    ← Char.toNat_inj, Char.le_def, UInt32.le_iff_toNat_le, Char.toNat_val, whiteSpace,
    List.mem_cons, List.not_mem_nil, Char.reduceToNat, or_false]
  omega

theorem isBlank_eq_false_iff {c : Char} : isBlank c = false ↔ c.toNat ∉ whiteSpace := by
  rw [← isBlank_iff, Bool.not_eq_true]

theorem blank_nil : Blank [] :=
  fun _ hc => absurd hc List.not_mem_nil

theorem blank_cons {c : Char} {gap : List Char} :
    Blank (c :: gap) ↔ c.toNat ∈ whiteSpace ∧ Blank gap :=
  List.forall_mem_cons

/-! ## A text is made of the tokens that are read -/

theorem MadeOf.cons_blank {c : Char} {text : List Char} {ts : List (List Char)}
    (hc : c.toNat ∈ whiteSpace) (h : MadeOf text ts) : MadeOf (c :: text) ts := by
  cases h with
  | blank h => exact .blank (blank_cons.mpr ⟨hc, h⟩)
  | joined hbefore h hafter => exact .joined (blank_cons.mpr ⟨hc, hbefore⟩) h hafter

theorem MadeOf.one {token : List Char} (h : IsToken token) : MadeOf token [token] := by
  simpa using MadeOf.joined blank_nil (.one h) blank_nil

/-- A token in front, with at least one character of white space behind it. -/
theorem MadeOf.cons_token {token text : List Char} {c : Char} {ts : List (List Char)}
    (htoken : IsToken token) (hc : c.toNat ∈ whiteSpace) (h : MadeOf text ts) :
    MadeOf (token ++ c :: text) (token :: ts) := by
  cases h with
  | blank h =>
      exact .joined blank_nil (.one htoken) (blank_cons.mpr ⟨hc, h⟩)
  | @joined before joined after ts hbefore h hafter =>
      have hall : Joined (token :: ts) (token ++ (c :: before) ++ joined) :=
        .more htoken (blank_cons.mpr ⟨hc, hbefore⟩) (List.cons_ne_nil c before) h
      simpa using MadeOf.joined blank_nil hall hafter

/-- The token that is being read has no white space. By induction on what is left of the text. -/
theorem madeOf_tokensFrom {run text : List Char} (h : ∀ c ∈ run, c.toNat ∉ whiteSpace) :
    MadeOf (run.reverse ++ text) (tokensFrom run text) := by
  induction text generalizing run with
  | nil =>
      rw [tokensFrom, List.append_nil]
      split
      · rename_i hrun
        obtain rfl := List.isEmpty_iff.mp hrun
        exact .blank blank_nil
      · rename_i hrun
        exact .one (isToken_reverse hrun h)
  | cons c text ih =>
      have hnone : MadeOf text (tokensFrom [] text) :=
        ih fun _ hc => absurd hc List.not_mem_nil
      rw [tokensFrom]
      split
      · rename_i hblank
        have hc := isBlank_iff.mp hblank
        split
        · rename_i hrun
          obtain rfl := List.isEmpty_iff.mp hrun
          exact .cons_blank hc hnone
        · rename_i hrun
          exact .cons_token (isToken_reverse hrun h) hc hnone
      · rename_i hsolid
        have hc : c.toNat ∉ whiteSpace := fun hmem => hsolid (isBlank_iff.mpr hmem)
        have hnext := ih (List.forall_mem_cons.mpr ⟨hc, h⟩)
        simpa using hnext

theorem madeOf_tokens (text : List Char) : MadeOf text (tokens text) :=
  madeOf_tokensFrom fun _ hc => absurd hc List.not_mem_nil

/-! ## No other tokens -/

theorem tokensFrom_solid {token : List Char} (h : ∀ c ∈ token, c.toNat ∉ whiteSpace)
    (run rest : List Char) :
    tokensFrom run (token ++ rest) = tokensFrom (token.reverse ++ run) rest := by
  induction token generalizing run with
  | nil => rfl
  | cons c token ih =>
      obtain ⟨hc, htoken⟩ := List.forall_mem_cons.mp h
      rw [List.cons_append, tokensFrom, isBlank_eq_false_iff.mpr hc]
      simpa using ih htoken (c :: run)

theorem tokens_blank_append {gap : List Char} (h : Blank gap) (rest : List Char) :
    tokens (gap ++ rest) = tokens rest := by
  induction gap with
  | nil => rfl
  | cons c gap ih =>
      obtain ⟨hc, hgap⟩ := blank_cons.mp h
      rw [tokens, List.cons_append, tokensFrom, isBlank_iff.mpr hc]
      exact ih hgap

theorem tokens_of_blank {text : List Char} (h : Blank text) : tokens text = [] := by
  have hall := tokens_blank_append h []
  rwa [List.append_nil] at hall

/-- White space ends a token. -/
theorem tokens_token_blank {token gap : List Char} (htoken : IsToken token) (hgap : Blank gap)
    (hne : gap ≠ []) (rest : List Char) :
    tokens (token ++ (gap ++ rest)) = token :: tokens rest := by
  cases gap with
  | nil => exact absurd rfl hne
  | cons c gap =>
      obtain ⟨hc, hgap⟩ := blank_cons.mp hgap
      rw [tokens, tokensFrom_solid htoken.solid, List.append_nil, List.cons_append, tokensFrom,
        isBlank_iff.mpr hc, htoken.isEmpty_reverse, List.reverse_reverse]
      exact congrArg (token :: ·) (tokens_blank_append hgap rest)

theorem tokens_token {token : List Char} (h : IsToken token) : tokens token = [token] := by
  have hall := tokensFrom_solid h.solid [] []
  rw [List.append_nil, List.append_nil, tokensFrom, h.isEmpty_reverse] at hall
  simpa [tokens] using hall

theorem Joined.tokens_append {ts : List (List Char)} {text after : List Char}
    (h : Joined ts text) (hafter : Blank after) : tokens (text ++ after) = ts := by
  induction h with
  | @one token htoken =>
      by_cases hne : after = []
      · rw [hne, List.append_nil, tokens_token htoken]
      · have hall := tokens_token_blank htoken hafter hne []
        rwa [List.append_nil] at hall
  | @more token gap ts text htoken hgap hne _ ih =>
      rw [List.append_assoc, List.append_assoc, tokens_token_blank htoken hgap hne, ih]

theorem madeOf_iff {text : List Char} {ts : List (List Char)} :
    MadeOf text ts ↔ tokens text = ts := by
  constructor
  · intro h
    cases h with
    | blank h => exact tokens_of_blank h
    | joined hbefore h hafter =>
        rw [List.append_assoc, tokens_blank_append hbefore, h.tokens_append hafter]
  · rintro rfl
    exact madeOf_tokens text

end EngineNames.Pattern
