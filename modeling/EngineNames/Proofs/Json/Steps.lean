import EngineNames.Json.Reader
import Mathlib.Tactic.Common

/-! # Steps of a reader

What a reader does on a text is known step by step: which character it sees behind blanks, and which
one it passes over.
-/

namespace EngineNames.Json

/-- Nothing but blanks. -/
def Blank (gap : List Char) : Prop :=
  ∀ c ∈ gap, isBlank c = true

theorem blank_nil : Blank [] :=
  fun _ hc => absurd hc List.not_mem_nil

theorem blank_cons {c : Char} {gap : List Char} :
    Blank (c :: gap) ↔ isBlank c = true ∧ Blank gap :=
  List.forall_mem_cons

variable {α β : Type} {reader : Reader α} {next : α → Reader β} {s s' left gap : List Char}
  {c : Char}

/-! ## Sequences -/

theorem bind_run {a : α} (h : reader s = .ok (a, left)) : (reader >>= next) s = next a left := by
  show (reader s >>= fun p => next p.1 p.2) = next a left
  rw [h]
  rfl

theorem bind_eq_ok_iff {r : β × List Char} :
    (reader >>= next) s = .ok r ↔ ∃ a left, reader s = .ok (a, left) ∧ next a left = .ok r := by
  show (reader s >>= fun p => next p.1 p.2) = .ok r ↔ _
  cases h : reader s with
  | error e =>
      constructor
      · intro herror
        cases herror
      · rintro ⟨a, left, hok, _⟩
        cases hok
  | ok p =>
      constructor
      · intro hok
        exact ⟨p.1, p.2, rfl, hok⟩
      · rintro ⟨a, left, hok, hnext⟩
        obtain rfl := Except.ok.inj hok
        exact hnext

/-- A sequence depends on a text only as far as its first reader does. -/
theorem bind_congr_run (h : reader s = reader s') : (reader >>= next) s = (reader >>= next) s' := by
  show (reader s >>= fun p => next p.1 p.2) = (reader s' >>= fun p => next p.1 p.2)
  rw [h]

/-! ## Characters -/

theorem advance_bind (next : Unit → Reader β) (s : List Char) :
    (advance >>= next) s = next () s.tail :=
  rfl

theorem advance_cons (c : Char) (s : List Char) : advance (c :: s) = .ok ((), s) :=
  rfl

/-- Behind blanks the reader sees the first other character. -/
theorem look_eq (hgap : Blank gap) (hc : isBlank c = false) (s : List Char) :
    look (gap ++ c :: s) = .ok (c, c :: s) := by
  have hdrop : (gap ++ c :: s).dropWhile isBlank = c :: s := by
    rw [List.dropWhile_append_of_pos hgap, List.dropWhile_cons_of_neg (by simp [hc])]
  rw [look, hdrop]

theorem look_cons (hc : isBlank c = false) (s : List Char) : look (c :: s) = .ok (c, c :: s) :=
  look_eq blank_nil hc s

theorem look_blank (hc : isBlank c = true) (s : List Char) : look (c :: s) = look s := by
  rw [look, List.dropWhile_cons_of_pos hc, look]

/-- What is seen is left to be read. -/
theorem exists_of_look (h : look s = .ok (c, left)) :
    isBlank c = false ∧ ∃ rest, left = c :: rest := by
  have hfirst := List.head?_dropWhile_not isBlank s
  rw [look] at h
  split at h
  · cases h
  · rename_i hdrop
    obtain ⟨rfl, rfl⟩ := Prod.mk.inj (Except.ok.inj h)
    rw [hdrop] at hfirst
    exact ⟨hfirst, _, rfl⟩

theorem look_again (h : look s = .ok (c, left)) : look left = look s := by
  obtain ⟨hc, rest, rfl⟩ := exists_of_look h
  rw [h, look_cons hc]

/-- A character that must come next is the one that is seen. -/
theorem expect_eq_ok_iff : expect c s = .ok ((), left) ↔ look s = .ok (c, c :: left) := by
  rw [expect, bind_eq_ok_iff]
  constructor
  · rintro ⟨d, s', hlook, h⟩
    obtain ⟨_, rest, rfl⟩ := exists_of_look hlook
    split at h
    · rename_i heq
      subst heq
      obtain ⟨_, rfl⟩ := Prod.mk.inj (Except.ok.inj h)
      exact hlook
    · cases h
  · intro hlook
    exact ⟨c, c :: left, hlook, (if_pos rfl).symm ▸ rfl⟩

theorem expect_eq (hgap : Blank gap) (hc : isBlank c = false) (s : List Char) :
    expect c (gap ++ c :: s) = .ok ((), s) :=
  expect_eq_ok_iff.mpr (look_eq hgap hc s)

theorem word_append (text rest : List Char) : word text (text ++ rest) = .ok ((), rest) := by
  induction text with
  | nil => rfl
  | cons c text ih => rw [List.cons_append, word, if_pos rfl, ih]

theorem literal_append (text : String) (rest : List Char) :
    literal text (text.toList ++ rest) = .ok ((), rest) :=
  word_append text.toList rest

end EngineNames.Json
