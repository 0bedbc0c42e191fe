import EngineNames.Proofs.Identifier.FixedPoints
import Mathlib.Data.List.Forall2

/-! # Sanitising character by character

A character behind the first has an image of its own, whatever stands around it, so what is put
behind a name is sanitised by itself. Only operators and a digit in front have images of more than
one character; the others keep their places. The exceptions are the names that spell a reserved
word, and those are ten.
-/

namespace EngineNames.Identifier

variable {name : String} {c : Char}

/-! ## Images -/

def operators : List Char :=
  ['+', '-', '*', '/']

/-- What stands for a character behind the first one. -/
inductive Image : Char → List Char → Prop
  | plus : Image '+' "Plus".toList
  | minus : Image '-' "Minus".toList
  | star : Image '*' "Star".toList
  | slash : Image '/' "Slash".toList
  | kept {c : Char} (h : isContinue c = true) : Image c [c]
  | masked {c : Char} (ho : c ∉ operators) (h : isContinue c = false) : Image c ['_']

theorem operatorWord?_eq_none_iff : operatorWord? c = none ↔ c ∉ operators := by
  unfold operatorWord?
  split
  case h_5 _ h₁ h₂ h₃ h₄ =>
    rw [eq_self_iff_true, true_iff]
    simp only [operators, List.mem_cons, List.not_mem_nil, or_false, not_or]
    exact ⟨h₁, h₂, h₃, h₄⟩
  all_goals decide

theorem image_innerImage (c : Char) : Image c (innerImage c) := by
  by_cases ho : c ∈ operators
  · simp only [operators, List.mem_cons, List.not_mem_nil, or_false] at ho
    rcases ho with rfl | rfl | rfl | rfl
    · exact .plus
    · exact .minus
    · exact .star
    · exact .slash
  · rw [innerImage, operatorWord?_eq_none_iff.mpr ho]
    dsimp only
    split
    · rename_i h
      exact .kept h
    · rename_i h
      exact .masked ho ((Bool.not_eq_true _).mp h)

theorem Image.innerImage_eq {image : List Char} (h : Image c image) : innerImage c = image := by
  cases h with
  | plus => rfl
  | minus => rfl
  | star => rfl
  | slash => rfl
  | kept h => exact innerImage_of_isContinue h
  | masked ho h =>
      rw [innerImage, operatorWord?_eq_none_iff.mpr ho]
      simp [h]

theorem image_iff {image : List Char} : Image c image ↔ innerImage c = image :=
  ⟨Image.innerImage_eq, fun h => h ▸ image_innerImage c⟩

theorem forall₂_image_iff {text : List Char} {images : List (List Char)} :
    List.Forall₂ Image text images ↔ text.map innerImage = images := by
  have h : Image = fun c image => innerImage c = image := by
    ext c image
    exact image_iff
  rw [h, ← List.forall₂_map_left_iff, List.forall₂_eq_eq_eq]

/-! ## Characters that keep their places -/

/-- A name that is not empty and begins with no digit, and that has no operator. -/
structure Plain (name : String) : Prop where
  ne_empty : name ≠ ""
  no_digit : ∀ c ∈ name.toList.head?, c.isDigit = false
  no_operator : ∀ c ∈ name.toList, c ∉ operators

/-- What the first character of a plain name becomes. -/
def firstChar (c : Char) : Char :=
  if c = '_' ∨ c = 'b' ∨ isStart c = true ∧ c.isLower = false then c
  else if c.isLower = true then c.toUpper
  else '_'

/-- What every other character of a plain name becomes. -/
def innerChar (c : Char) : Char :=
  if isContinue c = true then c else '_'

theorem digitWord?_of_isDigit (h : c.isDigit = false) : digitWord? c = none := by
  unfold digitWord?
  split
  case h_11 => rfl
  all_goals cases h

theorem firstImage_of_no_word (hd : digitWord? c = none) (ho : operatorWord? c = none) :
    firstImage c = [firstChar c] := by
  rw [firstImage, hd, ho]
  dsimp only
  by_cases hl : c.isLower = true
  · by_cases hb : c = 'b'
    · subst hb
      decide
    · have hu : c ≠ '_' := by
        rintro rfl
        cases hl
      simp [firstChar, hl, hb, hu]
  · have hb : c ≠ 'b' := by
      rintro rfl
      exact hl rfl
    have hl := (Bool.not_eq_true _).mp hl
    by_cases hs : c = '_' ∨ isStart c = true
    · simp [firstChar, hl, hb, hs]
    · simp [firstChar, hl, hb, hs]

theorem innerImage_of_plain (ho : c ∉ operators) : innerImage c = [innerChar c] := by
  rw [innerImage, operatorWord?_eq_none_iff.mpr ho]
  dsimp only
  rw [innerChar]
  split <;> rfl

theorem spell_of_plain {rest : List Char} (hd : c.isDigit = false)
    (ho : ∀ d ∈ c :: rest, d ∉ operators) :
    spell (c :: rest) = firstChar c :: rest.map innerChar := by
  have hrest : rest.flatMap innerImage = rest.map innerChar := by
    rw [List.map_eq_flatMap]
    exact List.flatMap_congr fun d hin => innerImage_of_plain (ho d (List.mem_cons_of_mem _ hin))
  have hno := operatorWord?_eq_none_iff.mpr (ho c List.mem_cons_self)
  rw [spell, firstImage_of_no_word (digitWord?_of_isDigit hd) hno, hrest]
  rfl

theorem spell_append {front : List Char} (h : front ≠ []) (rest : List Char) :
    spell (front ++ rest) = spell front ++ rest.flatMap innerImage := by
  cases front with
  | nil => exact absurd rfl h
  | cons c front => simp only [List.cons_append, spell, List.flatMap_append, List.append_assoc]

/-! ## Names that spell reserved words -/

/-- Before reserved words are looked at a name has become one, which then is replaced. -/
def SpellsReserved (name : String) : Prop :=
  ∃ entry ∈ reservedWords, String.ofList (spell name.toList) = entry.1

/-- The reserved words, those with a capital also with a small letter instead of it. -/
def replacedNames : List String :=
  ["bool", "break", "bitand", "bitor", "TRUE", "tRUE", "FALSE", "fALSE", "NULL", "nULL"]

theorem sanitize_of_unreserved (h : ¬ SpellsReserved name) :
    sanitize name = String.ofList (spell name.toList) :=
  avoidReserved_of_unreserved fun entry hentry heq => h ⟨entry, hentry, heq⟩

/-- The words for digits and operators have letters that no reserved word has. -/
theorem not_subset_of_word {word : String} {entry : String × String}
    (h : digitWord? c = some word ∨ operatorWord? c = some word) (hentry : entry ∈ reservedWords) :
    ¬ word.toList ⊆ entry.1.toList := by
  have hletters : ∀ entry ∈ reservedWords, ¬ word.toList ⊆ entry.1.toList := by
    rcases h with h | h
    · unfold digitWord? at h
      split at h
      case h_11 => cases h
      all_goals
        obtain rfl := Option.some.inj h
        decide
    · unfold operatorWord? at h
      split at h
      case h_5 => cases h
      all_goals
        obtain rfl := Option.some.inj h
        decide
  exact hletters entry hentry

theorem isContinue_of_innerImage_subset {entry : String × String} (hentry : entry ∈ reservedWords)
    (h : innerImage c ⊆ entry.1.toList) : isContinue c = true := by
  unfold innerImage at h
  split at h
  · rename_i word hword
    exact absurd h (not_subset_of_word (.inr hword) hentry)
  · split at h
    · assumption
    · exact absurd (h List.mem_cons_self) (underscore_notMem_reserved entry hentry)

theorem firstChar_cases (c : Char) : firstChar c = c ∨ firstChar c = '_' ∨
    c.isLower = true ∧ c = Char.ofNat ((firstChar c).toNat + 32) := by
  rw [firstChar]
  split
  · exact .inl rfl
  · split
    · rename_i hl
      refine .inr (.inr ⟨hl, ?_⟩)
      rw [toNat_toUpper_of_isLower hl, Char.ofNat_toNat]
    · exact .inr (.inl rfl)

/-- A name that spells a reserved word is the word itself, up to the first letter. -/
theorem toList_of_spell_eq {entry : String × String} (hentry : entry ∈ reservedWords)
    (h : spell name.toList = entry.1.toList) : ∃ c rest, name.toList = c :: rest ∧
      firstChar c :: rest = entry.1.toList := by
  have hempty : ∀ entry ∈ reservedWords, spell [] ≠ entry.1.toList := by decide
  cases hname : name.toList with
  | nil => exact absurd (hname ▸ h) (hempty entry hentry)
  | cons c rest =>
      rw [hname, spell] at h
      have hfirst : firstImage c ⊆ entry.1.toList := h ▸ List.subset_append_left _ _
      have hrest : ∀ d ∈ rest, isContinue d = true := by
        intro d hd
        refine isContinue_of_innerImage_subset hentry fun e he => ?_
        exact h ▸ List.mem_append_right _ (List.mem_flatMap.mpr ⟨d, hd, he⟩)
      have hdigit : digitWord? c = none := by
        refine Option.eq_none_iff_forall_ne_some.mpr fun word hword => ?_
        refine not_subset_of_word (.inl hword) hentry ?_
        simpa only [firstImage, hword] using hfirst
      have hoperator : operatorWord? c = none := by
        refine Option.eq_none_iff_forall_ne_some.mpr fun word hword => ?_
        refine not_subset_of_word (.inr hword) hentry ?_
        simpa only [firstImage, hdigit, hword] using hfirst
      rw [firstImage_of_no_word hdigit hoperator, flatMap_innerImage hrest] at h
      exact ⟨c, rest, rfl, h⟩

/-- A reserved word with a small letter in front is listed, if there is such a letter. -/
-- With `∀ d ∈ head?` instead of `all`, `decide` would go through all characters.
theorem small_reserved : ∀ entry ∈ reservedWords, entry.1.toList.head?.all (fun d =>
    !(Char.ofNat (d.toNat + 32)).isLower || decide
      (String.ofList (Char.ofNat (d.toNat + 32) :: entry.1.toList.tail) ∈ replacedNames)) := by
  decide

theorem spellsReserved_iff : SpellsReserved name ↔ name ∈ replacedNames := by
  constructor
  · rintro ⟨entry, hentry, h⟩
    have hword : spell name.toList = entry.1.toList := by rw [← h, String.toList_ofList]
    obtain ⟨c, rest, hname, hspelled⟩ := toList_of_spell_eq hentry hword
    have hlisted : ∀ entry ∈ reservedWords, entry.1 ∈ replacedNames := by decide
    rw [← String.ofList_toList (s := name), hname]
    rcases firstChar_cases c with hc | hc | ⟨hl, hc⟩
    · rw [← hc, hspelled, String.ofList_toList]
      exact hlisted entry hentry
    · have hunderscore := underscore_notMem_reserved entry hentry
      rw [← hspelled, hc] at hunderscore
      exact absurd List.mem_cons_self hunderscore
    · have hsmall := small_reserved entry hentry
      rw [← hspelled, List.head?_cons, Option.all_some, ← hc, hl, List.tail_cons] at hsmall
      exact of_decide_eq_true hsmall
  · have hspelled : ∀ name ∈ replacedNames, ∃ entry ∈ reservedWords,
        String.ofList (spell name.toList) = entry.1 := by decide
    exact hspelled name

instance : Decidable (SpellsReserved name) :=
  decidable_of_iff' _ spellsReserved_iff

/-! ## All together -/

/-- Every character of a name keeps its place, or is masked or capitalised at it. -/
structure PlaceSpec (name valid : String) : Prop where
  length_eq : valid.length = name.length
  first : ∀ c ∈ name.toList.head?, valid.toList.head? = some (firstChar c)
  kept_iff : ∀ i c, name.toList[i + 1]? = some c →
    (valid.toList[i + 1]? = some c ↔ isContinue c = true)
  masked : ∀ i c, name.toList[i + 1]? = some c → isContinue c = false →
    valid.toList[i + 1]? = some '_'

/-- What is put behind a name becomes the images of its characters, one behind the other. -/
structure AppendSpec (front rest : String) : Prop where
  exists_images : ∃ images, List.Forall₂ Image rest.toList images
  append_images : ∀ images, List.Forall₂ Image rest.toList images →
    sanitize (front ++ rest) = sanitize front ++ String.ofList images.flatten

theorem innerChar_eq_self_iff : innerChar c = c ↔ isContinue c = true := by
  rw [innerChar]
  split
  · rename_i h
    exact iff_of_true rfl h
  · rename_i h
    exact iff_of_false (fun heq => h (heq ▸ isContinue_underscore)) h

theorem placeSpec_of_plain (h : Plain name) (hr : ¬ SpellsReserved name) :
    PlaceSpec name (sanitize name) := by
  have hempty : name.toList ≠ [] := fun hnil => h.ne_empty (String.toList_eq_nil_iff.mp hnil)
  obtain ⟨c, rest, hname⟩ := List.exists_cons_of_ne_nil hempty
  have hvalid : (sanitize name).toList = firstChar c :: rest.map innerChar := by
    rw [sanitize_of_unreserved hr, String.toList_ofList, hname]
    exact spell_of_plain (h.no_digit c (by rw [hname]; rfl)) (hname ▸ h.no_operator)
  have hplace : ∀ i d, name.toList[i + 1]? = some d →
      (sanitize name).toList[i + 1]? = some (innerChar d) := by
    intro i d hd
    rw [hname, List.getElem?_cons_succ] at hd
    rw [hvalid, List.getElem?_cons_succ, List.getElem?_map, hd]
    rfl
  refine ⟨?_, fun d hd => ?_, fun i d hd => ?_, fun i d hd hmasked => ?_⟩
  · rw [← String.length_toList, ← String.length_toList, hvalid, hname]
    simp
  · rw [hname] at hd
    obtain rfl := Option.some.inj hd
    rw [hvalid, List.head?_cons]
  · rw [hplace i d hd, Option.some.injEq, innerChar_eq_self_iff]
  · rw [hplace i d hd, innerChar, hmasked]
    rfl

theorem appendSpec_of_unreserved {front rest : String} (h : front ≠ "")
    (hfront : ¬ SpellsReserved front) (hwhole : ¬ SpellsReserved (front ++ rest)) :
    AppendSpec front rest := by
  have hempty : front.toList ≠ [] := fun hnil => h (String.toList_eq_nil_iff.mp hnil)
  refine ⟨⟨_, forall₂_image_iff.mpr rfl⟩, fun images himages => ?_⟩
  rw [← forall₂_image_iff.mp himages, sanitize_of_unreserved hwhole, sanitize_of_unreserved hfront,
    String.toList_append, spell_append hempty, String.ofList_append, List.flatMap_def]

/-- Lengths change by a digit in front, by operators and by reserved words only, and behind the
first character each one is sanitised by itself. Reserved words come of ten names. -/
theorem characters_spec :
    (∀ name, Plain name → ¬ SpellsReserved name → PlaceSpec name (sanitize name)) ∧
    (∀ front rest, front ≠ "" → ¬ SpellsReserved front → ¬ SpellsReserved (front ++ rest) →
      AppendSpec front rest) ∧
    ∀ name, SpellsReserved name ↔ name ∈ replacedNames :=
  ⟨fun _ => placeSpec_of_plain, fun _ _ => appendSpec_of_unreserved, fun _ => spellsReserved_iff⟩

/-- A name whose characters are kept, masked and capitalised, and one that begins with a digit and
goes on with operators. -/
theorem characters_spec_of_two_names :
    Plain "a é!" ∧ ¬ SpellsReserved "a é!" ∧ PlaceSpec "a é!" (sanitize "a é!") ∧
    ¬ SpellsReserved "3D" ∧ ¬ SpellsReserved ("3D" ++ "-w*?") ∧ AppendSpec "3D" "-w*?" ∧
    sanitize "a é!" = "A_é_" ∧ sanitize ("3D" ++ "-w*?") = "ThreeDMinuswStar_" := by
  have hplain : Plain "a é!" := by
    have hchars : "a é!".toList = ['a', ' ', 'é', '!'] := rfl
    refine ⟨by decide, fun c hc => ?_, ?_⟩
    · obtain rfl := Option.some.inj hc
      rfl
    · rw [hchars]
      simp [operators]
  have hname : ¬ SpellsReserved "a é!" := by decide
  have hfront : ¬ SpellsReserved "3D" := by decide
  have hwhole : ¬ SpellsReserved ("3D" ++ "-w*?") := by decide
  exact ⟨hplain, hname, characters_spec.1 _ hplain hname, hfront, hwhole,
    characters_spec.2.1 _ _ (by decide) hfront hwhole, by decide +kernel, by decide +kernel⟩

end EngineNames.Identifier
