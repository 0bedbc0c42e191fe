import EngineNames.Proofs.Identifier.WellFormed

/-! # Sanitising makes identifiers and keeps them

Each character has an image that may stand where it does, so what is spelled is an identifier up to
reserved words. A character of an identifier is its own image.
-/

namespace EngineNames.Identifier

/-! ## Images of characters -/

theorem isContinue_of_mem_innerImage {c d : Char} (h : d ∈ innerImage c) :
    isContinue d = true := by
  unfold innerImage at h
  split at h
  · rename_i word hw
    exact isContinue_of_isSpelled (isSpelled_of_operatorWord? hw) d h
  · split at h
    · rename_i hc
      obtain rfl := List.mem_singleton.mp h
      exact hc
    · obtain rfl := List.mem_singleton.mp h
      exact isContinue_underscore

theorem isSpelled_firstImage (c : Char) : isSpelled (firstImage c) = true := by
  have hs : ∀ {d : Char}, opens d = true → isSpelled [d] = true := by
    intro d hd
    simp [isSpelled, hd]
  unfold firstImage
  split
  · rename_i hw
    exact isSpelled_of_digitWord? hw
  · rename_i hw
    exact isSpelled_of_operatorWord? hw
  · split
    · rename_i hl
      rw [Bool.and_eq_true] at hl
      exact hs (opens_toUpper hl.1)
    · rename_i hl
      split
      · rename_i ho
        refine hs ?_
        rw [opens, ho, (Bool.not_eq_true _).mp hl]
        rfl
      · exact hs (by decide)

theorem innerImage_of_isContinue {c : Char} (h : isContinue c = true) : innerImage c = [c] := by
  rw [innerImage, operatorWord?_of_isContinue h]
  exact if_pos h

theorem firstImage_of_opens {c : Char} (h : opens c = true) : firstImage c = [c] := by
  have hw : isSpelled [c] = true := by simp [isSpelled, h]
  have hc : isContinue c = true := isContinue_of_isSpelled hw c (by simp)
  rw [firstImage, digitWord?_of_opens h, operatorWord?_of_isContinue hc]
  simp only [opens, Bool.and_eq_true, Bool.not_eq_true'] at h
  simp [h.1, h.2]

/-! ## Spelling -/

theorem isSpelled_spell (name : List Char) : isSpelled (spell name) = true := by
  cases name with
  | nil => decide
  | cons c rest =>
      refine isSpelled_append (isSpelled_firstImage c) ?_
      intro d hd
      obtain ⟨e, _, he⟩ := List.mem_flatMap.mp hd
      exact isContinue_of_mem_innerImage he

theorem flatMap_innerImage {rest : List Char} (h : ∀ c ∈ rest, isContinue c = true) :
    rest.flatMap innerImage = rest := by
  induction rest with
  | nil => rfl
  | cons c rest ih =>
      rw [List.flatMap_cons, innerImage_of_isContinue (h c (by simp)),
        ih fun d hd => h d (by simp [hd])]
      rfl

theorem spell_of_isSpelled {word : List Char} (h : isSpelled word = true) : spell word = word := by
  cases word with
  | nil => cases h
  | cons c rest =>
      simp only [isSpelled, Bool.and_eq_true, List.all_eq_true] at h
      rw [spell, firstImage_of_opens h.1, flatMap_innerImage h.2]
      rfl

/-! ## Reserved words -/

theorem underscore_notMem_reserved : ∀ entry ∈ reservedWords, '_' ∉ entry.1.toList := by
  decide

theorem wellFormed_avoidReserved {word : String} (h : isSpelled word.toList = true) :
    WellFormed (avoidReserved word) := by
  have hr : ∀ entry ∈ reservedWords, WellFormed entry.2 := by decide
  unfold avoidReserved
  split
  · rename_i entry he
    exact hr entry (List.mem_of_find?_eq_some he)
  · rename_i he
    refine ⟨h, ?_⟩
    intro entry hm hw
    have hn := List.find?_eq_none.mp he entry hm
    simp [hw] at hn

theorem avoidReserved_of_unreserved {word : String}
    (h : ∀ entry ∈ reservedWords, word ≠ entry.1) : avoidReserved word = word := by
  have hn : reservedWords.find? (·.1 == word) = none := by
    refine List.find?_eq_none.mpr ?_
    intro entry hm he
    exact h entry hm (eq_of_beq he).symm
  rw [avoidReserved, hn]

/-! ## Fixed points -/

theorem wellFormed_sanitize (name : String) : WellFormed (sanitize name) := by
  refine wellFormed_avoidReserved ?_
  rw [String.toList_ofList]
  exact isSpelled_spell name.toList

theorem WellFormed.sanitize_eq {word : String} (h : WellFormed word) : sanitize word = word := by
  rw [sanitize, spell_of_isSpelled h.spelled, String.ofList_toList]
  exact avoidReserved_of_unreserved h.unreserved

theorem isIdentifier_iff_wellFormed {word : String} :
    isIdentifier word = true ↔ WellFormed word := by
  rw [isIdentifier, beq_iff_eq]
  constructor
  · intro h
    rw [← h]
    exact wellFormed_sanitize word
  · exact WellFormed.sanitize_eq

/-- The keywords of C++, alternative tokens included. -/
def keywords : List String :=
  ["alignas", "alignof", "and", "and_eq", "asm", "auto", "bitand", "bitor", "bool", "break",
    "case", "catch", "char", "char8_t", "char16_t", "char32_t", "class", "compl", "concept",
    "const", "consteval", "constexpr", "constinit", "const_cast", "continue", "co_await",
    "co_return", "co_yield", "decltype", "default", "delete", "do", "double", "dynamic_cast",
    "else", "enum", "explicit", "export", "extern", "false", "float", "for", "friend", "goto",
    "if", "inline", "int", "long", "mutable", "namespace", "new", "noexcept", "not", "not_eq",
    "nullptr", "operator", "or", "or_eq", "private", "protected", "public", "register",
    "reinterpret_cast", "requires", "return", "short", "signed", "sizeof", "static",
    "static_assert", "static_cast", "struct", "switch", "template", "this", "thread_local",
    "throw", "true", "try", "typedef", "typeid", "typename", "union", "unsigned", "using",
    "virtual", "void", "volatile", "wchar_t", "while", "xor", "xor_eq"]

/-- Keywords begin with a small letter, and those that begin with `b` are four. -/
theorem keyword_first : ∀ word ∈ keywords, ∃ c ∈ word.toList.head?, c.isLower = true ∧
    (c = 'b' ↔ word ∈ ["bitand", "bitor", "bool", "break"]) := by
  have hlower : ∀ word ∈ keywords, word.toList.head?.any Char.isLower = true := by decide
  have hfour : keywords.filter (fun word => word.toList.head? == some 'b') =
      ["bitand", "bitor", "bool", "break"] := by
    decide
  intro word hword
  obtain ⟨c, hc, hl⟩ := (Option.any_eq_true _ _).mp (hlower word hword)
  refine ⟨c, hc, hl, ?_⟩
  rw [← hfour, List.mem_filter, hc]
  simp [hword]

theorem not_wellFormed_of_mem_keywords {word : String} (h : word ∈ keywords) :
    ¬ WellFormed word := by
  intro hw
  obtain ⟨c, hc, hl, hb⟩ := keyword_first word h
  by_cases hbc : c = 'b'
  · have hr : ∀ word ∈ ["bitand", "bitor", "bool", "break"],
        ∃ entry ∈ reservedWords, word = entry.1 := by decide
    obtain ⟨entry, hm, he⟩ := hr word (hb.mp hbc)
    exact hw.unreserved entry hm he
  · obtain ⟨rest, hs⟩ := List.head?_eq_some_iff.mp (Option.mem_def.mp hc)
    have hsp := hw.spelled
    simp [hs, isSpelled, opens, hl, hbc] at hsp

/-- Sanitising is a projection onto the well-formed identifiers, none of which is a keyword. -/
theorem sanitize_projects :
    (∀ name, WellFormed (sanitize name)) ∧
    (∀ word, WellFormed word → sanitize word = word) ∧
    (∀ name, sanitize (sanitize name) = sanitize name) ∧
    (∀ word, isIdentifier word = true ↔ WellFormed word) ∧
    (∀ name, sanitize name ∉ keywords) ∧
    (∀ word ∈ keywords, ∃ c ∈ word.toList.head?, c.isLower = true ∧
      (c = 'b' ↔ word ∈ ["bitand", "bitor", "bool", "break"])) := by
  refine ⟨wellFormed_sanitize, fun _ => WellFormed.sanitize_eq,
    fun name => (wellFormed_sanitize name).sanitize_eq, fun _ => isIdentifier_iff_wellFormed,
    ?_, keyword_first⟩
  intro name hm
  exact not_wellFormed_of_mem_keywords hm (wellFormed_sanitize name)

example : sanitize "tRUE" = "TRUEVal" := by decide

end EngineNames.Identifier
