import EngineNames.Name
import EngineNames.Proofs.Identifier.FixedPoints
import EngineNames.Proofs.Text.Repair

/-! # Display forms

The display form of a name is cut off behind the last slash while the name is still a sequence of
units, and decoded afterwards. No slash is made, lost or moved by decoding, whatever surrogates
stand beside it, so the same text stands behind the last slash of the decoded name.
-/

namespace EngineNames

/-! ## Behind the last separator -/

/-- The second list is what stands after the last separator in the first one; all of it if there is
no separator. -/
inductive AfterLast {α : Type} (separator : α) : List α → List α → Prop where
  | whole {part : List α} (h : separator ∉ part) : AfterLast separator part part
  | behind (front : List α) {part : List α} (h : separator ∉ part) :
      AfterLast separator (front ++ separator :: part) part

namespace AfterLast

variable {α : Type} {separator : α} {whole part other : List α}

theorem notMem (h : AfterLast separator whole part) : separator ∉ part := by
  cases h with
  | whole h => exact h
  | behind front h => exact h

theorem suffix (h : AfterLast separator whole part) : part <:+ whole := by
  cases h with
  | whole h => exact List.suffix_rfl
  | behind front h => exact (List.suffix_cons separator part).trans (List.suffix_append front _)

/-- A suffix that reaches further to the left contains the separator. -/
theorem suffix_of_notMem (h : AfterLast separator whole part) (hs : other <:+ whole)
    (hn : separator ∉ other) : other <:+ part := by
  cases h with
  | whole h => exact hs
  | behind front h =>
      rcases List.suffix_or_suffix_of_suffix hs (List.suffix_append front (separator :: part)) with
        hshort | hlong
      · rcases List.suffix_cons_iff.mp hshort with rfl | hin
        · exact absurd List.mem_cons_self hn
        · exact hin
      · exact absurd (hlong.mem List.mem_cons_self) hn

/-- There is one such part only. -/
theorem unique (h : AfterLast separator whole part) (ho : AfterLast separator whole other) :
    part = other := by
  have hle := (ho.suffix_of_notMem h.suffix h.notMem).length_le
  exact (ho.suffix_of_notMem h.suffix h.notMem).eq_of_length_le
    (h.suffix_of_notMem ho.suffix ho.notMem).length_le

end AfterLast

theorem afterLast_afterLastSlash (units : List UInt16) :
    AfterLast 0x2F units (afterLastSlash units) := by
  have hpart : 0x2F ∉ afterLastSlash units := by
    intro h
    have htaken := List.mem_takeWhile_imp (List.mem_reverse.mp h)
    simp at htaken
  have hsplit : units = (units.reverse.dropWhile (· != 0x2F)).reverse ++ afterLastSlash units := by
    rw [afterLastSlash, ← List.reverse_append, List.takeWhile_append_dropWhile,
      List.reverse_reverse]
  cases hfront : units.reverse.dropWhile (· != 0x2F) with
  | nil =>
      rw [hfront] at hsplit
      have hwhole : afterLastSlash units = units := hsplit.symm
      rw [hwhole] at hpart ⊢
      exact .whole hpart
  | cons unit front =>
      -- What stopped the search from the right is a slash.
      have hslash : unit = 0x2F := by
        have hstop := List.head?_dropWhile_not (· != (0x2F : UInt16)) units.reverse
        rw [hfront] at hstop
        simpa using hstop
      rw [hfront, hslash, List.reverse_cons, List.append_assoc, List.singleton_append] at hsplit
      have hbehind := AfterLast.behind front.reverse hpart
      rwa [← hsplit] at hbehind

/-! ## Decoding around a slash -/

namespace Utf16

/-- What stands before a unit that closes no pair is decoded by itself. -/
theorem decode_append_cons {v : UInt16} (hv : isTrail v = false) (front rest : List UInt16) :
    decode (front ++ v :: rest) = decode front ++ decode (v :: rest) := by
  induction front using decode.induct with
  | case1 => rfl
  | case2 u => simp [decode, hv]
  | case3 u w front h ih => simp [decode, h, ih]
  | case4 u w front h ih => simpa [decode, h] using ih

theorem decode_append_slash (front rest : List UInt16) :
    decode (front ++ 0x2F :: rest) = decode front ++ '/' :: decode rest := by
  rw [decode_append_cons rfl, decode_cons_of_isLead_eq_false rfl]
  rfl

theorem eq_slash_of_single {u : UInt16} (h : single u = '/') : u = 0x2F := by
  have hunit : repairUnit u = 0x2F := by
    have hencoded := encodeChar_single u
    rw [h] at hencoded
    exact (List.singleton_inj.mp hencoded).symm
  unfold repairUnit at hunit
  split at hunit
  · exact absurd hunit (by decide)
  · exact hunit

theorem pair_ne_slash {u v : UInt16} (hu : isLead u = true) (hv : isTrail v = true) :
    pair u v ≠ '/' := by
  intro h
  have hencoded := encodeChar_pair hu hv
  rw [h] at hencoded
  have hlength : (1 : ℕ) = 2 := congrArg List.length hencoded
  cases hlength

theorem slash_notMem_decode {units : List UInt16} (h : 0x2F ∉ units) : '/' ∉ decode units := by
  induction units using decode.induct with
  | case1 => exact List.not_mem_nil
  | case2 u =>
      intro hm
      exact h (List.mem_singleton.mpr (eq_slash_of_single (List.mem_singleton.mp hm).symm).symm)
  | case3 u v rest hp ih =>
      have hsurrogates := Bool.and_eq_true_iff.mp hp
      simp only [List.mem_cons, not_or] at h
      rw [decode, if_pos hp]
      simp only [List.mem_cons, not_or]
      exact ⟨(pair_ne_slash hsurrogates.1 hsurrogates.2).symm, ih h.2.2⟩
  | case4 u v rest hp ih =>
      rw [List.mem_cons, not_or] at h
      rw [decode, if_neg hp, List.mem_cons, not_or]
      exact ⟨fun hs => h.1 (eq_slash_of_single hs.symm).symm, ih h.2⟩

/-- Decoding goes well with cutting off behind the last slash. -/
theorem afterLast_decode {units part : List UInt16} (h : AfterLast 0x2F units part) :
    AfterLast '/' (decode units) (decode part) := by
  cases h with
  | whole h => exact .whole (slash_notMem_decode h)
  | behind front h =>
      rw [decode_append_slash]
      exact .behind _ (slash_notMem_decode h)

end Utf16

/-! ## Names -/

namespace Name

/-- What the three forms of a name with these units have to do with each other. -/
structure DisplaySpec (units : List UInt16) (n : Name) : Prop where
  raw : n.raw = units
  behind_slash : AfterLast '/' n.rawText.toList n.display.toList
  decoded : n.display = Utf16.toString n.displayUnits
  /-- The units of the display form are the longest suffix without a slash. -/
  suffix : n.displayUnits <:+ units
  no_slash : 0x2F ∉ n.displayUnits
  longest : ∀ part, part <:+ units → 0x2F ∉ part → part <:+ n.displayUnits
  identifier : n.identifier = Identifier.sanitize n.display
  valid : Identifier.isIdentifier n.identifier = true
  /-- The display form is its own display form. -/
  displayed_again : (ofUnits n.displayUnits).display = n.display
  identified_again : (ofUnits n.displayUnits).identifier = n.identifier
  empty_iff : n = .empty ↔ units = []

theorem afterLastSlash_idem (units : List UInt16) :
    afterLastSlash (afterLastSlash units) = afterLastSlash units := by
  have h := afterLast_afterLastSlash (afterLastSlash units)
  exact h.unique (.whole (afterLast_afterLastSlash units).notMem)

theorem ofUnits_eq_empty_iff {units : List UInt16} : ofUnits units = .empty ↔ units = [] := by
  constructor
  · intro h
    exact congrArg Name.raw h
  · rintro rfl
    rfl

/-- Whatever surrogates a name has, its display form is cut off behind the last slash both as units
and as text, and cutting off once more changes nothing. -/
theorem display_spec (units : List UInt16) : DisplaySpec units (ofUnits units) := by
  have hlast := afterLast_afterLastSlash units
  have hidentifier := identifier_ofUnits units
  refine ⟨rfl, ?_, rfl, hlast.suffix, hlast.notMem, ?_, hidentifier, ?_, ?_, ?_,
    ofUnits_eq_empty_iff⟩
  · simp only [rawText, ofUnits, Utf16.toString, String.toList_ofList]
    exact Utf16.afterLast_decode hlast
  · intro part hsuffix hno
    exact hlast.suffix_of_notMem hsuffix hno
  · rw [hidentifier, Identifier.isIdentifier_iff_wellFormed]
    exact Identifier.wellFormed_sanitize _
  · simp only [ofUnits, displayUnits, afterLastSlash_idem]
  · simp only [ofUnits, displayUnits, afterLastSlash_idem]

/-- A slash parts the halves of a surrogate pair, and each of them is read by itself. -/
example : (ofUnits [0xD83D, 0x2F, 0xDE00, 88]).display = "\uFFFDX" := by decide

end Name

end EngineNames
