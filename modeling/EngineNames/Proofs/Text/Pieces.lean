import Mathlib.Data.List.Infix
import Mathlib.Tactic.Common

/-! # Pieces of a text

A text is cut at its separators from the left, each as early as possible. Joined pieces come apart
again where the separator has a character that the pieces lack: wherever the separator stands, that
character stands outside of the pieces.
-/

namespace EngineNames.Separator

/-- The text is cut at every separator, the next one first. -/
inductive Splits (sep : List Char) : List Char → List (List Char) → Prop where
  | last {text : List Char} (h : ¬ sep <:+: text) : Splits sep text [text]
  | more {piece rest : List Char} {pieces : List (List Char)}
      (hfirst : ∀ i < piece.length, ¬ sep <+: (piece ++ (sep ++ rest)).drop i)
      (h : Splits sep rest pieces) : Splits sep (piece ++ (sep ++ rest)) (piece :: pieces)

variable {sep text piece rest : List Char} {pieces others : List (List Char)}

theorem isInfix_of_split (piece rest : List Char) : sep <:+: piece ++ (sep ++ rest) :=
  ⟨piece, rest, List.append_assoc piece sep rest⟩

/-- A piece up to the next separator is no longer than any other. -/
theorem length_le_of_first {other tail : List Char}
    (hfirst : ∀ i < piece.length, ¬ sep <+: (piece ++ (sep ++ rest)).drop i)
    (htext : piece ++ (sep ++ rest) = other ++ (sep ++ tail)) : piece.length ≤ other.length := by
  by_contra hlt
  refine hfirst other.length (Nat.lt_of_not_le hlt) ?_
  rw [htext, List.drop_left]
  exact List.prefix_append sep tail

theorem Splits.unique (h : Splits sep text pieces) (h' : Splits sep text others) :
    pieces = others := by
  induction h generalizing others with
  | last hnone =>
      cases h' with
      | last => rfl
      | more => exact absurd (isInfix_of_split _ _) hnone
  | @more piece rest pieces hfirst _ ih =>
      generalize htext : piece ++ (sep ++ rest) = text at h'
      cases h' with
      | last hnone => exact absurd (htext ▸ isInfix_of_split piece rest) hnone
      | @more other tail others hfirst' hrest =>
          have hlength : piece.length = other.length :=
            Nat.le_antisymm (length_le_of_first hfirst htext) (length_le_of_first hfirst' htext.symm)
          obtain ⟨rfl, hafter⟩ := List.append_inj htext hlength
          rw [ih (List.append_cancel_left hafter ▸ hrest)]

/-! ## Joined pieces

The pieces are of plain characters, and the separator has a mark, which is a character that is not
plain. -/

section Joined

variable {plain : Char → Bool} {run before after : List Char} {mark : Char}

theorem exists_first_mark (h : ∃ c ∈ sep, plain c = false) : ∃ before mark after,
    sep = before ++ mark :: after ∧ (∀ c ∈ before, plain c = true) ∧ plain mark = false := by
  induction sep with
  | nil => simp at h
  | cons c sep ih =>
      by_cases hc : plain c = true
      · have hsep : ∃ c ∈ sep, plain c = false := by simpa [hc] using h
        obtain ⟨before, mark, after, rfl, hbefore, hmark⟩ := ih hsep
        exact ⟨c :: before, mark, after, rfl, List.forall_mem_cons.mpr ⟨hc, hbefore⟩, hmark⟩
      · exact ⟨[], c, sep, rfl, by simp, by simpa using hc⟩

theorem exists_last_mark (h : ∃ c ∈ sep, plain c = false) : ∃ before mark after,
    sep = before ++ mark :: after ∧ (∀ c ∈ after, plain c = true) ∧ plain mark = false := by
  have hreverse : ∃ c ∈ sep.reverse, plain c = false := by simpa using h
  obtain ⟨after, mark, before, hsep, hafter, hmark⟩ := exists_first_mark hreverse
  refine ⟨before.reverse, mark, after.reverse, ?_, by simpa using hafter, hmark⟩
  rw [← List.reverse_reverse sep, hsep]
  simp

/-- No separator begins within plain characters that reach beyond its own first ones. -/
theorem not_isPrefix_of_plain (hmark : plain mark = false) (hrun : ∀ c ∈ run, plain c = true)
    (hlength : before.length < run.length) : ¬ before ++ mark :: after <+: run ++ rest := by
  intro hfront
  have hsplit : before ++ mark :: after = (before ++ [mark]) ++ after := by simp
  rw [hsplit] at hfront
  have hin : before ++ [mark] <+: run :=
    List.prefix_of_prefix_length_le ((List.prefix_append _ _).trans hfront)
      (List.prefix_append run rest) (by simpa [Nat.succ_le_iff] using hlength)
  have hmem := hrun mark (hin.subset (by simp))
  rw [hmark] at hmem
  cases hmem

theorem not_isSuffix_of_plain (hmark : plain mark = false) (hrun : ∀ c ∈ run, plain c = true)
    (hlength : after.length < run.length) : ¬ before ++ mark :: after <:+ rest ++ run := by
  have hreverse : ¬ after.reverse ++ mark :: before.reverse <+: run.reverse ++ rest.reverse :=
    not_isPrefix_of_plain hmark (by simpa using hrun) (by simpa using hlength)
  rw [← List.reverse_prefix]
  simpa using hreverse

theorem not_isInfix_of_plain (h : ∃ c ∈ sep, plain c = false) (hrun : ∀ c ∈ run, plain c = true) :
    ¬ sep <:+: run := by
  obtain ⟨c, hc, hplain⟩ := h
  intro hinside
  rw [hrun c (hinside.subset hc)] at hplain
  cases hplain

theorem intercalate_cons_cons (sep p q : List Char) (ps : List (List Char)) :
    sep.intercalate (p :: q :: ps) = p ++ (sep ++ sep.intercalate (q :: ps)) := by
  rw [List.intercalate_cons_cons, List.append_assoc]

/-- Joined pieces are the pieces that the text is cut into. -/
theorem splits_intercalate (h : ∃ c ∈ sep, plain c = false)
    (hplain : ∀ p ∈ pieces, ∀ c ∈ p, plain c = true) (hne : pieces ≠ []) :
    Splits sep (sep.intercalate pieces) pieces := by
  induction pieces with
  | nil => exact absurd rfl hne
  | cons p ps ih =>
      obtain ⟨hp, hps⟩ := List.forall_mem_cons.mp hplain
      cases ps with
      | nil =>
          rw [List.intercalate_singleton]
          exact .last (not_isInfix_of_plain h hp)
      | cons q qs =>
          rw [intercalate_cons_cons]
          refine .more (fun i hi => ?_) (ih hps (List.cons_ne_nil q qs))
          obtain ⟨before, mark, after, hsep, hbefore, hmark⟩ := exists_first_mark h
          have hrun : ∀ c ∈ p.drop i ++ before, plain c = true :=
            List.forall_mem_append.mpr ⟨fun c hc => hp c (List.mem_of_mem_drop hc), hbefore⟩
          have hstart : (p ++ (sep ++ sep.intercalate (q :: qs))).drop i = (p.drop i ++ before) ++
              (mark :: after ++ sep.intercalate (q :: qs)) := by
            rw [List.drop_append_of_le_length (Nat.le_of_lt hi), hsep]
            simp
          rw [hstart, hsep]
          refine not_isPrefix_of_plain hmark hrun ?_
          rw [List.length_append, List.length_drop]
          omega

/-- The first piece stands in front, with a separator behind it unless it is the only one. -/
theorem not_isPrefix_intercalate (h : ∃ c ∈ sep, plain c = false)
    (hplain : ∀ p ∈ pieces, ∀ c ∈ p, plain c = true) (hne : ∀ p ∈ pieces, p ≠ []) :
    ¬ sep <+: sep.intercalate pieces := by
  match pieces with
  | [] =>
      obtain ⟨c, hc, _⟩ := h
      simpa using List.ne_nil_of_mem hc
  | [p] =>
      rw [List.intercalate_singleton]
      exact fun hfront => not_isInfix_of_plain h (hplain p List.mem_cons_self) hfront.isInfix
  | p :: q :: qs =>
      obtain ⟨before, mark, after, hsep, hbefore, hmark⟩ := exists_first_mark h
      have hp : 0 < p.length := List.length_pos_iff.mpr (hne p List.mem_cons_self)
      have hrun : ∀ c ∈ p ++ before, plain c = true :=
        List.forall_mem_append.mpr ⟨hplain p List.mem_cons_self, hbefore⟩
      have hstart : sep.intercalate (p :: q :: qs) =
          (p ++ before) ++ (mark :: after ++ sep.intercalate (q :: qs)) := by
        rw [intercalate_cons_cons, hsep]
        simp
      rw [hstart, hsep]
      refine not_isPrefix_of_plain hmark hrun ?_
      rw [List.length_append]
      omega

/-- The last piece stands at the end, with a separator in front unless it is the only one. -/
theorem exists_last_piece (sep : List Char) (hne : pieces ≠ []) : ∃ p ∈ pieces,
    sep.intercalate pieces = p ∨ sep ++ p <:+ sep.intercalate pieces := by
  induction pieces with
  | nil => exact absurd rfl hne
  | cons p ps ih =>
      cases ps with
      | nil => exact ⟨p, List.mem_cons_self, .inl List.intercalate_singleton⟩
      | cons q qs =>
          obtain ⟨last, hlast, hend⟩ := ih (List.cons_ne_nil q qs)
          refine ⟨last, List.mem_cons_of_mem p hlast, .inr ?_⟩
          rw [intercalate_cons_cons]
          rcases hend with hend | hend
          · rw [hend]
            exact List.suffix_append p (sep ++ last)
          · exact hend.trans ((List.suffix_append sep _).trans (List.suffix_append p _))

theorem not_isSuffix_intercalate (h : ∃ c ∈ sep, plain c = false)
    (hplain : ∀ p ∈ pieces, ∀ c ∈ p, plain c = true) (hne : ∀ p ∈ pieces, p ≠ []) :
    ¬ sep <:+ sep.intercalate pieces := by
  by_cases hnil : pieces = []
  · obtain ⟨c, hc, _⟩ := h
    simpa [hnil] using List.ne_nil_of_mem hc
  · obtain ⟨last, hlast, heq | ⟨front, hfront⟩⟩ := exists_last_piece sep hnil
    · rw [heq]
      exact fun hsuffix => not_isInfix_of_plain h (hplain last hlast) hsuffix.isInfix
    · obtain ⟨before, mark, after, hsep, hafter, hmark⟩ := exists_last_mark h
      have hpos : 0 < last.length := List.length_pos_iff.mpr (hne last hlast)
      have hrun : ∀ c ∈ after ++ last, plain c = true :=
        List.forall_mem_append.mpr ⟨hafter, hplain last hlast⟩
      have hend : sep.intercalate pieces = (front ++ before ++ [mark]) ++ (after ++ last) := by
        rw [← hfront, hsep]
        simp
      rw [hend, hsep]
      refine not_isSuffix_of_plain hmark hrun ?_
      rw [List.length_append]
      omega

end Joined

end EngineNames.Separator
