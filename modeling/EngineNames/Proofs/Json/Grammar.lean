import EngineNames.Proofs.Json.Numbers
import EngineNames.Proofs.Json.Quoted
import EngineNames.Proofs.Json.Steps

/-! # The grammar of JSON

What a text has to be like to be passed over: a value of any kind with blanks in front, to any depth
and with numbers of any size. A reader that passes over a value stops right behind it.
-/

namespace EngineNames.Json

/-- What a part of a text is: a value, or what follows the opening bracket of an array or object
that is not empty. -/
inductive Phrase where
  | value
  | elements
  | members

/-- The texts of each phrase. -/
inductive Derives : Phrase → List Char → Prop where
  | blank {c t} (hc : isBlank c = true) (h : Derives .value t) : Derives .value (c :: t)
  | null : Derives .value "null".toList
  | true : Derives .value "true".toList
  | false : Derives .value "false".toList
  | number {t} (h : Number t) : Derives .value t
  | text {t} (h : Quotable t) : Derives .value ('"' :: (t ++ ['"']))
  | emptyArray {gap} (h : Blank gap) : Derives .value ('[' :: (gap ++ [']']))
  | array {t} (h : Derives .elements t) : Derives .value ('[' :: t)
  | emptyObject {gap} (h : Blank gap) : Derives .value ('{' :: (gap ++ ['}']))
  | object {t} (h : Derives .members t) : Derives .value ('{' :: t)
  | lastElement {v gap} (hv : Derives .value v) (hgap : Blank gap) :
      Derives .elements (v ++ (gap ++ [']']))
  | moreElements {v gap t} (hv : Derives .value v) (hgap : Blank gap)
      (h : Derives .elements t) : Derives .elements (v ++ (gap ++ ',' :: t))
  | lastMember {before key between v gap} (hbefore : Blank before) (hkey : Quotable key)
      (hbetween : Blank between) (hv : Derives .value v) (hgap : Blank gap) :
      Derives .members (before ++ '"' :: (key ++ '"' :: (between ++ ':' :: (v ++ (gap ++ ['}'])))))
  | moreMembers {before key between v gap t} (hbefore : Blank before) (hkey : Quotable key)
      (hbetween : Blank between) (hv : Derives .value v) (hgap : Blank gap)
      (h : Derives .members t) : Derives .members
        (before ++ '"' :: (key ++ '"' :: (between ++ ':' :: (v ++ (gap ++ ',' :: t)))))

/-- Passes over a phrase. -/
def Phrase.skip : Phrase → ℕ → Reader Unit
  | value => Json.skip
  | elements => skipElements
  | members => skipMembers

/-- A value may end where the text does, or in front of anything but a longer number. The other
phrases end with their closing brackets. -/
def Phrase.MayEnd : Phrase → List Char → Prop
  | value => Ends
  | _ => fun _ => True

/-- Steps that are enough for a phrase of this length. -/
def Phrase.steps : Phrase → ℕ → ℕ
  | value, length => 2 * length
  | _, length => 2 * length + 1

variable {phrase : Phrase} {s left t gap rest : List Char} {c : Char} {fuel : ℕ}

/-! ## Where values end -/

theorem ends_nil : Ends [] :=
  fun _ hc => absurd hc (by simp)

/-- Behind a value stand blanks and then no part of a number. -/
theorem ends_gap (hgap : Blank gap) (hc : c = ',' ∨ c = ']' ∨ c = '}') (rest : List Char) :
    Ends (gap ++ c :: rest) := by
  intro d hd
  have hfirst : isBlank d = true ∨ d = ',' ∨ d = ']' ∨ d = '}' := by
    cases gap with
    | nil =>
        obtain rfl := Option.some.inj hd
        exact .inr hc
    | cons b gap =>
        obtain rfl := Option.some.inj hd
        exact .inl (hgap b List.mem_cons_self)
  simp only [isBlank, Bool.or_eq_true, decide_eq_true_eq] at hfirst
  rcases hfirst with (((rfl | rfl) | rfl) | rfl) | rfl | rfl | rfl <;> decide

/-! ## Passing over a value -/

theorem skip_congr (h : look s = look left) (fuel : ℕ) : skip fuel s = skip fuel left := by
  cases fuel with
  | zero => rfl
  | succ fuel => rw [skip, bind_congr_run h]

theorem skip_null (h : look s = .ok ('n', left)) : skip (fuel + 1) s = literal "null" left := by
  rw [skip, bind_run h, if_pos rfl]

theorem skip_true (h : look s = .ok ('t', left)) : skip (fuel + 1) s = literal "true" left := by
  rw [skip, bind_run h, if_neg (by decide), if_pos rfl]

theorem skip_false (h : look s = .ok ('f', left)) : skip (fuel + 1) s = literal "false" left := by
  rw [skip, bind_run h, if_neg (by decide), if_neg (by decide), if_pos rfl]

theorem skip_text (h : look s = .ok ('"', '"' :: left)) :
    skip (fuel + 1) s = skipQuoted left := by
  rw [skip, bind_run h, if_neg (by decide), if_neg (by decide), if_neg (by decide), if_pos rfl]
  rfl

theorem skip_number (fuel : ℕ) (h : look s = .ok (c, left)) (hc : (c = '-' || isDigit c) = true) :
    skip (fuel + 1) s = (numeral .malformed left).map fun (_, rest) => ((), rest) := by
  have hne : c ≠ 'n' ∧ c ≠ 't' ∧ c ≠ 'f' ∧ c ≠ '"' := by
    refine ⟨?_, ?_, ?_, ?_⟩ <;> rintro rfl <;> exact absurd hc (by decide)
  rw [skip, bind_run h, if_neg hne.1, if_neg hne.2.1, if_neg hne.2.2.1, if_neg hne.2.2.2,
    if_pos hc]

theorem skip_array (h : look s = .ok ('[', '[' :: left)) : skip (fuel + 1) s =
    (look >>= fun c => if c = ']' then advance else skipElements fuel) left := by
  rw [skip, bind_run h, if_neg (by decide), if_neg (by decide), if_neg (by decide),
    if_neg (by decide), if_neg (by decide), if_pos rfl]
  rfl

theorem skip_object (h : look s = .ok ('{', '{' :: left)) : skip (fuel + 1) s =
    (look >>= fun c => if c = '}' then advance else skipMembers fuel) left := by
  rw [skip, bind_run h, if_neg (by decide), if_neg (by decide), if_neg (by decide),
    if_neg (by decide), if_neg (by decide), if_neg (by decide), if_pos rfl]
  rfl

theorem skipElements_congr (h : look s = look left) (fuel : ℕ) :
    skipElements fuel s = skipElements fuel left := by
  cases fuel with
  | zero => rfl
  | succ fuel => rw [skipElements, bind_congr_run (skip_congr h fuel)]

theorem skipMembers_congr (h : look s = look left) (fuel : ℕ) :
    skipMembers fuel s = skipMembers fuel left := by
  cases fuel with
  | zero => rfl
  | succ fuel =>
      have hexpect : expect '"' s = expect '"' left := bind_congr_run h
      rw [skipMembers, bind_congr_run hexpect]

/-! ## Where phrases begin -/

theorem Number.exists_cons (h : Number t) :
    ∃ c s, t = c :: s ∧ (c = '-' || isDigit c) = true := by
  obtain ⟨hsign, hwhole, _, _⟩ := h
  rcases hsign with rfl | rfl
  · obtain ⟨c, cs, rfl⟩ := List.exists_cons_of_ne_nil hwhole.ne_nil
    exact ⟨c, _, rfl, by simp [hwhole.isDigit c List.mem_cons_self]⟩
  · exact ⟨'-', _, rfl, rfl⟩

theorem isBlank_of_number (hc : (c = '-' || isDigit c) = true) : isBlank c = false := by
  by_contra hblank
  simp only [isBlank, Bool.not_eq_false, Bool.or_eq_true, decide_eq_true_eq] at hblank
  rcases hblank with ((rfl | rfl) | rfl) | rfl <;> exact absurd hc (by decide)

/-- A phrase begins with something other than a closing bracket. -/
theorem Derives.exists_look (h : Derives phrase t) (rest : List Char) :
    ∃ c left, look (t ++ rest) = .ok (c, left) ∧ c ≠ ']' ∧ c ≠ '}' := by
  induction h generalizing rest with
  | blank hc _ ih =>
      rw [List.cons_append, look_blank hc]
      exact ih rest
  | null => exact ⟨'n', _, look_cons rfl _, by decide, by decide⟩
  | true => exact ⟨'t', _, look_cons rfl _, by decide, by decide⟩
  | false => exact ⟨'f', _, look_cons rfl _, by decide, by decide⟩
  | number h =>
      obtain ⟨c, s, rfl, hc⟩ := h.exists_cons
      refine ⟨c, _, look_cons (isBlank_of_number hc) _, ?_, ?_⟩ <;>
        rintro rfl <;> exact absurd hc (by decide)
  | text => exact ⟨'"', _, look_cons rfl _, by decide, by decide⟩
  | emptyArray => exact ⟨'[', _, look_cons rfl _, by decide, by decide⟩
  | array => exact ⟨'[', _, look_cons rfl _, by decide, by decide⟩
  | emptyObject => exact ⟨'{', _, look_cons rfl _, by decide, by decide⟩
  | object => exact ⟨'{', _, look_cons rfl _, by decide, by decide⟩
  | lastElement _ _ ih =>
      rw [List.append_assoc]
      exact ih _
  | moreElements _ _ _ ih =>
      rw [List.append_assoc]
      exact ih _
  | lastMember hbefore =>
      rw [List.append_assoc]
      exact ⟨'"', _, look_eq hbefore rfl _, by decide, by decide⟩
  | moreMembers hbefore =>
      rw [List.append_assoc]
      exact ⟨'"', _, look_eq hbefore rfl _, by decide, by decide⟩

/-! ## Passing over phrases -/

/-- Goes on behind a comma and stops behind a closing bracket. -/
def moreUntil {α : Type} (close : Char) (next : Reader α) (a : α) : Reader α := do
  let c ← look
  advance
  if c = ',' then next
  else if c = close then return a
  else throw .malformed

theorem moreUntil_comma {α : Type} {next : Reader α} {a : α} {close : Char}
    (h : look s = .ok (',', ',' :: left)) : moreUntil close next a s = next left := by
  rw [moreUntil, bind_run h, bind_run (advance_cons ',' left), if_pos rfl]

theorem moreUntil_close {α : Type} {next : Reader α} {a : α} (h : look s = .ok (c, c :: left))
    (hc : c ≠ ',') : moreUntil c next a s = .ok (a, left) := by
  rw [moreUntil, bind_run h, bind_run (advance_cons c left), if_neg hc, if_pos rfl]
  rfl

theorem skipElements_eq (hv : skip fuel s = .ok ((), left)) :
    skipElements (fuel + 1) s = moreUntil ']' (skipElements fuel) () left := by
  rw [skipElements, bind_run hv]
  rfl

theorem skipMembers_eq {afterQuote afterKey afterColon : List Char}
    (hopen : expect '"' s = .ok ((), afterQuote)) (hkey : skipQuoted afterQuote = .ok ((), afterKey))
    (hcolon : expect ':' afterKey = .ok ((), afterColon)) (hv : skip fuel afterColon = .ok ((), left)) :
    skipMembers (fuel + 1) s = moreUntil '}' (skipMembers fuel) () left := by
  rw [skipMembers, bind_run hopen, bind_run hkey, bind_run hcolon, bind_run hv]
  rfl

theorem exists_fuel {steps : ℕ} (h : 0 < steps) (hfuel : steps ≤ fuel) : ∃ n, fuel = n + 1 :=
  ⟨fuel - 1, by omega⟩

/-- A phrase is passed over to its end, with fuel for twice its length. -/
theorem Derives.skip_eq (h : Derives phrase t) (hfuel : phrase.steps t.length ≤ fuel)
    (hrest : phrase.MayEnd rest) : phrase.skip fuel (t ++ rest) = .ok ((), rest) := by
  -- A phrase is longer than its parts, but elements begin where their first value does and need
  -- one step more than it.
  induction h generalizing fuel rest with
  | @blank c t hc _ ih =>
      have hshorter : Phrase.value.steps t.length ≤ Phrase.value.steps (c :: t).length := by
        simp only [Phrase.steps, List.length_cons]
        omega
      exact (skip_congr (look_blank hc _) fuel).trans (ih (Nat.le_trans hshorter hfuel) hrest)
  | null =>
      obtain ⟨fuel, rfl⟩ := exists_fuel (by decide) hfuel
      exact (skip_null (look_cons rfl _)).trans (literal_append "null" rest)
  | true =>
      obtain ⟨fuel, rfl⟩ := exists_fuel (by decide) hfuel
      exact (skip_true (look_cons rfl _)).trans (literal_append "true" rest)
  | false =>
      obtain ⟨fuel, rfl⟩ := exists_fuel (by decide) hfuel
      exact (skip_false (look_cons rfl _)).trans (literal_append "false" rest)
  | number h =>
      obtain ⟨c, s, rfl, hc⟩ := h.exists_cons
      obtain ⟨fuel, rfl⟩ := exists_fuel (by simp [Phrase.steps]) hfuel
      obtain ⟨x, hx⟩ := h.exists_numeral .malformed hrest
      have hskip := skip_number fuel (look_cons (isBlank_of_number hc) (s ++ rest)) hc
      rw [← List.cons_append, hx] at hskip
      exact hskip
  | text h =>
      obtain ⟨fuel, rfl⟩ := exists_fuel (by simp [Phrase.steps]) hfuel
      have hskip := h.skipQuoted_eq rest
      rw [List.cons_append, List.append_assoc]
      exact (skip_text (look_cons rfl _)).trans hskip
  | @emptyArray gap hgap =>
      obtain ⟨fuel, rfl⟩ := exists_fuel (by simp [Phrase.steps]) hfuel
      rw [List.cons_append, List.append_assoc]
      refine (skip_array (look_cons rfl _)).trans ?_
      rw [List.singleton_append, bind_run (look_eq hgap rfl _), if_pos rfl]
      rfl
  | @array t h ih =>
      obtain ⟨fuel, rfl⟩ := exists_fuel (by simp [Phrase.steps]) hfuel
      obtain ⟨c, left, hlook, hc, _⟩ := h.exists_look rest
      refine (skip_array (look_cons rfl (t ++ rest))).trans ?_
      rw [bind_run hlook, if_neg hc, skipElements_congr (look_again hlook)]
      refine ih ?_ trivial
      simp only [Phrase.steps, List.length_cons] at hfuel ⊢
      omega
  | @emptyObject gap hgap =>
      obtain ⟨fuel, rfl⟩ := exists_fuel (by simp [Phrase.steps]) hfuel
      rw [List.cons_append, List.append_assoc]
      refine (skip_object (look_cons rfl _)).trans ?_
      rw [List.singleton_append, bind_run (look_eq hgap rfl _), if_pos rfl]
      rfl
  | @object t h ih =>
      obtain ⟨fuel, rfl⟩ := exists_fuel (by simp [Phrase.steps]) hfuel
      obtain ⟨c, left, hlook, _, hc⟩ := h.exists_look rest
      refine (skip_object (look_cons rfl (t ++ rest))).trans ?_
      rw [bind_run hlook, if_neg hc, skipMembers_congr (look_again hlook)]
      refine ih ?_ trivial
      simp only [Phrase.steps, List.length_cons] at hfuel ⊢
      omega
  | @lastElement v gap _ hgap ih =>
      obtain ⟨fuel, rfl⟩ := exists_fuel (by simp [Phrase.steps]) hfuel
      simp only [Phrase.steps, List.length_append, List.length_cons] at hfuel
      have hv : skip fuel (v ++ (gap ++ ']' :: rest)) = .ok ((), gap ++ ']' :: rest) :=
        ih (by simp only [Phrase.steps]; omega) (ends_gap hgap (by simp) rest)
      rw [List.append_assoc, List.append_assoc]
      exact (skipElements_eq hv).trans (moreUntil_close (look_eq hgap rfl rest) (by decide))
  | @moreElements v gap t _ hgap _ ihv ih =>
      obtain ⟨fuel, rfl⟩ := exists_fuel (by simp [Phrase.steps]) hfuel
      simp only [Phrase.steps, List.length_append, List.length_cons] at hfuel
      have hv : skip fuel (v ++ (gap ++ ',' :: (t ++ rest))) =
          .ok ((), gap ++ ',' :: (t ++ rest)) :=
        ihv (by simp only [Phrase.steps]; omega) (ends_gap hgap (by simp) (t ++ rest))
      rw [List.append_assoc, List.append_assoc]
      refine (skipElements_eq hv).trans ((moreUntil_comma (look_eq hgap rfl _)).trans (ih ?_ trivial))
      simp only [Phrase.steps]
      omega
  | @lastMember before key between v gap hbefore hkey hbetween _ hgap ih =>
      obtain ⟨fuel, rfl⟩ := exists_fuel (by simp [Phrase.steps]) hfuel
      simp only [Phrase.steps, List.length_append, List.length_cons] at hfuel
      have hv : skip fuel (v ++ (gap ++ '}' :: rest)) = .ok ((), gap ++ '}' :: rest) :=
        ih (by simp only [Phrase.steps]; omega) (ends_gap hgap (by simp) rest)
      simp only [List.append_assoc, List.cons_append, List.nil_append]
      exact (skipMembers_eq (expect_eq hbefore rfl _) (hkey.skipQuoted_eq _)
        (expect_eq hbetween rfl _) hv).trans
        (moreUntil_close (look_eq hgap rfl rest) (by decide))
  | @moreMembers before key between v gap t hbefore hkey hbetween _ hgap _ ihv ih =>
      obtain ⟨fuel, rfl⟩ := exists_fuel (by simp [Phrase.steps]) hfuel
      simp only [Phrase.steps, List.length_append, List.length_cons] at hfuel
      have hv : skip fuel (v ++ (gap ++ ',' :: (t ++ rest))) =
          .ok ((), gap ++ ',' :: (t ++ rest)) :=
        ihv (by simp only [Phrase.steps]; omega) (ends_gap hgap (by simp) (t ++ rest))
      simp only [List.append_assoc, List.cons_append]
      refine (skipMembers_eq (expect_eq hbefore rfl _) (hkey.skipQuoted_eq _)
        (expect_eq hbetween rfl _) hv).trans
        ((moreUntil_comma (look_eq hgap rfl _)).trans (ih ?_ trivial))
      simp only [Phrase.steps]
      omega

end EngineNames.Json
