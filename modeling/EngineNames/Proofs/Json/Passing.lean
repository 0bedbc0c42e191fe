import EngineNames.Proofs.Json.Records

/-! # What readers accept

What a reader gets on with is a value, so it could have been passed over as well: to the same place,
since more fuel never changes where passing over ends. In a text that is JSON a reader therefore
stops right behind the value, or it fails.
-/

namespace EngineNames.Json

variable {α β σ : Type} {phrase : Phrase} {s s' t left left' rest : List Char} {c : Char}
  {reader reader' : Reader α} {n m fuel : ℕ} {a a' : α}

/-! ## Fuel -/

/-- What the one reader accepts, the other reads in the same way. -/
def Within (reader reader' : Reader α) : Prop :=
  ∀ s p, reader s = .ok p → reader' s = .ok p

theorem Within.refl (reader : Reader α) : Within reader reader :=
  fun _ _ h => h

theorem Within.bind {next next' : α → Reader β} (h : Within reader reader')
    (hnext : ∀ a, Within (next a) (next' a)) : Within (reader >>= next) (reader' >>= next') := by
  intro s p hp
  obtain ⟨a, left, hreader, hp⟩ := bind_eq_ok_iff.mp hp
  exact bind_eq_ok_iff.mpr ⟨a, left, h s _ hreader, hnext a left _ hp⟩

theorem Within.ite {p : Prop} [Decidable p] {other other' : Reader α} (h : Within reader reader')
    (hother : Within other other') :
    Within (if p then reader else other) (if p then reader' else other') := by
  by_cases hp : p
  · rwa [if_pos hp, if_pos hp]
  · rwa [if_neg hp, if_neg hp]

theorem skip_within (phrase : Phrase) (fuel : ℕ) :
    Within (phrase.skip fuel) (phrase.skip (fuel + 1)) := by
  induction fuel generalizing phrase with
  | zero =>
      intro s p hp
      cases phrase <;> cases hp
  | succ fuel ih =>
      have hmore (phrase : Phrase) (close : Char) : Within
          (look >>= fun c => advance >>= fun _ =>
            if c = ',' then phrase.skip fuel else if c = close then pure () else throw .malformed)
          (look >>= fun c => advance >>= fun _ =>
            if c = ',' then phrase.skip (fuel + 1)
            else if c = close then pure () else throw .malformed) :=
        (Within.refl _).bind fun _ => (Within.refl _).bind fun _ => (ih phrase).ite (.refl _)
      have hinner (phrase : Phrase) (close : Char) : Within
          (advance >>= fun _ => look >>= fun c => if c = close then advance else phrase.skip fuel)
          (advance >>= fun _ => look >>= fun c =>
            if c = close then advance else phrase.skip (fuel + 1)) :=
        (Within.refl _).bind fun _ => (Within.refl _).bind fun _ => (Within.refl _).ite (ih phrase)
      cases phrase with
      | value =>
          show Within (Json.skip (fuel + 1)) (Json.skip (fuel + 2))
          rw [Json.skip, Json.skip]
          exact (Within.refl _).bind fun _ => (Within.refl _).ite <| (Within.refl _).ite <|
            (Within.refl _).ite <| (Within.refl _).ite <| (Within.refl _).ite <|
            (hinner .elements ']').ite <| (hinner .members '}').ite (.refl _)
      | elements =>
          show Within (skipElements (fuel + 1)) (skipElements (fuel + 2))
          rw [skipElements, skipElements]
          exact (ih .value).bind fun _ => hmore .elements ']'
      | members =>
          show Within (skipMembers (fuel + 1)) (skipMembers (fuel + 2))
          rw [skipMembers, skipMembers]
          exact (Within.refl _).bind fun _ => (Within.refl _).bind fun _ =>
            (Within.refl _).bind fun _ => (ih .value).bind fun _ => hmore .members '}'

theorem skip_mono (phrase : Phrase) (h : n ≤ m) : Within (phrase.skip n) (phrase.skip m) := by
  induction h with
  | refl => exact .refl _
  | step _ ih => exact fun s p hp => skip_within phrase _ s p (ih s p hp)

/-- With fuel enough the phrase is passed over to this point. -/
def Phrase.Skips (phrase : Phrase) (s left : List Char) : Prop :=
  ∃ fuel, phrase.skip fuel s = .ok ((), left)

theorem Phrase.Skips.unique (h : phrase.Skips s left) (h' : phrase.Skips s left') :
    left = left' := by
  obtain ⟨n, hn⟩ := h
  obtain ⟨m, hm⟩ := h'
  have heq := (skip_mono phrase (Nat.le_max_left n m) s _ hn).symm.trans
    (skip_mono phrase (Nat.le_max_right n m) s _ hm)
  exact (Prod.mk.inj (Except.ok.inj heq)).2

theorem Derives.skips (h : Derives phrase t) (hrest : phrase.MayEnd rest) :
    phrase.Skips (t ++ rest) rest :=
  ⟨_, h.skip_eq (Nat.le_refl _) hrest⟩

/-! ## What is passed over -/

/-- Behind a part of an array or object stands the closing bracket, or a comma and the other parts.
-/
def Phrase.Continues (phrase : Phrase) (close : Char) (s left : List Char) : Prop :=
  look s = .ok (close, close :: left) ∨
    ∃ s', look s = .ok (',', ',' :: s') ∧ phrase.Skips s' left

theorem Phrase.Continues.exists_moreUntil (h : phrase.Continues c s left) (hc : c ≠ ',') (n : ℕ) :
    ∃ m, n ≤ m ∧ moreUntil c (phrase.skip m) () s = .ok ((), left) := by
  rcases h with hclose | ⟨s', hcomma, k, hk⟩
  · exact ⟨n, Nat.le_refl n, moreUntil_close hclose hc⟩
  · refine ⟨max n k, Nat.le_max_left n k, (moreUntil_comma hcomma).trans ?_⟩
    exact skip_mono phrase (Nat.le_max_right n k) s' _ hk

theorem Phrase.Skips.of_look (h : phrase.Skips s' left) (hlook : look s = .ok (c, s')) :
    phrase.Skips s left := by
  obtain ⟨n, hn⟩ := h
  have hsame := look_again hlook
  cases phrase with
  | value => exact ⟨n, (skip_congr hsame n).symm.trans hn⟩
  | elements => exact ⟨n, (skipElements_congr hsame n).symm.trans hn⟩
  | members => exact ⟨n, (skipMembers_congr hsame n).symm.trans hn⟩

theorem skips_elements (hv : Phrase.value.Skips s s')
    (hmore : Phrase.elements.Continues ']' s' left) : Phrase.elements.Skips s left := by
  obtain ⟨n, hn⟩ := hv
  obtain ⟨m, hle, hm⟩ := hmore.exists_moreUntil (by decide) n
  exact ⟨m + 1, (skipElements_eq (skip_mono .value hle s _ hn)).trans hm⟩

theorem skips_members {afterQuote afterKey afterColon : List Char}
    (hopen : expect '"' s = .ok ((), afterQuote)) (hkey : skipQuoted afterQuote = .ok ((), afterKey))
    (hcolon : expect ':' afterKey = .ok ((), afterColon)) (hv : Phrase.value.Skips afterColon s')
    (hmore : Phrase.members.Continues '}' s' left) : Phrase.members.Skips s left := by
  obtain ⟨n, hn⟩ := hv
  obtain ⟨m, hle, hm⟩ := hmore.exists_moreUntil (by decide) n
  refine ⟨m + 1, (skipMembers_eq hopen hkey hcolon ?_).trans hm⟩
  exact skip_mono .value hle afterColon _ hn

theorem skips_array (h : look s = .ok ('[', '[' :: s')) (hfirst : look s' = .ok (c, t))
    (hc : c ≠ ']') (helements : Phrase.elements.Skips t left) : Phrase.value.Skips s left := by
  obtain ⟨n, hn⟩ := helements
  refine ⟨n + 1, (skip_array h).trans ?_⟩
  rw [bind_run hfirst, if_neg hc]
  exact hn

theorem skips_object (h : look s = .ok ('{', '{' :: s')) (hfirst : look s' = .ok (c, t))
    (hc : c ≠ '}') (hmembers : Phrase.members.Skips t left) : Phrase.value.Skips s left := by
  obtain ⟨n, hn⟩ := hmembers
  refine ⟨n + 1, (skip_object h).trans ?_⟩
  rw [bind_run hfirst, if_neg hc]
  exact hn

theorem skips_emptyArray (h : look s = .ok ('[', '[' :: s')) (hclose : look s' = .ok (']', t)) :
    Phrase.value.Skips s t.tail := by
  refine ⟨1, (skip_array h).trans ?_⟩
  rw [bind_run hclose, if_pos rfl]
  rfl

theorem skips_emptyObject (h : look s = .ok ('{', '{' :: s')) (hclose : look s' = .ok ('}', t)) :
    Phrase.value.Skips s t.tail := by
  refine ⟨1, (skip_object h).trans ?_⟩
  rw [bind_run hclose, if_pos rfl]
  rfl

/-! ## Accepted scalars -/

/-- What the reader accepts is a value that ends where the reader stops. -/
def Passes (reader : Reader α) : Prop :=
  ∀ s a left, reader s = .ok (a, left) → Phrase.value.Skips s left

theorem Passes.bind_pure (h : Passes reader) (f : α → β) :
    Passes (reader >>= fun a => pure (f a)) := by
  intro s b left hok
  obtain ⟨a, s', hreader, hpure⟩ := bind_eq_ok_iff.mp hok
  obtain ⟨_, rfl⟩ := Prod.mk.inj (Except.ok.inj hpure)
  exact h s a s' hreader

theorem Passes.map (h : Passes reader) (f : α → β) : Passes (f <$> reader) := by
  rw [map_eq_pure_bind]
  exact h.bind_pure f

/-- In a text that is JSON the reader stops right behind the value. -/
theorem Passes.exact (h : Passes reader) (ht : Derives .value t) (hrest : Ends rest)
    (hok : reader (t ++ rest) = .ok (a, left)) : left = rest :=
  (h _ a left hok).unique (ht.skips hrest)

theorem bind_ne_ok {next : α → Reader β} (h : ∀ a s p, next a s ≠ .ok p) (s : List Char)
    (p : β × List Char) : (reader >>= next) s ≠ .ok p := by
  intro hok
  obtain ⟨a, left, _, hnext⟩ := bind_eq_ok_iff.mp hok
  exact h a left p hnext

theorem wrongKind_ne_ok (s : List Char) (p : α × List Char) : wrongKind s ≠ .ok p := by
  have hthrow : ∀ s p, (throw .mismatched : Reader α) s ≠ .ok p := by
    rintro _ _ ⟨⟩
  refine bind_ne_ok (fun c s p h => ?_) s p
  dsimp only at h
  split_ifs at h
  · exact bind_ne_ok (fun _ => hthrow) s p h
  · exact bind_ne_ok (fun _ => hthrow) s p h
  · exact bind_ne_ok (fun _ => hthrow) s p h
  · exact bind_ne_ok (fun _ => bind_ne_ok fun _ => hthrow) s p h
  · exact bind_ne_ok (fun _ => hthrow) s p h
  · exact hthrow s p h
  · cases h

theorem passes_bool : Passes bool := by
  intro s b left hok
  obtain ⟨c, s', hlook, h⟩ := bind_eq_ok_iff.mp hok
  split_ifs at h with htrue hfalse
  · subst htrue
    obtain ⟨_, s'', hliteral, hpure⟩ := bind_eq_ok_iff.mp h
    obtain ⟨_, rfl⟩ := Prod.mk.inj (Except.ok.inj hpure)
    exact ⟨1, (skip_true hlook).trans hliteral⟩
  · subst hfalse
    obtain ⟨_, s'', hliteral, hpure⟩ := bind_eq_ok_iff.mp h
    obtain ⟨_, rfl⟩ := Prod.mk.inj (Except.ok.inj hpure)
    exact ⟨1, (skip_false hlook).trans hliteral⟩
  · exact absurd h (wrongKind_ne_ok s' _)

/-! ## Accepted numbers

Whether a numeral is accepted does not depend on the fault of an unfinished one. -/

section Numerals

variable {atEnd : Fault}

theorem someDigits_ok {p : List Char × List Char} (h : someDigits atEnd s = .ok p)
    (atEnd' : Fault) : someDigits atEnd' s = .ok p := by
  unfold someDigits at h ⊢
  split at h <;> simp_all

theorem wholeDigits_ok {p : List Char × List Char} (h : wholeDigits atEnd s = .ok p)
    (atEnd' : Fault) : wholeDigits atEnd' s = .ok p := by
  unfold wholeDigits at h ⊢
  split at h
  · exact h
  · exact someDigits_ok h atEnd'

theorem fractionDigits_ok {p : List Char × List Char} (h : fractionDigits atEnd s = .ok p)
    (atEnd' : Fault) : fractionDigits atEnd' s = .ok p := by
  unfold fractionDigits at h ⊢
  split at h
  · exact someDigits_ok h atEnd'
  · exact h

theorem ok_of_bind {α β : Type} {x x' : Except Fault α} {f f' : α → Except Fault β} {b : β}
    (h : x >>= f = .ok b) (hx : ∀ a, x = .ok a → x' = .ok a)
    (hf : ∀ a, f a = .ok b → f' a = .ok b) : x' >>= f' = .ok b := by
  cases x with
  | error e => cases h
  | ok a =>
      rw [hx a rfl]
      exact hf a h

theorem exponentDigits_ok {p : (Bool × List Char) × List Char}
    (h : exponentDigits atEnd s = .ok p) (atEnd' : Fault) : exponentDigits atEnd' s = .ok p := by
  unfold exponentDigits at h ⊢
  split at h
  · split_ifs at h ⊢ with hmark
    · exact ok_of_bind h (fun _ hdigits => someDigits_ok hdigits atEnd') fun _ hp => hp
    · exact h
  · exact h

theorem numeral_ok {p : Numeral × List Char} (h : numeral atEnd s = .ok p) (atEnd' : Fault) :
    numeral atEnd' s = .ok p :=
  ok_of_bind h (fun _ hwhole => wholeDigits_ok hwhole atEnd') fun _ h =>
    ok_of_bind h (fun _ hfraction => fractionDigits_ok hfraction atEnd') fun _ h =>
      ok_of_bind h (fun _ hexponent => exponentDigits_ok hexponent atEnd') fun _ hp => hp

end Numerals

theorem exists_numeral_of_number {x : Option ℕ} (h : number s = .ok (x, left)) :
    ∃ y, numeral .truncated s = .ok (y, left) := by
  unfold number at h
  cases hnumeral : numeral .truncated s with
  | error e =>
      rw [hnumeral] at h
      cases h
  | ok p =>
      rw [hnumeral, ok_bind] at h
      dsimp only at h
      split_ifs at h
      obtain ⟨_, rfl⟩ := Prod.mk.inj (Except.ok.inj h)
      exact ⟨p.1, rfl⟩

theorem passes_natural (bound : ℕ) : Passes (natural bound) := by
  intro s n left hok
  obtain ⟨c, s', hlook, h⟩ := bind_eq_ok_iff.mp hok
  split_ifs at h with hc
  · obtain ⟨x, s'', hnumber, hrest⟩ := bind_eq_ok_iff.mp h
    have hleft : s'' = left := by
      split at hrest
      · split_ifs at hrest
        · exact (Prod.mk.inj (Except.ok.inj hrest)).2
        · cases hrest
      · cases hrest
    subst hleft
    obtain ⟨y, hy⟩ := exists_numeral_of_number hnumber
    refine ⟨1, (skip_number 0 hlook hc).trans ?_⟩
    rw [numeral_ok hy .malformed]
    rfl
  · exact absurd h (wrongKind_ne_ok s' _)

/-! ## Accepted texts -/

theorem exists_of_prepend {result : Except Fault (List Char × List Char)}
    (h : prepend c result = .ok (t, left)) : ∃ text, result = .ok (text, left) := by
  cases result with
  | error e => cases h
  | ok p =>
      obtain ⟨_, rfl⟩ := Prod.mk.inj (Except.ok.inj h)
      exact ⟨p.1, rfl⟩

theorem skipQuoted_of_quoted {lead : Option UInt16} (h : quoted lead s = .ok (t, left)) :
    skipQuoted s = .ok ((), left) := by
  fun_induction quoted lead s generalizing t with
  | case1 | case2 | case4 | case6 | case8 | case9 | case11 | case12 | case14 => cases h
  | case3 _ _ _ _ _ _ hu _ _ ih =>
      obtain ⟨text, hrest⟩ := exists_of_prepend h
      exact (skipQuoted_unit hu _).trans (ih hrest)
  | case5 _ _ _ _ _ _ hu _ ih => exact (skipQuoted_unit hu _).trans (ih h)
  | case7 _ _ _ _ _ _ hu _ _ ih =>
      obtain ⟨text, hrest⟩ := exists_of_prepend h
      exact (skipQuoted_unit hu _).trans (ih hrest)
  | case10 _ _ _ _ he ih =>
      obtain ⟨text, hrest⟩ := exists_of_prepend h
      exact (skipQuoted_short he _).trans (ih hrest)
  | case13 =>
      obtain ⟨_, rfl⟩ := Prod.mk.inj (Except.ok.inj h)
      exact (skipQuoted_cons (by decide) _).trans (if_pos rfl)
  | case15 lead c rest _ hend hescape _ hquote hcontrol ih =>
      obtain ⟨text, hrest⟩ := exists_of_prepend h
      have hslash : c ≠ '\\' := by
        rintro rfl
        cases rest with
        | nil => exact hend rfl rfl
        | cons e rest => exact hescape e rest rfl rfl
      rw [skipQuoted_cons hslash, if_neg hquote, if_neg hcontrol]
      exact ih hrest

theorem skipQuoted_of_text {name : String} (h : text s = .ok (name, left)) :
    skipQuoted s = .ok ((), left) := by
  unfold text at h
  cases hquoted : quoted none s with
  | error e =>
      rw [hquoted] at h
      cases h
  | ok p =>
      rw [hquoted] at h
      obtain ⟨_, rfl⟩ := Prod.mk.inj (Except.ok.inj h)
      exact skipQuoted_of_quoted hquoted

theorem eq_of_named {choices : List (String × α)} {name : String}
    (h : named choices name s = .ok (a, left)) : s = left := by
  unfold named at h
  cases hname : choices.lookup name with
  | none =>
      rw [hname] at h
      cases h
  | some a =>
      rw [hname] at h
      exact (Prod.mk.inj (Except.ok.inj h)).2

theorem eq_cons_of_look (h : look s = .ok (c, s')) : s' = c :: s'.tail := by
  obtain ⟨_, rest, rfl⟩ := exists_of_look h
  rfl

theorem passes_null : Passes null := by
  intro s u left hok
  obtain ⟨c, s', hlook, h⟩ := bind_eq_ok_iff.mp hok
  split_ifs at h with hc
  · subst hc
    exact ⟨1, (skip_null hlook).trans h⟩
  · exact absurd h (wrongKind_ne_ok s' _)

theorem passes_variant (choices : List (String × α)) : Passes (variant choices) := by
  intro s a left hok
  obtain ⟨c, s', hlook, h⟩ := bind_eq_ok_iff.mp hok
  have hcons := eq_cons_of_look hlook
  split_ifs at h with hquote hbrace
  · subst hquote
    rw [advance_bind] at h
    obtain ⟨name, s'', htext, hnamed⟩ := bind_eq_ok_iff.mp h
    obtain rfl := eq_of_named hnamed
    exact ⟨1, (skip_text (hcons ▸ hlook)).trans (skipQuoted_of_text htext)⟩
  · subst hbrace
    rw [advance_bind] at h
    obtain ⟨_, _, hopen, h⟩ := bind_eq_ok_iff.mp h
    obtain ⟨name, _, htext, h⟩ := bind_eq_ok_iff.mp h
    obtain ⟨_, _, hnamed, h⟩ := bind_eq_ok_iff.mp h
    obtain rfl := eq_of_named hnamed
    obtain ⟨_, _, hcolon, h⟩ := bind_eq_ok_iff.mp h
    obtain ⟨_, _, hnull, h⟩ := bind_eq_ok_iff.mp h
    obtain ⟨_, _, hclose, h⟩ := bind_eq_ok_iff.mp h
    obtain ⟨_, rfl⟩ := Prod.mk.inj (Except.ok.inj h)
    have hfirst := expect_eq_ok_iff.mp hopen
    refine skips_object (hcons ▸ hlook) hfirst (by decide) ?_
    exact skips_members (expect_eq_ok_iff.mpr (look_again hfirst ▸ hfirst))
      (skipQuoted_of_text htext) hcolon (passes_null _ _ _ hnull) (.inl (expect_eq_ok_iff.mp hclose))
  · cases h

/-! ## Accepted records -/

section Records

variable {fields : List (RecordField σ)} {start built out : σ} {finish : σ → Option α}
  {seen : List String}

/-- The fields of an array behind the first one. -/
theorem continues_of_elements (hfields : ∀ field ∈ fields, ∀ built, Passes (field.read built))
    (h : elements false fields built s = .ok (out, left)) :
    Phrase.elements.Continues ']' s left := by
  -- The brackets and commas between the fields are those that are passed over.
  induction fields generalizing built s with
  | nil =>
      obtain ⟨_, _, hclose, h⟩ := bind_eq_ok_iff.mp h
      obtain ⟨_, rfl⟩ := Prod.mk.inj (Except.ok.inj h)
      exact .inl (expect_eq_ok_iff.mp hclose)
  | cons field fields ih =>
      obtain ⟨hfield, hmore⟩ := List.forall_mem_cons.mp hfields
      obtain ⟨c, s', hlook, h⟩ := bind_eq_ok_iff.mp h
      have hcons := eq_cons_of_look hlook
      simp only [Bool.false_eq_true, if_false] at h
      split_ifs at h with hclose hcomma
      · subst hclose
        rw [advance_bind] at h
        obtain ⟨_, rfl⟩ := Prod.mk.inj (Except.ok.inj h)
        exact .inl (hcons ▸ hlook)
      · subst hcomma
        rw [advance_bind] at h
        obtain ⟨d, _, hfirst, h⟩ := bind_eq_ok_iff.mp h
        split_ifs at h with hd
        · cases h
        · obtain ⟨built, _, hread, h⟩ := bind_eq_ok_iff.mp h
          have helements := skips_elements (hfield _ _ _ _ hread) (ih hmore h)
          exact .inr ⟨_, hcons ▸ hlook, helements.of_look hfirst⟩
      · cases h

/-- The fields of an array from the first one on. -/
theorem skips_of_elements (hfields : ∀ field ∈ fields, ∀ built, Passes (field.read built))
    (hopen : look s = .ok ('[', '[' :: s')) (h : elements true fields built s' = .ok (out, left)) :
    Phrase.value.Skips s left := by
  cases fields with
  | nil =>
      obtain ⟨_, _, hclose, h⟩ := bind_eq_ok_iff.mp h
      obtain ⟨_, rfl⟩ := Prod.mk.inj (Except.ok.inj h)
      exact skips_emptyArray hopen (expect_eq_ok_iff.mp hclose)
  | cons field fields =>
      obtain ⟨hfield, hmore⟩ := List.forall_mem_cons.mp hfields
      obtain ⟨c, s'', hlook, h⟩ := bind_eq_ok_iff.mp h
      simp only [if_true] at h
      split_ifs at h with hclose
      · subst hclose
        rw [advance_bind] at h
        obtain ⟨_, rfl⟩ := Prod.mk.inj (Except.ok.inj h)
        exact skips_emptyArray hopen hlook
      · obtain ⟨built, _, hread, h⟩ := bind_eq_ok_iff.mp h
        refine skips_array hopen hlook hclose ?_
        exact skips_elements (hfield _ _ _ _ hread) (continues_of_elements hmore h)

/-- Behind the value of a member stands the closing brace, or a comma and more members. -/
theorem exists_of_moreUntil {next : Reader α} {close : Char}
    (hok : moreUntil close next a s = .ok (a', left)) :
    (∃ s', look s = .ok (',', ',' :: s') ∧ next s' = .ok (a', left)) ∨
      look s = .ok (close, close :: left) := by
  obtain ⟨c, s', hlook, h⟩ := bind_eq_ok_iff.mp hok
  have hcons := eq_cons_of_look hlook
  rw [advance_bind] at h
  split_ifs at h with hcomma hclose
  · subst hcomma
    exact .inl ⟨_, hcons ▸ hlook, h⟩
  · obtain ⟨_, rfl⟩ := Prod.mk.inj (Except.ok.inj h)
    exact .inr (hclose ▸ hcons ▸ hlook)
  · cases h

/-- A member that was read: its key was not seen before. -/
theorem exists_of_members (hok : members fields (fuel + 1) seen built s = .ok (out, left)) :
    ∃ afterQuote key afterKey afterColon, expect '"' s = .ok ((), afterQuote) ∧
      text afterQuote = .ok (key, afterKey) ∧ expect ':' afterKey = .ok ((), afterColon) ∧
      key ∉ seen ∧ memberValue fields fuel seen built key afterColon = .ok (out, left) := by
  rw [members_succ] at hok
  obtain ⟨_, afterQuote, hopen, h⟩ := bind_eq_ok_iff.mp hok
  obtain ⟨key, afterKey, hkey, h⟩ := bind_eq_ok_iff.mp h
  split_ifs at h with hseen
  · cases h
  · obtain ⟨_, afterColon, hcolon, h⟩ := bind_eq_ok_iff.mp h
    exact ⟨afterQuote, key, afterKey, afterColon, hopen, hkey, hcolon, by simpa using hseen, h⟩

theorem passes_skipValue : Passes skipValue :=
  fun s _ _ h => ⟨2 * s.length + 1, h⟩

/-- The value of a member was read by its field, or passed over if there is none. -/
theorem exists_of_memberValue {key : String}
    (hok : memberValue fields fuel seen built key s = .ok (out, left)) :
    ∃ seen' built' s', moreUntil '}' (members fields fuel seen' built') built' s' = .ok (out, left) ∧
      ((∃ field, fields.find? (·.key == key) = some field ∧ seen' = key :: seen ∧
        field.read built s = .ok (built', s')) ∨
      (fields.find? (·.key == key) = none ∧ seen' = seen ∧ skipValue s = .ok ((), s'))) := by
  unfold memberValue at hok
  cases hfind : fields.find? (·.key == key) with
  | some field =>
      rw [hfind] at hok
      obtain ⟨built', s', hread, h⟩ := bind_eq_ok_iff.mp hok
      exact ⟨_, built', s', h, .inl ⟨field, rfl, rfl, hread⟩⟩
  | none =>
      rw [hfind] at hok
      obtain ⟨_, s', hskip, h⟩ := bind_eq_ok_iff.mp hok
      exact ⟨_, built, s', h, .inr ⟨rfl, rfl, hskip⟩⟩

theorem skips_of_members (hfields : ∀ field ∈ fields, ∀ built, Passes (field.read built))
    (hok : members fields fuel seen built s = .ok (out, left)) : Phrase.members.Skips s left := by
  induction fuel generalizing seen built s with
  | zero => cases hok
  | succ fuel ih =>
      obtain ⟨_, key, _, afterColon, hopen, hkey, hcolon, _, hvalue⟩ := exists_of_members hok
      obtain ⟨_, _, s', hmore, hread⟩ := exists_of_memberValue hvalue
      have hskips : Phrase.value.Skips afterColon s' := by
        rcases hread with ⟨field, hfind, _, hread⟩ | ⟨_, _, hskip⟩
        · exact hfields field (find?_eq_some hfind).1 _ _ _ _ hread
        · exact passes_skipValue _ _ _ hskip
      refine skips_members hopen (skipQuoted_of_text hkey) hcolon hskips ?_
      rcases exists_of_moreUntil hmore with ⟨s'', hcomma, hnext⟩ | hclose
      · exact .inr ⟨s'', hcomma, ih hnext⟩
      · exact .inl hclose

theorem eq_of_complete {x : Option α} (h : complete x s = .ok (a, left)) : s = left := by
  cases x with
  | none => cases h
  | some x => exact (Prod.mk.inj (Except.ok.inj h)).2

theorem passes_record (hfields : ∀ field ∈ fields, ∀ built, Passes (field.read built)) :
    Passes (record fields start finish) := by
  intro s a left hok
  obtain ⟨c, s', hlook, h⟩ := bind_eq_ok_iff.mp hok
  have hcons := eq_cons_of_look hlook
  split_ifs at h with harray hobject
  · subst harray
    rw [advance_bind] at h
    obtain ⟨_, _, helements, h⟩ := bind_eq_ok_iff.mp h
    obtain rfl := eq_of_complete h
    exact skips_of_elements hfields (hcons ▸ hlook) helements
  · subst hobject
    rw [advance_bind] at h
    obtain ⟨d, s'', hfirst, h⟩ := bind_eq_ok_iff.mp h
    split_ifs at h with hclose
    · subst hclose
      rw [advance_bind] at h
      obtain rfl := eq_of_complete h
      exact skips_emptyObject (hcons ▸ hlook) hfirst
    · obtain ⟨_, _, hget, h⟩ := bind_eq_ok_iff.mp h
      obtain ⟨rfl, rfl⟩ := Prod.mk.inj (Except.ok.inj hget)
      obtain ⟨_, _, hmembers, h⟩ := bind_eq_ok_iff.mp h
      obtain rfl := eq_of_complete h
      exact skips_object (hcons ▸ hlook) hfirst hclose (skips_of_members hfields hmembers)
  · exact absurd h (wrongKind_ne_ok s' _)

end Records

end EngineNames.Json
