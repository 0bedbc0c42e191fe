import EngineNames.Proofs.Json.Grammar

/-! # Readers of values

A value without parts can be written in several ways, with blanks in front. Its reader gives the
value for each of them and stops where the text of the value does.
-/

namespace EngineNames.Json

/-- Wherever a value may end, the reader takes these characters and gives this. -/
def Reads {α : Type} (reader : Reader α) (t : List Char) (a : α) : Prop :=
  ∀ rest, Ends rest → reader (t ++ rest) = .ok (a, rest)

/-- The texts of a value without parts. -/
inductive Written : Value → List Char → Prop where
  | null {gap} (hgap : Blank gap) : Written .null (gap ++ "null".toList)
  | true {gap} (hgap : Blank gap) : Written (.bool true) (gap ++ "true".toList)
  | false {gap} (hgap : Blank gap) : Written (.bool false) (gap ++ "false".toList)
  | natural {gap} (hgap : Blank gap) (n : ℕ) : Written (.natural n) (gap ++ Nat.toDigits 10 n)
  | text {gap written name} (hgap : Blank gap) (h : Spells written name.toList) :
      Written (.text name) (gap ++ '"' :: (written ++ ['"']))

variable {α β : Type} {reader : Reader α} {t : List Char} {a : α}

theorem Blank.derives {gap : List Char} (hgap : Blank gap) (h : Derives .value t) :
    Derives .value (gap ++ t) := by
  induction gap with
  | nil => exact h
  | cons c gap ih =>
      obtain ⟨hc, hgap⟩ := blank_cons.mp hgap
      exact .blank hc (ih hgap)

theorem Written.derives {v : Value} (h : Written v t) : Derives .value t := by
  cases h with
  | null hgap => exact hgap.derives .null
  | true hgap => exact hgap.derives .true
  | false hgap => exact hgap.derives .false
  | natural hgap n =>
      have hnumber := Number.intro (.inl rfl) (whole_toDigits n) .absent .absent
      exact hgap.derives (.number (by simpa using hnumber))
  | text hgap h => exact hgap.derives (.text h.quotable)

/-! ## Readers in general -/

theorem Reads.bind_pure (h : Reads reader t a) (f : α → β) :
    Reads (reader >>= fun a => pure (f a)) t (f a) := by
  intro rest hrest
  rw [bind_run (h rest hrest)]
  rfl

theorem Reads.map (h : Reads reader t a) (f : α → β) : Reads (f <$> reader) t (f a) := by
  intro rest hrest
  rw [map_eq_pure_bind]
  exact h.bind_pure f rest hrest

/-- Blanks end a value. -/
theorem Blank.ends {gap : List Char} (h : Blank gap) : Ends gap := by
  cases gap with
  | nil => exact ends_nil
  | cons c gap =>
      intro d hd
      obtain rfl := Option.some.inj hd
      have hc := h c List.mem_cons_self
      simp only [isBlank, Bool.or_eq_true, decide_eq_true_eq] at hc
      rcases hc with ((rfl | rfl) | rfl) | rfl <;> decide

/-- A whole text is read if blanks are all that follows the value. -/
theorem Reads.read_eq (h : Reads reader t a) {gap : List Char} (hgap : Blank gap) :
    read reader (String.ofList (t ++ gap)) = .ok a := by
  rw [read, String.toList_ofList, h gap hgap.ends, ok_bind]
  exact if_pos (List.all_eq_true.mpr hgap)

/-! ## Values without parts -/

theorem look_append {c : Char} {gap s : List Char} (hgap : Blank gap) (ht : t = c :: s)
    (hc : isBlank c = false) (rest : List Char) :
    look (gap ++ (t ++ rest)) = .ok (c, t ++ rest) := by
  subst ht
  exact look_eq hgap hc (s ++ rest)

theorem reads_bool {b : Bool} (h : Written (.bool b) t) : Reads bool t b := by
  intro rest _
  cases h with
  | true hgap =>
      have hlook := look_append hgap (show "true".toList = 't' :: _ from rfl) rfl rest
      rw [List.append_assoc, bool, bind_run hlook, if_pos rfl]
      exact bind_run (literal_append "true" rest)
  | false hgap =>
      have hlook := look_append hgap (show "false".toList = 'f' :: _ from rfl) rfl rest
      rw [List.append_assoc, bool, bind_run hlook, if_neg (by decide), if_pos rfl]
      exact bind_run (literal_append "false" rest)

theorem number_eq {ds rest : List Char} (h : Whole ds) (hlt : decimal ds < UInt64.size)
    (hrest : Ends rest) : number (ds ++ rest) = .ok (some (decimal ds), rest) := by
  rw [number, h.numeral_eq hrest, ok_bind, ← natural?_of_lt hlt]
  exact if_pos (inRange_of_lt hlt)

theorem reads_natural {n bound : ℕ} (h : Written (.natural n) t) (hn : n < bound)
    (hbound : bound ≤ UInt64.size) : Reads (natural bound) t n := by
  intro rest hrest
  cases h with
  | @natural gap hgap =>
      have hwhole := whole_toDigits n
      obtain ⟨c, ds, hds⟩ := List.exists_cons_of_ne_nil hwhole.ne_nil
      have hfirst : (c = '-' || isDigit c) = true := by
        simp [hwhole.isDigit c (hds ▸ List.mem_cons_self)]
      have hlook := look_append hgap hds (isBlank_of_number hfirst) rest
      have hlt : decimal (Nat.toDigits 10 n) < UInt64.size := by
        rw [decimal_toDigits]
        exact Nat.lt_of_lt_of_le hn hbound
      have hnumber := number_eq hwhole hlt hrest
      rw [decimal_toDigits] at hnumber
      rw [List.append_assoc, natural, bind_run hlook, if_pos hfirst, bind_run hnumber]
      simp only [if_pos hn]
      rfl

theorem reads_uint16 {n : UInt16} (h : Written (.natural n.toNat) t) : Reads uint16 t n := by
  have hread := (reads_natural h n.toNat_lt (by decide)).map UInt16.ofNat
  rwa [UInt16.ofNat_toNat] at hread

theorem reads_uint32 {n : UInt32} (h : Written (.natural n.toNat) t) : Reads uint32 t n := by
  have hread := (reads_natural h n.toNat_lt (by decide)).map UInt32.ofNat
  rwa [UInt32.ofNat_toNat] at hread

theorem reads_uint64 {n : UInt64} (h : Written (.natural n.toNat) t) : Reads uint64 t n := by
  have hread := (reads_natural h n.toNat_lt (by decide)).map UInt64.ofNat
  rwa [UInt64.ofNat_toNat] at hread

theorem text_eq {written : List Char} {name : String} (h : Spells written name.toList)
    (rest : List Char) : text (written ++ '"' :: rest) = .ok (name, rest) := by
  rw [text, h.quoted_eq rest]
  simp [Except.map]

theorem reads_string {name : String} (h : Written (.text name) t) : Reads string t name := by
  intro rest _
  cases h with
  | text hgap h =>
      rw [List.append_assoc, List.cons_append, List.append_assoc, string,
        bind_run (look_eq hgap rfl _), if_pos rfl, bind_run (advance_cons _ _)]
      exact text_eq h rest

theorem reads_variant {name : String} {choices : List (String × α)} (h : Written (.text name) t)
    (hname : choices.lookup name = some a) : Reads (variant choices) t a := by
  intro rest _
  cases h with
  | text hgap h =>
      rw [List.append_assoc, List.cons_append, List.append_assoc, variant,
        bind_run (look_eq hgap rfl _), if_pos rfl, bind_run (advance_cons _ _),
        List.singleton_append, bind_run (text_eq h rest), named, hname]
      rfl

theorem reads_optional_none (h : Written .null t) : Reads (optional reader) t none := by
  intro rest _
  cases h with
  | null hgap =>
      have hlook := look_append hgap (show "null".toList = 'n' :: _ from rfl) rfl rest
      rw [List.append_assoc, optional, bind_run hlook, if_pos rfl]
      exact bind_run (literal_append "null" rest)

end EngineNames.Json
