import EngineNames.Proofs.Json.Records

/-! # Compact texts

The compact text of a value is one of the texts that its reader accepts: members stand in the order
in which they are listed, and no value has blanks in front.
-/

namespace EngineNames.Json

variable {σ α : Type} {reader : Reader α} {value : String → List Char → Prop} {key : String}
  {v : Value} {ms : List (String × Value)}

/-- A value begins with a character that tells it from the end of an array and from `null`. -/
theorem Value.exists_chars (v : Value) : ∃ c s, v.chars = c :: s ∧ isBlank c = false ∧ c ≠ ']' ∧
    (v ≠ .null → c ≠ 'n') := by
  cases v with
  | null => exact ⟨'n', _, rfl, rfl, by decide, absurd rfl⟩
  | bool b => cases b <;> exact ⟨_, _, rfl, rfl, by decide, fun _ => by decide⟩
  | natural n =>
      have hwhole := whole_toDigits n
      obtain ⟨c, s, hds⟩ := List.exists_cons_of_ne_nil hwhole.ne_nil
      have hc : isDigit c = true := hwhole.isDigit c (hds ▸ List.mem_cons_self)
      refine ⟨c, s, by rw [Value.chars, hds], isBlank_of_number (by simp [hc]), ?_, fun _ => ?_⟩ <;>
        rintro rfl <;> exact absurd hc (by decide)
  | text t => exact ⟨'"', _, rfl, rfl, by decide, fun _ => by decide⟩
  | array vs => cases vs <;> exact ⟨'[', _, rfl, rfl, by decide, fun _ => by decide⟩
  | object ms => cases ms <;> exact ⟨'{', _, rfl, rfl, by decide, fun _ => by decide⟩

/-! ## Values without parts -/

theorem written_null : Written .null Value.null.chars := by
  rw [Value.chars]
  exact .null blank_nil

theorem written_bool (b : Bool) : Written (.bool b) (Value.bool b).chars := by
  cases b with
  | true =>
      rw [Value.chars]
      exact .true blank_nil
  | false =>
      rw [Value.chars]
      exact .false blank_nil

theorem written_natural (n : ℕ) : Written (.natural n) (Value.natural n).chars := by
  rw [Value.chars]
  exact .natural blank_nil n

theorem written_text (name : String) : Written (.text name) (Value.text name).chars := by
  rw [Value.chars]
  exact .text blank_nil (spells_escape name.toList)

/-! ## Optional values and lists -/

variable {f : α → Value}

theorem reads_optional (f : α → Value) {x : Option α} (hf : ∀ a, f a ≠ .null)
    (h : ∀ a ∈ x, Reads reader (f a).chars a) :
    Reads (optional reader) ((x.map f).getD .null).chars x := by
  cases x with
  | none => exact reads_optional_none written_null
  | some a =>
      intro rest hrest
      obtain ⟨c, s, hchars, hblank, _, hnull⟩ := (f a).exists_chars
      have hlook : look ((f a).chars ++ rest) = _ := look_append blank_nil hchars hblank rest
      have hread := (h a rfl).map some rest hrest
      show optional reader ((f a).chars ++ rest) = .ok (some a, rest)
      rw [optional, bind_run hlook, if_neg (hnull (hf a))]
      exact hread

theorem ends_elementChars (vs : List Value) (rest : List Char) :
    Ends (elementChars vs ++ rest) := by
  cases vs with
  | nil => exact ends_gap blank_nil (.inr (.inl rfl)) rest
  | cons v vs => exact ends_gap blank_nil (.inl rfl) (v.chars ++ elementChars vs ++ rest)

theorem length_lt_elementChars (vs : List Value) : vs.length < (elementChars vs).length := by
  induction vs with
  | nil => exact Nat.zero_lt_one
  | cons v vs ih =>
      rw [elementChars, List.length_append, List.length_cons, List.length_cons]
      omega

/-- An element is read where it stands. -/
theorem look_chars (v : Value) (rest : List Char) :
    ∃ c, look (v.chars ++ rest) = .ok (c, v.chars ++ rest) ∧ c ≠ ']' := by
  obtain ⟨c, s, hchars, hblank, hc, _⟩ := v.exists_chars
  exact ⟨c, look_append blank_nil hchars hblank rest, hc⟩

theorem reads_moreElements {as : List α} (h : ∀ a ∈ as, Reads reader (f a).chars a) {fuel : ℕ}
    (hfuel : as.length < fuel) (rest : List Char) :
    moreElements reader fuel (elementChars (as.map f) ++ rest) = .ok (as, rest) := by
  induction as generalizing fuel with
  | nil =>
      obtain ⟨fuel, rfl⟩ := exists_fuel (by simp) hfuel
      have hlook : look (']' :: rest) = .ok (']', ']' :: rest) := look_cons rfl rest
      rw [List.map_nil, elementChars, List.singleton_append, moreElements, bind_run hlook,
        advance_bind, if_pos rfl]
      rfl
  | cons a as ih =>
      obtain ⟨fuel, rfl⟩ := exists_fuel (Nat.succ_pos _) hfuel
      obtain ⟨ha, has⟩ := List.forall_mem_cons.mp h
      obtain ⟨c, hfirst, hc⟩ := look_chars (f a) (elementChars (as.map f) ++ rest)
      have hmore := ih has (Nat.lt_of_succ_lt_succ hfuel)
      rw [List.map_cons, elementChars, List.append_assoc, List.cons_append, moreElements,
        bind_run (look_cons rfl _), advance_bind, if_neg (by decide), if_pos rfl, List.tail_cons,
        bind_run hfirst, if_neg hc]
      refine (bind_run (ha _ (ends_elementChars _ rest))).trans ?_
      rw [bind_run hmore]
      rfl

theorem reads_list {as : List α} (h : ∀ a ∈ as, Reads reader (f a).chars a) :
    Reads (list reader) (Value.array (as.map f)).chars as := by
  intro rest _
  cases as with
  | nil =>
      have hlook : look (']' :: rest) = .ok (']', ']' :: rest) := look_cons rfl rest
      rw [List.map_nil, Value.chars, List.cons_append, list, bind_run (look_cons rfl _), if_pos rfl,
        advance_bind, List.tail_cons, List.singleton_append, bind_run hlook, if_pos rfl]
      rfl
  | cons a as =>
      obtain ⟨ha, has⟩ := List.forall_mem_cons.mp h
      obtain ⟨c, hfirst, hc⟩ := look_chars (f a) (elementChars (as.map f) ++ rest)
      have hfuel : as.length < (elementChars (as.map f) ++ rest).length + 1 := by
        have hlength := length_lt_elementChars (as.map f)
        rw [List.length_map] at hlength
        rw [List.length_append]
        omega
      have hget : (get : Reader (List Char)) (elementChars (as.map f) ++ rest) = .ok (_, _) := rfl
      rw [List.map_cons, Value.chars, List.append_assoc, List.cons_append, list,
        bind_run (look_cons rfl _), if_pos rfl, advance_bind, List.tail_cons, bind_run hfirst,
        if_neg hc, bind_run (ha _ (ends_elementChars _ rest)), bind_run hget,
        bind_run (reads_moreElements has hfuel rest)]
      rfl

/-! ## Objects -/

theorem members_chars (h : value key v.chars) (hms : ∀ m ∈ ms, value m.1 m.2.chars) :
    Members value (key :: ms.map Prod.fst) (quote key ++ ':' :: v.chars ++ memberChars ms) := by
  induction ms generalizing key v with
  | nil =>
      rw [memberChars]
      exact .last (member_compact h)
  | cons m ms ih =>
      obtain ⟨hm, hms⟩ := List.forall_mem_cons.mp hms
      have hmembers := Members.more (member_compact h) (ih hm hms)
      rw [memberChars]
      simpa using hmembers

theorem object_chars {keys : List String} (hkeys : ms.map Prod.fst = keys)
    (hms : ∀ m ∈ ms, value m.1 m.2.chars) : Object value keys (Value.object ms).chars := by
  subst hkeys
  cases ms with
  | nil => exact .empty blank_nil blank_nil
  | cons m ms =>
      obtain ⟨hm, hms⟩ := List.forall_mem_cons.mp hms
      have hobject := Object.members blank_nil (members_chars hm hms)
      rw [Value.chars]
      simpa using hobject

/-- A record is read back from an object that lists its fields with what they read. -/
theorem reads_object {fields : List (RecordField σ)} (put : String → σ → σ) {start : σ}
    {finish : σ → Option α} {a : α} (hkeys : ms.map Prod.fst = fields.map (·.key))
    (honce : Once fields (fields.map (·.key))) (hms : ∀ m ∈ ms, Fills fields put m.1 m.2.chars)
    (hfinish : finish ((fields.map (·.key)).foldl (fun built key => put key built) start) = some a) :
    Reads (record fields start finish) (Value.object ms).chars a :=
  (object_chars hkeys hms).reads (fun _ _ => .inl) honce hfinish

theorem Reads.ofRender {v : Value} {a : α} (h : Reads reader v.chars a) :
    read reader v.render = .ok a := by
  have hread := h.read_eq blank_nil
  rwa [List.append_nil] at hread

end EngineNames.Json
