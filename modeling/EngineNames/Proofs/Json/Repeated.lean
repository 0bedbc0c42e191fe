import EngineNames.Proofs.Json.Passing

/-! # Fields that are given again

Whatever stands in the members of an object, a record is not read from it if two of them have the
key of the same field. What is read has each field at most once.
-/

namespace EngineNames.Json

variable {σ α : Type} {fields : List (RecordField σ)} {value : String → List Char → Prop}
  {key : String} {keys seen : List String} {t m s left rest gap : List Char} {fuel : ℕ}
  {start built out : σ} {finish : σ → Option α} {a : α} {c : Char}

/-! ## Objects are values -/

theorem Members.derives (h : Members value keys t)
    (hvalue : ∀ key v, value key v → Derives .value v) : Derives .members t := by
  induction h with
  | last h =>
      obtain ⟨hbefore, hkey, hbetween, hv, hgap⟩ := h
      simpa using Derives.lastMember hbefore hkey.quotable hbetween (hvalue _ _ hv) hgap
  | more h _ ih =>
      obtain ⟨hbefore, hkey, hbetween, hv, hgap⟩ := h
      simpa using Derives.moreMembers hbefore hkey.quotable hbetween (hvalue _ _ hv) hgap ih

theorem Object.derives (h : Object value keys t)
    (hvalue : ∀ key v, value key v → Derives .value v) : Derives .value t := by
  cases h with
  | empty hgap hinner => exact hgap.derives (.emptyObject hinner)
  | members hgap h => exact hgap.derives (.object (h.derives hvalue))

/-- Any values, but under the one key an object with these members, of any values too. -/
def Nested (outer : String) (inner : List String) (key : String) (t : List Char) : Prop :=
  Derives .value t ∧ (key = outer → Object (fun _ => Derives .value) inner t)

/-! ## What was read -/

/-- The reader gives something for these characters, wherever the value ends. -/
def Accepts (reader : Reader α) (t : List Char) : Prop :=
  ∃ rest p, Ends rest ∧ reader (t ++ rest) = .ok p

/-- Each field was given at most once, and not before; all of them could be read. -/
structure Accepted (fields : List (RecordField σ)) (value : String → List Char → Prop)
    (seen keys : List String) : Prop where
  once : Once fields keys
  fresh : ∀ field ∈ fields, field.key ∈ keys → field.key ∉ seen
  read : ∀ key ∈ keys, ∀ field, fields.find? (·.key == key) = some field →
    ∃ built v, value key v ∧ Accepts (field.read built) v

theorem Accepted.nil : Accepted fields value seen [] where
  once _ _ := Nat.zero_le 1
  fresh _ _ h := absurd h List.not_mem_nil
  read _ h := absurd h List.not_mem_nil

/-- A member with a new key, in front of others that were read. -/
theorem Accepted.cons {seen' : List String} (hfresh : key ∉ seen) (hseen : ∀ k ∈ seen, k ∈ seen')
    (hkey : ∀ field ∈ fields, field.key = key → key ∈ seen')
    (hread : ∀ field, fields.find? (·.key == key) = some field →
      ∃ built v, value key v ∧ Accepts (field.read built) v)
    (h : Accepted fields value seen' keys) : Accepted fields value seen (key :: keys) where
  once field hfield := by
    by_cases heq : field.key = key
    · have hnot : field.key ∉ keys := fun hmem =>
        h.fresh field hfield hmem (heq ▸ hkey field hfield heq)
      have hcount : keys.count key = 0 := List.count_eq_zero.mpr (heq ▸ hnot)
      rw [heq, List.count_cons_self]
      omega
    · rw [List.count_cons_of_ne (Ne.symm heq)]
      exact h.once field hfield
  fresh field hfield hmem := by
    rcases List.mem_cons.mp hmem with heq | hmem
    · exact heq ▸ hfresh
    · exact fun hin => h.fresh field hfield hmem (hseen _ hin)
  read k hmem field hfind := by
    rcases List.mem_cons.mp hmem with rfl | hmem
    · exact hread field hfind
    · exact h.read k hmem field hfind

theorem Member.exists_of_ok (h : Member value key m)
    (hvalue : ∀ key v, value key v → Derives .value v)
    (hfields : ∀ field ∈ fields, ∀ built, Passes (field.read built))
    (hc : c = ',' ∨ c = '}')
    (hok : members fields (fuel + 1) seen built (m ++ c :: rest) = .ok (out, left)) :
    ∃ seen' built' gap, Blank gap ∧
      moreUntil '}' (members fields fuel seen' built') built' (gap ++ c :: rest) =
        .ok (out, left) ∧
      ∀ keys, Accepted fields value seen' keys → Accepted fields value seen (key :: keys) := by
  obtain ⟨hbefore, hkey, hbetween, hv, hgap⟩ := h
  rename_i before written between gap v
  have hends : Ends (gap ++ c :: rest) := ends_gap hgap (hc.imp id .inr) rest
  simp only [List.append_assoc, List.cons_append] at hok
  rw [members_succ, bind_run (expect_eq hbefore rfl _), bind_run (text_eq hkey _)] at hok
  split_ifs at hok with hseen
  · cases hok
  · rw [bind_run (expect_eq hbetween rfl (v ++ (gap ++ c :: rest)))] at hok
    have hfresh : key ∉ seen := by simpa using hseen
    obtain ⟨seen', built', s', hmore, hread⟩ := exists_of_memberValue hok
    rcases hread with ⟨field, hfind, rfl, hread⟩ | ⟨hfind, rfl, hskip⟩
    · have hpasses := hfields field (find?_eq_some hfind).1 built
      obtain rfl := hpasses.exact (hvalue key v hv) hends hread
      refine ⟨_, built', gap, hgap, hmore, fun keys haccepted => ?_⟩
      refine haccepted.cons hfresh (fun _ => List.mem_cons_of_mem key)
        (fun _ _ _ => List.mem_cons_self) fun field' hfind' => ?_
      obtain rfl := Option.some.inj (hfind.symm.trans hfind')
      exact ⟨built, v, hv, _, _, hends, hread⟩
    · obtain rfl := passes_skipValue.exact (hvalue key v hv) hends hskip
      refine ⟨_, built', gap, hgap, hmore, fun keys haccepted => ?_⟩
      refine haccepted.cons hfresh (fun _ => id) (fun field hfield heq => ?_) fun field hsome => ?_
      · exact absurd (beq_iff_eq.mpr heq) (List.find?_eq_none.mp hfind field hfield)
      · cases hfind.symm.trans hsome

theorem Members.accepted (h : Members value keys t)
    (hvalue : ∀ key v, value key v → Derives .value v)
    (hfields : ∀ field ∈ fields, ∀ built, Passes (field.read built))
    (hok : members fields fuel seen built (t ++ rest) = .ok (out, left)) :
    Accepted fields value seen keys := by
  induction h generalizing fuel seen built with
  | last h =>
      cases fuel with
      | zero => cases hok
      | succ fuel =>
          rw [List.append_assoc, List.singleton_append] at hok
          obtain ⟨_, _, _, _, _, hcons⟩ := h.exists_of_ok hvalue hfields (.inr rfl) hok
          exact hcons [] .nil
  | more h _ ih =>
      cases fuel with
      | zero => cases hok
      | succ fuel =>
          rw [List.append_assoc, List.cons_append] at hok
          obtain ⟨_, _, gap, hgap, hmore, hcons⟩ := h.exists_of_ok hvalue hfields (.inl rfl) hok
          rw [moreUntil_comma (look_eq hgap rfl _)] at hmore
          exact hcons _ (ih hmore)

/-- If a record is read from an object, its fields were given once and could be read. -/
theorem Object.accepted (h : Object value keys t)
    (hvalue : ∀ key v, value key v → Derives .value v)
    (hfields : ∀ field ∈ fields, ∀ built, Passes (field.read built))
    (hok : record fields start finish (t ++ rest) = .ok (a, left)) :
    Accepted fields value [] keys := by
  cases h with
  | empty => exact .nil
  | members hgap h =>
      obtain ⟨t', hlook, h'⟩ := h.exists_look rest
      rw [List.append_assoc, List.cons_append, record_brace hgap, bind_run hlook,
        if_neg (by decide)] at hok
      obtain ⟨_, _, hget, hok⟩ := bind_eq_ok_iff.mp hok
      obtain ⟨rfl, rfl⟩ := Prod.mk.inj (Except.ok.inj hget)
      obtain ⟨_, _, hmembers, _⟩ := bind_eq_ok_iff.mp hok
      exact h'.accepted hvalue hfields hmembers

theorem exists_of_read {reader : Reader α} (h : read reader (String.ofList s) = .ok a) :
    ∃ left, reader s = .ok (a, left) := by
  rw [read, String.toList_ofList] at h
  cases hok : reader s with
  | error e =>
      rw [hok] at h
      cases h
  | ok p =>
      rw [hok, ok_bind] at h
      dsimp only at h
      split_ifs at h
      obtain rfl := Except.ok.inj h
      exact ⟨p.2, rfl⟩

theorem Document.accepted {text : String} (h : Document value keys text)
    (hvalue : ∀ key v, value key v → Derives .value v)
    (hfields : ∀ field ∈ fields, ∀ built, Passes (field.read built))
    (hok : read (record fields start finish) text = .ok a) : Accepted fields value [] keys := by
  obtain ⟨t, gap, hobject, _, rfl⟩ := h
  obtain ⟨left, hread⟩ := exists_of_read hok
  exact hobject.accepted hvalue hfields hread

end EngineNames.Json
