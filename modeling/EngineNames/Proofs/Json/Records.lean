import EngineNames.Proofs.Json.Readers

/-! # Reading records

An object gives the fields of a structure by their keys, in any order and with other members between
them. Each value goes where its key says and stays there, since no field may be given again.
-/

namespace EngineNames.Json

/-- A key, however it is written, and one of the texts of its value. -/
inductive Member (value : String → List Char → Prop) : String → List Char → Prop where
  | intro {before written between gap key v} (hbefore : Blank before)
      (hkey : Spells written key.toList) (hbetween : Blank between) (hv : value key v)
      (hgap : Blank gap) :
      Member value key (before ++ '"' :: (written ++ '"' :: (between ++ ':' :: (v ++ gap))))

/-- Members and the closing brace, with the keys in the order in which they stand. -/
inductive Members (value : String → List Char → Prop) : List String → List Char → Prop where
  | last {key m} (h : Member value key m) : Members value [key] (m ++ ['}'])
  | more {key keys m t} (h : Member value key m) (hmore : Members value keys t) :
      Members value (key :: keys) (m ++ ',' :: t)

inductive Object (value : String → List Char → Prop) : List String → List Char → Prop where
  | empty {gap inner} (hgap : Blank gap) (hinner : Blank inner) :
      Object value [] (gap ++ '{' :: (inner ++ ['}']))
  | members {gap keys t} (hgap : Blank gap) (h : Members value keys t) :
      Object value keys (gap ++ '{' :: t)

/-- The text of an object with blanks around it. -/
def Document (value : String → List Char → Prop) (keys : List String) (text : String) : Prop :=
  ∃ t gap, Object value keys t ∧ Blank gap ∧ text = String.ofList (t ++ gap)

variable {σ α : Type} {fields : List (RecordField σ)} {field : RecordField σ}
  {value value' : String → List Char → Prop} {put : String → σ → σ} {key : String}
  {keys seen : List String} {m t s rest : List Char} {fuel : ℕ} {built start : σ}
  {finish : σ → Option α} {a : α}

/-- No field is given more than once. -/
def Once (fields : List (RecordField σ)) (keys : List String) : Prop :=
  ∀ field ∈ fields, keys.count field.key ≤ 1

instance (fields : List (RecordField σ)) (keys : List String) : Decidable (Once fields keys) :=
  inferInstanceAs (Decidable (∀ field ∈ fields, keys.count field.key ≤ 1))

/-- There is a field with this key. What it reads is put into the structure. -/
def Fills (fields : List (RecordField σ)) (put : String → σ → σ) (key : String) (v : List Char) :
    Prop :=
  ∃ field, fields.find? (·.key == key) = some field ∧
    ∀ built, Reads (field.read built) v (put key built)

/-- There is no field with this key, and it changes nothing. Its value may be anything. -/
def Passed (fields : List (RecordField σ)) (put : String → σ → σ) (key : String) (v : List Char) :
    Prop :=
  fields.find? (·.key == key) = none ∧ Derives .value v ∧ ∀ built, put key built = built

/-- A member without blanks. -/
theorem member_compact {v : List Char} (h : value key v) :
    Member value key (quote key ++ ':' :: v) := by
  have hmember := Member.intro blank_nil (spells_escape key.toList) blank_nil h blank_nil
  simpa [quote] using hmember

/-! ## Other values -/

theorem Member.mono (h : Member value key m) (hmono : ∀ v, value key v → value' key v) :
    Member value' key m := by
  obtain ⟨hbefore, hkey, hbetween, hv, hgap⟩ := h
  exact .intro hbefore hkey hbetween (hmono _ hv) hgap

theorem Members.mono (h : Members value keys t)
    (hmono : ∀ key v, value key v → value' key v) : Members value' keys t := by
  induction h with
  | last h => exact .last (h.mono (hmono _))
  | more h _ ih => exact .more (h.mono (hmono _)) ih

theorem Object.mono (h : Object value keys t)
    (hmono : ∀ key v, value key v → value' key v) : Object value' keys t := by
  cases h with
  | empty hgap hinner => exact .empty hgap hinner
  | members hgap h => exact .members hgap (h.mono hmono)

theorem Document.mono {text : String} (h : Document value keys text)
    (hmono : ∀ key v, value key v → value' key v) : Document value' keys text := by
  obtain ⟨t, gap, hobject, hgap, rfl⟩ := h
  exact ⟨t, gap, hobject.mono hmono, hgap, rfl⟩

/-! ## One member -/

theorem find?_eq_some (h : fields.find? (·.key == key) = some field) :
    field ∈ fields ∧ field.key = key :=
  ⟨List.mem_of_find?_eq_some h, by simpa using List.find?_some h⟩

/-- What is done behind the colon of a key. -/
def memberValue (fields : List (RecordField σ)) (fuel : ℕ) (seen : List String) (built : σ)
    (key : String) : Reader σ :=
  match fields.find? (·.key == key) with
  | some field => do
      let built ← field.read built
      moreUntil '}' (members fields fuel (key :: seen) built) built
  | none => do
      skipValue
      moreUntil '}' (members fields fuel seen built) built

theorem members_succ (fields : List (RecordField σ)) (fuel : ℕ) (seen : List String) (built : σ) :
    members fields (fuel + 1) seen built = (do
      expect '"'
      let key ← text
      if seen.contains key then throw .mismatched
      else do
        expect ':'
        memberValue fields fuel seen built key) := by
  rw [members]
  congr
  funext _
  congr
  funext key
  by_cases hseen : seen.contains key = true
  · rw [if_pos hseen, if_pos hseen]
    rfl
  · rw [if_neg hseen, if_neg hseen]
    unfold memberValue
    cases fields.find? (·.key == key) with
    | some field => rfl
    | none => rfl

/-! ## A run of members -/

theorem Once.tail (h : Once fields (key :: keys)) : Once fields keys :=
  fun field hfield => Nat.le_trans (List.count_le_count_cons) (h field hfield)

theorem Once.not_mem (h : Once fields (key :: keys))
    (hfind : fields.find? (·.key == key) = some field) : key ∉ keys := by
  obtain ⟨hfield, rfl⟩ := find?_eq_some hfind
  have hcount := h field hfield
  rw [List.count_cons_self] at hcount
  exact List.count_eq_zero.mp (by omega)

/-- The value of a member is put into the structure, and the text behind it is left. -/
theorem Member.members_eq (h : Member value key m)
    (hvalue : ∀ key v, value key v → Fills fields put key v ∨ Passed fields put key v)
    (honce : Once fields (key :: keys)) (hseen : ∀ k ∈ key :: keys, k ∉ seen) (built : σ)
    {c : Char} (hc : c = ',' ∨ c = '}') (fuel : ℕ) (rest : List Char) :
    ∃ gap seen', Blank gap ∧ (∀ k ∈ keys, k ∉ seen') ∧
      members fields (fuel + 1) seen built (m ++ c :: rest) =
        moreUntil '}' (members fields fuel seen' (put key built)) (put key built)
          (gap ++ c :: rest) := by
  obtain ⟨hbefore, hkey, hbetween, hv, hgap⟩ := h
  rename_i before written between gap v
  obtain ⟨hnew, hrest⟩ := List.forall_mem_cons.mp hseen
  have hends : Ends (gap ++ c :: rest) := ends_gap hgap (hc.imp id .inr) rest
  have hnew' : ¬ seen.contains key = true := by simpa using hnew
  simp only [List.append_assoc, List.cons_append]
  rw [members_succ, bind_run (expect_eq hbefore rfl _), bind_run (text_eq hkey _), if_neg hnew',
    bind_run (expect_eq hbetween rfl (v ++ (gap ++ c :: rest))), memberValue]
  rcases hvalue key v hv with ⟨field, hfind, hread⟩ | ⟨hfind, hderives, hput⟩
  · refine ⟨gap, key :: seen, hgap, ?_, ?_⟩
    · intro k hk
      rw [List.mem_cons, not_or]
      exact ⟨fun heq => honce.not_mem hfind (heq ▸ hk), hrest k hk⟩
    · rw [hfind]
      exact bind_run (hread built _ hends)
  · refine ⟨gap, seen, hgap, hrest, ?_⟩
    have hskip : skipValue (v ++ (gap ++ c :: rest)) = .ok ((), gap ++ c :: rest) := by
      refine hderives.skip_eq ?_ hends
      simp only [Phrase.steps, List.length_append]
      omega
    rw [hfind, hput]
    exact bind_run hskip

/-- Members are read to the closing brace, with fuel for each of them. -/
theorem Members.members_eq (h : Members value keys t)
    (hvalue : ∀ key v, value key v → Fills fields put key v ∨ Passed fields put key v)
    (honce : Once fields keys) (hseen : ∀ key ∈ keys, key ∉ seen) (hfuel : keys.length ≤ fuel)
    (built : σ) (rest : List Char) : members fields fuel seen built (t ++ rest) =
      .ok (keys.foldl (fun built key => put key built) built, rest) := by
  -- No key to come was seen: one with a field is given once, and others are never remembered.
  induction h generalizing seen fuel built with
  | @last key m h =>
      obtain ⟨fuel, rfl⟩ := exists_fuel (by simp) hfuel
      obtain ⟨gap, seen', hgap, _, hstep⟩ :=
        h.members_eq hvalue honce hseen built (.inr rfl) fuel rest
      rw [List.append_assoc, List.singleton_append, hstep]
      exact moreUntil_close (look_eq hgap rfl rest) (by decide)
  | @more key keys m t h _ ih =>
      obtain ⟨fuel, rfl⟩ := exists_fuel (by simp) hfuel
      obtain ⟨gap, seen', hgap, hseen', hstep⟩ :=
        h.members_eq hvalue honce hseen built (.inl rfl) fuel (t ++ rest)
      rw [List.append_assoc, List.cons_append, hstep,
        moreUntil_comma (look_eq hgap rfl (t ++ rest))]
      exact ih honce.tail hseen' (Nat.le_of_succ_le_succ hfuel) (put key built)

/-! ## A record -/

theorem Member.exists_look (h : Member value key m) : ∃ m',
    (∀ rest, look (m ++ rest) = .ok ('"', m' ++ rest)) ∧ Member value key m' := by
  obtain ⟨hbefore, hkey, hbetween, hv, hgap⟩ := h
  refine ⟨_, fun rest => ?_, .intro blank_nil hkey hbetween hv hgap⟩
  rw [List.append_assoc]
  exact look_eq hbefore rfl _

/-- Blanks in front of members do not belong to them. -/
theorem Members.exists_look (h : Members value keys t) (rest : List Char) : ∃ t',
    look (t ++ rest) = .ok ('"', t' ++ rest) ∧ Members value keys t' := by
  cases h with
  | last h =>
      obtain ⟨m', hlook, h'⟩ := h.exists_look
      refine ⟨m' ++ ['}'], ?_, .last h'⟩
      rw [List.append_assoc, hlook, List.append_assoc]
  | more h hmore =>
      obtain ⟨m', hlook, h'⟩ := h.exists_look
      refine ⟨m' ++ ',' :: _, ?_, .more h' hmore⟩
      rw [List.append_assoc, hlook, List.append_assoc]

theorem Members.length_le (h : Members value keys t) : keys.length ≤ t.length := by
  induction h with
  | last => simp
  | more _ _ ih =>
      simp only [List.length_cons, List.length_append]
      omega

/-- A record that is given as an object begins with the brace. -/
theorem record_brace {gap : List Char} (hgap : Blank gap) (s : List Char) :
    record fields start finish (gap ++ '{' :: s) =
      (look >>= fun c =>
        if c = '}' then do
          advance
          complete (finish start)
        else do
          let left ← get
          complete (finish (← members fields (left.length + 1) [] start))) s := by
  rw [record, bind_run (look_eq hgap rfl _), if_neg (by decide), if_pos rfl]
  rfl

/-- An object is read as the structure that its members fill. -/
theorem Object.reads (h : Object value keys t)
    (hvalue : ∀ key v, value key v → Fills fields put key v ∨ Passed fields put key v)
    (honce : Once fields keys)
    (hfinish : finish (keys.foldl (fun built key => put key built) start) = some a) :
    Reads (record fields start finish) t a := by
  intro rest _
  cases h with
  | empty hgap hinner =>
      rw [List.foldl_nil] at hfinish
      rw [List.append_assoc, List.cons_append, List.append_assoc, List.singleton_append,
        record_brace hgap, bind_run (look_eq hinner rfl _), if_pos rfl,
        bind_run (advance_cons _ _), hfinish]
      rfl
  | members hgap h =>
      obtain ⟨t', hlook, h'⟩ := h.exists_look rest
      have hfuel : keys.length ≤ (t' ++ rest).length + 1 := by
        have hlength := h'.length_le
        rw [List.length_append]
        omega
      have hmembers := h'.members_eq hvalue honce (fun _ _ => List.not_mem_nil) hfuel start rest
      have hget : (get : Reader (List Char)) (t' ++ rest) = .ok (t' ++ rest, t' ++ rest) := rfl
      rw [List.append_assoc, List.cons_append, record_brace hgap, bind_run hlook,
        if_neg (by decide), bind_run hget, bind_run hmembers, hfinish]
      rfl

end EngineNames.Json
