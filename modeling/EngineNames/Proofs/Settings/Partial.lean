import EngineNames.Proofs.Json.Repeated
import EngineNames.Settings.Build

/-! # Settings that are given in part

A file gives some settings of a build, and within a layout some settings of the layout, in any order
and among members that mean nothing. What it says is read, and all else has its usual value.
-/

namespace EngineNames

open Json (Accepted Derives Document Fills Object Once Passed Passes Reads RecordField Written blank_nil
  member_compact)

/-- The first of two values if this key is among the given ones, else the second. -/
def pick {α : Type} (keys : List String) (key : String) (a b : α) : α :=
  if key ∈ keys then a else b

section Pick

variable {α : Type} {keys : List String} (key k : String) (a b : α)

theorem pick_nil : pick [] key a b = b :=
  if_neg List.not_mem_nil

theorem pick_cons : pick (k :: keys) key a b = pick keys key a (if key = k then a else b) := by
  unfold pick
  by_cases hmem : key ∈ keys <;> simp [hmem]

/-- Settings that are taken over one by one are taken over together. -/
theorem foldl_overlay {σ : Type} {overlay : List String → σ → σ}
    (hnil : ∀ base, overlay [] base = base)
    (hcons : ∀ k keys base, overlay (k :: keys) base = overlay keys (overlay [k] base))
    (keys : List String) (base : σ) :
    keys.foldl (fun base key => overlay [key] base) base = overlay keys base := by
  induction keys generalizing base with
  | nil => exact (hnil base).symm
  | cons k keys ih => exact (ih (overlay [k] base)).trans (hcons k keys base).symm

end Pick

/-- The same fields have their keys among the ones and among the others. -/
def SameFields {σ : Type} (fields : List (RecordField σ)) (keys keys' : List String) : Prop :=
  ∀ field ∈ fields, field.key ∈ keys ↔ field.key ∈ keys'

/-! ## Layouts -/

namespace PoolLayout

/-- The layout with the settings of these keys taken over from another one. -/
def overlay (l : PoolLayout) (keys : List String) (base : PoolLayout) : PoolLayout where
  blocksOffset := pick keys "blocks_offset" l.blocksOffset base.blocksOffset
  blockOffsetBits := pick keys "block_offset_bits" l.blockOffsetBits base.blockOffsetBits
  maxBlocks := pick keys "max_blocks" l.maxBlocks base.maxBlocks
  stride := pick keys "stride" l.stride base.stride
  lengthShift := pick keys "len_shift" l.lengthShift base.lengthShift
  wideMask := pick keys "wide_mask" l.wideMask base.wideMask
  maxNameLength := pick keys "max_name_len" l.maxNameLength base.maxNameLength

/-- The texts that give a setting of the layout by its key. Behind an unknown key stands anything. -/
inductive Gives (l : PoolLayout) : String → List Char → Prop where
  | blocksOffset {t} (h : Written (.natural l.blocksOffset.toNat) t) : Gives l "blocks_offset" t
  | blockOffsetBits {t} (h : Written (.natural l.blockOffsetBits.toNat) t) :
      Gives l "block_offset_bits" t
  | maxBlocks {t} (h : Written (.natural l.maxBlocks.toNat) t) : Gives l "max_blocks" t
  | stride {t} (h : Written (.natural l.stride.toNat) t) : Gives l "stride" t
  | lengthShift {t} (h : Written (.natural l.lengthShift.toNat) t) : Gives l "len_shift" t
  | wideMask {t} (h : Written (.natural l.wideMask.toNat) t) : Gives l "wide_mask" t
  | maxNameLength {t} (h : Written (.natural l.maxNameLength.toNat) t) : Gives l "max_name_len" t
  | unknown {key t} (hkey : ∀ field ∈ fields, field.key ≠ key) (h : Derives .value t) :
      Gives l key t

theorem overlay_congr (l base : PoolLayout) {keys keys' : List String}
    (h : SameFields fields keys keys') : l.overlay keys base = l.overlay keys' base := by
  simp only [SameFields, fields, List.forall_mem_cons] at h
  simp only [overlay, pick, h]

theorem Gives.fills_or_passed {l : PoolLayout} {key : String} {t : List Char} (h : l.Gives key t) :
    Fills fields (fun key base => l.overlay [key] base) key t ∨
      Passed fields (fun key base => l.overlay [key] base) key t := by
  cases h with
  | blocksOffset h => exact .inl ⟨_, rfl, fun _ => (Json.reads_uint64 h).bind_pure _⟩
  | blockOffsetBits h => exact .inl ⟨_, rfl, fun _ => (Json.reads_uint32 h).bind_pure _⟩
  | maxBlocks h => exact .inl ⟨_, rfl, fun _ => (Json.reads_uint64 h).bind_pure _⟩
  | stride h => exact .inl ⟨_, rfl, fun _ => (Json.reads_uint64 h).bind_pure _⟩
  | lengthShift h => exact .inl ⟨_, rfl, fun _ => (Json.reads_uint32 h).bind_pure _⟩
  | wideMask h => exact .inl ⟨_, rfl, fun _ => (Json.reads_uint16 h).bind_pure _⟩
  | maxNameLength h => exact .inl ⟨_, rfl, fun _ => (Json.reads_uint64 h).bind_pure _⟩
  | unknown hkey h =>
      refine .inr ⟨by simpa using hkey, h, fun built => ?_⟩
      simp only [fields, List.forall_mem_cons] at hkey
      simp only [overlay, pick_cons, pick_nil, if_neg, hkey, not_false_eq_true]

theorem reads (l : PoolLayout) {keys : List String} {t : List Char} (h : Object l.Gives keys t)
    (honce : Once fields keys) : Reads reader t (l.overlay keys {}) := by
  refine h.reads (fun _ _ => Gives.fills_or_passed) honce ?_
  rw [foldl_overlay (fun base => by simp only [overlay, pick_nil])
    (fun k keys base => by simp only [overlay, pick_cons, pick_nil])]

theorem Gives.derives {l : PoolLayout} {key : String} {t : List Char} (h : l.Gives key t) :
    Derives .value t := by
  cases h with
  | unknown _ h => exact h
  | _ h => exact h.derives

theorem passes_fields : ∀ field ∈ fields, ∀ built, Passes (field.read built) := by
  intro field hfield built
  simp only [fields, List.mem_cons, List.not_mem_nil, or_false] at hfield
  rcases hfield with rfl | rfl | rfl | rfl | rfl | rfl | rfl <;>
    exact ((Json.passes_natural _).map _).bind_pure _

end PoolLayout

namespace ArrayLayout

/-- The layout with the settings of these keys taken over from another one. -/
def overlay (l : ArrayLayout) (keys : List String) (base : ArrayLayout) : ArrayLayout where
  elementsPerChunk := pick keys "elements_per_chunk" l.elementsPerChunk base.elementsPerChunk
  entryIndexOffset := pick keys "entry_index_offset" l.entryIndexOffset base.entryIndexOffset
  entryStringOffset := pick keys "entry_string_offset" l.entryStringOffset base.entryStringOffset
  maxNameLength := pick keys "max_name_len" l.maxNameLength base.maxNameLength

/-- The texts that give a setting of the layout by its key. Behind an unknown key stands anything. -/
inductive Gives (l : ArrayLayout) : String → List Char → Prop where
  | elementsPerChunk {t} (h : Written (.natural l.elementsPerChunk.toNat) t) :
      Gives l "elements_per_chunk" t
  | entryIndexOffset {t} (h : Written (.natural l.entryIndexOffset.toNat) t) :
      Gives l "entry_index_offset" t
  | entryStringOffset {t} (h : Written (.natural l.entryStringOffset.toNat) t) :
      Gives l "entry_string_offset" t
  | maxNameLength {t} (h : Written (.natural l.maxNameLength.toNat) t) : Gives l "max_name_len" t
  | unknown {key t} (hkey : ∀ field ∈ fields, field.key ≠ key) (h : Derives .value t) :
      Gives l key t

theorem overlay_congr (l base : ArrayLayout) {keys keys' : List String}
    (h : SameFields fields keys keys') : l.overlay keys base = l.overlay keys' base := by
  simp only [SameFields, fields, List.forall_mem_cons] at h
  simp only [overlay, pick, h]

theorem Gives.fills_or_passed {l : ArrayLayout} {key : String} {t : List Char} (h : l.Gives key t) :
    Fills fields (fun key base => l.overlay [key] base) key t ∨
      Passed fields (fun key base => l.overlay [key] base) key t := by
  cases h with
  | elementsPerChunk h => exact .inl ⟨_, rfl, fun _ => (Json.reads_uint64 h).bind_pure _⟩
  | entryIndexOffset h => exact .inl ⟨_, rfl, fun _ => (Json.reads_uint64 h).bind_pure _⟩
  | entryStringOffset h => exact .inl ⟨_, rfl, fun _ => (Json.reads_uint64 h).bind_pure _⟩
  | maxNameLength h => exact .inl ⟨_, rfl, fun _ => (Json.reads_uint64 h).bind_pure _⟩
  | unknown hkey h =>
      refine .inr ⟨by simpa using hkey, h, fun built => ?_⟩
      simp only [fields, List.forall_mem_cons] at hkey
      simp only [overlay, pick_cons, pick_nil, if_neg, hkey, not_false_eq_true]

theorem reads (l : ArrayLayout) {keys : List String} {t : List Char} (h : Object l.Gives keys t)
    (honce : Once fields keys) : Reads reader t (l.overlay keys {}) := by
  refine h.reads (fun _ _ => Gives.fills_or_passed) honce ?_
  rw [foldl_overlay (fun base => by simp only [overlay, pick_nil])
    (fun k keys base => by simp only [overlay, pick_cons, pick_nil])]

theorem Gives.derives {l : ArrayLayout} {key : String} {t : List Char} (h : l.Gives key t) :
    Derives .value t := by
  cases h with
  | unknown _ h => exact h
  | _ h => exact h.derives

theorem passes_fields : ∀ field ∈ fields, ∀ built, Passes (field.read built) := by
  intro field hfield built
  simp only [fields, List.mem_cons, List.not_mem_nil, or_false] at hfield
  rcases hfield with rfl | rfl | rfl | rfl <;> exact ((Json.passes_natural _).map _).bind_pure _

end ArrayLayout

/-! ## Builds -/

namespace Build

/-- The build with the settings of these keys taken over from another one. -/
def overlay (b : Build) (keys : List String) (base : Build) : Build where
  usesPool := pick keys "use_name_pool" b.usesPool base.usesPool
  casePreserving := pick keys "use_case_preserving_name" b.casePreserving base.casePreserving
  outlineNumbers := pick keys "use_outline_number_name" b.outlineNumbers base.outlineNumbers
  numberPlacement := pick keys "number_placement" b.numberPlacement base.numberPlacement
  nameBeforeClass := pick keys "is_object_name_before_class" b.nameBeforeClass base.nameBeforeClass
  fieldProperties := pick keys "use_fproperty" b.fieldProperties base.fieldProperties
  masksFieldOwner := pick keys "use_mask_for_field_owner" b.masksFieldOwner base.masksFieldOwner
  doubleVectors := pick keys "use_large_world_coordinates" b.doubleVectors base.doubleVectors
  untaggedWeakPointers :=
    pick keys "is_weak_object_ptr_without_tag" b.untaggedWeakPointers base.untaggedWeakPointers
  bareEnumNames := pick keys "is_enum_name_only" b.bareEnumNames base.bareEnumNames
  pool := pick keys "name_pool" b.pool base.pool
  array := pick keys "name_array" b.array base.array

/-- The build with only these settings of its layouts, all others being the usual ones. -/
def inner (b : Build) (poolKeys arrayKeys : List String) : Build :=
  { b with pool := b.pool.overlay poolKeys {}, array := b.array.overlay arrayKeys {} }

/-- The settings of the build that a file gives: those of `keys`, and of the layouts, if they are
among them, those of `poolKeys` and `arrayKeys`. -/
def given (b : Build) (keys poolKeys arrayKeys : List String) : Build :=
  (b.inner poolKeys arrayKeys).overlay keys {}

/-- The texts that give a setting of the build by its key. Behind an unknown key stands anything. -/
inductive Gives (b : Build) (poolKeys arrayKeys : List String) : String → List Char → Prop where
  | usesPool {t} (h : Written (.bool b.usesPool) t) : Gives b poolKeys arrayKeys "use_name_pool" t
  | casePreserving {t} (h : Written (.bool b.casePreserving) t) :
      Gives b poolKeys arrayKeys "use_case_preserving_name" t
  | outlineNumbers {t} (h : Written (.bool b.outlineNumbers) t) :
      Gives b poolKeys arrayKeys "use_outline_number_name" t
  | numberPlacement {t} (h : Written (.text b.numberPlacement.label) t) :
      Gives b poolKeys arrayKeys "number_placement" t
  | nameBeforeClass {t} (h : Written (.bool b.nameBeforeClass) t) :
      Gives b poolKeys arrayKeys "is_object_name_before_class" t
  | fieldProperties {t} (h : Written (.bool b.fieldProperties) t) :
      Gives b poolKeys arrayKeys "use_fproperty" t
  | masksFieldOwner {t} (h : Written (.bool b.masksFieldOwner) t) :
      Gives b poolKeys arrayKeys "use_mask_for_field_owner" t
  | doubleVectors {t} (h : Written (.bool b.doubleVectors) t) :
      Gives b poolKeys arrayKeys "use_large_world_coordinates" t
  | untaggedWeakPointers {t} (h : Written (.bool b.untaggedWeakPointers) t) :
      Gives b poolKeys arrayKeys "is_weak_object_ptr_without_tag" t
  | bareEnumNames {t} (h : Written (.bool b.bareEnumNames) t) :
      Gives b poolKeys arrayKeys "is_enum_name_only" t
  | pool {t} (h : Object b.pool.Gives poolKeys t) : Gives b poolKeys arrayKeys "name_pool" t
  | array {t} (h : Object b.array.Gives arrayKeys t) : Gives b poolKeys arrayKeys "name_array" t
  | unknown {key t} (hkey : ∀ field ∈ fields, field.key ≠ key) (h : Derives .value t) :
      Gives b poolKeys arrayKeys key t

theorem given_congr (b : Build) {keys poolKeys arrayKeys keys' poolKeys' arrayKeys' : List String}
    (h : SameFields fields keys keys') (hpool : SameFields PoolLayout.fields poolKeys poolKeys')
    (harray : SameFields ArrayLayout.fields arrayKeys arrayKeys') :
    b.given keys poolKeys arrayKeys = b.given keys' poolKeys' arrayKeys' := by
  simp only [SameFields, fields, List.forall_mem_cons] at h
  rw [given, given, inner, inner, b.pool.overlay_congr {} hpool, b.array.overlay_congr {} harray]
  simp only [overlay, pick, h]

theorem lookup_label (p : NumberPlacement) : NumberPlacement.labels.lookup p.label = some p := by
  cases p <;> rfl

theorem Gives.fills_or_passed {b : Build} {poolKeys arrayKeys : List String} {key : String}
    {t : List Char} (h : b.Gives poolKeys arrayKeys key t)
    (hpool : Once PoolLayout.fields poolKeys) (harray : Once ArrayLayout.fields arrayKeys) :
    Fills fields (fun key base => (b.inner poolKeys arrayKeys).overlay [key] base) key t ∨
      Passed fields (fun key base => (b.inner poolKeys arrayKeys).overlay [key] base) key t := by
  cases h with
  | usesPool h => exact .inl ⟨_, rfl, fun _ => (Json.reads_bool h).bind_pure _⟩
  | casePreserving h => exact .inl ⟨_, rfl, fun _ => (Json.reads_bool h).bind_pure _⟩
  | outlineNumbers h => exact .inl ⟨_, rfl, fun _ => (Json.reads_bool h).bind_pure _⟩
  | numberPlacement h =>
      exact .inl ⟨_, rfl, fun _ => (Json.reads_variant h (lookup_label _)).bind_pure _⟩
  | nameBeforeClass h => exact .inl ⟨_, rfl, fun _ => (Json.reads_bool h).bind_pure _⟩
  | fieldProperties h => exact .inl ⟨_, rfl, fun _ => (Json.reads_bool h).bind_pure _⟩
  | masksFieldOwner h => exact .inl ⟨_, rfl, fun _ => (Json.reads_bool h).bind_pure _⟩
  | doubleVectors h => exact .inl ⟨_, rfl, fun _ => (Json.reads_bool h).bind_pure _⟩
  | untaggedWeakPointers h => exact .inl ⟨_, rfl, fun _ => (Json.reads_bool h).bind_pure _⟩
  | bareEnumNames h => exact .inl ⟨_, rfl, fun _ => (Json.reads_bool h).bind_pure _⟩
  | pool h => exact .inl ⟨_, rfl, fun _ => (b.pool.reads h hpool).bind_pure _⟩
  | array h => exact .inl ⟨_, rfl, fun _ => (b.array.reads h harray).bind_pure _⟩
  | unknown hkey h =>
      refine .inr ⟨by simpa using hkey, h, fun built => ?_⟩
      simp only [fields, List.forall_mem_cons] at hkey
      simp only [overlay, pick_cons, pick_nil, if_neg, hkey, not_false_eq_true]

theorem Gives.derives {b : Build} {poolKeys arrayKeys : List String} {key : String} {t : List Char}
    (h : b.Gives poolKeys arrayKeys key t) : Derives .value t := by
  cases h with
  | unknown _ h => exact h
  | pool h => exact h.derives fun _ _ => PoolLayout.Gives.derives
  | array h => exact h.derives fun _ _ => ArrayLayout.Gives.derives
  | _ h => exact h.derives

theorem Gives.object_of_pool {b : Build} {poolKeys arrayKeys : List String} {key : String}
    {t : List Char} (h : b.Gives poolKeys arrayKeys key t) (hkey : key = "name_pool") :
    Object b.pool.Gives poolKeys t := by
  cases h with
  | pool h => exact h
  | unknown hne => simp [fields, hkey] at hne
  | _ => simp at hkey

theorem Gives.object_of_array {b : Build} {poolKeys arrayKeys : List String} {key : String}
    {t : List Char} (h : b.Gives poolKeys arrayKeys key t) (hkey : key = "name_array") :
    Object b.array.Gives arrayKeys t := by
  cases h with
  | array h => exact h
  | unknown hne => simp [fields, hkey] at hne
  | _ => simp at hkey

/-- A file in which the build gives these settings, each of them once. -/
structure Describes (b : Build) (keys poolKeys arrayKeys : List String) (text : String) : Prop where
  document : Document (b.Gives poolKeys arrayKeys) keys text
  once : Once fields keys
  pool_once : Once PoolLayout.fields poolKeys
  array_once : Once ArrayLayout.fields arrayKeys

variable {b : Build} {keys poolKeys arrayKeys keys' poolKeys' arrayKeys' : List String}
  {text text' : String}

theorem ofJson_eq (h : b.Describes keys poolKeys arrayKeys text) :
    ofJson text = .ok (b.given keys poolKeys arrayKeys) := by
  obtain ⟨t, gap, hobject, hgap, rfl⟩ := h.document
  have hreads : Reads reader t (b.given keys poolKeys arrayKeys) := by
    refine hobject.reads (fun _ _ hv => hv.fills_or_passed h.pool_once h.array_once) h.once ?_
    rw [foldl_overlay (fun base => by simp only [overlay, pick_nil])
      (fun k keys base => by simp only [overlay, pick_cons, pick_nil])]
    rfl
  exact hreads.read_eq hgap

/-! ## Settings that are given twice -/

theorem passes_fields : ∀ field ∈ fields, ∀ built, Passes (field.read built) := by
  simp only [fields, List.forall_mem_cons, List.not_mem_nil, false_implies, implies_true, and_true]
  exact ⟨fun _ => Json.passes_bool.bind_pure _, fun _ => Json.passes_bool.bind_pure _,
    fun _ => Json.passes_bool.bind_pure _, fun _ => (Json.passes_variant _).bind_pure _,
    fun _ => Json.passes_bool.bind_pure _, fun _ => Json.passes_bool.bind_pure _,
    fun _ => Json.passes_bool.bind_pure _, fun _ => Json.passes_bool.bind_pure _,
    fun _ => Json.passes_bool.bind_pure _, fun _ => Json.passes_bool.bind_pure _,
    fun _ => (Json.passes_record PoolLayout.passes_fields).bind_pure _,
    fun _ => (Json.passes_record ArrayLayout.passes_fields).bind_pure _⟩

/-- If a file is read, no setting of the build is given twice in it. -/
theorem accepted_of_ofJson {value : String → List Char → Prop} {out : Build}
    (h : Document value keys text) (hvalue : ∀ key v, value key v → Derives .value v)
    (hok : ofJson text = .ok out) : Accepted fields value [] keys :=
  h.accepted hvalue passes_fields hok

/-- If a file is read, no setting of a layout is given twice in it. -/
theorem once_of_nested {σ : Type} {inner : List (RecordField σ)} {start : σ} {finish : σ → Option σ}
    {outer : String} {innerKeys : List String} {put : Build → σ → Build} {out : Build}
    (h : Document (Json.Nested outer innerKeys) keys text) (houter : outer ∈ keys)
    (hpasses : ∀ field ∈ inner, ∀ built, Passes (field.read built))
    (hfind : fields.find? (·.key == outer) =
      some ⟨outer, fun b => Json.record inner start finish >>= fun l => pure (put b l)⟩)
    (hok : ofJson text = .ok out) : Once inner innerKeys := by
  have haccepted := accepted_of_ofJson h (fun _ _ hv => hv.1) hok
  obtain ⟨built, v, ⟨_, hobject⟩, rest, p, _, hread⟩ := haccepted.read outer houter _ hfind
  obtain ⟨l, left, hrecord, _⟩ := Json.bind_eq_ok_iff.mp hread
  exact ((hobject rfl).accepted (fun _ _ hv => hv) hpasses hrecord).once

/-- What a file that gives some settings of a build is read as. -/
structure PartialSpec (b : Build) : Prop where
  /-- The settings that are given are those of the build, all others are the usual ones. -/
  given : ∀ keys poolKeys arrayKeys text, b.Describes keys poolKeys arrayKeys text →
    ofJson text = .ok (b.given keys poolKeys arrayKeys)
  /-- Neither the order of the keys nor the keys that mean nothing matter. -/
  order : ∀ keys poolKeys arrayKeys text keys' poolKeys' arrayKeys' text',
    b.Describes keys poolKeys arrayKeys text → b.Describes keys' poolKeys' arrayKeys' text' →
    SameFields fields keys keys' → SameFields PoolLayout.fields poolKeys poolKeys' →
    SameFields ArrayLayout.fields arrayKeys arrayKeys' → ofJson text = ofJson text'
  /-- Such a file is a valid one, and the layouts in it are objects. -/
  valid : ∀ keys poolKeys arrayKeys text, Document (b.Gives poolKeys arrayKeys) keys text →
    Document (Json.Nested "name_pool" poolKeys) keys text ∧
      Document (Json.Nested "name_array" arrayKeys) keys text
  /-- In a valid file that is an object no setting may be given twice, whatever its values. -/
  twice : ∀ keys text, Document (fun _ => Derives .value) keys text →
    ¬ Once fields keys → ∃ fault, ofJson text = .error fault
  pool_twice : ∀ keys poolKeys text, Document (Json.Nested "name_pool" poolKeys) keys text →
    "name_pool" ∈ keys → ¬ Once PoolLayout.fields poolKeys → ∃ fault, ofJson text = .error fault
  array_twice : ∀ keys arrayKeys text, Document (Json.Nested "name_array" arrayKeys) keys text →
    "name_array" ∈ keys → ¬ Once ArrayLayout.fields arrayKeys → ∃ fault, ofJson text = .error fault

theorem exists_error {α : Type} {x : Except Json.Fault α} (h : ∀ a, x ≠ .ok a) :
    ∃ fault, x = .error fault := by
  cases x with
  | error fault => exact ⟨fault, rfl⟩
  | ok a => exact absurd rfl (h a)

theorem partial_spec (b : Build) : PartialSpec b where
  given _ _ _ _ h := ofJson_eq h
  order keys poolKeys arrayKeys text keys' poolKeys' arrayKeys' text' h h' hkeys hpool harray := by
    rw [ofJson_eq h, ofJson_eq h', b.given_congr hkeys hpool harray]
  valid keys poolKeys arrayKeys text h :=
    ⟨h.mono fun _ _ hv => ⟨hv.derives, fun hkey =>
      (hv.object_of_pool hkey).mono fun _ _ => PoolLayout.Gives.derives⟩,
      h.mono fun _ _ hv => ⟨hv.derives, fun hkey =>
      (hv.object_of_array hkey).mono fun _ _ => ArrayLayout.Gives.derives⟩⟩
  twice keys text h honce := exists_error fun out hok =>
    honce (accepted_of_ofJson h (fun _ _ hv => hv) hok).once
  pool_twice keys poolKeys text h hkey honce := exists_error fun out hok =>
    honce (once_of_nested h hkey PoolLayout.passes_fields rfl hok)
  array_twice keys arrayKeys text h hkey honce := exists_error fun out hok =>
    honce (once_of_nested h hkey ArrayLayout.passes_fields rfl hok)

/-- A file with a pool of its own stride and a member that means nothing. -/
theorem partial_spec_of_stride :
    ofJson "\x7b\"use_name_pool\":true,\"note\":[-1.5e3],\"name_pool\":\x7b\"stride\":4\x7d\x7d" =
      .ok { usesPool := true, pool := { stride := 4 } } := by
  have hdigit {c : Char} (hc : Json.isDigit c = true) : Json.Digits [c] :=
    ⟨List.cons_ne_nil c [], by simpa using hc⟩
  have hnumber : Json.Number (['-'] ++ (['1'] ++ (['.', '5'] ++ ['e', '3']))) :=
    .intro (.inr rfl) ⟨hdigit rfl, by decide⟩ (.given (hdigit rfl))
      (.given (.inl rfl) (.inl rfl) (hdigit rfl))
  have hdescribes : Describes { usesPool := true, pool := { stride := 4 } }
      ["use_name_pool", "note", "name_pool"] ["stride"] []
      "\x7b\"use_name_pool\":true,\"note\":[-1.5e3],\"name_pool\":\x7b\"stride\":4\x7d\x7d" := by
    exact ⟨⟨_, [], .members blank_nil (.more (member_compact (.usesPool (.true blank_nil)))
      (.more (member_compact (.unknown (by decide)
        (.array (.lastElement (.number hnumber) blank_nil))))
      (.last (member_compact (.pool (.members blank_nil
        (.last (member_compact (.stride (.natural blank_nil 4)))))))))),
      blank_nil, rfl⟩, by decide, by decide, by decide⟩
  exact (partial_spec _).given _ _ _ _ hdescribes

end Build

end EngineNames
