import EngineNames.Proofs.Json.Rendered
import EngineNames.Proofs.Settings.Partial
import EngineNames.Proofs.Signature.Search
import EngineNames.Settings.BindPlan
import EngineNames.Settings.SignatureSet

/-! # Settings that are written and read back

The text that settings are written as is read as the same settings. A set of signatures is refused
if one of them has a pattern that cannot be read.
-/

namespace EngineNames

open Json (Object Reads Value reads_list reads_object reads_optional written_bool written_natural
  written_text)

/-! ## Builds -/

theorem PoolLayout.object_chars (l : PoolLayout) :
    Object l.Gives (fields.map (·.key)) l.toJson.chars := by
  refine Json.object_chars rfl ?_
  simp only [List.forall_mem_cons]
  exact ⟨.blocksOffset (written_natural _), .blockOffsetBits (written_natural _),
    .maxBlocks (written_natural _), .stride (written_natural _), .lengthShift (written_natural _),
    .wideMask (written_natural _), .maxNameLength (written_natural _), nofun⟩

theorem ArrayLayout.object_chars (l : ArrayLayout) :
    Object l.Gives (fields.map (·.key)) l.toJson.chars := by
  refine Json.object_chars rfl ?_
  simp only [List.forall_mem_cons]
  exact ⟨.elementsPerChunk (written_natural _), .entryIndexOffset (written_natural _),
    .entryStringOffset (written_natural _), .maxNameLength (written_natural _), nofun⟩

namespace Build

/-- A build is written with all its settings. -/
theorem describes_render (b : Build) : b.Describes (fields.map (·.key))
    (PoolLayout.fields.map (·.key)) (ArrayLayout.fields.map (·.key)) b.toJson.render where
  document := by
    refine ⟨b.toJson.chars, [], Json.object_chars rfl ?_, Json.blank_nil, ?_⟩
    · simp only [List.forall_mem_cons]
      exact ⟨.usesPool (written_bool _), .casePreserving (written_bool _),
        .outlineNumbers (written_bool _), .numberPlacement (written_text _),
        .nameBeforeClass (written_bool _), .fieldProperties (written_bool _),
        .masksFieldOwner (written_bool _), .doubleVectors (written_bool _),
        .untaggedWeakPointers (written_bool _), .bareEnumNames (written_bool _),
        .pool b.pool.object_chars, .array b.array.object_chars, nofun⟩
    · rw [List.append_nil]
      rfl
  once := by decide
  pool_once := by decide
  array_once := by decide

theorem given_all (b : Build) : b.given (fields.map (·.key)) (PoolLayout.fields.map (·.key))
    (ArrayLayout.fields.map (·.key)) = b :=
  rfl

end Build

/-! ## Plans -/

theorem StrategyKind.lookup_label (k : StrategyKind) : labels.lookup k.label = some k := by
  cases k <;> rfl

theorem Convention.lookup_label (convention : Convention) :
    labels.lookup convention.label = some convention := by
  cases convention <;> rfl

namespace Override

/-- Puts the part of the override that has this key into a draft. -/
def put (o : Override) (key : String) (d : OverrideDraft) : OverrideDraft :=
  match key with
  | "offset" => { d with offset := some o.offset }
  | "kind" => { d with rest := { d.rest with kind := o.kind } }
  | "is_name_pool" => { d with rest := { d.rest with isPool := o.isPool } }
  | "module" => { d with rest := { d.rest with moduleName := o.moduleName } }
  | "convention" => { d with rest := { d.rest with convention := o.convention } }
  | _ => d

theorem reads_chars (o : Override) : Reads reader o.toJson.chars o := by
  refine reads_object o.put rfl (by decide) ?_ rfl
  have hkind := Json.reads_variant (written_text _) o.kind.lookup_label
  have hmodule : Reads (Json.optional Json.string) _ o.moduleName :=
    reads_optional Value.text (fun _ => nofun) fun a _ => Json.reads_string (written_text a)
  have hconvention := Json.reads_variant (written_text _) o.convention.lookup_label
  simp only [List.forall_mem_cons]
  exact ⟨⟨_, rfl, fun _ => (Json.reads_uint64 (written_natural _)).bind_pure _⟩,
    ⟨_, rfl, fun _ => hkind.bind_pure _⟩,
    ⟨_, rfl, fun _ => (Json.reads_bool (written_bool _)).bind_pure _⟩,
    ⟨_, rfl, fun _ => hmodule.bind_pure _⟩, ⟨_, rfl, fun _ => hconvention.bind_pure _⟩, nofun⟩

end Override

namespace BindPlan

def put (p : BindPlan) (key : String) (built : BindPlan) : BindPlan :=
  match key with
  | "explicit" => { built with override := p.override }
  | "force_name_table" => { built with tableOnly := p.tableOnly }
  | "allow_fallback" => { built with allowThunk := p.allowThunk }
  | _ => built

theorem reads_chars (p : BindPlan) : Reads reader p.toJson.chars p := by
  refine reads_object p.put rfl (by decide) ?_ rfl
  have hoverride : Reads (Json.optional Override.reader) _ p.override :=
    reads_optional Override.toJson (fun _ => nofun) fun o _ => o.reads_chars
  simp only [List.forall_mem_cons]
  exact ⟨⟨_, rfl, fun _ => hoverride.bind_pure _⟩,
    ⟨_, rfl, fun _ => (Json.reads_bool (written_bool _)).bind_pure _⟩,
    ⟨_, rfl, fun _ => (Json.reads_bool (written_bool _)).bind_pure _⟩, nofun⟩

end BindPlan

/-! ## Signatures -/

namespace Signature

/-- Puts the part of the signature that has this key into a draft. -/
def put (s : Signature) (key : String) (d : SignatureDraft) : SignatureDraft :=
  match key with
  | "pattern" => { d with pattern := some s.pattern }
  | "rel_offset" => { d with operandOffset := s.operandOffset }
  | "instruction_len" => { d with instructionLength := s.instructionLength }
  | _ => d

theorem reads_chars (s : Signature) : Reads reader s.toJson.chars s := by
  refine reads_object s.put rfl (by decide) ?_ rfl
  have hnumber (n : Option UInt64) : Reads (Json.optional Json.uint64)
      ((n.map fun n => Value.natural n.toNat).getD .null).chars n :=
    reads_optional _ (fun _ => nofun) fun a _ => Json.reads_uint64 (written_natural _)
  simp only [List.forall_mem_cons]
  exact ⟨⟨_, rfl, fun _ => (Json.reads_string (written_text _)).bind_pure _⟩,
    ⟨_, rfl, fun _ => (hnumber _).bind_pure _⟩, ⟨_, rfl, fun _ => (hnumber _).bind_pure _⟩, nofun⟩

end Signature

namespace SignatureSet

def put (s : SignatureSet) (key : String) (built : SignatureSet) : SignatureSet :=
  match key with
  | "append_string" => { built with appendString := s.appendString }
  | "to_string" => { built with toString := s.toString }
  | "name_table" => { built with nameTable := s.nameTable }
  | "conversion_thunk" => { built with conversionThunk := s.conversionThunk }
  | _ => built

theorem reads_chars (s : SignatureSet) : Reads reader s.toJson.chars s := by
  refine reads_object s.put rfl (by decide) ?_ rfl
  have hlist (signatures : List Signature) : Reads (Json.list Signature.reader)
      (Value.array (signatures.map Signature.toJson)).chars signatures :=
    reads_list fun s _ => s.reads_chars
  simp only [List.forall_mem_cons]
  exact ⟨⟨_, rfl, fun _ => (hlist _).bind_pure _⟩, ⟨_, rfl, fun _ => (hlist _).bind_pure _⟩,
    ⟨_, rfl, fun _ => (hlist _).bind_pure _⟩, ⟨_, rfl, fun _ => (hlist _).bind_pure _⟩, nofun⟩

theorem exists_of_forM_eq_error {ε α : Type} {f : α → Except ε Unit} {l : List α} {e : ε}
    (h : l.forM f = .error e) : ∃ earlier x later, l = earlier ++ x :: later ∧
      (∀ y ∈ earlier, f y = .ok ()) ∧ f x = .error e := by
  induction l with
  | nil => cases h
  | cons x l ih =>
      have hcons : (x :: l).forM f = f x >>= fun _ => l.forM f := rfl
      rw [hcons] at h
      cases hx : f x with
      | error e' =>
          rw [hx] at h
          obtain rfl := Except.error.inj h
          exact ⟨[], x, l, rfl, by simp, hx⟩
      | ok u =>
          rw [hx] at h
          obtain ⟨earlier, y, later, rfl, hearlier, hy⟩ := ih h
          exact ⟨x :: earlier, y, later, rfl, List.forall_mem_cons.mpr ⟨hx, hearlier⟩, hy⟩

/-- A set that was written is checked like any other. -/
theorem ofJson_render (s : SignatureSet) :
    ofJson s.toJson.render = (s.check.mapError SignatureFileError.pattern).map fun _ => s := by
  have hread : ofJsonUnchecked s.toJson.render = .ok s := s.reads_chars.ofRender
  rw [ofJson, hread]
  show (s.check.mapError SignatureFileError.pattern >>= fun _ => .ok s) = _
  cases s.check with
  | error e => rfl
  | ok u => rfl

/-- The check stops at the first pattern that cannot be read. -/
theorem exists_of_check {s : SignatureSet} {e : PatternError} (h : s.check = .error e) :
    ∃ earlier signature later, s.all = earlier ++ signature :: later ∧
      (∀ other ∈ earlier, other.hasPattern = true) ∧
      Pattern.ofString signature.pattern = .error e := by
  obtain ⟨earlier, signature, later, hall, hearlier, hfault⟩ := exists_of_forM_eq_error h
  refine ⟨earlier, signature, later, hall, fun other hother => ?_, ?_⟩
  · rw [Signature.hasPattern_iff]
    have hok := hearlier other hother
    cases hpattern : Pattern.ofString other.pattern with
    | error e =>
        rw [hpattern] at hok
        cases hok
    | ok pattern => exact ⟨pattern, rfl⟩
  · cases hpattern : Pattern.ofString signature.pattern with
    | error e' =>
        rw [hpattern] at hfault
        exact congrArg _ (Except.error.inj hfault)
    | ok pattern =>
        rw [hpattern] at hfault
        cases hfault

end SignatureSet

/-- Settings are read back from the text that they are written as. -/
structure RoundTripSpec : Prop where
  build : ∀ b : Build, Build.ofJson b.toJson.render = .ok b
  plan : ∀ p : BindPlan, BindPlan.ofJson p.toJson.render = .ok p
  signatures : ∀ s : SignatureSet,
    (∀ signature ∈ s.all, ∃ pattern, Pattern.ofString signature.pattern = .ok pattern) →
    SignatureSet.ofJson s.toJson.render = .ok s
  /-- A set with patterns that cannot be read is refused for the first of them. -/
  refused : ∀ s : SignatureSet,
    (∃ signature ∈ s.all, ∀ pattern, Pattern.ofString signature.pattern ≠ .ok pattern) →
    ∃ earlier signature later e, s.all = earlier ++ signature :: later ∧
      (∀ other ∈ earlier, ∃ pattern, Pattern.ofString other.pattern = .ok pattern) ∧
      Pattern.ofString signature.pattern = .error e ∧
      SignatureSet.ofJson s.toJson.render = .error (.pattern e) ∧
      e.message = "Configuration error: " ++ e.reason

theorem roundTrip_spec : RoundTripSpec where
  build b := by rw [Build.ofJson_eq b.describes_render, b.given_all]
  plan p := p.reads_chars.ofRender
  signatures s h := by
    have hcheck : s.check = .ok () := SignatureSet.check_eq_ok_iff.mpr fun signature hmem =>
      Signature.hasPattern_iff.mpr (h signature hmem)
    rw [s.ofJson_render, hcheck]
    rfl
  refused s := by
    rintro ⟨signature, hmem, hnone⟩
    cases hcheck : s.check with
    | error e =>
        obtain ⟨earlier, first, later, hall, hearlier, hfault⟩ :=
          SignatureSet.exists_of_check hcheck
        refine ⟨earlier, first, later, e, hall, fun other hother => ?_, hfault, ?_, rfl⟩
        · exact Signature.hasPattern_iff.mp (hearlier other hother)
        · rw [s.ofJson_render, hcheck]
          rfl
    | ok u =>
        have hpattern := SignatureSet.check_eq_ok_iff.mp hcheck signature hmem
        obtain ⟨pattern, hok⟩ := Signature.hasPattern_iff.mp hpattern
        exact absurd hok (hnone pattern)

end EngineNames
