import EngineNames.Build
import EngineNames.Json.Reader
import EngineNames.Json.Value

/-!
# Build settings

The text form of a `Build`. Settings that are not given have their usual values, and those of a
layout that is given in part have the usual values of the layout.
-/

namespace EngineNames

open Json (RecordField Reader Value)

namespace NumberPlacement

def labels : List (String × NumberPlacement) :=
  [("AfterComparisonIndex", .afterComparisonIndex), ("AfterDisplayIndex", .afterDisplayIndex)]

def label : NumberPlacement → String
  | afterComparisonIndex => "AfterComparisonIndex"
  | afterDisplayIndex => "AfterDisplayIndex"

end NumberPlacement

namespace PoolLayout

def fields : List (RecordField PoolLayout) :=
  [⟨"blocks_offset", fun l => return { l with blocksOffset := ← Json.uint64 }⟩,
    ⟨"block_offset_bits", fun l => return { l with blockOffsetBits := ← Json.uint32 }⟩,
    ⟨"max_blocks", fun l => return { l with maxBlocks := ← Json.uint64 }⟩,
    ⟨"stride", fun l => return { l with stride := ← Json.uint64 }⟩,
    ⟨"len_shift", fun l => return { l with lengthShift := ← Json.uint32 }⟩,
    ⟨"wide_mask", fun l => return { l with wideMask := ← Json.uint16 }⟩,
    ⟨"max_name_len", fun l => return { l with maxNameLength := ← Json.uint64 }⟩]

def reader : Reader PoolLayout :=
  Json.record fields {} some

def toJson (l : PoolLayout) : Value :=
  .object
    [("blocks_offset", .natural l.blocksOffset.toNat),
      ("block_offset_bits", .natural l.blockOffsetBits.toNat),
      ("max_blocks", .natural l.maxBlocks.toNat), ("stride", .natural l.stride.toNat),
      ("len_shift", .natural l.lengthShift.toNat), ("wide_mask", .natural l.wideMask.toNat),
      ("max_name_len", .natural l.maxNameLength.toNat)]

end PoolLayout

namespace ArrayLayout

def fields : List (RecordField ArrayLayout) :=
  [⟨"elements_per_chunk", fun l => return { l with elementsPerChunk := ← Json.uint64 }⟩,
    ⟨"entry_index_offset", fun l => return { l with entryIndexOffset := ← Json.uint64 }⟩,
    ⟨"entry_string_offset", fun l => return { l with entryStringOffset := ← Json.uint64 }⟩,
    ⟨"max_name_len", fun l => return { l with maxNameLength := ← Json.uint64 }⟩]

def reader : Reader ArrayLayout :=
  Json.record fields {} some

def toJson (l : ArrayLayout) : Value :=
  .object
    [("elements_per_chunk", .natural l.elementsPerChunk.toNat),
      ("entry_index_offset", .natural l.entryIndexOffset.toNat),
      ("entry_string_offset", .natural l.entryStringOffset.toNat),
      ("max_name_len", .natural l.maxNameLength.toNat)]

end ArrayLayout

namespace Build

def fields : List (RecordField Build) :=
  [⟨"use_name_pool", fun b => return { b with usesPool := ← Json.bool }⟩,
    ⟨"use_case_preserving_name", fun b => return { b with casePreserving := ← Json.bool }⟩,
    ⟨"use_outline_number_name", fun b => return { b with outlineNumbers := ← Json.bool }⟩,
    ⟨"number_placement", fun b =>
      return { b with numberPlacement := ← Json.variant NumberPlacement.labels }⟩,
    ⟨"is_object_name_before_class", fun b => return { b with nameBeforeClass := ← Json.bool }⟩,
    ⟨"use_fproperty", fun b => return { b with fieldProperties := ← Json.bool }⟩,
    ⟨"use_mask_for_field_owner", fun b => return { b with masksFieldOwner := ← Json.bool }⟩,
    ⟨"use_large_world_coordinates", fun b => return { b with doubleVectors := ← Json.bool }⟩,
    ⟨"is_weak_object_ptr_without_tag", fun b =>
      return { b with untaggedWeakPointers := ← Json.bool }⟩,
    ⟨"is_enum_name_only", fun b => return { b with bareEnumNames := ← Json.bool }⟩,
    ⟨"name_pool", fun b => return { b with pool := ← PoolLayout.reader }⟩,
    ⟨"name_array", fun b => return { b with array := ← ArrayLayout.reader }⟩]

def reader : Reader Build :=
  Json.record fields {} some

/-- Reads the settings of a build. -/
def ofJson (text : String) : Except Json.Fault Build :=
  Json.read reader text

def toJson (b : Build) : Value :=
  .object
    [("use_name_pool", .bool b.usesPool), ("use_case_preserving_name", .bool b.casePreserving),
      ("use_outline_number_name", .bool b.outlineNumbers),
      ("number_placement", .text b.numberPlacement.label),
      ("is_object_name_before_class", .bool b.nameBeforeClass),
      ("use_fproperty", .bool b.fieldProperties),
      ("use_mask_for_field_owner", .bool b.masksFieldOwner),
      ("use_large_world_coordinates", .bool b.doubleVectors),
      ("is_weak_object_ptr_without_tag", .bool b.untaggedWeakPointers),
      ("is_enum_name_only", .bool b.bareEnumNames), ("name_pool", b.pool.toJson),
      ("name_array", b.array.toJson)]

end Build

end EngineNames
