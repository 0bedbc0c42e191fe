import EngineNames.Binding
import EngineNames.Json.Reader
import EngineNames.Json.Value

/-!
# Bind settings

The text form of a `BindPlan` and of the `Override` in it. An override has to give its offset.
-/

namespace EngineNames

open Json (RecordField Reader Value)

namespace StrategyKind

def labels : List (String × StrategyKind) :=
  [("AppendString", .appendString), ("ToString", .toString), ("NameTable", .nameTable)]

end StrategyKind

namespace Convention

def labels : List (String × Convention) :=
  [("C", .c), ("System", .system)]

def label : Convention → String
  | c => "C"
  | system => "System"

end Convention

/-- An override while it is read: the offset is not known until it is given. -/
structure OverrideDraft where
  offset : Option UInt64 := none
  rest : Override := { offset := 0 }

namespace OverrideDraft

/-- The override, if its offset was given. -/
def finish (d : OverrideDraft) : Option Override :=
  d.offset.map fun offset => { d.rest with offset }

def fields : List (RecordField OverrideDraft) :=
  [⟨"offset", fun d => return { d with offset := some (← Json.uint64) }⟩,
    ⟨"kind", fun d =>
      return { d with rest := { d.rest with kind := ← Json.variant StrategyKind.labels } }⟩,
    ⟨"is_name_pool", fun d => return { d with rest := { d.rest with isPool := ← Json.bool } }⟩,
    ⟨"module", fun d =>
      return { d with rest := { d.rest with moduleName := ← Json.optional Json.string } }⟩,
    ⟨"convention", fun d =>
      return { d with rest := { d.rest with convention := ← Json.variant Convention.labels } }⟩]

end OverrideDraft

namespace Override

def reader : Reader Override :=
  Json.record OverrideDraft.fields {} OverrideDraft.finish

/-- Reads an override. -/
def ofJson (text : String) : Except Json.Fault Override :=
  Json.read reader text

def toJson (o : Override) : Value :=
  .object
    [("offset", .natural o.offset.toNat), ("kind", .text o.kind.label),
      ("is_name_pool", .bool o.isPool),
      ("module", (o.moduleName.map Value.text).getD .null),
      ("convention", .text o.convention.label)]

end Override

namespace BindPlan

def fields : List (RecordField BindPlan) :=
  [⟨"explicit", fun p => return { p with override := ← Json.optional Override.reader }⟩,
    ⟨"force_name_table", fun p => return { p with tableOnly := ← Json.bool }⟩,
    ⟨"allow_fallback", fun p => return { p with allowThunk := ← Json.bool }⟩]

def reader : Reader BindPlan :=
  Json.record fields {} some

/-- Reads a plan. -/
def ofJson (text : String) : Except Json.Fault BindPlan :=
  Json.read reader text

def toJson (p : BindPlan) : Value :=
  .object
    [("explicit", (p.override.map Override.toJson).getD .null),
      ("force_name_table", .bool p.tableOnly), ("allow_fallback", .bool p.allowThunk)]

end BindPlan

end EngineNames
