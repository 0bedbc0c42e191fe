import EngineNames.Flags

/-! # Field class bits -/

namespace EngineNames

/-- The bit that identifies the class of a field. -/
def fieldClassFlags : FlagDomain where
  name := "FieldClassId"
  width := 64
  flags :=
    [⟨1, "Int8"⟩, ⟨6, "Byte"⟩, ⟨7, "Int"⟩, ⟨8, "Float"⟩, ⟨9, "UInt64"⟩, ⟨10, "Class"⟩,
      ⟨11, "UInt32"⟩, ⟨12, "Interface"⟩, ⟨13, "Name"⟩, ⟨14, "String"⟩, ⟨16, "Object"⟩,
      ⟨17, "Bool"⟩, ⟨18, "UInt16"⟩, ⟨20, "Struct"⟩, ⟨21, "Array"⟩, ⟨22, "Int64"⟩,
      ⟨23, "Delegate"⟩, ⟨27, "SoftObject"⟩, ⟨28, "LazyObject"⟩, ⟨29, "WeakObject"⟩,
      ⟨30, "Text"⟩, ⟨31, "Int16"⟩, ⟨32, "Double"⟩, ⟨33, "SoftClass"⟩, ⟨46, "Map"⟩, ⟨47, "Set"⟩,
      ⟨48, "Enum"⟩, ⟨50, "MulticastInlineDelegate"⟩, ⟨51, "MulticastSparseDelegate"⟩,
      ⟨53, "ObjectPointer"⟩]

end EngineNames
