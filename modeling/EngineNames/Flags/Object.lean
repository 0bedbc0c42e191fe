import EngineNames.Flags

/-! # Object flags -/

namespace EngineNames

/-- What the engine records about each object. -/
def objectFlags : FlagDomain where
  name := "ObjectFlags"
  width := 32
  flags :=
    [⟨0, "Public"⟩, ⟨1, "Standalone"⟩, ⟨2, "MarkAsNative"⟩, ⟨3, "Transactional"⟩,
      ⟨4, "ClassDefaultObject"⟩, ⟨5, "ArchetypeObject"⟩, ⟨6, "Transient"⟩, ⟨7, "MarkAsRootSet"⟩,
      ⟨8, "TagGarbageTemp"⟩, ⟨9, "NeedInitialization"⟩, ⟨10, "NeedLoad"⟩, ⟨11, "KeepForCooker"⟩,
      ⟨12, "NeedPostLoad"⟩, ⟨13, "NeedPostLoadSubobjects"⟩, ⟨14, "NewerVersionExists"⟩,
      ⟨15, "BeginDestroyed"⟩, ⟨16, "FinishDestroyed"⟩, ⟨17, "BeingRegenerated"⟩,
      ⟨18, "DefaultSubObject"⟩, ⟨19, "WasLoaded"⟩, ⟨20, "TextExportTransient"⟩,
      ⟨21, "LoadCompleted"⟩, ⟨22, "InheritableComponentTemplate"⟩, ⟨23, "DuplicateTransient"⟩,
      ⟨24, "StrongRefOnFrame"⟩, ⟨25, "NonPIEDuplicateTransient"⟩, ⟨26, "Dynamic"⟩,
      ⟨27, "WillBeLoaded"⟩]

end EngineNames
