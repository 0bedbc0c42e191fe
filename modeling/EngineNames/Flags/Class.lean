import EngineNames.Flags

/-! # Class flags -/

namespace EngineNames

/-- What the engine records about each class. -/
def classFlags : FlagDomain where
  name := "ClassFlags"
  width := 32
  flags :=
    [⟨0, "Abstract"⟩, ⟨1, "DefaultConfig"⟩, ⟨2, "Config"⟩, ⟨3, "Transient"⟩, ⟨4, "Parsed"⟩,
      ⟨5, "MatchedSerializers"⟩, ⟨6, "ProjectUserConfig"⟩, ⟨7, "Native"⟩, ⟨8, "NoExport"⟩,
      ⟨9, "NotPlaceable"⟩, ⟨10, "PerObjectConfig"⟩, ⟨11, "ReplicationDataIsSetUp"⟩,
      ⟨12, "EditInlineNew"⟩, ⟨13, "CollapseCategories"⟩, ⟨14, "Interface"⟩,
      ⟨15, "CustomConstructor"⟩, ⟨16, "Const"⟩, ⟨17, "LayoutChanging"⟩,
      ⟨18, "CompiledFromBlueprint"⟩, ⟨19, "MinimalAPI"⟩, ⟨20, "RequiredAPI"⟩,
      ⟨21, "DefaultToInstanced"⟩, ⟨22, "TokenStreamAssembled"⟩, ⟨23, "HasInstancedReference"⟩,
      ⟨24, "Hidden"⟩, ⟨25, "Deprecated"⟩, ⟨26, "HideDropDown"⟩, ⟨27, "GlobalUserConfig"⟩,
      ⟨28, "Intrinsic"⟩, ⟨29, "Constructed"⟩, ⟨30, "ConfigDoNotCheckDefaults"⟩,
      ⟨31, "NewerVersionExists"⟩]

end EngineNames
