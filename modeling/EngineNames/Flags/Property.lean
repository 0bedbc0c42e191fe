import EngineNames.Flags

/-! # Property flags -/

namespace EngineNames

/-- What the engine records about each property. -/
def propertyFlags : FlagDomain where
  name := "PropertyFlags"
  width := 64
  flags :=
    [⟨0, "Edit"⟩, ⟨1, "ConstParm"⟩, ⟨2, "BlueprintVisible"⟩, ⟨3, "ExportObject"⟩,
      ⟨4, "BlueprintReadOnly"⟩, ⟨5, "Net"⟩, ⟨6, "EditFixedSize"⟩, ⟨7, "Parm"⟩, ⟨8, "OutParm"⟩,
      ⟨9, "ZeroConstructor"⟩, ⟨10, "ReturnParm"⟩, ⟨11, "DisableEditOnTemplate"⟩,
      ⟨13, "Transient"⟩, ⟨14, "Config"⟩, ⟨16, "DisableEditOnInstance"⟩, ⟨17, "EditConst"⟩,
      ⟨18, "GlobalConfig"⟩, ⟨19, "InstancedReference"⟩, ⟨21, "DuplicateTransient"⟩,
      ⟨22, "SubobjectReference"⟩, ⟨24, "SaveGame"⟩, ⟨25, "NoClear"⟩, ⟨27, "ReferenceParm"⟩,
      ⟨28, "BlueprintAssignable"⟩, ⟨29, "Deprecated"⟩, ⟨30, "IsPlainOldData"⟩, ⟨31, "RepSkip"⟩,
      ⟨32, "RepNotify"⟩, ⟨33, "Interp"⟩, ⟨34, "NonTransactional"⟩, ⟨35, "EditorOnly"⟩,
      ⟨36, "NoDestructor"⟩, ⟨38, "AutoWeak"⟩, ⟨39, "ContainsInstancedReference"⟩,
      ⟨40, "AssetRegistrySearchable"⟩, ⟨41, "SimpleDisplay"⟩, ⟨42, "AdvancedDisplay"⟩,
      ⟨43, "Protected"⟩, ⟨44, "BlueprintCallable"⟩, ⟨45, "BlueprintAuthorityOnly"⟩,
      ⟨46, "TextExportTransient"⟩, ⟨47, "NonPIEDuplicateTransient"⟩, ⟨48, "ExposeOnSpawn"⟩,
      ⟨49, "PersistentInstance"⟩, ⟨50, "UObjectWrapper"⟩, ⟨51, "HasGetValueTypeHash"⟩,
      ⟨52, "NativeAccessSpecifierPublic"⟩, ⟨53, "NativeAccessSpecifierProtected"⟩,
      ⟨54, "NativeAccessSpecifierPrivate"⟩, ⟨55, "SkipSerialization"⟩]

end EngineNames
