import EngineNames.Flags

/-! # Function flags -/

namespace EngineNames

/-- What the engine records about each function. -/
def functionFlags : FlagDomain where
  name := "FunctionFlags"
  width := 32
  flags :=
    [⟨0, "Final"⟩, ⟨1, "RequiredAPI"⟩, ⟨2, "BlueprintAuthorityOnly"⟩, ⟨3, "BlueprintCosmetic"⟩,
      ⟨6, "Net"⟩, ⟨7, "NetReliable"⟩, ⟨8, "NetRequest"⟩, ⟨9, "Exec"⟩, ⟨10, "Native"⟩,
      ⟨11, "Event"⟩, ⟨12, "NetResponse"⟩, ⟨13, "Static"⟩, ⟨14, "NetMulticast"⟩,
      ⟨15, "UbergraphFunction"⟩, ⟨16, "MulticastDelegate"⟩, ⟨17, "Public"⟩, ⟨18, "Private"⟩,
      ⟨19, "Protected"⟩, ⟨20, "Delegate"⟩, ⟨21, "NetServer"⟩, ⟨22, "HasOutParams"⟩,
      ⟨23, "HasDefaults"⟩, ⟨24, "NetClient"⟩, ⟨25, "DLLImport"⟩, ⟨26, "BlueprintCallable"⟩,
      ⟨27, "BlueprintEvent"⟩, ⟨28, "BlueprintPure"⟩, ⟨29, "EditorOnly"⟩, ⟨30, "Const"⟩,
      ⟨31, "NetValidate"⟩]

end EngineNames
