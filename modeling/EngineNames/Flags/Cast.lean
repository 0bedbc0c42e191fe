import EngineNames.Flags

/-!
# Cast flags

One bit for each engine class that a class can be cast to. The flags have names of their own here,
for properties are classified by them.
-/

namespace EngineNames

namespace CastFlag

def field : Flag :=
  ⟨0, "Field"⟩

def int8Property : Flag :=
  ⟨1, "Int8Property"⟩

def enumObject : Flag :=
  ⟨2, "Enum"⟩

def structObject : Flag :=
  ⟨3, "Struct"⟩

def scriptStruct : Flag :=
  ⟨4, "ScriptStruct"⟩

def classObject : Flag :=
  ⟨5, "Class"⟩

def byteProperty : Flag :=
  ⟨6, "ByteProperty"⟩

def intProperty : Flag :=
  ⟨7, "IntProperty"⟩

def floatProperty : Flag :=
  ⟨8, "FloatProperty"⟩

def uint64Property : Flag :=
  ⟨9, "UInt64Property"⟩

def classProperty : Flag :=
  ⟨10, "ClassProperty"⟩

def uint32Property : Flag :=
  ⟨11, "UInt32Property"⟩

def interfaceProperty : Flag :=
  ⟨12, "InterfaceProperty"⟩

def nameProperty : Flag :=
  ⟨13, "NameProperty"⟩

def strProperty : Flag :=
  ⟨14, "StrProperty"⟩

def property : Flag :=
  ⟨15, "Property"⟩

def objectProperty : Flag :=
  ⟨16, "ObjectProperty"⟩

def boolProperty : Flag :=
  ⟨17, "BoolProperty"⟩

def uint16Property : Flag :=
  ⟨18, "UInt16Property"⟩

def functionObject : Flag :=
  ⟨19, "Function"⟩

def structProperty : Flag :=
  ⟨20, "StructProperty"⟩

def arrayProperty : Flag :=
  ⟨21, "ArrayProperty"⟩

def int64Property : Flag :=
  ⟨22, "Int64Property"⟩

def delegateProperty : Flag :=
  ⟨23, "DelegateProperty"⟩

def numericProperty : Flag :=
  ⟨24, "NumericProperty"⟩

def multicastDelegateProperty : Flag :=
  ⟨25, "MulticastDelegateProperty"⟩

def objectPropertyBase : Flag :=
  ⟨26, "ObjectPropertyBase"⟩

def weakObjectProperty : Flag :=
  ⟨27, "WeakObjectProperty"⟩

def lazyObjectProperty : Flag :=
  ⟨28, "LazyObjectProperty"⟩

def softObjectProperty : Flag :=
  ⟨29, "SoftObjectProperty"⟩

def textProperty : Flag :=
  ⟨30, "TextProperty"⟩

def int16Property : Flag :=
  ⟨31, "Int16Property"⟩

def doubleProperty : Flag :=
  ⟨32, "DoubleProperty"⟩

def softClassProperty : Flag :=
  ⟨33, "SoftClassProperty"⟩

def packageObject : Flag :=
  ⟨34, "Package"⟩

def levelObject : Flag :=
  ⟨35, "Level"⟩

def actorObject : Flag :=
  ⟨36, "Actor"⟩

def playerController : Flag :=
  ⟨37, "PlayerController"⟩

def pawnObject : Flag :=
  ⟨38, "Pawn"⟩

def sceneComponent : Flag :=
  ⟨39, "SceneComponent"⟩

def primitiveComponent : Flag :=
  ⟨40, "PrimitiveComponent"⟩

def skinnedMeshComponent : Flag :=
  ⟨41, "SkinnedMeshComponent"⟩

def skeletalMeshComponent : Flag :=
  ⟨42, "SkeletalMeshComponent"⟩

def blueprint : Flag :=
  ⟨43, "Blueprint"⟩

def delegateFunction : Flag :=
  ⟨44, "DelegateFunction"⟩

def staticMeshComponent : Flag :=
  ⟨45, "StaticMeshComponent"⟩

def mapProperty : Flag :=
  ⟨46, "MapProperty"⟩

def setProperty : Flag :=
  ⟨47, "SetProperty"⟩

def enumProperty : Flag :=
  ⟨48, "EnumProperty"⟩

def sparseDelegateFunction : Flag :=
  ⟨49, "SparseDelegateFunction"⟩

def multicastInlineDelegateProperty : Flag :=
  ⟨50, "MulticastInlineDelegateProperty"⟩

def multicastSparseDelegateProperty : Flag :=
  ⟨51, "MulticastSparseDelegateProperty"⟩

def fieldPathProperty : Flag :=
  ⟨52, "FieldPathProperty"⟩

def largeWorldCoordinatesRealProperty : Flag :=
  ⟨55, "LargeWorldCoordinatesRealProperty"⟩

def optionalProperty : Flag :=
  ⟨56, "OptionalProperty"⟩

def vValueProperty : Flag :=
  ⟨57, "VValueProperty"⟩

def verseVMClass : Flag :=
  ⟨58, "VerseVMClass"⟩

def vRestValueProperty : Flag :=
  ⟨59, "VRestValueProperty"⟩

end CastFlag

open CastFlag

/-- One bit for each engine class that a class can be cast to. -/
def castFlags : FlagDomain where
  name := "ClassCastFlags"
  width := 64
  flags :=
    [field, int8Property, enumObject, structObject, scriptStruct, classObject, byteProperty,
      intProperty, floatProperty, uint64Property, classProperty, uint32Property,
      interfaceProperty, nameProperty, strProperty, property, objectProperty, boolProperty,
      uint16Property, functionObject, structProperty, arrayProperty, int64Property,
      delegateProperty, numericProperty, multicastDelegateProperty, objectPropertyBase,
      weakObjectProperty, lazyObjectProperty, softObjectProperty, textProperty, int16Property,
      doubleProperty, softClassProperty, packageObject, levelObject, actorObject,
      playerController, pawnObject, sceneComponent, primitiveComponent, skinnedMeshComponent,
      skeletalMeshComponent, blueprint, delegateFunction, staticMeshComponent, mapProperty,
      setProperty, enumProperty, sparseDelegateFunction, multicastInlineDelegateProperty,
      multicastSparseDelegateProperty, fieldPathProperty, largeWorldCoordinatesRealProperty,
      optionalProperty, vValueProperty, verseVMClass, vRestValueProperty]

end EngineNames
