import EngineNames.Flags.Cast

/-!
# Property kinds

A mapping file identifies each property by a one-byte kind. The kind of a property class is decided
by its cast flags: `castOrder` is searched from the front, and in it a class comes before the
classes that it derives from.
-/

namespace EngineNames

/-- What a mapping file calls a property. -/
inductive PropertyKind where
  | byte
  | bool
  | int
  | float
  | object
  | name
  | delegate
  | double
  | array
  | struct
  | str
  | text
  | interface
  | multicastDelegate
  | weakObject
  | lazyObject
  | assetObject
  | softObject
  | uint64
  | uint32
  | uint16
  | int64
  | int16
  | int8
  | map
  | set
  | enum
  | fieldPath
  | optional
  /-- Anything that the table does not cover. -/
  | unknown
deriving DecidableEq, Repr

namespace PropertyKind

/-- The byte that a mapping file holds. -/
def id : PropertyKind → UInt8
  | byte => 0
  | bool => 1
  | int => 2
  | float => 3
  | object => 4
  | name => 5
  | delegate => 6
  | double => 7
  | array => 8
  | struct => 9
  | str => 10
  | text => 11
  | interface => 12
  | multicastDelegate => 13
  | weakObject => 14
  | lazyObject => 15
  | assetObject => 16
  | softObject => 17
  | uint64 => 18
  | uint32 => 19
  | uint16 => 20
  | int64 => 21
  | int16 => 22
  | int8 => 23
  | map => 24
  | set => 25
  | enum => 26
  | fieldPath => 27
  | optional => 28
  | unknown => 255

/-- The name of a kind as reports print it. -/
def label : PropertyKind → String
  | byte => "ByteProperty"
  | bool => "BoolProperty"
  | int => "IntProperty"
  | float => "FloatProperty"
  | object => "ObjectProperty"
  | name => "NameProperty"
  | delegate => "DelegateProperty"
  | double => "DoubleProperty"
  | array => "ArrayProperty"
  | struct => "StructProperty"
  | str => "StrProperty"
  | text => "TextProperty"
  | interface => "InterfaceProperty"
  | multicastDelegate => "MulticastDelegateProperty"
  | weakObject => "WeakObjectProperty"
  | lazyObject => "LazyObjectProperty"
  | assetObject => "AssetObjectProperty"
  | softObject => "SoftObjectProperty"
  | uint64 => "UInt64Property"
  | uint32 => "UInt32Property"
  | uint16 => "UInt16Property"
  | int64 => "Int64Property"
  | int16 => "Int16Property"
  | int8 => "Int8Property"
  | map => "MapProperty"
  | set => "SetProperty"
  | enum => "EnumProperty"
  | fieldPath => "FieldPathProperty"
  | optional => "OptionalProperty"
  | unknown => "Unknown"

/-- The cast flags that decide a kind, subclasses before the classes that they derive from. -/
def castOrder : List (Flag × PropertyKind) :=
  [(CastFlag.byteProperty, byte), (CastFlag.boolProperty, bool), (CastFlag.intProperty, int),
    (CastFlag.floatProperty, float), (CastFlag.classProperty, object),
    (CastFlag.softClassProperty, softObject), (CastFlag.objectProperty, object),
    (CastFlag.nameProperty, name), (CastFlag.delegateProperty, delegate),
    (CastFlag.doubleProperty, double), (CastFlag.arrayProperty, array),
    (CastFlag.structProperty, struct), (CastFlag.strProperty, str),
    (CastFlag.textProperty, text), (CastFlag.interfaceProperty, interface),
    (CastFlag.multicastInlineDelegateProperty, multicastDelegate),
    (CastFlag.multicastSparseDelegateProperty, multicastDelegate),
    (CastFlag.multicastDelegateProperty, multicastDelegate),
    (CastFlag.weakObjectProperty, weakObject), (CastFlag.lazyObjectProperty, lazyObject),
    (CastFlag.softObjectProperty, softObject), (CastFlag.uint64Property, uint64),
    (CastFlag.uint32Property, uint32), (CastFlag.uint16Property, uint16),
    (CastFlag.int64Property, int64), (CastFlag.int16Property, int16),
    (CastFlag.int8Property, int8), (CastFlag.mapProperty, map), (CastFlag.setProperty, set),
    (CastFlag.enumProperty, enum), (CastFlag.fieldPathProperty, fieldPath),
    (CastFlag.optionalProperty, optional)]

/-- The kind of a property class with these cast flags. -/
def ofCastFlags (m : Mask castFlags) : PropertyKind :=
  match castOrder.find? fun entry => m.test (entry.1.mask castFlags) with
  | some entry => entry.2
  | none => unknown

end PropertyKind

end EngineNames
