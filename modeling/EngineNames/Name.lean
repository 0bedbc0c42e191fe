import EngineNames.Identifier
import EngineNames.Text.Utf16

/-!
# Resolved names

One name of the engine in its three forms: the units that the engine produced, the part of them
after the last slash as text, and the identifier made from that text.
-/

namespace EngineNames

/-- The units after the last slash; all of them if there is none. -/
def afterLastSlash (units : List UInt16) : List UInt16 :=
  (units.reverse.takeWhile (· != 0x2F)).reverse

/-- The three forms of one name. -/
structure Name where
  /-- Exactly what the engine produced. -/
  raw : List UInt16
  /-- The raw form without its package path. -/
  display : String
  /-- The display form, sanitised. -/
  identifier : String
deriving DecidableEq, Repr

namespace Name

/-- What a handle that leads nowhere resolves to. -/
def empty : Name :=
  ⟨[], "", Identifier.sanitize ""⟩

def ofUnits (raw : List UInt16) : Name :=
  let display := Utf16.toString (afterLastSlash raw)
  ⟨raw, display, Identifier.sanitize display⟩

/-- The raw form as text. -/
def rawText (n : Name) : String :=
  Utf16.toString n.raw

/-- The units of the display form. -/
def displayUnits (n : Name) : List UInt16 :=
  afterLastSlash n.raw

/-- Whether this is the name of a handle that leads nowhere. -/
def isEmpty (n : Name) : Bool :=
  n.raw.isEmpty

theorem identifier_ofUnits (units : List UInt16) :
    (ofUnits units).identifier = Identifier.sanitize (ofUnits units).display := by
  -- `rfl` would evaluate both sides.
  dsimp only [ofUnits]

end Name

end EngineNames
