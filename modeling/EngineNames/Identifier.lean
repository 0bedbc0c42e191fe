import EngineNames.Identifier.Characters

/-!
# Identifiers for generated code

`sanitize` turns any name into text that a C++ type or member may be called. A digit in front is
spelled out, and so are the four arithmetic operators; a small letter in front is capitalised unless
it is `b`, the mark of booleans; every other character that may not stand where it does becomes an
underscore; a reserved word that results gives way to its replacement.
-/

namespace EngineNames.Identifier

/-- What stands for the empty name. -/
def unnamed : String :=
  "Unnamed"

/-- Words that clash with keywords or macros of the generated code, with what replaces each. -/
def reservedWords : List (String × String) :=
  [("bool", "Bool"), ("break", "Break"), ("bitand", "Bitand"), ("bitor", "Bitor"),
    ("TRUE", "TRUEVal"), ("FALSE", "FALSEVal"), ("NULL", "NULLVal")]

/-- The word for a decimal digit. -/
def digitWord? : Char → Option String
  | '0' => some "Zero"
  | '1' => some "One"
  | '2' => some "Two"
  | '3' => some "Three"
  | '4' => some "Four"
  | '5' => some "Five"
  | '6' => some "Six"
  | '7' => some "Seven"
  | '8' => some "Eight"
  | '9' => some "Nine"
  | _ => none

/-- The word for an arithmetic operator. -/
def operatorWord? : Char → Option String
  | '+' => some "Plus"
  | '-' => some "Minus"
  | '*' => some "Star"
  | '/' => some "Slash"
  | _ => none

/-- What stands for a character that is not the first. -/
def innerImage (c : Char) : List Char :=
  match operatorWord? c with
  | some word => word.toList
  | none => if isContinue c then [c] else ['_']

/-- What stands for the first character. -/
def firstImage (c : Char) : List Char :=
  match digitWord? c, operatorWord? c with
  | some word, _ => word.toList
  | none, some word => word.toList
  | none, none =>
      if c.isLower && c != 'b' then [c.toUpper]
      else if c == '_' || isStart c then [c]
      else ['_']

/-- The images of all characters, before reserved words are looked at. -/
def spell : List Char → List Char
  | [] => unnamed.toList
  | c :: rest => firstImage c ++ rest.flatMap innerImage

/-- A reserved word gives way to its replacement; other words stay. -/
def avoidReserved (word : String) : String :=
  match reservedWords.find? (·.1 == word) with
  | some entry => entry.2
  | none => word

/-- The identifier made from a name. -/
def sanitize (name : String) : String :=
  avoidReserved (String.ofList (spell name.toList))

/-- Whether a name is an identifier that `sanitize` leaves alone. -/
def isIdentifier (name : String) : Bool :=
  sanitize name == name

end EngineNames.Identifier
