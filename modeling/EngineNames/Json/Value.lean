import EngineNames.Text.Hexadecimal

/-!
# JSON values and their compact text

The values that settings are written as: whole numbers are the only numbers in them. `render` writes
a value without any blank, the members of an object in the order in which they are listed.
-/

namespace EngineNames.Json

/-- What a setting is written as. -/
inductive Value where
  | null
  | bool (b : Bool)
  | natural (n : Nat)
  | text (t : String)
  | array (elements : List Value)
  | object (members : List (String × Value))

/-- How a character is written inside quotes. -/
def escape (c : Char) : List Char :=
  if c = '"' then ['\\', '"']
  else if c = '\\' then ['\\', '\\']
  else if c = '\x08' then ['\\', 'b']
  else if c = '\x0c' then ['\\', 'f']
  else if c = '\n' then ['\\', 'n']
  else if c = '\r' then ['\\', 'r']
  else if c = '\t' then ['\\', 't']
  else if c.toNat < 0x20 then
    ['\\', 'u', '0', '0', Hexadecimal.digit (c.toNat / 16), Hexadecimal.digit (c.toNat % 16)]
  else [c]

/-- A text in quotes. -/
def quote (t : String) : List Char :=
  '"' :: t.toList.flatMap escape ++ ['"']

mutual

/-- The characters of a value's compact text. -/
def Value.chars : Value → List Char
  | .null => "null".toList
  | .bool true => "true".toList
  | .bool false => "false".toList
  | .natural n => Nat.toDigits 10 n
  | .text t => quote t
  | .array [] => ['[', ']']
  | .array (v :: vs) => '[' :: v.chars ++ elementChars vs
  | .object [] => ['{', '}']
  | .object ((k, v) :: ms) => '{' :: quote k ++ ':' :: v.chars ++ memberChars ms

/-- The elements after the first, and the closing bracket. -/
def elementChars : List Value → List Char
  | [] => [']']
  | v :: vs => ',' :: v.chars ++ elementChars vs

/-- The members after the first, and the closing brace. -/
def memberChars : List (String × Value) → List Char
  | [] => ['}']
  | (k, v) :: ms => ',' :: quote k ++ ':' :: v.chars ++ memberChars ms

end

/-- The compact text of a value. -/
def Value.render (v : Value) : String :=
  String.ofList v.chars

end EngineNames.Json
