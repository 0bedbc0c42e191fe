import EngineNames.Text.Hexadecimal

/-!
# Byte patterns

A pattern is a list of bytes, some of which may be anything. Its text lists one token per byte, with
white space between them: `?` or `??` for any byte, otherwise the byte in hexadecimal.
-/

namespace EngineNames

/-- Bytes to look for; `none` matches any byte. -/
abbrev Pattern := List (Option UInt8)

/-- Why a text is no pattern. -/
inductive PatternError where
  | invalidByte (token text : String)
  | empty
  | onlyWildcards (text : String)
deriving DecidableEq, Repr

namespace PatternError

def reason : PatternError → String
  | invalidByte token text => s!"invalid byte '{token}' in pattern \"{text}\""
  | empty => "empty pattern"
  | onlyWildcards text => s!"pattern \"{text}\" is all wildcards"

def message (e : PatternError) : String :=
  "Configuration error: " ++ e.reason

end PatternError

namespace Pattern

/-- Whether the data begins with bytes that a pattern allows. -/
def matchesAt : Pattern → List UInt8 → Bool
  | [], _ => true
  | _ :: _, [] => false
  | expected :: pattern, actual :: data =>
      (expected.isNone || expected == some actual) && matchesAt pattern data

/-- White space in the sense of Unicode. -/
def isBlank (c : Char) : Bool :=
  ('\t' ≤ c && c ≤ '\r') || c == ' ' || c == '\u0085' || c == '\u00A0' || c == '\u1680' ||
    ('\u2000' ≤ c && c ≤ '\u200A') || c == '\u2028' || c == '\u2029' || c == '\u202F' ||
    c == '\u205F' || c == '\u3000'

/-- The maximal runs of characters that are not blank; `run` is the one being read, backwards. -/
def tokensFrom (run : List Char) : List Char → List (List Char)
  | [] => if run.isEmpty then [] else [run.reverse]
  | c :: rest =>
      if isBlank c then
        if run.isEmpty then tokensFrom [] rest else run.reverse :: tokensFrom [] rest
      else tokensFrom (c :: run) rest

/-- The maximal runs of characters that are not blank. -/
def tokens (text : List Char) : List (List Char) :=
  tokensFrom [] text

/-- The byte that a nonempty list of hexadecimal digits denotes. -/
def hexByte? (digits : List Char) : Option UInt8 :=
  if digits.isEmpty then none
  else
    match Hexadecimal.value? digits with
    | some value => if value < 256 then some (UInt8.ofNat value) else none
    | none => none

/-- A byte of a pattern: hexadecimal digits, after a plus sign if it has one. -/
def byte? : List Char → Option UInt8
  | '+' :: digits => hexByte? digits
  | digits => hexByte? digits

/-- What a token stands for. -/
def token? (token : List Char) : Option (Option UInt8) :=
  if token = ['?'] || token = ['?', '?'] then some none
  else (byte? token).map some

/-- The elements of a pattern text, or the first token that stands for nothing. -/
def elements (text : String) : List (List Char) → Except PatternError Pattern
  | [] => .ok []
  | token :: rest =>
      match token? token with
      | none => .error (.invalidByte (String.ofList token) text)
      | some element => (elements text rest).map (element :: ·)

/-- Reads a pattern. It has to name at least one byte. -/
def ofString (text : String) : Except PatternError Pattern := do
  let pattern ← elements text (tokens text.toList)
  if pattern.isEmpty then throw .empty
  else if pattern.all Option.isNone then throw (.onlyWildcards text)
  else pure pattern

end Pattern

end EngineNames
