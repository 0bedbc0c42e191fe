import EngineNames.Json.Numeral
import EngineNames.Text.Hexadecimal
import EngineNames.Text.Utf16

/-!
# Reading JSON

A reader takes one value from the front of a text and leaves the rest; the first fault that it meets
ends the reading, so which of two faults is told depends only on where they stand. `record` reads
the fields of a structure from an object, in any order and among unknown members, or from an array
in declaration order; fields that are not given keep the value that the structure starts with.
-/

namespace EngineNames.Json

/-- Takes a value from the front of a text. -/
abbrev Reader := StateT (List Char) (Except Fault)

def isBlank (c : Char) : Bool :=
  c = ' ' || c = '\t' || c = '\n' || c = '\r'

/-- Passes over blanks and tells which character comes next. -/
def look : Reader Char := fun s =>
  match s.dropWhile isBlank with
  | [] => .error .truncated
  | c :: rest => .ok (c, c :: rest)

/-- Passes over one character. -/
def advance : Reader Unit :=
  modify List.tail

/-- Passes over exactly these characters. -/
def word : List Char → List Char → Except Fault (Unit × List Char)
  | [], s => .ok ((), s)
  | _ :: _, [] => .error .truncated
  | expected :: rest, c :: s => if c = expected then word rest s else .error .malformed

/-- Passes over the literal `null`, `true` or `false`. -/
def literal (text : String) : Reader Unit :=
  word text.toList

/-- The unit that four hexadecimal digits denote. -/
def unit? (a b c d : Char) : Option UInt16 :=
  (Hexadecimal.value? [a, b, c, d]).map UInt16.ofNat

/-- The fault of an escaped unit that is not four hexadecimal digits: the text counts as ended if
fewer than four bytes are left of it. -/
def unitFault (s : List Char) : Fault :=
  if (String.ofList s).utf8ByteSize < 4 then .truncated else .malformed

/-- What a character after a backslash stands for. -/
def escaped? : Char → Option Char
  | '"' => some '"'
  | '\\' => some '\\'
  | '/' => some '/'
  | 'b' => some '\x08'
  | 'f' => some '\x0c'
  | 'n' => some '\n'
  | 'r' => some '\r'
  | 't' => some '\t'
  | _ => none

/-- Puts a character in front of what is read. -/
def prepend (c : Char) (result : Except Fault (List Char × List Char)) :
    Except Fault (List Char × List Char) :=
  result.map fun (text, rest) => (c :: text, rest)

/-- The characters up to the closing quote, and what follows it. After an escaped leading surrogate,
which is kept in `lead`, only an escaped trailing one may come; other surrogates are malformed. -/
def quoted (lead : Option UInt16) : List Char → Except Fault (List Char × List Char)
  | [] => .error .truncated
  | '\\' :: 'u' :: rest =>
      match rest with
      | a :: b :: c :: d :: rest =>
          match unit? a b c d with
          | none => .error .malformed
          | some n =>
              match lead with
              | some high =>
                  if Utf16.isTrail n then prepend (Utf16.pair high n) (quoted none rest)
                  else .error .malformed
              | none =>
                  if Utf16.isLead n then quoted (some n) rest
                  else if Utf16.isTrail n then .error .malformed
                  else prepend (Utf16.single n) (quoted none rest)
      | rest => .error (unitFault rest)
  | ['\\'] => .error .truncated
  | '\\' :: e :: rest =>
      match lead, escaped? e with
      | none, some c => prepend c (quoted none rest)
      | _, _ => .error .malformed
  | c :: rest =>
      if lead.isSome then .error .malformed
      else if c = '"' then .ok ([], rest)
      else if c.toNat < 0x20 then .error .malformed
      else prepend c (quoted none rest)

/-- Passes over the characters up to the closing quote. Surrogates need no partner here. -/
def skipQuoted : List Char → Except Fault (Unit × List Char)
  | [] => .error .truncated
  | '\\' :: 'u' :: rest =>
      match rest with
      | a :: b :: c :: d :: rest =>
          if (unit? a b c d).isSome then skipQuoted rest else .error .malformed
      | rest => .error (unitFault rest)
  | ['\\'] => .error .truncated
  | '\\' :: e :: rest => if (escaped? e).isSome then skipQuoted rest else .error .malformed
  | c :: rest =>
      if c = '"' then .ok ((), rest)
      else if c.toNat < 0x20 then .error .malformed
      else skipQuoted rest

/-- The text up to the closing quote. -/
def text : Reader String := fun s =>
  (quoted none s).map fun (chars, rest) => (String.ofList chars, rest)

/-- A number in the range of double precision; its value if it is a natural number that fits a word.
-/
def number : Reader (Option Nat) := fun s => do
  let (x, rest) ← numeral .truncated s
  if x.inRange then return (x.natural?, rest) else throw .malformed

/-- The fault of a value of the wrong kind. Scalars are read to their end first. -/
def wrongKind {α : Type} : Reader α := do
  let c ← look
  if c = 'n' then literal "null"
  else if c = 't' then literal "true"
  else if c = 'f' then literal "false"
  else if c = '"' then
    advance
    discard text
  else if c = '-' || isDigit c then discard number
  else if c = '[' || c = '\x7b' then pure ()
  else throw .malformed
  throw .mismatched

def bool : Reader Bool := do
  let c ← look
  if c = 't' then
    literal "true"
    return true
  else if c = 'f' then
    literal "false"
    return false
  else wrongKind

/-- A natural number below a bound. -/
def natural (bound : Nat) : Reader Nat := do
  let c ← look
  if c = '-' || isDigit c then
    match ← number with
    | some n => if n < bound then return n else throw .mismatched
    | none => throw .mismatched
  else wrongKind

def uint16 : Reader UInt16 :=
  UInt16.ofNat <$> natural UInt16.size

def uint32 : Reader UInt32 :=
  UInt32.ofNat <$> natural UInt32.size

def uint64 : Reader UInt64 :=
  UInt64.ofNat <$> natural UInt64.size

def string : Reader String := do
  if (← look) = '"' then
    advance
    text
  else wrongKind

def null : Reader Unit := do
  if (← look) = 'n' then literal "null" else wrongKind

/-- A value, or `null` for none. -/
def optional {α : Type} (reader : Reader α) : Reader (Option α) := do
  if (← look) = 'n' then
    literal "null"
    return none
  else some <$> reader

/-- Passes over a character that must come next. -/
def expect (c : Char) : Reader Unit := do
  if (← look) = c then advance else throw .malformed

/-- What a name stands for. -/
def named {α : Type} (choices : List (String × α)) (name : String) : Reader α :=
  match choices.lookup name with
  | some a => return a
  | none => throw .mismatched

/-- One of several names, as a text or as an object whose only member has that name and no value. An
object whose first member has no key is malformed, whatever stands in the place of the key. -/
def variant {α : Type} (choices : List (String × α)) : Reader α := do
  let c ← look
  if c = '"' then
    advance
    named choices (← text)
  else if c = '\x7b' then
    advance
    expect '"'
    let a ← named choices (← text)
    expect ':'
    null
    expect '\x7d'
    return a
  else throw .malformed

mutual

/-- Passes over one value of any kind. The fuel bounds the number of steps. -/
def skip : Nat → Reader Unit
  | 0 => throw .truncated
  | fuel + 1 => do
      let c ← look
      if c = 'n' then literal "null"
      else if c = 't' then literal "true"
      else if c = 'f' then literal "false"
      else if c = '"' then
        advance
        skipQuoted
      else if c = '-' || isDigit c then
        fun s => (numeral .malformed s).map fun (_, rest) => ((), rest)
      else if c = '[' then
        advance
        if (← look) = ']' then advance else skipElements fuel
      else if c = '\x7b' then
        advance
        if (← look) = '\x7d' then advance else skipMembers fuel
      else throw .malformed

/-- Passes over elements and the closing bracket. -/
def skipElements : Nat → Reader Unit
  | 0 => throw .truncated
  | fuel + 1 => do
      skip fuel
      let c ← look
      advance
      if c = ',' then skipElements fuel
      else if c = ']' then return ()
      else throw .malformed

/-- Passes over members and the closing brace. -/
def skipMembers : Nat → Reader Unit
  | 0 => throw .truncated
  | fuel + 1 => do
      expect '"'
      skipQuoted
      expect ':'
      skip fuel
      let c ← look
      advance
      if c = ',' then skipMembers fuel
      else if c = '\x7d' then return ()
      else throw .malformed

end

/-- Passes over one value of any kind. Each step but the one after an opening bracket consumes a
character, so twice the length of the text is fuel enough. -/
def skipValue : Reader Unit := fun s =>
  skip (2 * s.length + 1) s

/-- The elements after the first, and the closing bracket. -/
def moreElements {α : Type} (reader : Reader α) : Nat → Reader (List α)
  | 0 => throw .truncated
  | fuel + 1 => do
      let c ← look
      advance
      if c = ']' then return []
      else if c = ',' then
        if (← look) = ']' then throw .malformed
        let a ← reader
        return a :: (← moreElements reader fuel)
      else throw .malformed

/-- A list of values. -/
def list {α : Type} (reader : Reader α) : Reader (List α) := do
  if (← look) = '[' then
    advance
    if (← look) = ']' then
      advance
      return []
    else
      let a ← reader
      let left ← get
      return a :: (← moreElements reader (left.length + 1))
  else wrongKind

/-- A field of a structure under construction. -/
structure RecordField (σ : Type) where
  key : String
  /-- Reads the value of the field and puts it into the structure. -/
  read : σ → Reader σ

/-- The fields that an array gives in declaration order. -/
def elements {σ : Type} (first : Bool) : List (RecordField σ) → σ → Reader σ
  | [], built => do
      expect ']'
      return built
  | field :: fields, built => do
      let c ← look
      if c = ']' then
        advance
        return built
      else if first then elements false fields (← field.read built)
      else if c = ',' then
        advance
        if (← look) = ']' then throw .malformed
        elements false fields (← field.read built)
      else throw .malformed

/-- The members of an object from a key on, and the closing brace. A field that was seen before is
refused at its key; the value of an unknown key is passed over. -/
def members {σ : Type} (fields : List (RecordField σ)) : Nat → List String → σ → Reader σ
  | 0, _, _ => throw .truncated
  | fuel + 1, seen, built => do
      expect '"'
      let key ← text
      if seen.contains key then throw .mismatched
      let (seen, built) ← match fields.find? (·.key == key) with
        | some field => do
            expect ':'
            let built ← field.read built
            pure (key :: seen, built)
        | none => do
            expect ':'
            skipValue
            pure (seen, built)
      let c ← look
      advance
      if c = ',' then members fields fuel seen built
      else if c = '\x7d' then return built
      else throw .malformed

/-- The structure that results, if nothing is missing from it. -/
def complete {α : Type} : Option α → Reader α
  | some a => return a
  | none => throw .mismatched

/-- A structure, as an object or as an array. -/
def record {σ α : Type} (fields : List (RecordField σ)) (start : σ) (finish : σ → Option α) :
    Reader α := do
  let c ← look
  if c = '[' then
    advance
    complete (finish (← elements true fields start))
  else if c = '\x7b' then
    advance
    if (← look) = '\x7d' then
      advance
      complete (finish start)
    else
      let left ← get
      complete (finish (← members fields (left.length + 1) [] start))
  else wrongKind

/-- Reads a whole text. Nothing but blanks may follow the value. -/
def read {α : Type} (reader : Reader α) (text : String) : Except Fault α := do
  let (a, rest) ← reader text.toList
  if rest.all isBlank then return a else throw .malformed

end EngineNames.Json
