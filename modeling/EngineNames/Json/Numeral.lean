/-!
# JSON numerals

A numeral is taken apart into its digits, and two things are read off them: the natural number that
it is, if it is one that fits a 64-bit word, and whether it lies in the range of double precision.
The range is judged as a reader judges it that keeps the leading digits in a word and scales them by
a power of ten, each rounded to the nearest double.
-/

namespace EngineNames.Json

/-- Why a text gave no value. -/
inductive Fault where
  /-- The text is not JSON at that point. -/
  | malformed
  /-- The text is JSON, but not for the value that is wanted. -/
  | mismatched
  /-- The text ends too early. -/
  | truncated
deriving DecidableEq, Repr

/-- A numeral as it is written. -/
structure Numeral where
  negative : Bool
  whole : List Char
  /-- The digits after the point; none if there is no point. -/
  fraction : List Char
  /-- The sign and the digits of the exponent; a missing exponent has no digits. -/
  exponentNegative : Bool
  exponent : List Char
deriving DecidableEq, Repr

def isDigit (c : Char) : Bool :=
  '0' ≤ c && c ≤ '9'

def digitValue (c : Char) : Nat :=
  c.toNat - '0'.toNat

/-- The number that digits denote. -/
def decimal (digits : List Char) : Nat :=
  digits.foldl (fun n c => 10 * n + digitValue c) 0

/-- At least one digit, and the rest. A text that ends instead has the fault `atEnd`. -/
def someDigits (atEnd : Fault) (s : List Char) : Except Fault (List Char × List Char) :=
  match s.span isDigit with
  | ([], []) => .error atEnd
  | ([], _ :: _) => .error .malformed
  | split => .ok split

/-- The digits before the point; zero stands alone. -/
def wholeDigits (atEnd : Fault) : List Char → Except Fault (List Char × List Char)
  | '0' :: c :: rest => if isDigit c then .error .malformed else .ok (['0'], c :: rest)
  | s => someDigits atEnd s

/-- The digits after a point, if there is one. -/
def fractionDigits (atEnd : Fault) : List Char → Except Fault (List Char × List Char)
  | '.' :: rest => someDigits atEnd rest
  | s => .ok ([], s)

/-- The sign of an exponent, which may be missing. -/
def exponentSign : List Char → Bool × List Char
  | '-' :: rest => (true, rest)
  | '+' :: rest => (false, rest)
  | s => (false, s)

/-- The sign and the digits of an exponent, if there is one. -/
def exponentDigits (atEnd : Fault) : List Char → Except Fault ((Bool × List Char) × List Char)
  | c :: rest =>
      if c = 'e' || c = 'E' then do
        let (negative, rest) := exponentSign rest
        let (digits, rest) ← someDigits atEnd rest
        return ((negative, digits), rest)
      else .ok ((false, []), c :: rest)
  | [] => .ok ((false, []), [])

/-- The sign of a number. -/
def numberSign : List Char → Bool × List Char
  | '-' :: rest => (true, rest)
  | s => (false, s)

/-- Takes a numeral from the front of a text. One that ends too early has the fault `atEnd`. -/
def numeral (atEnd : Fault) (s : List Char) : Except Fault (Numeral × List Char) := do
  let (negative, s) := numberSign s
  let (whole, s) ← wholeDigits atEnd s
  let (fraction, s) ← fractionDigits atEnd s
  let ((exponentNegative, exponent), s) ← exponentDigits atEnd s
  return (⟨negative, whole, fraction, exponentNegative, exponent⟩, s)

namespace Numeral

/-- Takes in digits as long as the number fits a 64-bit word; also says how many were left. -/
def leading (n : Nat) : List Char → Nat × Nat
  | [] => (n, 0)
  | c :: rest =>
      let next := 10 * n + digitValue c
      if next < UInt64.size then leading next rest else (n, rest.length + 1)

/-- The leading digits as a number, and the power of ten by which they are scaled. -/
def scaled (x : Numeral) : Nat × Int :=
  let (n, left) := leading 0 x.whole
  let (n, unread) := leading n x.fraction
  let written : Int := decimal x.exponent
  (n, left - (x.fraction.length - unread : Nat) + if x.exponentNegative then -written else written)

/-- The double nearest to a natural number, of two equally near the even one. -/
def nearestDouble (n : Nat) : Nat :=
  let unit := 1 <<< (n.log2 - 52)
  let quotient := n / unit
  let double := 2 * (n % unit)
  if unit < double || (unit == double && quotient % 2 == 1) then (quotient + 1) * unit
  else quotient * unit

/-- Whether the number lies in the range of double precision. -/
def inRange (x : Numeral) : Bool :=
  match x.scaled with
  | (0, _) => true
  | (_, .negSucc _) => true
  | (n, .ofNat e) => e ≤ 308 && nearestDouble n * nearestDouble (Nat.pow 10 e) < 1 <<< 1024 - 1 <<< 970

/-- The natural number below `2 ^ 64` that a plain run of digits denotes. -/
def natural? (x : Numeral) : Option Nat :=
  if x.negative || !x.fraction.isEmpty || !x.exponent.isEmpty then none
  else
    let n := decimal x.whole
    if n < UInt64.size then some n else none

end Numeral

end EngineNames.Json
