import EngineNames.Json.Reader
import EngineNames.Json.Value
import EngineNames.Signature

/-!
# Signature files

The text form of a `SignatureSet`. A signature has to give its pattern.
-/

namespace EngineNames

open Json (RecordField Reader Value)

/-- A signature while it is read: the pattern is not known until it is given. -/
structure SignatureDraft where
  pattern : Option String := none
  operandOffset : Option UInt64 := none
  instructionLength : Option UInt64 := none

namespace SignatureDraft

/-- The signature, if its pattern was given. -/
def finish (d : SignatureDraft) : Option Signature :=
  d.pattern.map fun pattern => ⟨pattern, d.operandOffset, d.instructionLength⟩

def fields : List (RecordField SignatureDraft) :=
  [⟨"pattern", fun d => return { d with pattern := some (← Json.string) }⟩,
    ⟨"rel_offset", fun d => return { d with operandOffset := ← Json.optional Json.uint64 }⟩,
    ⟨"instruction_len", fun d =>
      return { d with instructionLength := ← Json.optional Json.uint64 }⟩]

end SignatureDraft

namespace Signature

def reader : Reader Signature :=
  Json.record SignatureDraft.fields {} SignatureDraft.finish

def toJson (s : Signature) : Value :=
  .object
    [("pattern", .text s.pattern),
      ("rel_offset", (s.operandOffset.map fun n => Value.natural n.toNat).getD .null),
      ("instruction_len", (s.instructionLength.map fun n => Value.natural n.toNat).getD .null)]

end Signature

/-- Why a signature file gives no signatures. -/
inductive SignatureFileError where
  | json (fault : Json.Fault)
  | pattern (error : PatternError)
deriving DecidableEq, Repr

namespace SignatureSet

def fields : List (RecordField SignatureSet) :=
  [⟨"append_string", fun s => return { s with appendString := ← Json.list Signature.reader }⟩,
    ⟨"to_string", fun s => return { s with toString := ← Json.list Signature.reader }⟩,
    ⟨"name_table", fun s => return { s with nameTable := ← Json.list Signature.reader }⟩,
    ⟨"conversion_thunk", fun s =>
      return { s with conversionThunk := ← Json.list Signature.reader }⟩]

def reader : Reader SignatureSet :=
  Json.record fields {} some

/-- Reads signatures without looking at their patterns. -/
def ofJsonUnchecked (text : String) : Except Json.Fault SignatureSet :=
  Json.read reader text

/-- Reads signatures. All their patterns have to be readable. -/
def ofJson (text : String) : Except SignatureFileError SignatureSet := do
  let s ← (ofJsonUnchecked text).mapError .json
  s.check.mapError .pattern
  return s

def toJson (s : SignatureSet) : Value :=
  .object
    [("append_string", .array (s.appendString.map Signature.toJson)),
      ("to_string", .array (s.toString.map Signature.toJson)),
      ("name_table", .array (s.nameTable.map Signature.toJson)),
      ("conversion_thunk", .array (s.conversionThunk.map Signature.toJson))]

end SignatureSet

end EngineNames
