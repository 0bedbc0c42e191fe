import EngineNames.TargetProcess

/-!
# Signatures

A signature is a pattern with a rule that turns an occurrence into an address: the occurrence
itself, or the target of the relative operand inside it. `SignatureSet.scanner` looks for the name
functions of a process by their signatures.
-/

namespace EngineNames

/-- A pattern and how an occurrence of it gives an address. -/
structure Signature where
  pattern : String
  /-- Offset of a relative operand in the occurrence. -/
  operandOffset : Option UInt64 := none
  /-- Length of the instruction that the operand belongs to, from the start of the occurrence. -/
  instructionLength : Option UInt64 := none
deriving DecidableEq, Repr

namespace Signature

/-- The address that an occurrence leads to. With both an operand and an instruction length it is
the end of the instruction displaced by the operand. -/
def target? (s : Signature) (m : Memory) (a : Address) : Except Trap (Option Address) :=
  match s.operandOffset, s.instructionLength with
  | some offset, some length => do
      match m.readInt32 (← a.advance offset.toNat) with
      | .error _ => return none
      | .ok distance =>
          let stop ← a.advance length.toNat
          return stop.displace? distance
  | _, _ => .ok (some a)

/-- The address that the first occurrence with an address leads to. A pattern that cannot be read
and a search that fails have no occurrences. -/
def locate? (s : Signature) (p : TargetProcess) : Except Trap (Option Address) :=
  match Pattern.ofString s.pattern with
  | .error _ => .ok none
  | .ok pattern =>
      match p.scan pattern with
      | .error _ => .ok none
      | .ok occurrences => occurrences.findSomeM? fun o => s.target? p.toMemory o.address

end Signature

/-- Addresses at which the name functions and the name table may be. -/
structure Candidates where
  appendString : Option Address := none
  toString : Option Address := none
  nameTable : Option Address := none
  /-- A function that does nothing but call the first one. -/
  conversionThunk : Option Address := none
deriving DecidableEq, Repr

/-- What comes of looking for each of them. Nothing is looked for until it is asked for. -/
structure Scanner where
  appendString : Except Trap (Option Address)
  toString : Except Trap (Option Address)
  nameTable : Except Trap (Option Address)
  conversionThunk : Except Trap (Option Address)

/-- A scanner that answers with these candidates. -/
def Candidates.scanner (c : Candidates) : Scanner where
  appendString := .ok c.appendString
  toString := .ok c.toString
  nameTable := .ok c.nameTable
  conversionThunk := .ok c.conversionThunk

/-- Signatures for everything that may be looked for. -/
structure SignatureSet where
  appendString : List Signature := []
  toString : List Signature := []
  nameTable : List Signature := []
  conversionThunk : List Signature := []
deriving DecidableEq, Repr

namespace SignatureSet

/-- Signatures that hold for most builds with a name pool. -/
def builtin : SignatureSet where
  nameTable := [⟨"48 8D 0D ? ? ? ? E8 ? ? ? ? C6 05 ? ? ? ? 01", some 3, some 7⟩]

def all (s : SignatureSet) : List Signature :=
  s.appendString ++ s.toString ++ s.nameTable ++ s.conversionThunk

/-- Refuses a set with a pattern that cannot be read. -/
def check (s : SignatureSet) : Except PatternError Unit :=
  s.all.forM fun signature => discard (Pattern.ofString signature.pattern)

/-- The address that the first of these signatures with an address leads to. -/
def firstOf (p : TargetProcess) (signatures : List Signature) : Except Trap (Option Address) :=
  signatures.findSomeM? (·.locate? p)

/-- Looks for what each list of signatures leads to in a process. -/
def scanner (s : SignatureSet) (p : TargetProcess) : Scanner where
  appendString := firstOf p s.appendString
  toString := firstOf p s.toString
  nameTable := firstOf p s.nameTable
  conversionThunk := firstOf p s.conversionThunk

end SignatureSet

end EngineNames
