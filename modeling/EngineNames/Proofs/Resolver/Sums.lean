import EngineNames.Proofs.Handle.Fields
import EngineNames.Proofs.Signature.Search

/-! # Sums of addresses and offsets

The rule of a signature, the distance of a call and the fields of a handle are added to addresses
without a look at the end of the address space. By exact sums each of them leads somewhere or
nowhere. What runs comes to the same as long as its sums are addresses, and it stops at the first
one that is none.
-/

namespace EngineNames

namespace TargetProcess

/-- The strategy that calls what a conversion thunk calls, by exact sums. -/
def exactThunkStrategy (p : TargetProcess) : Option Address → Except StrategyError Strategy
  | none => .error (.noCandidate .conversionThunk)
  | some thunk =>
      match p.readBytes thunk thunkWindow with
      | .error e => .error (.process e)
      | .ok code =>
          match p.exactCallTarget? thunk.toNat code with
          | none => .error (.noCallInThunk thunk)
          | some a => p.functionStrategy .appendString a .c

/-- The code of a thunk has a call that ends outside, and none that would be found before it. -/
def ThunkOverflows (p : TargetProcess) (thunk : Option Address) : Prop :=
  ∃ a code, thunk = some a ∧ p.readBytes a thunkWindow = .ok code ∧ p.CallsLeave a.toNat code

/-- A thunk leads to the strategy of its first call, unless one that ends outside comes before. -/
theorem agrees_thunkStrategy (p : TargetProcess) (c : Candidates) :
    Agrees (p.thunkStrategy c.scanner) (p.exactThunkStrategy c.conversionThunk)
      (p.ThunkOverflows c.conversionThunk) := by
  unfold thunkStrategy exactThunkStrategy ThunkOverflows Candidates.scanner
  cases c.conversionThunk with
  | none => exact (agrees_ok _).congr (by simp)
  | some thunk =>
      simp only [ok_bind]
      cases hcode : p.readBytes thunk thunkWindow with
      | error e => exact (agrees_ok _).congr (by simp [hcode])
      | ok code =>
          have hcall := agrees_callTarget? p thunk 0 code
          constructor
          · intro hin
            have hnot : ¬ p.CallsLeave thunk.toNat code :=
              fun hleave => hin ⟨thunk, code, rfl, hcode, hleave⟩
            simp only [hcall.inside hnot, Nat.add_zero, ok_bind]
            cases p.exactCallTarget? thunk.toNat code <;> rfl
          · rintro ⟨a, found, hthunk, hfound, hleave⟩
            obtain rfl := Option.some.inj hthunk
            obtain rfl := Except.ok.inj (hcode.symm.trans hfound)
            simp only [hcall.outside hleave, error_bind]

end TargetProcess

/-- Exact sums are followed up to the first one that is no address. -/
structure SumsSpec (p : TargetProcess) : Prop where
  target : ∀ (s : Signature) (a : Address), Agrees (s.target? p.toMemory a)
    (s.exactTarget? p.toMemory a) (s.Overflows p.toMemory a)
  target_outside : ∀ (s : Signature) (a : Address), s.Overflows p.toMemory a →
    s.exactTarget? p.toMemory a = none
  search : ∀ signatures, Agrees (SignatureSet.firstOf p signatures)
    (p.exactHits signatures).head? (p.SearchOverflows signatures)
  call : ∀ (a : Address) (code : List UInt8), Agrees (p.callTarget? a 0 code)
    (p.exactCallTarget? a.toNat code) (p.CallsLeave a.toNat code)
  call_inside : ∀ (a : Address) (code : List UInt8), a.toNat + code.length < 2 ^ 64 →
    ¬ p.CallsLeave a.toNat code
  thunk : ∀ c : Candidates, Agrees (p.thunkStrategy c.scanner)
    (p.exactThunkStrategy c.conversionThunk) (p.ThunkOverflows c.conversionThunk)
  read : ∀ (layout : HandleLayout) (h : Handle), Agrees (layout.read? p.toMemory h)
    (layout.exactRead? p.toMemory h) (layout.Overflows p.toMemory h)
  read_outside : ∀ (layout : HandleLayout) (h : Handle), layout.Overflows p.toMemory h →
    layout.exactRead? p.toMemory h = none
  identity : ∀ (σ : Type) (r : Resolver σ) (h : Handle), r.process = p →
    Agrees (r.comparisonIndex? h) ((r.layout.exactRead? p.toMemory h).map Prod.fst)
      (r.layout.Overflows p.toMemory h) ∧
    Agrees (r.number h) (((r.layout.exactRead? p.toMemory h).map Prod.snd).getD 0)
      (r.layout.Overflows p.toMemory h)
  handle_fits : ∀ (b : Build) (a : Address), a.toNat + b.handleLayout.size ≤ 2 ^ 64 →
    ¬ b.handleLayout.Overflows p.toMemory (.address a)

theorem sums_spec (p : TargetProcess) : SumsSpec p where
  target s a := s.agrees_target? p.toMemory a
  target_outside _ _ h := h.exactTarget?_eq_none
  search signatures := p.agrees_firstOf signatures
  call a code := p.agrees_callTarget? a 0 code
  call_inside _ _ h hleave :=
    TargetProcess.callsLeave_iff.mp hleave (TargetProcess.callsFit_of_lt h)
  thunk c := p.agrees_thunkStrategy c
  read layout h := layout.agrees_read? p.toMemory h
  read_outside _ _ h := h.exactRead?_eq_none
  identity := by
    rintro σ r h rfl
    have hread := r.layout.agrees_read? r.process.toMemory h
    exact ⟨hread.map _, hread.map fun found => (found.map Prod.snd).getD 0⟩
  handle_fits _ _ h := HandleLayout.not_overflows_of_le h

/-! ## Sums that are no addresses -/

/-- The pattern `AA BB CC DD` occurs behind a number, where an operand offset of minus four would
lead to. -/
def operandBefore : TargetProcess where
  toMemory := .ofMapping 0x1000 [0x10, 0, 0, 0, 0xAA, 0xBB, 0xCC, 0xDD]
  modules := .ok []
  regions := .ok [⟨0x1000, 0x1008, true, true⟩]
  findPattern _ _ _ := .ok [⟨0x1004, 4⟩]

/-- The last five bytes of the address space are a call over 4096 bytes. -/
def callAtTheEnd : TargetProcess where
  toMemory := .ofMapping 0xFFFFFFFFFFFFFFC0 (List.replicate 59 0 ++ [0xE8, 0, 0x10, 0, 0])
  modules := .ok []
  regions := .ok [⟨0x1000, 0x2000, true, true⟩]
  findPattern _ _ _ := .ok []

/-- All bytes can be read, and all are one. -/
def onesMemory : Memory where
  readBytes _ size := .ok (List.replicate size 1)
  isReadable _ := true

/-- None of the three is safe. The operand of a signature from a file, the end of a call and the
number of a name value may be past the last address. -/
theorem not_without_overflow :
    (¬ ∀ (text : String) (s : SignatureSet) (p : TargetProcess), SignatureSet.ofJson text = .ok s →
      (s.scanner p).appendString ≠ .error .overflow) ∧
    (¬ ∀ (p : TargetProcess) (c : Candidates), p.thunkStrategy c.scanner ≠ .error .overflow) ∧
    ¬ ∀ (b : Build) (m : Memory) (h : Handle), b.handleLayout.read? m h ≠ .error .overflow := by
  refine ⟨fun h => ?_, fun h => ?_, fun h => ?_⟩
  · have hread : SignatureSet.ofJson "[[[\"AA BB CC DD\", 18446744073709551612, 4]]]" =
        .ok { appendString := [⟨"AA BB CC DD", some 0xFFFFFFFFFFFFFFFC, some 4⟩] } := by
      decide +kernel
    exact h _ _ operandBefore hread (by decide +kernel)
  · exact h callAtTheEnd { conversionThunk := some 0xFFFFFFFFFFFFFFC0 } (by decide +kernel)
  · exact h {} onesMemory (.address 0xFFFFFFFFFFFFFFFC) (by decide +kernel)

end EngineNames
