import EngineNames.Proofs.Address.Exact
import EngineNames.Proofs.Strategy.Candidates
import Mathlib.Algebra.Group.Int.Defs
import Mathlib.Algebra.Group.Nat.Defs
import Mathlib.Data.Nat.Find

/-! # The calls of a thunk

A call stands wherever the code has the byte `E8` and four bytes behind it. They are the distance of
its target from its end. The end need not be an address: its exact location may lie behind the last
one and the target before it all the same. A search that comes to such a call stops there, so it
finds the first call if and only if that one ends in the address space or none ends outside.
-/

namespace EngineNames

theorem Address.displace?_eq_some_iff {a target : Address} {distance : ℤ} :
    a.displace? distance = some target ↔ (a.toNat : ℤ) + distance = target.toNat := by
  unfold displace?
  split
  · rename_i n hn
    rw [ofNat?_eq_some_iff, hn]
    exact Int.ofNat_inj.symm
  · rename_i n hn
    rw [hn]
    constructor
    · intro h
      cases h
    · intro h
      cases h

namespace TargetProcess

/-- The signed number in the four bytes behind an offset. -/
def operandAt (code : List UInt8) (offset : ℕ) : ℤ :=
  (littleEndian ((code.drop (offset + 1)).take 4) : ℤ).bmod UInt32.size

/-- At an offset of the code there is the byte of a call, with four bytes behind it. -/
structure OpcodeAt (code : List UInt8) (offset : ℕ) : Prop where
  inside : offset + 5 ≤ code.length
  opcode : code[offset]? = some 0xE8

/-- In code that starts at a location there is a call that leads to an executable target. -/
structure ExactCall (p : TargetProcess) (start : ℕ) (code : List UInt8) (offset : ℕ)
    (target : Address) : Prop extends OpcodeAt code offset where
  target_eq : ((start + offset + 5 : ℕ) : ℤ) + operandAt code offset = target.toNat
  executable : p.InExecutableRegion target

/-- The same with an end that is an address. -/
structure CallInside (p : TargetProcess) (start : ℕ) (code : List UInt8) (offset : ℕ)
    (target : Address) : Prop extends ExactCall p start code offset target where
  stop_lt : start + offset + 5 < 2 ^ 64

/-- The end of what would be a call is no address, wherever it leads. -/
structure EndsOutside (start : ℕ) (code : List UInt8) (offset : ℕ) : Prop
    extends OpcodeAt code offset where
  outside : 2 ^ 64 ≤ start + offset + 5

/-- A call with none before it. -/
structure IsFirst (Call : ℕ → Address → Prop) (offset : ℕ) (target : Address) : Prop where
  call : Call offset target
  none_before : ∀ earlier < offset, ∀ other, ¬ Call earlier other

section First

variable {Call : ℕ → Address → Prop} {offset : ℕ} {target : Address}

theorem exists_isFirst_iff_exists :
    (∃ offset target, IsFirst Call offset target) ↔ ∃ offset target, Call offset target := by
  classical
  constructor
  · rintro ⟨offset, target, h⟩
    exact ⟨offset, target, h.call⟩
  · intro h
    obtain ⟨target, htarget⟩ := Nat.find_spec h
    exact ⟨Nat.find h, target, htarget,
      fun _ hlt other hother => Nat.find_min h hlt ⟨other, hother⟩⟩

theorem IsFirst.le (h : IsFirst Call offset target) {other : ℕ} {t : Address}
    (hother : Call other t) : offset ≤ other := by
  by_contra hlt
  exact h.none_before other (Nat.lt_of_not_le hlt) t hother

/-- The first call is at the start, or it is the first one behind the start. -/
theorem exists_isFirst_iff : (∃ offset, IsFirst Call offset target) ↔
    Call 0 target ∨ (∀ other, ¬ Call 0 other) ∧
      ∃ offset, IsFirst (fun offset => Call (offset + 1)) offset target := by
  constructor
  · rintro ⟨offset, h⟩
    cases offset with
    | zero => exact .inl h.call
    | succ offset =>
        refine .inr ⟨h.none_before 0 (Nat.succ_pos _), offset, h.call, fun earlier hlt => ?_⟩
        exact h.none_before (earlier + 1) (Nat.succ_lt_succ hlt)
  · rintro (h | ⟨hnone, offset, h⟩)
    · exact ⟨0, h, fun _ hlt => absurd hlt (Nat.not_lt_zero _)⟩
    · refine ⟨offset + 1, h.call, fun earlier hlt => ?_⟩
      cases earlier with
      | zero => exact hnone
      | succ earlier => exact h.none_before earlier (Nat.lt_of_succ_lt_succ hlt)

end First

/-- A call with an end inside is the first of all calls if it is the first of these. -/
theorem isFirst_callInside_iff {p : TargetProcess} {start : ℕ} {code : List UInt8} {offset : ℕ}
    {target : Address} : IsFirst (p.CallInside start code) offset target ↔
      start + offset + 5 < 2 ^ 64 ∧ IsFirst (p.ExactCall start code) offset target := by
  constructor
  · intro h
    have hlt := h.call.stop_lt
    refine ⟨hlt, h.call.toExactCall, fun earlier hle other hother => ?_⟩
    exact h.none_before earlier hle other ⟨hother, by omega⟩
  · rintro ⟨hlt, h⟩
    exact ⟨⟨h.call, hlt⟩, fun earlier hle other hother =>
      h.none_before earlier hle other hother.toExactCall⟩

/-! ## The search -/

/-- The first call with an executable target in code that starts at a location. A call whose end is
no address leads nowhere. -/
def exactCallTarget? (p : TargetProcess) (start : ℕ) : List UInt8 → Option Address
  | opcode :: b0 :: b1 :: b2 :: b3 :: rest =>
      let distance := (littleEndian [b0, b1, b2, b3] : ℤ).bmod UInt32.size
      let found :=
        if opcode = 0xE8 then
          ((Address.ofNat? (start + 5)).bind (·.displace? distance)).filter p.isExecutable
        else none
      found.or (exactCallTarget? p (start + 1) (b0 :: b1 :: b2 :: b3 :: rest))
  | _ => none

/-- There is a call that ends outside, and none that the exact search would find before it. -/
def CallsLeave (p : TargetProcess) (start : ℕ) (code : List UInt8) : Prop :=
  p.exactCallTarget? start code = none ∧ ∃ offset, EndsOutside start code offset

variable {p : TargetProcess} {a target : Address} {code : List UInt8} {start offset : ℕ}

theorem opcodeAt_succ_iff {b : UInt8} :
    OpcodeAt (b :: code) (offset + 1) ↔ OpcodeAt code offset := by
  have hlength : offset + 1 + 5 ≤ (b :: code).length ↔ offset + 5 ≤ code.length := by
    rw [List.length_cons]
    omega
  constructor
  · rintro ⟨hinside, hopcode⟩
    exact ⟨hlength.mp hinside, hopcode⟩
  · rintro ⟨hinside, hopcode⟩
    exact ⟨hlength.mpr hinside, hopcode⟩

theorem endsOutside_succ_iff {b : UInt8} :
    EndsOutside start (b :: code) (offset + 1) ↔ EndsOutside (start + 1) code offset := by
  have hstop : start + (offset + 1) + 5 = start + 1 + offset + 5 := by omega
  constructor
  · rintro ⟨hop, hout⟩
    exact ⟨opcodeAt_succ_iff.mp hop, hstop ▸ hout⟩
  · rintro ⟨hop, hout⟩
    exact ⟨opcodeAt_succ_iff.mpr hop, hstop ▸ hout⟩

theorem callInside_succ_iff {b : UInt8} : p.CallInside start (b :: code) (offset + 1) target ↔
    p.CallInside (start + 1) code offset target := by
  have hstop : start + (offset + 1) + 5 = start + 1 + offset + 5 := by omega
  constructor
  · rintro ⟨⟨hop, htarget, hx⟩, hlt⟩
    rw [hstop] at htarget hlt
    exact ⟨⟨opcodeAt_succ_iff.mp hop, htarget, hx⟩, hlt⟩
  · rintro ⟨⟨hop, htarget, hx⟩, hlt⟩
    rw [← hstop] at htarget hlt
    exact ⟨⟨opcodeAt_succ_iff.mpr hop, htarget, hx⟩, hlt⟩

theorem length_lt_of_short (h : ∀ opcode b0 b1 b2 b3 rest,
    code = opcode :: b0 :: b1 :: b2 :: b3 :: rest → False) : code.length < 5 := by
  match code with
  | [] | [_] | [_, _] | [_, _, _] | [_, _, _, _] => simp
  | opcode :: b0 :: b1 :: b2 :: b3 :: rest => exact (h opcode b0 b1 b2 b3 rest rfl).elim

theorem OpcodeAt.five_le (h : OpcodeAt code offset) : 5 ≤ code.length :=
  Nat.le_trans (Nat.le_add_left _ _) h.inside

/-- What the exact search looks at first. -/
theorem callInside_zero_iff {opcode b0 b1 b2 b3 : UInt8} {rest : List UInt8} :
    p.CallInside start (opcode :: b0 :: b1 :: b2 :: b3 :: rest) 0 target ↔
      (if opcode = 0xE8 then
        ((Address.ofNat? (start + 5)).bind
          (·.displace? ((littleEndian [b0, b1, b2, b3] : ℤ).bmod UInt32.size))).filter
            p.isExecutable
      else none) = some target := by
  split
  · rename_i hopcode
    subst hopcode
    rw [Option.filter_eq_some_iff, Option.bind_eq_some_iff, isExecutable_iff]
    constructor
    · rintro ⟨⟨-, htarget, hx⟩, hlt⟩
      refine ⟨⟨.ofNat (start + 5), if_pos hlt, ?_⟩, hx⟩
      rw [Address.displace?_eq_some_iff, UInt64.toNat_ofNat_of_lt' hlt]
      exact htarget
    · rintro ⟨⟨stop, hstop, htarget⟩, hx⟩
      have hsum := Address.ofNat?_eq_some_iff.mp hstop
      rw [Address.displace?_eq_some_iff, ← hsum] at htarget
      exact ⟨⟨⟨by simp, rfl⟩, htarget, hx⟩, hsum ▸ stop.toNat_lt⟩
  · rename_i hopcode
    constructor
    · rintro ⟨⟨⟨-, hfirst⟩, -, -⟩, -⟩
      exact absurd (Option.some.inj hfirst) hopcode
    · intro h
      cases h

/-- The exact search gives the target of the first call and misses none. -/
theorem exactCallTarget?_eq_some_iff : p.exactCallTarget? start code = some target ↔
    ∃ offset, IsFirst (p.CallInside start code) offset target := by
  fun_induction exactCallTarget? p start code with
  | case1 start opcode b0 b1 b2 b3 rest distance found ih =>
      have hrest : (fun offset => p.CallInside start (opcode :: b0 :: b1 :: b2 :: b3 :: rest)
          (offset + 1)) = p.CallInside (start + 1) (b0 :: b1 :: b2 :: b3 :: rest) :=
        funext₂ fun _ _ => propext callInside_succ_iff
      rw [exists_isFirst_iff, hrest, ← ih, Option.or_eq_some_iff,
        Option.eq_none_iff_forall_ne_some]
      simp only [callInside_zero_iff, ne_eq, found, distance]
  | case2 start code hshort =>
      constructor
      · intro h
        cases h
      · rintro ⟨offset, hfirst⟩
        exact absurd hfirst.call.five_le (Nat.not_le.mpr (length_lt_of_short hshort))

theorem exactCallTarget?_eq_none_iff : p.exactCallTarget? start code = none ↔
    ∀ offset target, ¬ p.CallInside start code offset target := by
  rw [Option.eq_none_iff_forall_ne_some]
  simp only [ne_eq, exactCallTarget?_eq_some_iff]
  constructor
  · intro h offset target hcall
    obtain ⟨first, target, hfirst⟩ := exists_isFirst_iff_exists.mpr ⟨offset, target, hcall⟩
    exact h target ⟨first, hfirst⟩
  · rintro h target ⟨offset, hfirst⟩
    exact h offset target hfirst.call

/-- Behind the last call that ends in the address space there is none. -/
theorem exactCallTarget?_of_le (h : 2 ^ 64 ≤ start + 5) : p.exactCallTarget? start code = none := by
  rw [exactCallTarget?_eq_none_iff]
  intro offset target hcall
  have hlt := hcall.stop_lt
  omega

theorem exists_endsOutside_cons_iff {b : UInt8} (h : ¬ EndsOutside start (b :: code) 0) :
    (∃ offset, EndsOutside start (b :: code) offset) ↔
      ∃ offset, EndsOutside (start + 1) code offset := by
  constructor
  · rintro ⟨offset, hends⟩
    cases offset with
    | zero => exact absurd hends h
    | succ offset => exact ⟨offset, endsOutside_succ_iff.mp hends⟩
  · rintro ⟨offset, hends⟩
    exact ⟨offset + 1, endsOutside_succ_iff.mpr hends⟩

/-- A call at the start that leads nowhere is passed over, and so is any other byte. -/
theorem callsLeave_cons_iff {opcode b0 b1 b2 b3 : UInt8} {rest : List UInt8}
    (hends : ¬ EndsOutside start (opcode :: b0 :: b1 :: b2 :: b3 :: rest) 0)
    (hnone : ∀ target, ¬ p.CallInside start (opcode :: b0 :: b1 :: b2 :: b3 :: rest) 0 target) :
    p.CallsLeave start (opcode :: b0 :: b1 :: b2 :: b3 :: rest) ↔
      p.CallsLeave (start + 1) (b0 :: b1 :: b2 :: b3 :: rest) := by
  rw [CallsLeave, CallsLeave, exists_endsOutside_cons_iff hends, exactCallTarget?]
  simp only [callInside_zero_iff] at hnone
  rw [Option.eq_none_iff_forall_ne_some.mpr hnone, Option.none_or]

/-- One step of the search. -/
theorem agrees_targetOfCall? (thunk : Address) (offset : ℕ) {opcode b0 b1 b2 b3 : UInt8}
    {rest : List UInt8} : Agrees (p.targetOfCall? thunk offset opcode [b0, b1, b2, b3])
      (if opcode = 0xE8 then
        ((Address.ofNat? (thunk.toNat + offset + 5)).bind
          (·.displace? ((littleEndian [b0, b1, b2, b3] : ℤ).bmod UInt32.size))).filter
            p.isExecutable
      else none)
      (EndsOutside (thunk.toNat + offset) (opcode :: b0 :: b1 :: b2 :: b3 :: rest) 0) := by
  unfold targetOfCall?
  split
  · rename_i hopcode
    subst hopcode
    have hsum : thunk.toNat + (offset + 5) = thunk.toNat + offset + 5 := by omega
    constructor
    · intro hin
      have hlt : thunk.toNat + offset + 5 < 2 ^ 64 :=
        Nat.lt_of_not_le fun hle => hin ⟨⟨by simp, rfl⟩, hle⟩
      obtain ⟨stop, hstop⟩ := Address.exists_ofNat?_of_lt hlt
      rw [Address.advance_of_ofNat? (hsum ▸ hstop), hstop, ok_bind, Option.bind_some]
      rfl
    · intro hends
      rw [Address.advance_of_le (hsum ▸ hends.outside), error_bind]
  · rename_i hopcode
    exact (agrees_ok none).congr
      (iff_of_false id fun hends => hopcode (Option.some.inj hends.opcode))

/-- The search is exact, unless it comes to a call that ends outside. By induction on the code. -/
theorem agrees_callTarget? (p : TargetProcess) (thunk : Address) (offset : ℕ)
    (code : List UInt8) : Agrees (p.callTarget? thunk offset code)
      (p.exactCallTarget? (thunk.toNat + offset) code)
      (p.CallsLeave (thunk.toNat + offset) code) := by
  fun_induction callTarget? p thunk offset code with
  | case1 offset opcode b0 b1 b2 b3 rest ih =>
      have hstep : Agrees (p.targetOfCall? thunk offset opcode [b0, b1, b2, b3]) _
          (EndsOutside (thunk.toNat + offset) (opcode :: b0 :: b1 :: b2 :: b3 :: rest) 0) :=
        agrees_targetOfCall? thunk offset
      by_cases hends : EndsOutside (thunk.toNat + offset) (opcode :: b0 :: b1 :: b2 :: b3 :: rest) 0
      · have hnone : p.exactCallTarget? (thunk.toNat + offset)
            (opcode :: b0 :: b1 :: b2 :: b3 :: rest) = none := exactCallTarget?_of_le hends.outside
        refine ⟨fun hin => (hin ⟨hnone, 0, hends⟩).elim, fun _ => ?_⟩
        rw [hstep.outside hends, error_bind]
      · rw [hstep.inside hends, ok_bind, exactCallTarget?]
        split
        · rename_i target hfound
          rw [hfound, Option.some_or]
          refine (agrees_ok (some target)).congr (iff_of_false id fun hleave => ?_)
          have hexact := hleave.1
          rw [exactCallTarget?, hfound, Option.some_or] at hexact
          cases hexact
        · rename_i hmissed
          rw [hmissed, Option.none_or]
          refine ih.congr (callsLeave_cons_iff hends fun target hcall => ?_).symm
          rw [callInside_zero_iff, hmissed] at hcall
          cases hcall
  | case2 offset code hshort =>
      rw [exactCallTarget?.eq_2 p _ _ hshort]
      refine (agrees_ok none).congr (iff_of_false id ?_)
      rintro ⟨-, other, hends⟩
      exact absurd hends.five_le (Nat.not_le.mpr (length_lt_of_short hshort))

/-! ## Calls at the end of the address space -/

theorem operandAt_bounds (code : List UInt8) (offset : ℕ) :
    -2 ^ 31 ≤ operandAt code offset ∧ operandAt code offset < 2 ^ 31 :=
  ⟨Int.le_bmod (m := UInt32.size) (by decide), Int.bmod_lt (m := UInt32.size) (by decide)⟩

/-- Some call ends in the address space, or nothing that would be a call ends outside. -/
def CallsFit (p : TargetProcess) (thunk : Address) (code : List UInt8) : Prop :=
  (∃ offset target, p.CallInside thunk.toNat code offset target) ∨
    ∀ offset, ¬ EndsOutside thunk.toNat code offset

theorem callsLeave_iff : p.CallsLeave a.toNat code ↔ ¬ p.CallsFit a code := by
  rw [CallsLeave, CallsFit, exactCallTarget?_eq_none_iff, not_or]
  simp only [not_exists, not_forall, not_not]

theorem callsFit_of_lt (h : a.toNat + code.length < 2 ^ 64) : p.CallsFit a code := by
  refine .inr fun offset hends => ?_
  have hinside := hends.inside
  have houtside := hends.outside
  omega

/-- Where the calls fit the first of them ends in the address space. -/
theorem CallsFit.isFirst_iff (h : p.CallsFit a code) :
    IsFirst (p.CallInside a.toNat code) offset target ↔
      IsFirst (p.ExactCall a.toNat code) offset target := by
  rw [isFirst_callInside_iff]
  refine and_iff_right_of_imp fun hfirst => ?_
  rcases h with ⟨last, other, hlast⟩ | hnone
  · have hle := hfirst.le hlast.toExactCall
    have hlt := hlast.stop_lt
    omega
  · exact Nat.lt_of_not_le fun hle => hnone offset ⟨hfirst.call.toOpcodeAt, hle⟩

/-- What the search in a thunk comes to. -/
theorem callTarget?_eq_some_iff : p.callTarget? a 0 code = .ok (some target) ↔
    p.CallsFit a code ∧ ∃ offset, IsFirst (p.ExactCall a.toNat code) offset target := by
  have hsearch : Agrees (p.callTarget? a 0 code) (p.exactCallTarget? a.toNat code)
      (¬ p.CallsFit a code) := (agrees_callTarget? p a 0 code).congr callsLeave_iff
  constructor
  · intro hcall
    obtain ⟨hexact, hfit⟩ := hsearch.eq_of_ok hcall
    obtain ⟨offset, hfirst⟩ := exactCallTarget?_eq_some_iff.mp hexact.symm
    exact ⟨not_not.mp hfit, offset, (not_not.mp hfit).isFirst_iff.mp hfirst⟩
  · rintro ⟨hfit, offset, hfirst⟩
    rw [hsearch.inside (not_not.mpr hfit)]
    exact congrArg Except.ok
      (exactCallTarget?_eq_some_iff.mpr ⟨offset, hfit.isFirst_iff.mpr hfirst⟩)

theorem callTarget?_eq_none (hfit : p.CallsFit a code)
    (hnone : ∀ offset target, ¬ p.ExactCall a.toNat code offset target) :
    p.callTarget? a 0 code = .ok none := by
  have hexact : p.exactCallTarget? a.toNat code = none :=
    exactCallTarget?_eq_none_iff.mpr fun offset target hcall =>
      hnone offset target hcall.toExactCall
  rw [← hexact]
  exact (agrees_callTarget? p a 0 code).inside (mt callsLeave_iff.mp (not_not.mpr hfit))

/-- The search stops at a call that ends outside if and only if the calls do not fit. -/
theorem callTarget?_eq_error_iff {t : Trap} :
    p.callTarget? a 0 code = .error t ↔ t = .overflow ∧ ¬ p.CallsFit a code := by
  rw [(agrees_callTarget? p a 0 code).eq_error_iff, ← callsLeave_iff]
  exact Iff.rfl

end TargetProcess

end EngineNames
