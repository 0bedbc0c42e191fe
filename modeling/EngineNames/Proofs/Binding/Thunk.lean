import EngineNames.Proofs.Binding.Retries
import EngineNames.Proofs.Memory.Mapping
import EngineNames.Proofs.Strategy.ThunkCalls

/-! # What the thunk binds

The function that the thunk calls first is bound. Calls that lead nowhere executable are passed
over. Only where the code reaches the end of the address space the search may come to a call whose
end is no address. It stops there, even if the call leads back to an executable function.
-/

namespace EngineNames

namespace TargetProcess

variable {p : TargetProcess} {scanner : Scanner} {thunk : Address} {code : List UInt8}
  {s : Strategy}

theorem thunkStrategy_of_no_thunk (h : scanner.conversionThunk = .ok none) :
    p.thunkStrategy scanner = .ok (.error (.noCandidate .conversionThunk)) := by
  rw [thunkStrategy, h]
  rfl

theorem thunkStrategy_of_unreadable {e : ProcessError}
    (h : scanner.conversionThunk = .ok (some thunk))
    (hread : p.readBytes thunk thunkWindow = .error e) :
    p.thunkStrategy scanner = .ok (.error (.process e)) := by
  simp only [thunkStrategy, h, ok_bind, hread]
  rfl

section Code

variable (h : scanner.conversionThunk = .ok (some thunk))
  (hread : p.readBytes thunk thunkWindow = .ok code)

include h hread

theorem thunkStrategy_of_call {target : Address}
    (hcall : p.callTarget? thunk 0 code = .ok (some target)) :
    p.thunkStrategy scanner = .ok (.ok (.appendString ⟨target, .c⟩)) := by
  obtain ⟨_, _, hfirst⟩ := callTarget?_eq_some_iff.mp hcall
  have hstrategy := functionStrategy_appendString .c hfirst.call.executable
  simp only [thunkStrategy, h, ok_bind, hread, hcall, hstrategy]
  rfl

theorem thunkStrategy_of_no_call (hcall : p.callTarget? thunk 0 code = .ok none) :
    p.thunkStrategy scanner = .ok (.error (.noCallInThunk thunk)) := by
  simp only [thunkStrategy, h, ok_bind, hread, hcall]
  rfl

theorem thunkStrategy_of_trap {t : Trap} (hcall : p.callTarget? thunk 0 code = .error t) :
    p.thunkStrategy scanner = .error t := by
  simp only [thunkStrategy, h, ok_bind, hread, hcall, error_bind]

theorem thunkStrategy_eq_ok_iff : p.thunkStrategy scanner = .ok (.ok s) ↔
    ∃ target, p.callTarget? thunk 0 code = .ok (some target) ∧ s = .appendString ⟨target, .c⟩ := by
  cases hcall : p.callTarget? thunk 0 code with
  | error t =>
      rw [thunkStrategy_of_trap h hread hcall]
      simp
  | ok found =>
      cases found with
      | none =>
          rw [thunkStrategy_of_no_call h hread hcall]
          simp
      | some target =>
          rw [thunkStrategy_of_call h hread hcall]
          simp [eq_comm]

theorem thunkStrategy_eq_error_iff {t : Trap} :
    p.thunkStrategy scanner = .error t ↔ t = .overflow ∧ ¬ p.CallsFit thunk code := by
  rw [← callTarget?_eq_error_iff]
  cases hcall : p.callTarget? thunk 0 code with
  | error t =>
      rw [thunkStrategy_of_trap h hread hcall]
      simp
  | ok found =>
      cases found with
      | none =>
          rw [thunkStrategy_of_no_call h hread hcall]
          simp
      | some target =>
          rw [thunkStrategy_of_call h hread hcall]
          simp

end Code

end TargetProcess

namespace Unbound

open TargetProcess (IsFirst)

variable {σ : Type}

/-- The first of these calls is bound, and there is a failure if and only if there are none. -/
structure BindsFirst (u : Unbound σ) (s : Scanner) (thunk : Address)
    (Call : ℕ → Address → Prop) : Prop where
  succeeds_iff : (∃ r, u.bindThunk s = .ok (.ok r)) ↔ ∃ offset target, Call offset target
  binds_iff : ∀ target, BindsTo (u.bindThunk s) .thunk (.appendString ⟨target, .c⟩) ↔
    ∃ offset, IsFirst Call offset target
  only : ∀ path strategy, BindsTo (u.bindThunk s) path strategy →
    path = .thunk ∧ ∃ target, strategy = .appendString ⟨target, .c⟩
  no_call : (∀ offset target, ¬ Call offset target) →
    FailsWith (u.bindThunk s) ⟨.thunk, .noCallInThunk thunk⟩

/-- What comes of the thunk, whatever was tried before. -/
structure ThunkSpec (u : Unbound σ) (s : Scanner) : Prop where
  no_thunk : s.conversionThunk = .ok none →
    FailsWith (u.bindThunk s) ⟨.thunk, .noCandidate .conversionThunk⟩
  unreadable : ∀ thunk e, s.conversionThunk = .ok (some thunk) →
    u.process.readBytes thunk thunkWindow = .error e →
    FailsWith (u.bindThunk s) ⟨.thunk, .process e⟩
  /-- The first call is bound exactly if the calls fit. Calls whose target is not executable are no
  calls, so they do not stand in the way. -/
  first_iff : ∀ thunk code, s.conversionThunk = .ok (some thunk) →
    u.process.readBytes thunk thunkWindow = .ok code →
    (BindsFirst u s thunk (u.process.ExactCall thunk.toNat code) ↔ u.process.CallsFit thunk code)
  /-- Otherwise the search stops at a call that ends outside. -/
  traps_iff : ∀ thunk code, s.conversionThunk = .ok (some thunk) →
    u.process.readBytes thunk thunkWindow = .ok code → ∀ t,
    (u.bindThunk s = .error t ↔ t = .overflow ∧ ¬ u.process.CallsFit thunk code)
  inside : ∀ (thunk : Address) code, thunk.toNat + code.length < 2 ^ 64 →
    u.process.CallsFit thunk code

section Thunk

variable {u : Unbound σ} {scanner : Scanner} {thunk : Address} {code : List UInt8}

theorem bindsTo_bindThunk_iff {path : BindPath} {s : Strategy} :
    BindsTo (u.bindThunk scanner) path s ↔
      .thunk = path ∧ u.process.thunkStrategy scanner = .ok (.ok s) := by
  rw [bindThunk_eq, bindsTo_conclude_iff]

theorem failsWith_bindThunk {e : StrategyError}
    (h : u.process.thunkStrategy scanner = .ok (.error e)) :
    FailsWith (u.bindThunk scanner) ⟨.thunk, e⟩ := by
  rw [bindThunk_eq]
  exact failsWith_conclude u.build .thunk h

theorem bindThunk_eq_error_iff {t : Trap} :
    u.bindThunk scanner = .error t ↔ u.process.thunkStrategy scanner = .error t := by
  rw [bindThunk_eq]
  exact map_eq_error_iff

theorem bindsFirst_of_callsFit (h : scanner.conversionThunk = .ok (some thunk))
    (hread : u.process.readBytes thunk thunkWindow = .ok code)
    (hfit : u.process.CallsFit thunk code) :
    BindsFirst u scanner thunk (u.process.ExactCall thunk.toNat code) := by
  have hbinds : ∀ path s, BindsTo (u.bindThunk scanner) path s ↔ .thunk = path ∧ ∃ target,
      (∃ offset, IsFirst (u.process.ExactCall thunk.toNat code) offset target) ∧
        s = .appendString ⟨target, .c⟩ := by
    intro path s
    rw [bindsTo_bindThunk_iff, TargetProcess.thunkStrategy_eq_ok_iff h hread]
    simp only [TargetProcess.callTarget?_eq_some_iff, hfit, true_and]
  refine ⟨⟨?_, ?_⟩, fun target => ?_, fun path s hs => ?_, fun hnone => ?_⟩
  · rintro ⟨r, hr⟩
    obtain ⟨_, target, ⟨offset, hfirst⟩, _⟩ := (hbinds _ _).mp ⟨r, hr, rfl, rfl⟩
    exact ⟨offset, target, hfirst.call⟩
  · intro hcall
    obtain ⟨offset, target, hfirst⟩ := TargetProcess.exists_isFirst_iff_exists.mpr hcall
    obtain ⟨r, hr, _⟩ := (hbinds _ _).mpr ⟨rfl, target, ⟨offset, hfirst⟩, rfl⟩
    exact ⟨r, hr⟩
  · rw [hbinds]
    simp
  · obtain ⟨hpath, target, _, hs⟩ := (hbinds path s).mp hs
    exact ⟨hpath.symm, target, hs⟩
  · have hcall := TargetProcess.callTarget?_eq_none hfit hnone
    exact failsWith_bindThunk (TargetProcess.thunkStrategy_of_no_call h hread hcall)

/-- A bind that traps neither binds nor fails. -/
theorem BindsFirst.not_trapped {Call : ℕ → Address → Prop} {t : Trap}
    (h : BindsFirst u scanner thunk Call) : u.bindThunk scanner ≠ .error t := by
  intro htrap
  by_cases hcall : ∃ offset target, Call offset target
  · obtain ⟨r, hr⟩ := h.succeeds_iff.mpr hcall
    rw [htrap] at hr
    cases hr
  · obtain ⟨f, hf, _⟩ := h.no_call fun offset target hc => hcall ⟨offset, target, hc⟩
    rw [htrap] at hf
    cases hf

end Thunk

/-- The thunk is bound to what it calls first, if and only if the calls fit. -/
theorem bindThunk_spec (u : Unbound σ) (s : Scanner) : ThunkSpec u s where
  no_thunk h := failsWith_bindThunk (TargetProcess.thunkStrategy_of_no_thunk h)
  unreadable thunk e h hread :=
    failsWith_bindThunk (TargetProcess.thunkStrategy_of_unreadable h hread)
  first_iff thunk code h hread := by
    refine ⟨fun hfirst => ?_, bindsFirst_of_callsFit h hread⟩
    by_contra hfit
    exact hfirst.not_trapped (bindThunk_eq_error_iff.mpr
      ((TargetProcess.thunkStrategy_eq_error_iff h hread).mpr ⟨rfl, hfit⟩))
  traps_iff thunk code h hread t := by
    rw [bindThunk_eq_error_iff, TargetProcess.thunkStrategy_eq_error_iff h hread]
  inside _ _ h := TargetProcess.callsFit_of_lt h

/-! ## Calls that end outside -/

/-- The last 64 bytes of the address space. -/
def lastThunk : Address :=
  0xFFFFFFFFFFFFFFC0

/-- Code that ends with a call; its length is 64 for an operand of four bytes. -/
def callAtTheEnd (operand : List UInt8) : List UInt8 :=
  List.replicate 59 0 ++ 0xE8 :: operand

def lastCallProcess (operand : List UInt8) (r : Region) : TargetProcess where
  toMemory := .ofMapping lastThunk.toNat (callAtTheEnd operand)
  modules := .ok []
  regions := .ok [r]
  findPattern _ _ _ := .ok []

/-- The last 64 bytes may be executed, and the call leads 32 bytes back. -/
def backwardCall : TargetProcess :=
  lastCallProcess [0xE0, 0xFF, 0xFF, 0xFF] ⟨lastThunk, 0xFFFFFFFFFFFFFFFF, true, true⟩

/-- A page at the start of the address space may be executed, and the call leads 4096 bytes on. -/
def forwardCall : TargetProcess :=
  lastCallProcess [0x00, 0x10, 0x00, 0x00] ⟨0x1000, 0x2000, true, true⟩

theorem forwardCall_not_exactCall (code : List UInt8) (offset : ℕ) (target : Address) :
    ¬ forwardCall.ExactCall lastThunk.toNat code offset target := by
  intro hcall
  obtain ⟨_, hregions, r, hr, _, _, hlt⟩ := hcall.executable
  obtain rfl := Except.ok.inj hregions
  obtain rfl := List.mem_singleton.mp hr
  have htarget : target.toNat < 0x2000 := UInt64.lt_iff_toNat_lt.mp hlt
  have hthunk : lastThunk.toNat = 2 ^ 64 - 64 := rfl
  have heq := hcall.target_eq
  have hoperand := (TargetProcess.operandAt_bounds code offset).1
  omega

/-- The candidates of a scanner that knows of this thunk only. -/
def lastThunkCandidates : Candidates where
  conversionThunk := some lastThunk

/-- Nothing is bound though there is an exact call, and there is no failure though there is none. -/
theorem not_bindsFirst_exactCall :
    (∃ (u : Unbound Unit) (code : List UInt8),
      u.process.readBytes lastThunk thunkWindow = .ok code ∧
      u.process.ExactCall lastThunk.toNat code 59 0xFFFFFFFFFFFFFFE0 ∧
      u.bindThunk lastThunkCandidates.scanner = .error .overflow) ∧
    ∃ (u : Unbound Unit) (code : List UInt8),
      u.process.readBytes lastThunk thunkWindow = .ok code ∧
      (∀ offset target, ¬ u.process.ExactCall lastThunk.toNat code offset target) ∧
      u.bindThunk lastThunkCandidates.scanner = .error .overflow := by
  constructor
  · refine ⟨start backwardCall {} idleInvoker, callAtTheEnd [0xE0, 0xFF, 0xFF, 0xFF], ?_, ?_, ?_⟩
    · decide +kernel
    · exact ⟨⟨by decide, by decide⟩, by decide, _, rfl, _, List.mem_singleton_self _, rfl,
        by decide, by decide⟩
    · exact bindThunk_eq_error_iff.mpr (by decide +kernel)
  · refine ⟨start forwardCall {} idleInvoker, callAtTheEnd [0x00, 0x10, 0x00, 0x00], ?_, ?_, ?_⟩
    · decide +kernel
    · exact forwardCall_not_exactCall _
    · exact bindThunk_eq_error_iff.mpr (by decide +kernel)

end Unbound

end EngineNames
