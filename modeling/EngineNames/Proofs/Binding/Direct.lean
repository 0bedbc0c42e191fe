import EngineNames.Proofs.Binding.Detected
import EngineNames.Proofs.Binding.Retries
import EngineNames.Proofs.Signature.Search

/-! # Direct hits

A signature is direct if its occurrences are its targets. What is searched is executable memory, and
what may be bound is a function in executable memory. So if a process reports occurrences only where
they were looked for, then what direct signatures lead to can always be bound. But a detection looks
for both functions before it binds one. A search for the second that stops at a sum stops it too,
whatever the first one has led to.
-/

namespace EngineNames

/-- Occurrences are reported from inside the range that was searched. -/
def TargetProcess.ReportsInside (p : TargetProcess) : Prop :=
  ∀ pattern start stop occurrences, p.findPattern pattern start stop = .ok occurrences →
    ∀ o ∈ occurrences, start ≤ o.address ∧ o.address < stop

namespace TargetProcess

variable {p : TargetProcess} {r : Region} {pattern : Pattern} {a : Address}

theorem mem_searchedRegions_iff : r ∈ p.searchedRegions ↔
    ∃ regions, p.regions = .ok regions ∧ r ∈ regions ∧ r.executable = true := by
  unfold searchedRegions
  cases p.regions <;> simp

/-- No range that is empty reports anything, and in a range that overlaps with another one nothing
depends on which of them it was. -/
theorem ReportsInside.mem_reported (hp : p.ReportsInside) (h : a ∈ p.reported pattern r) :
    r.start ≤ a ∧ a < r.stop := by
  unfold reported at h
  cases hfound : p.findPattern pattern r.start r.stop with
  | error e =>
      rw [hfound] at h
      cases h
  | ok occurrences =>
      rw [hfound] at h
      obtain ⟨o, ho, rfl⟩ := List.mem_map.mp h
      exact hp _ _ _ _ hfound o ho

end TargetProcess

namespace Signature

/-- The occurrences are the targets: there is no operand, or no instruction that it belongs to. -/
def Direct (s : Signature) : Prop :=
  s.operandOffset = none ∨ s.instructionLength = none

variable {s : Signature} {p : TargetProcess} {a : Address}

theorem Direct.exactTarget?_eq (h : s.Direct) (m : Memory) (a : Address) :
    s.exactTarget? m a = some a :=
  exactTarget?_eq_some_iff.mpr (.itself h)

/-- Whatever it is that a signature occurs at, it is executable. -/
theorem inExecutableRegion_of_mem_places (hp : p.ReportsInside) (h : a ∈ s.places p) :
    p.InExecutableRegion a := by
  unfold places at h
  cases hpattern : Pattern.ofString s.pattern with
  | error e =>
      rw [hpattern] at h
      cases h
  | ok pattern =>
      rw [hpattern] at h
      obtain ⟨r, hr, ha⟩ := List.mem_flatMap.mp h
      obtain ⟨regions, hregions, hin, hx⟩ := TargetProcess.mem_searchedRegions_iff.mp hr
      exact ⟨regions, hregions, r, hin, hx, hp.mem_reported ha⟩

end Signature

namespace TargetProcess

variable {p : TargetProcess} {signatures : List Signature} {a : Address}

/-- A search for direct signatures takes no sums. -/
theorem not_searchOverflows_of_direct (h : ∀ s ∈ signatures, s.Direct) :
    ¬ p.SearchOverflows signatures := by
  rintro ⟨earlier, v, later, hvisits, -, hover⟩
  have hmem : v ∈ p.visits signatures := hvisits ▸ List.mem_append_right _ List.mem_cons_self
  obtain ⟨s, hs, hplace⟩ := List.mem_flatMap.mp hmem
  obtain ⟨a, -, rfl⟩ := List.mem_map.mp hplace
  exact Signature.not_overflows_of_direct (h s hs) hover

theorem ReportsInside.first_executable (hp : p.ReportsInside) (h : ∀ s ∈ signatures, s.Direct)
    (ha : SignatureSet.firstOf p signatures = .ok (some a)) : p.InExecutableRegion a := by
  obtain ⟨hhead, -⟩ := (agrees_firstOf p signatures).eq_of_ok ha
  obtain ⟨s, hs, hmem⟩ := List.mem_flatMap.mp (List.mem_of_head? hhead.symm)
  obtain ⟨place, hplace, htarget⟩ := List.mem_filterMap.mp hmem
  rw [(h s hs).exactTarget?_eq] at htarget
  obtain rfl := Option.some.inj htarget
  exact Signature.inExecutableRegion_of_mem_places hp hplace

end TargetProcess

namespace Unbound

open TargetProcess (isExecutable_iff functionCandidates)

variable {σ : Type}

/-- Detection binds the function, and that is the one thing that it puts on record. -/
def DetectsFunction (u : Unbound σ) (scanner : Scanner) (s : Strategy) : Prop :=
  ∃ r, u.bindDetected scanner false = .ok (.ok r) ∧ r.path = .detection ∧ r.strategy = s ∧
    r.attempts = u.attempts ++ [⟨.detection, .bound s.kind s.address⟩]

section Detection

variable {u : Unbound σ} {scanner : Scanner} {c : Candidates} {s : Strategy}

/-- When both functions have been looked for, the first one that is executable is bound. -/
theorem detectsFunction_of_first (happend : scanner.appendString = .ok c.appendString)
    (hstring : scanner.toString = .ok c.toString)
    (h : u.process.firstFunction [] (functionCandidates c) = .ok s) :
    u.DetectsFunction scanner s := by
  have hdetected :=
    TargetProcess.detectedStrategy_functions u.build happend hstring (p := u.process)
  rw [h] at hdetected
  have hbound := u.bindDetected_eq scanner false
  rw [hdetected] at hbound
  exact ⟨_, hbound, rfl, rfl, rfl⟩

/-- The second search is made even if the first one has led somewhere. -/
theorem bindDetected_of_string_error {found : Option Address} {t : Trap}
    (happend : scanner.appendString = .ok found) (hstring : scanner.toString = .error t) :
    u.bindDetected scanner false = .error t := by
  have hdetected : u.process.detectedStrategy u.build scanner false = .error t := by
    simp only [TargetProcess.detectedStrategy, Bool.false_eq_true, if_false, happend, hstring,
      ok_bind, error_bind]
  rw [bindDetected_eq, hdetected]
  rfl

end Detection

/-- What comes of a detection by signatures. -/
structure DirectSpec (u : Unbound σ) (s : SignatureSet) : Prop where
  /-- The appending function is bound, unless the search for the other one stops at a sum. -/
  append : (∀ signature ∈ s.appendString, signature.Direct) →
    ∀ a, (s.scanner u.process).appendString = .ok (some a) → u.process.isExecutable a = true ∧
      (¬ u.process.SearchOverflows s.toString →
        u.DetectsFunction (s.scanner u.process) (.appendString ⟨a, .c⟩)) ∧
      (u.process.SearchOverflows s.toString →
        u.bindDetected (s.scanner u.process) false = .error .overflow)
  string : (s.scanner u.process).appendString = .ok none →
    (∀ signature ∈ s.toString, signature.Direct) →
    ∀ a, (s.scanner u.process).toString = .ok (some a) → u.process.isExecutable a = true ∧
      u.DetectsFunction (s.scanner u.process) (.toString ⟨a, .c⟩)
  direct : (∀ signature ∈ s.toString, signature.Direct) → ¬ u.process.SearchOverflows s.toString

/-- What direct signatures lead to can be bound, if both searches come to an end. -/
theorem bindDetected_of_direct (u : Unbound σ) (s : SignatureSet)
    (hp : u.process.ReportsInside) : DirectSpec u s := by
  have hsearch := TargetProcess.agrees_firstOf u.process s.toString
  refine ⟨fun hdirect a ha => ?_, fun hnone hdirect a ha => ?_,
    fun hdirect => TargetProcess.not_searchOverflows_of_direct hdirect⟩
  · have hx := hp.first_executable hdirect ha
    refine ⟨isExecutable_iff.mpr hx, fun hin => ?_, fun hover => ?_⟩
    · exact detectsFunction_of_first (c := { appendString := some a, toString := _ }) ha
        (hsearch.inside hin) (TargetProcess.firstFunction_of_append rfl hx)
    · exact bindDetected_of_string_error ha (hsearch.outside hover)
  · have hx := hp.first_executable hdirect ha
    refine ⟨isExecutable_iff.mpr hx, ?_⟩
    exact detectsFunction_of_first (c := { toString := some a }) hnone ha
      (TargetProcess.firstFunction_of_string (by rintro other ⟨⟩) rfl hx)

/-- A region with data, an empty one with code, and two with code that overlap. The one occurrence
there is lies in both, and it is reported for each range that it lies in. -/
def overlappingProcess : TargetProcess where
  readBytes a size := .error (.readFailed a size "unmapped")
  isReadable _ := false
  modules := .ok []
  regions := .ok [⟨0x2000, 0x3000, true, false⟩, ⟨0x2400, 0x2400, true, true⟩,
    ⟨0x1800, 0x3000, true, true⟩, ⟨0x2000, 0x2800, true, true⟩]
  findPattern _ start stop :=
    .ok (if start ≤ 0x2400 ∧ 0x2400 < stop then [⟨0x2400, 0x2400 - start⟩] else [])

theorem reportsInside_overlappingProcess : overlappingProcess.ReportsInside := by
  intro pattern start stop occurrences h o ho
  obtain rfl := Except.ok.inj h
  split at ho
  · rename_i hrange
    obtain rfl := List.mem_singleton.mp ho
    exact hrange
  · cases ho

/-- A signature that cannot be read, and one with an operand offset but no instruction length. -/
def appendSignatures : SignatureSet where
  appendString := [⟨"GG", none, none⟩, ⟨"48 8B", some 3, none⟩]

/-- One signature that cannot be read, and for the other function one that has only an instruction
length. -/
def stringSignatures : SignatureSet where
  appendString := [⟨"GG", none, none⟩]
  toString := [⟨"48 8B", none, some 7⟩]

theorem detectsFunction_of_overlappingProcess :
    let u := start overlappingProcess {} idleInvoker
    u.process.ReportsInside ∧
      u.DetectsFunction (appendSignatures.scanner u.process) (.appendString ⟨0x2400, .c⟩) ∧
      u.DetectsFunction (stringSignatures.scanner u.process) (.toString ⟨0x2400, .c⟩) := by
  intro u
  have hp : u.process.ReportsInside := reportsInside_overlappingProcess
  refine ⟨hp, ?_, ?_⟩
  · have hdirect : ∀ signature ∈ appendSignatures.appendString, signature.Direct := by
      simp [appendSignatures, Signature.Direct]
    have hspec := bindDetected_of_direct u appendSignatures hp
    exact (hspec.append hdirect 0x2400 (by decide +kernel)).2.1
      (hspec.direct (by simp [appendSignatures]))
  · have hdirect : ∀ signature ∈ stringSignatures.toString, signature.Direct := by
      simp [stringSignatures, Signature.Direct]
    exact ((bindDetected_of_direct u stringSignatures hp).string (by decide +kernel) hdirect 0x2400
      (by decide +kernel)).2

/-- A direct signature, and for the other function one with an operand that lies before the
occurrence, as an offset of minus four would have it. -/
def signaturesWithOverflow : SignatureSet where
  appendString := [⟨"48 8B", none, none⟩]
  toString := [⟨"48 8B", some 0xFFFFFFFFFFFFFFFC, some 4⟩]

/-- Direct signatures for the one function are not enough. The search for the other one, which is
not needed any more, stops at the operand. -/
theorem not_detectsFunction_of_direct :
    ¬ ∀ (u : Unbound Unit) (s : SignatureSet) (a : Address), u.process.ReportsInside →
      (∀ signature ∈ s.appendString, signature.Direct) →
      (s.scanner u.process).appendString = .ok (some a) →
      u.DetectsFunction (s.scanner u.process) (.appendString ⟨a, .c⟩) := by
  intro h
  have hdirect : ∀ signature ∈ signaturesWithOverflow.appendString, signature.Direct := by
    simp [signaturesWithOverflow, Signature.Direct]
  have happend : (signaturesWithOverflow.scanner overlappingProcess).appendString =
      .ok (some 0x2400) := by
    decide +kernel
  have hstring : (signaturesWithOverflow.scanner overlappingProcess).toString =
      .error .overflow := by
    decide +kernel
  obtain ⟨r, hr, -⟩ := h (start overlappingProcess {} idleInvoker) signaturesWithOverflow 0x2400
    reportsInside_overlappingProcess hdirect happend
  cases hr.symm.trans (bindDetected_of_string_error happend hstring)

end Unbound

end EngineNames
