import EngineNames.Proofs.Binding.Requests
import EngineNames.Proofs.Strategy.Candidates

/-! # What detection binds

Detection goes by the candidates alone. The function that appends is bound if its candidate is
executable, or else the function that returns a string under the same condition. The table is bound
if detection is told to look for it alone and its candidate is readable, and never otherwise.
-/

namespace EngineNames

namespace TargetProcess

/-- The candidates for functions, in the order in which they are looked at. -/
def functionCandidates (c : Candidates) : List (StrategyKind × Option Address) :=
  [(.appendString, c.appendString), (.toString, c.toString)]

variable {p : TargetProcess} {b : Build} {c : Candidates} {s : Strategy} {scanner : Scanner}

/-! ## Functions -/

theorem firstFunction_of_append {a : Address} (ha : c.appendString = some a)
    (hx : p.InExecutableRegion a) :
    p.firstFunction [] (functionCandidates c) = .ok (.appendString ⟨a, .c⟩) := by
  have hfirst := firstFunction_of_first noneExecutable_nil (functionStrategy_appendString .c hx)
    [(.toString, c.toString)]
  rwa [← ha] at hfirst

theorem firstFunction_of_string {a : Address}
    (hnone : ∀ a, c.appendString = some a → ¬ p.InExecutableRegion a)
    (ha : c.toString = some a) (hx : p.InExecutableRegion a) :
    p.firstFunction [] (functionCandidates c) = .ok (.toString ⟨a, .c⟩) := by
  have hfirst := firstFunction_of_first (noneExecutable_nil.cons .appendString hnone)
    (functionStrategy_toString .c hx) []
  rwa [← ha] at hfirst

theorem firstFunction_of_neither
    (happend : ∀ a, c.appendString = some a → ¬ p.InExecutableRegion a)
    (hstring : ∀ a, c.toString = some a → ¬ p.InExecutableRegion a) :
    p.firstFunction [] (functionCandidates c) =
      .error (notFoundError (given (functionCandidates c))) :=
  firstFunction_of_none ((noneExecutable_nil.cons .toString hstring).cons .appendString happend)

/-- The second function is looked at if and only if the first one is missing or rejected. -/
theorem firstFunction_eq_ok_iff : p.firstFunction [] (functionCandidates c) = .ok s ↔
    (∃ a, c.appendString = some a ∧ p.InExecutableRegion a ∧ s = .appendString ⟨a, .c⟩) ∨
    (∀ a, c.appendString = some a → ¬ p.InExecutableRegion a) ∧
      ∃ a, c.toString = some a ∧ p.InExecutableRegion a ∧ s = .toString ⟨a, .c⟩ := by
  constructor
  · intro h
    by_cases happend : ∃ a, c.appendString = some a ∧ p.InExecutableRegion a
    · obtain ⟨a, ha, hx⟩ := happend
      rw [firstFunction_of_append ha hx] at h
      exact .inl ⟨a, ha, hx, (Except.ok.inj h).symm⟩
    · have hnone : ∀ a, c.appendString = some a → ¬ p.InExecutableRegion a :=
        fun a ha hx => happend ⟨a, ha, hx⟩
      by_cases hstring : ∃ a, c.toString = some a ∧ p.InExecutableRegion a
      · obtain ⟨a, ha, hx⟩ := hstring
        rw [firstFunction_of_string hnone ha hx] at h
        exact .inr ⟨hnone, a, ha, hx, (Except.ok.inj h).symm⟩
      · rw [firstFunction_of_neither hnone fun a ha hx => hstring ⟨a, ha, hx⟩] at h
        cases h
  · rintro (⟨a, ha, hx, rfl⟩ | ⟨hnone, a, ha, hx, rfl⟩)
    · exact firstFunction_of_append ha hx
    · exact firstFunction_of_string hnone ha hx

/-- Detection asks for both functions. -/
theorem detectedStrategy_functions (b : Build) (happend : scanner.appendString = .ok c.appendString)
    (hstring : scanner.toString = .ok c.toString) :
    p.detectedStrategy b scanner false = .ok (p.firstFunction [] (functionCandidates c)) := by
  simp only [detectedStrategy, Bool.false_eq_true, if_false, happend, hstring, ok_bind]
  rfl

/-! ## Tables -/

/-- Why there is no table: no candidate, or one that is not readable. -/
def noTableError (c : Candidates) : StrategyError :=
  match c.nameTable with
  | none => .noCandidate .nameTable
  | some a => .notReadable a

theorem detectedStrategy_of_table {a : Address} (ha : c.nameTable = some a)
    (hr : p.isReadable a = true) :
    p.detectedStrategy b c.scanner true = .ok (.ok (.nameTable (.ofBuild a b))) := by
  rw [detectedStrategy, if_pos rfl, Candidates.scanner, ha, ← tableStrategy_of_readable b hr]
  rfl

theorem detectedStrategy_of_no_table (b : Build)
    (h : ∀ a, c.nameTable = some a → p.isReadable a = false) :
    p.detectedStrategy b c.scanner true = .ok (.error (noTableError c)) := by
  unfold detectedStrategy noTableError Candidates.scanner
  cases hc : c.nameTable with
  | none => rfl
  | some a =>
      rw [if_pos rfl, ← tableStrategy_of_not b (h a hc)]
      rfl

theorem detectedStrategy_table_eq_ok_iff :
    p.detectedStrategy b c.scanner true = .ok (.ok s) ↔
      ∃ a, c.nameTable = some a ∧ p.isReadable a = true ∧ s = .nameTable (.ofBuild a b) := by
  constructor
  · intro h
    by_cases htable : ∃ a, c.nameTable = some a ∧ p.isReadable a = true
    · obtain ⟨a, ha, hr⟩ := htable
      rw [detectedStrategy_of_table ha hr] at h
      exact ⟨a, ha, hr, (Except.ok.inj (Except.ok.inj h)).symm⟩
    · rw [detectedStrategy_of_no_table b fun a ha => ?_] at h
      · cases h
      · exact (Bool.not_eq_true _).mp fun hr => htable ⟨a, ha, hr⟩
  · rintro ⟨a, ha, hr, rfl⟩
    exact detectedStrategy_of_table ha hr

end TargetProcess

namespace Unbound

open TargetProcess (functionCandidates given notFoundError noTableError)

variable {σ : Type}

/-- What comes of a detection when the scanner answers with these candidates, whatever was tried
before. -/
structure DetectedSpec (u : Unbound σ) (c : Candidates) : Prop where
  append_iff : ∀ a, BindsTo (u.bindDetected c.scanner false) .detection (.appendString ⟨a, .c⟩) ↔
    c.appendString = some a ∧ u.process.InExecutableRegion a
  /-- A candidate for the other function that is rejected does not stand in the way. -/
  string_iff : ∀ a, BindsTo (u.bindDetected c.scanner false) .detection (.toString ⟨a, .c⟩) ↔
    (∀ other, c.appendString = some other → ¬ u.process.InExecutableRegion other) ∧
      c.toString = some a ∧ u.process.InExecutableRegion a
  neither : (∀ a, c.appendString = some a → ¬ u.process.InExecutableRegion a) →
    (∀ a, c.toString = some a → ¬ u.process.InExecutableRegion a) →
    FailsWith (u.bindDetected c.scanner false)
      ⟨.detection, notFoundError (given (functionCandidates c))⟩ ∧
    (notFoundError (given (functionCandidates c))).IsNotFound
  functions_only : ∀ path s, BindsTo (u.bindDetected c.scanner false) path s →
    path = .detection ∧ ∃ a, s = .appendString ⟨a, .c⟩ ∨ s = .toString ⟨a, .c⟩
  table_iff : ∀ t, BindsTo (u.bindDetected c.scanner true) .detection (.nameTable t) ↔
    ∃ a, c.nameTable = some a ∧ u.process.isReadable a = true ∧
      t = if u.build.usesPool then .pool a u.build.pool else .array a u.build.array
  no_table : (∀ a, c.nameTable = some a → u.process.isReadable a = false) →
    FailsWith (u.bindDetected c.scanner true) ⟨.detection, noTableError c⟩
  table_only : ∀ path s, BindsTo (u.bindDetected c.scanner true) path s →
    path = .detection ∧ ∃ t, s = .nameTable t

section Detection

variable {u : Unbound σ} {c : Candidates} {scanner : Scanner} {tableOnly : Bool} {path : BindPath}
  {s : Strategy}

theorem bindsTo_bindDetected_iff : BindsTo (u.bindDetected scanner tableOnly) path s ↔
    .detection = path ∧ u.process.detectedStrategy u.build scanner tableOnly = .ok (.ok s) := by
  rw [bindDetected_eq, bindsTo_conclude_iff]

theorem bindsTo_functions_iff : BindsTo (u.bindDetected c.scanner false) path s ↔
    .detection = path ∧ u.process.firstFunction [] (functionCandidates c) = .ok s := by
  rw [bindsTo_bindDetected_iff, TargetProcess.detectedStrategy_functions u.build rfl rfl,
    Except.ok.injEq]

theorem failsWith_bindDetected {e : StrategyError}
    (h : u.process.detectedStrategy u.build scanner tableOnly = .ok (.error e)) :
    FailsWith (u.bindDetected scanner tableOnly) ⟨.detection, e⟩ := by
  rw [bindDetected_eq]
  exact failsWith_conclude u.build .detection h

end Detection

/-- Detection binds what it should by its priorities, and nothing else. -/
theorem bindDetected_spec (u : Unbound σ) (c : Candidates) : DetectedSpec u c := by
  refine ⟨fun a => ?_, fun a => ?_, fun happend hstring => ⟨?_, ?_⟩, fun path s h => ?_,
    fun t => ?_, fun h => ?_, fun path s h => ?_⟩
  · rw [bindsTo_functions_iff, TargetProcess.firstFunction_eq_ok_iff]
    simp [and_comm]
  · rw [bindsTo_functions_iff, TargetProcess.firstFunction_eq_ok_iff]
    simp [and_comm]
  · refine failsWith_bindDetected ?_
    rw [TargetProcess.detectedStrategy_functions u.build rfl rfl,
      TargetProcess.firstFunction_of_neither happend hstring]
  · exact TargetProcess.isNotFound_notFoundError _
  · rw [bindsTo_functions_iff, TargetProcess.firstFunction_eq_ok_iff] at h
    obtain ⟨hpath, ⟨a, _, _, rfl⟩ | ⟨_, a, _, _, rfl⟩⟩ := h
    · exact ⟨hpath.symm, a, .inl rfl⟩
    · exact ⟨hpath.symm, a, .inr rfl⟩
  · rw [bindsTo_bindDetected_iff, TargetProcess.detectedStrategy_table_eq_ok_iff]
    simp only [true_and, Strategy.nameTable.injEq, NameTable.ofBuild]
  · exact failsWith_bindDetected (TargetProcess.detectedStrategy_of_no_table _ h)
  · rw [bindsTo_bindDetected_iff, TargetProcess.detectedStrategy_table_eq_ok_iff] at h
    obtain ⟨hpath, a, _, _, rfl⟩ := h
    exact ⟨hpath.symm, _, rfl⟩

end Unbound

end EngineNames
