import EngineNames.Strategy
import Mathlib.Tactic.Common

/-! # Candidates

A candidate for a name function has to lie in a region that is listed as executable, and one for the
name table has to be readable. Of several candidates for functions the first one that will do is
taken; those before it are put on a list and make no difference.
-/

namespace EngineNames

/-- The error says that something was not found: it is neither a failure of the process nor a fault
of one address. -/
def StrategyError.IsNotFound : StrategyError → Prop
  | .noCandidate _ => True
  | .rejected _ => True
  | .noCallInThunk _ => True
  | _ => False

namespace TargetProcess

/-- The regions can be listed, and the address lies in one that is executable. -/
def InExecutableRegion (p : TargetProcess) (a : Address) : Prop :=
  ∃ regions, p.regions = .ok regions ∧
    ∃ r ∈ regions, r.executable = true ∧ r.start ≤ a ∧ a < r.stop

variable {p : TargetProcess} {a : Address}

theorem isExecutable_iff : p.isExecutable a = true ↔ p.InExecutableRegion a := by
  unfold isExecutable executableRegions InExecutableRegion
  cases p.regions with
  | error e =>
      constructor
      · intro h
        cases h
      · rintro ⟨_, h, _⟩
        cases h
  | ok regions =>
      simp only [Except.map, List.any_eq_true, List.mem_filter, Region.contains,
        Bool.and_eq_true, decide_eq_true_eq, Except.ok.injEq, exists_eq_left', and_assoc]

theorem functionStrategy_appendString (convention : Convention) (h : p.InExecutableRegion a) :
    p.functionStrategy .appendString a convention = .ok (.appendString ⟨a, convention⟩) :=
  if_pos (isExecutable_iff.mpr h)

theorem functionStrategy_toString (convention : Convention) (h : p.InExecutableRegion a) :
    p.functionStrategy .toString a convention = .ok (.toString ⟨a, convention⟩) :=
  if_pos (isExecutable_iff.mpr h)

theorem functionStrategy_of_not (kind : StrategyKind) (convention : Convention)
    (h : ¬ p.InExecutableRegion a) :
    p.functionStrategy kind a convention = .error (.notExecutable kind a) :=
  if_neg (mt isExecutable_iff.mp h)

theorem tableStrategy_of_readable (b : Build) (h : p.isReadable a = true) :
    p.tableStrategy a b = .ok (.nameTable (.ofBuild a b)) :=
  if_pos h

theorem tableStrategy_of_not (b : Build) (h : p.isReadable a = false) :
    p.tableStrategy a b = .error (.notReadable a) := by
  rw [tableStrategy, h]
  rfl

/-! ## Lists of candidates -/

/-- No candidate is executable. -/
def NoneExecutable (p : TargetProcess) (candidates : List (StrategyKind × Option Address)) : Prop :=
  ∀ kind a, (kind, some a) ∈ candidates → ¬ p.InExecutableRegion a

theorem noneExecutable_nil : p.NoneExecutable [] :=
  fun _ _ hin => absurd hin List.not_mem_nil

theorem NoneExecutable.cons {candidates : List (StrategyKind × Option Address)}
    (h : p.NoneExecutable candidates) (kind : StrategyKind) {candidate : Option Address}
    (hc : ∀ a, candidate = some a → ¬ p.InExecutableRegion a) :
    p.NoneExecutable ((kind, candidate) :: candidates) := by
  intro other a hin
  rcases List.mem_cons.mp hin with he | hin
  · exact hc a (Prod.mk.inj he).2.symm
  · exact h other a hin

/-- The candidates that there are. -/
def given (candidates : List (StrategyKind × Option Address)) : List (StrategyKind × Address) :=
  candidates.filterMap fun (kind, candidate) => candidate.map (kind, ·)

/-- The error when all candidates that there are were rejected. -/
def notFoundError (rejected : List (StrategyKind × Address)) : StrategyError :=
  if rejected.isEmpty then .noCandidate .nameFunction else .rejected rejected

theorem isNotFound_notFoundError (rejected : List (StrategyKind × Address)) :
    (notFoundError rejected).IsNotFound := by
  unfold notFoundError
  split <;> trivial

variable {earlier : List (StrategyKind × Option Address)}

/-- Candidates that are not executable are listed, and the search goes on behind them. -/
theorem firstFunction_append (h : p.NoneExecutable earlier)
    (rejected : List (StrategyKind × Address)) (later : List (StrategyKind × Option Address)) :
    p.firstFunction rejected (earlier ++ later) =
      p.firstFunction (rejected ++ given earlier) later := by
  induction earlier generalizing rejected with
  | nil => simp [given]
  | cons candidate earlier ih =>
      have hearlier : p.NoneExecutable earlier :=
        fun kind a hin => h kind a (List.mem_cons_of_mem _ hin)
      obtain ⟨kind, _ | a⟩ := candidate
      · rw [List.cons_append, firstFunction, ih hearlier]
        rfl
      · have hnot := functionStrategy_of_not kind .c (h kind a List.mem_cons_self)
        rw [List.cons_append, firstFunction, hnot]
        simp only
        rw [ih hearlier, List.append_assoc]
        rfl

theorem firstFunction_of_none (h : p.NoneExecutable earlier) :
    p.firstFunction [] earlier = .error (notFoundError (given earlier)) := by
  have hall := firstFunction_append h [] []
  rwa [List.append_nil, List.nil_append] at hall

/-- The first executable candidate is taken, whatever comes behind it. -/
theorem firstFunction_of_first {kind : StrategyKind} {s : Strategy} (h : p.NoneExecutable earlier)
    (hs : p.functionStrategy kind a .c = .ok s) (later : List (StrategyKind × Option Address)) :
    p.firstFunction [] (earlier ++ (kind, some a) :: later) = .ok s := by
  rw [firstFunction_append h, firstFunction, hs]

end TargetProcess

end EngineNames
