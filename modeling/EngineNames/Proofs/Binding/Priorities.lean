import EngineNames.Proofs.Binding.Retries

/-! # The priorities of a plan

A plan that is bound at once comes to the same as its binds made one after the other: the override
alone, or else detection, and then the thunk if detection fails and the plan allows it. Only the
count of failures tells them apart, because a plan counts once.
-/

namespace EngineNames.Unbound

variable {σ : Type} {u : Unbound σ} {s : Scanner} {tableOnly : Bool}

/-! ## Detection first -/

/-- A detection that fails hands back the resolver with its try on record and one failure more. -/
theorem bindDetected_eq_error {f : BindFailure σ}
    (h : u.bindDetected s tableOnly = .ok (.error f)) :
    ∃ e, u.process.detectedStrategy u.build s tableOnly = .ok (.error e) ∧
      f = ⟨(u.record .detection (.error e)).after [] 1, ⟨.detection, e⟩⟩ := by
  rw [bindDetected_eq] at h
  obtain ⟨found, hfound, h⟩ := map_eq_ok_iff.mp h
  cases found with
  | ok strategy => cases h
  | error e =>
      cases h
      refine ⟨e, hfound, ?_⟩
      simp [fail, after, Nat.add_comm]

theorem bind_of_detected {r : Resolver σ} (allowThunk : Bool)
    (h : u.bindDetected s tableOnly = .ok (.ok r)) :
    u.bind ⟨none, tableOnly, allowThunk⟩ s = .ok (.ok r) := by
  rw [bindDetected_eq] at h
  obtain ⟨found, hfound, hr⟩ := map_eq_ok_iff.mp h
  rw [bind_none_eq, hfound, ok_bind]
  cases found with
  | ok strategy => exact congrArg Except.ok hr
  | error e => cases hr

theorem bind_of_trapped {t : Trap} (allowThunk : Bool)
    (h : u.bindDetected s tableOnly = .error t) :
    u.bind ⟨none, tableOnly, allowThunk⟩ s = .error t := by
  rw [bindDetected_eq] at h
  rw [bind_none_eq, map_eq_error_iff.mp h, error_bind]

theorem bind_without_thunk :
    u.bind ⟨none, tableOnly, false⟩ s = u.bindDetected s tableOnly := by
  rw [bind_none_eq, bindDetected_eq]
  cases u.process.detectedStrategy u.build s tableOnly with
  | error t => rfl
  | ok found => cases found <;> rfl

/-! ## The thunk second -/

/-- The thunk that is tried after a failed detection finds what the plan finds. The failed detection
is on record in both cases, but only as a bind of its own does it count as a failure. -/
theorem bindThunk_after_detection {f : BindFailure σ}
    (h : u.bindDetected s tableOnly = .ok (.error f)) : f.resolver.bindThunk s =
      (u.bind ⟨none, tableOnly, true⟩ s).map (answerAfter [] 1) := by
  obtain ⟨e, he, rfl⟩ := bindDetected_eq_error h
  have hplan : u.bind ⟨none, tableOnly, true⟩ s =
      (u.record .detection (.error e)).bindThunk s := by
    rw [bind_none_eq, he, ok_bind]
    simp
  rw [hplan]
  exact answer_after (u.record .detection (.error e)) [] 1 (.thunk s)

theorem failures_of_answer {q : BindRequest} {f : BindFailure σ}
    (h : u.answer q = .ok (.error f)) : f.resolver.failures = u.failures + 1 := by
  rw [(failure_spec h).resolver]

theorem answerAfter_one_eq_ok {answer : Except (BindFailure σ) (Resolver σ)} {r : Resolver σ}
    (h : answerAfter [] 1 answer = .ok r) : answer = .ok r := by
  cases answer with
  | ok own => simpa [answerAfter] using h
  | error g => cases h

theorem answerAfter_one_eq_error {answer : Except (BindFailure σ) (Resolver σ)}
    {g : BindFailure σ} (h : answerAfter [] 1 answer = .error g) :
    answer = .error ⟨{ g.resolver with failures := g.resolver.failures - 1 }, g.error⟩ := by
  cases answer with
  | ok r => cases h
  | error own =>
      obtain rfl := Except.error.inj h
      simp [after]

/-! ## All together -/

/-- What a plan comes to, in terms of the binds that it stands for. -/
structure PrioritySpec (u : Unbound σ) (plan : BindPlan) : Prop where
  /-- An override is all that is tried, so it does not matter what the scanner answers, or whether
  it answers at all. -/
  override : ∀ o, plan.override = some o →
    (∀ s, u.bind plan s = .ok (u.bindOverride o)) ∧ ∀ s t, u.bind plan s = u.bind plan t
  detection : plan.override = none → plan.allowThunk = false → ∀ s,
    u.bind plan s = u.bindDetected s plan.tableOnly
  /-- The thunk is tried with the resolver that the failed detection hands back. If it fails too,
  the error and all of the resolver are the same, but one failure is counted and not two. -/
  thunk : plan.override = none → plan.allowThunk = true → ∀ s,
    (∀ t, u.bindDetected s plan.tableOnly = .error t → u.bind plan s = .error t) ∧
    (∀ r, u.bindDetected s plan.tableOnly = .ok (.ok r) → u.bind plan s = .ok (.ok r)) ∧
    ∀ f, u.bindDetected s plan.tableOnly = .ok (.error f) →
      (∀ t, f.resolver.bindThunk s = .error t → u.bind plan s = .error t) ∧
      (∀ r, f.resolver.bindThunk s = .ok (.ok r) → u.bind plan s = .ok (.ok r)) ∧
      ∀ g, f.resolver.bindThunk s = .ok (.error g) → g.resolver.failures = u.failures + 2 ∧
        u.bind plan s =
          .ok (.error ⟨{ g.resolver with failures := u.failures + 1 }, g.error⟩)

/-- Whatever was tried before, a plan goes by its priorities. -/
theorem bind_priorities (u : Unbound σ) (plan : BindPlan) : PrioritySpec u plan := by
  obtain ⟨override, tableOnly, allowThunk⟩ := plan
  refine ⟨?_, ?_, ?_⟩
  · rintro o rfl
    exact ⟨fun _ => rfl, fun _ _ => rfl⟩
  · rintro rfl rfl s
    exact bind_without_thunk
  · rintro rfl rfl s
    refine ⟨fun t ht => bind_of_trapped true ht, fun r hr => bind_of_detected true hr, ?_⟩
    intro f hf
    rw [bindThunk_after_detection hf]
    refine ⟨fun t ht => map_eq_error_iff.mp ht, fun r hr => ?_, fun g hg => ?_⟩
    · obtain ⟨answer, hanswer, hafter⟩ := map_eq_ok_iff.mp hr
      exact hanswer.trans (congrArg Except.ok (answerAfter_one_eq_ok hafter))
    · obtain ⟨answer, hanswer, hafter⟩ := map_eq_ok_iff.mp hg
      have hcount : g.resolver.failures = u.failures + 2 := by
        rw [← bindThunk_after_detection hf] at hg
        have hf' : u.answer (.detection s tableOnly) = .ok (.error f) := hf
        have hg' : f.resolver.answer (.thunk s) = .ok (.error g) := hg
        rw [failures_of_answer hg', failures_of_answer hf']
      refine ⟨hcount, hanswer.trans (congrArg Except.ok ?_)⟩
      rw [answerAfter_one_eq_error hafter, hcount]
      rfl

/-- A process with one module, whose first page is executable. -/
def codeProcess : TargetProcess where
  readBytes _ size := .ok (List.replicate size 0)
  isReadable _ := true
  modules := .ok [⟨0x1000, 0x100, "Game.exe"⟩]
  regions := .ok [⟨0x1000, 0x1100, true, true⟩]
  findPattern _ _ _ := .ok []

/-- The override is outside the module. The candidate is not looked at, although it would do. -/
example :
    let u := start codeProcess {} idleInvoker
    let c : Candidates := { appendString := some 0x1010 }
    (u.bind { override := some { offset := 0x100 }, allowThunk := true } c.scanner).map
        Except.isOk = .ok false ∧
      (u.bindDetected c.scanner false).map Except.isOk = .ok true :=
  ⟨rfl, rfl⟩

end EngineNames.Unbound
