import EngineNames.Proofs.Binding.Requests

/-! # Failed binds and retries

A bind that fails hands the resolver back. However often that happens, the resolver differs from a
new one in its record and its count of failures only, and neither has a say in what comes of the
next request.
-/

namespace EngineNames.Unbound

variable {σ : Type}

/-- The resolver with more on record from before, and more failures. -/
def after (u : Unbound σ) (earlier : List Attempt) (failures : Nat) : Unbound σ :=
  { u with attempts := earlier ++ u.attempts, failures := failures + u.failures }

/-- An answer with more on record from before, and more failures. -/
def answerAfter (earlier : List Attempt) (failures : Nat) :
    Except (BindFailure σ) (Resolver σ) → Except (BindFailure σ) (Resolver σ)
  | .ok r => .ok { r with attempts := earlier ++ r.attempts }
  | .error f => .error ⟨f.resolver.after earlier failures, f.error⟩

/-! ## The record decides nothing -/

theorem record_after (u : Unbound σ) (earlier : List Attempt) (failures : Nat) (path : BindPath)
    (outcome : Except StrategyError Strategy) :
    (u.after earlier failures).record path outcome =
      (u.record path outcome).after earlier failures := by
  simp [after, record]

theorem conclude_after (u : Unbound σ) (earlier : List Attempt) (failures : Nat) (b : Build)
    (path : BindPath) (outcome : Except Trap (Except StrategyError Strategy)) :
    (u.after earlier failures).conclude b path outcome =
      (u.conclude b path outcome).map (answerAfter earlier failures) := by
  cases outcome with
  | error t => rfl
  | ok found =>
      cases found with
      | ok strategy =>
          simp only [conclude, record_after]
          rfl
      | error e =>
          simp only [conclude, record_after, fail]
          simp only [Except.map, answerAfter, after, Nat.add_assoc]

theorem bind_none_after (u : Unbound σ) (earlier : List Attempt) (failures : Nat) (s : Scanner)
    (tableOnly allowThunk : Bool) :
    (u.after earlier failures).bind ⟨none, tableOnly, allowThunk⟩ s =
      (u.bind ⟨none, tableOnly, allowThunk⟩ s).map (answerAfter earlier failures) := by
  have hd : (u.after earlier failures).process.detectedStrategy (u.after earlier failures).build s
      tableOnly = u.process.detectedStrategy u.build s tableOnly :=
    rfl
  rw [bind_none_eq, bind_none_eq, hd]
  cases u.process.detectedStrategy u.build s tableOnly with
  | error t => rfl
  | ok found =>
      simp only [ok_bind]
      cases found with
      | ok strategy => exact conclude_after u earlier failures _ _ _
      | error e =>
          cases allowThunk with
          | false => exact conclude_after u earlier failures u.build .detection (.ok (.error e))
          | true =>
              simp only [if_true, record_after, bindThunk_eq]
              exact conclude_after (u.record .detection (.error e)) earlier failures _ _ _

/-- What was tried before has no say in the answer to a request. -/
theorem answer_after (u : Unbound σ) (earlier : List Attempt) (failures : Nat) (q : BindRequest) :
    (u.after earlier failures).answer q =
      (u.answer q).map (answerAfter earlier failures) := by
  have hoverride (o : Override) : .ok ((u.after earlier failures).bindOverride o) =
      (Except.ok (u.bindOverride o) : Except Trap _).map (answerAfter earlier failures) := by
    rw [bindOverride_eq, bindOverride_eq]
    exact conclude_after u earlier failures _ _ _
  match q with
  | .override o => exact hoverride o
  | .detection s tableOnly =>
      rw [answer, answer, bindDetected_eq, bindDetected_eq]
      exact conclude_after u earlier failures _ _ _
  | .thunk s =>
      rw [answer, answer, bindThunk_eq, bindThunk_eq]
      exact conclude_after u earlier failures _ _ _
  | .planned ⟨some o, _, _⟩ _ => exact hoverride o
  | .planned ⟨none, tableOnly, allowThunk⟩ s =>
      exact bind_none_after u earlier failures s tableOnly allowThunk

/-! ## Requests that all fail -/

/-- The requests are made of `u` one after the other and all fail; the last hands back `v`. -/
inductive FailedBinds : Unbound σ → List BindRequest → List (BindFailure σ) → Unbound σ → Prop where
  | nil (u : Unbound σ) : FailedBinds u [] [] u
  | cons {u v : Unbound σ} {q : BindRequest} {f : BindFailure σ} {requests : List BindRequest}
      {failures : List (BindFailure σ)} (fails : u.answer q = .ok (.error f))
      (rest : FailedBinds f.resolver requests failures v) :
      FailedBinds u (q :: requests) (f :: failures) v

/-- A request that fails leaves its failed tries on record and counts as one failure. -/
structure FailureSpec (u : Unbound σ) (q : BindRequest) (f : BindFailure σ) : Prop where
  resolver : f.resolver =
    { u with
      attempts := u.attempts ++ q.attempts u.process u.build
      failures := u.failures + 1 }
  failed : ∀ a ∈ q.attempts u.process u.build, ∃ reason, a.outcome = .failed reason
  paths : (q.attempts u.process u.build).map Attempt.path = q.paths
  last : f.resolver.attempts.getLast? = some ⟨f.error.path, .failed f.error.cause.message⟩

theorem Refused.attempts_eq {u : Unbound σ} {q : BindRequest} {errors : List BindError}
    {f : BindFailure σ} (h : Refused u q errors f) :
    q.attempts u.process u.build = errors.map Attempt.ofError := by
  rw [BindRequest.attempts, h.tries, List.filterMap_map]
  exact congrFun List.filterMap_eq_map errors

theorem Refused.paths_eq {u : Unbound σ} {q : BindRequest} {errors : List BindError}
    {f : BindFailure σ} (h : Refused u q errors f) : errors.map BindError.path = q.paths := by
  rw [← q.map_fst_tries u.process u.build, h.tries, List.map_map]
  rfl

theorem failure_spec {u : Unbound σ} {q : BindRequest} {f : BindFailure σ}
    (h : u.answer q = .ok (.error f)) : FailureSpec u q f := by
  obtain ⟨errors, hr⟩ := refused_of_answer h
  refine ⟨?_, ?_, ?_, ?_⟩
  · rw [hr.resolver, hr.attempts_eq]
  · rw [hr.attempts_eq]
    exact fun a ha => Attempt.failed_of_mem_map ha
  · rw [hr.attempts_eq, ← hr.paths_eq, List.map_map]
    rfl
  · rw [hr.resolver]
    simp [List.getLast?_append, hr.last, Attempt.ofError]

namespace FailedBinds

variable {u v : Unbound σ} {requests : List BindRequest} {failures : List (BindFailure σ)}

/-- Nothing but the record and the count of failures changes. -/
theorem resolver_eq (h : FailedBinds u requests failures v) :
    v = { u with
      attempts := u.attempts ++ requests.flatMap (·.attempts u.process u.build)
      failures := u.failures + requests.length } := by
  induction h with
  | nil u => simp
  | cons fails rest ih =>
      rw [ih, (failure_spec fails).resolver]
      simp [Nat.add_assoc, Nat.add_comm 1]

theorem failed (h : FailedBinds u requests failures v) :
    ∀ a ∈ requests.flatMap (·.attempts u.process u.build),
      ∃ reason, a.outcome = .failed reason := by
  induction h with
  | nil u => simp
  | cons fails rest ih =>
      have hf := failure_spec fails
      rw [hf.resolver] at ih
      intro a ha
      rw [List.flatMap_cons] at ha
      rcases List.mem_append.mp ha with ha | ha
      · exact hf.failed a ha
      · exact ih a ha

theorem paths (h : FailedBinds u requests failures v) :
    (requests.flatMap (·.attempts u.process u.build)).map Attempt.path =
      requests.flatMap BindRequest.paths := by
  induction h with
  | nil u => rfl
  | cons fails rest ih =>
      have hf := failure_spec fails
      rw [hf.resolver] at ih
      rw [List.flatMap_cons, List.flatMap_cons, List.map_append, hf.paths, ih]

theorem length_failures (h : FailedBinds u requests failures v) :
    failures.length = requests.length := by
  induction h with
  | nil u => rfl
  | cons _ _ ih => simp [ih]

theorem last (h : FailedBinds u requests failures v) :
    ∀ f ∈ failures, f.resolver.attempts.getLast? =
      some ⟨f.error.path, .failed f.error.cause.message⟩ := by
  induction h with
  | nil u => simp
  | cons fails rest ih =>
      intro f hf
      rcases List.mem_cons.mp hf with rfl | hf
      · exact (failure_spec fails).last
      · exact ih f hf

end FailedBinds

/-- What failed requests make of a resolver that was new before them. -/
structure RetrySpec (p : TargetProcess) (b : Build) (i : Invoker σ)
    (requests : List BindRequest) (failures : List (BindFailure σ)) (v : Unbound σ) : Prop where
  process : v.process = p
  build : v.build = b
  invoker : v.invoker = i
  counted : v.failures = requests.length
  /-- The record is what each request would have put on record alone, one after the other. -/
  recorded : v.attempts = requests.flatMap (·.attempts p b)
  paths : v.attempts.map Attempt.path = requests.flatMap BindRequest.paths
  failed : ∀ a ∈ v.attempts, ∃ reason, a.outcome = .failed reason
  /-- Each request has its failure, whose error is the last thing on record then. -/
  errors : failures.length = requests.length ∧ ∀ f ∈ failures,
    f.resolver.attempts.getLast? = some ⟨f.error.path, .failed f.error.cause.message⟩
  /-- The next request is answered as if it were the first, and it traps if that would. -/
  next : ∀ q, v.answer q = ((start p b i).answer q).map (answerAfter v.attempts v.failures)

/-- Binds that fail leave no trace but their record. -/
theorem FailedBinds.retry_spec {p : TargetProcess} {b : Build} {i : Invoker σ}
    {requests : List BindRequest} {failures : List (BindFailure σ)} {v : Unbound σ}
    (h : FailedBinds (start p b i) requests failures v) :
    RetrySpec p b i requests failures v := by
  have hv : v = (start p b i).after (requests.flatMap (·.attempts p b)) requests.length := by
    simpa [start, after] using h.resolver_eq
  have hrecord : v.attempts = requests.flatMap (·.attempts p b) := by
    simp [hv, start, after]
  have hcount : v.failures = requests.length := by
    simp [hv, start, after]
  have hpaths : v.attempts.map Attempt.path = requests.flatMap BindRequest.paths := by
    rw [hrecord]
    exact h.paths
  refine ⟨by rw [hv]; rfl, by rw [hv]; rfl, by rw [hv]; rfl, hcount, hrecord, hpaths, ?_,
    ⟨h.length_failures, h.last⟩, fun q => ?_⟩
  · rw [hrecord]
    exact h.failed
  · rw [hrecord, hcount, hv]
    exact answer_after _ _ _ q

/-- A process of which nothing is known. -/
def unknownProcess : TargetProcess where
  readBytes a size := .error (.readFailed a size "unmapped")
  isReadable _ := false
  modules := .ok []
  regions := .ok []
  findPattern _ _ _ := .ok []

/-- Functions that do nothing. -/
def idleInvoker : Invoker Unit where
  appendString _ _ b := return (.ok (), b)
  toString _ _ := return .ok (.unallocated .target)

/-- An override of the pool flag that fails, a plan that goes on to the thunk, and a detection whose
candidates are rejected. -/
def hopelessRequests : List BindRequest :=
  [.override { offset := 0x10, isPool := true },
    .planned { allowThunk := true } { conversionThunk := some 0x1000 : Candidates }.scanner,
    .detection { appendString := some 0x2000, toString := some 0x3000 : Candidates }.scanner false]

theorem retry_spec_of_unknownProcess :
    ∃ failures v,
      FailedBinds (start unknownProcess {} idleInvoker) hopelessRequests failures v ∧
      RetrySpec unknownProcess {} idleInvoker hopelessRequests failures v ∧
      v.attempts.map Attempt.path = [.override, .detection, .thunk, .detection] ∧
      v.failures = 3 := by
  have h : FailedBinds (start unknownProcess {} idleInvoker) hopelessRequests _ _ :=
    .cons rfl (.cons rfl (.cons rfl (.nil _)))
  exact ⟨_, _, h, h.retry_spec, rfl, rfl⟩

end EngineNames.Unbound
