import EngineNames.Binding

/-! # Requests to bind

A resolver may be asked for a strategy in four ways. Each of them amounts to a few tries, whose
outcomes depend on the process and the build alone. A request goes through its tries up to the first
that gives a strategy, or that traps. All that it leaves behind when there is none is a longer
record.
-/

namespace EngineNames

/-- What may be asked of a resolver without a strategy. -/
inductive BindRequest where
  | override (o : Override)
  | detection (s : Scanner) (tableOnly : Bool)
  | thunk (s : Scanner)
  | planned (plan : BindPlan) (s : Scanner)

namespace BindRequest

def override? : BindRequest → Option Override
  | .override o => some o
  | .planned plan _ => plan.override
  | _ => none

/-- The build that a resolver is bound with. Only an override has its own word on pools. -/
def buildFor (q : BindRequest) (b : Build) : Build :=
  match q.override? with
  | some o => { b with usesPool := o.isPool }
  | none => b

/-- What is tried, in this order, and what it leads to. -/
def tries (p : TargetProcess) (b : Build) :
    BindRequest → List (BindPath × Except Trap (Except StrategyError Strategy))
  | .override o => [(.override, .ok (p.overrideStrategy b o))]
  | .detection s tableOnly => [(.detection, p.detectedStrategy b s tableOnly)]
  | .thunk s => [(.thunk, p.thunkStrategy s)]
  | .planned ⟨some o, _, _⟩ _ => [(.override, .ok (p.overrideStrategy b o))]
  | .planned ⟨none, tableOnly, false⟩ s => [(.detection, p.detectedStrategy b s tableOnly)]
  | .planned ⟨none, tableOnly, true⟩ s =>
      [(.detection, p.detectedStrategy b s tableOnly), (.thunk, p.thunkStrategy s)]

/-- What a request that fails puts on record. A try that traps puts nothing there. -/
def attempts (q : BindRequest) (p : TargetProcess) (b : Build) : List Attempt :=
  (q.tries p b).filterMap fun (path, outcome) => outcome.toOption.map (Attempt.ofOutcome path)

/-- The paths of a request that fails. Only a plan that falls back on the thunk has two. -/
def paths : BindRequest → List BindPath
  | .override _ => [.override]
  | .detection _ _ => [.detection]
  | .thunk _ => [.thunk]
  | .planned plan _ =>
      if plan.override.isSome then [.override]
      else if plan.allowThunk then [.detection, .thunk] else [.detection]

/-- An override is tried alone, and it is tried if there is one. -/
theorem mem_tries {q : BindRequest} {p : TargetProcess} {b : Build}
    {t : BindPath × Except Trap (Except StrategyError Strategy)} (h : t ∈ q.tries p b) :
    (∃ o, q.override? = some o ∧ t = (.override, .ok (p.overrideStrategy b o))) ∨
    q.override? = none ∧ ((∃ s tableOnly, t = (.detection, p.detectedStrategy b s tableOnly)) ∨
      ∃ s, t = (.thunk, p.thunkStrategy s)) := by
  match q with
  | .override o => exact .inl ⟨o, rfl, List.mem_singleton.mp h⟩
  | .detection s tableOnly => exact .inr ⟨rfl, .inl ⟨s, tableOnly, List.mem_singleton.mp h⟩⟩
  | .thunk s => exact .inr ⟨rfl, .inr ⟨s, List.mem_singleton.mp h⟩⟩
  | .planned ⟨some o, _, _⟩ _ => exact .inl ⟨o, rfl, List.mem_singleton.mp h⟩
  | .planned ⟨none, tableOnly, false⟩ s =>
      exact .inr ⟨rfl, .inl ⟨s, tableOnly, List.mem_singleton.mp h⟩⟩
  | .planned ⟨none, tableOnly, true⟩ s =>
      rcases List.mem_cons.mp h with hd | ht
      · exact .inr ⟨rfl, .inl ⟨s, tableOnly, hd⟩⟩
      · exact .inr ⟨rfl, .inr ⟨s, List.mem_singleton.mp ht⟩⟩

theorem map_fst_tries (q : BindRequest) (p : TargetProcess) (b : Build) :
    (q.tries p b).map Prod.fst = q.paths := by
  cases q with
  | override o => rfl
  | detection s tableOnly => rfl
  | thunk s => rfl
  | planned plan s => obtain ⟨_ | o, tableOnly, _ | _⟩ := plan <;> rfl

end BindRequest

/-- The record of a try that failed. -/
def Attempt.ofError (e : BindError) : Attempt :=
  ⟨e.path, .failed e.cause.message⟩

theorem Attempt.failed_of_mem_map {errors : List BindError} {a : Attempt}
    (h : a ∈ errors.map Attempt.ofError) : ∃ reason, a.outcome = .failed reason := by
  obtain ⟨e, _, rfl⟩ := List.mem_map.mp h
  exact ⟨_, rfl⟩

/-- A try that failed. -/
def BindError.try (e : BindError) : BindPath × Except Trap (Except StrategyError Strategy) :=
  (e.path, .ok (.error e.cause))

namespace Unbound

variable {σ : Type}

/-- A resolver that nothing was asked of. -/
def start (process : TargetProcess) (build : Build) (invoker : Invoker σ) : Unbound σ :=
  { process, build, invoker }

def answer (u : Unbound σ) : BindRequest → Except Trap (Except (BindFailure σ) (Resolver σ))
  | .override o => .ok (u.bindOverride o)
  | .detection s tableOnly => u.bindDetected s tableOnly
  | .thunk s => u.bindThunk s
  | .planned plan s => u.bind plan s

/-- All tries of a request failed: the failure is that of the last one. -/
structure Refused (u : Unbound σ) (q : BindRequest) (errors : List BindError)
    (f : BindFailure σ) : Prop where
  tries : q.tries u.process u.build = errors.map BindError.try
  last : errors.getLast? = some f.error
  resolver : f.resolver =
    { u with
      attempts := u.attempts ++ errors.map Attempt.ofError
      failures := u.failures + 1 }

/-- A try gave a strategy, and those before it failed. -/
structure Granted (u : Unbound σ) (q : BindRequest) (errors : List BindError)
    (r : Resolver σ) : Prop where
  tries : ∃ unused, q.tries u.process u.build =
    errors.map BindError.try ++ (r.path, .ok (.ok r.strategy)) :: unused
  process : r.process = u.process
  build : r.build = q.buildFor u.build
  layout : r.layout = r.build.handleLayout
  invoker : r.invoker = u.invoker
  attempts : r.attempts = u.attempts ++ errors.map Attempt.ofError ++
    [⟨r.path, .bound r.strategy.kind r.strategy.address⟩]

/-! ## One try -/

/-- What a request comes to with its last try; `b` is the build that the resolver is bound with. -/
def conclude (u : Unbound σ) (b : Build) (path : BindPath)
    (outcome : Except Trap (Except StrategyError Strategy)) :
    Except Trap (Except (BindFailure σ) (Resolver σ)) :=
  outcome.map fun found =>
    match found with
    | .ok strategy => .ok ({ u.record path found with build := b }.complete path strategy)
    | .error e => .error ((u.record path found).fail path e)

/-- The answer is a resolver that was bound to the strategy on the path. -/
def BindsTo (answer : Except Trap (Except (BindFailure σ) (Resolver σ))) (path : BindPath)
    (s : Strategy) : Prop :=
  ∃ r, answer = .ok (.ok r) ∧ r.path = path ∧ r.strategy = s

/-- The answer is the resolver handed back with the error. -/
def FailsWith (answer : Except Trap (Except (BindFailure σ) (Resolver σ))) (e : BindError) : Prop :=
  ∃ f, answer = .ok (.error f) ∧ f.error = e

section Conclude

variable {u : Unbound σ} {b : Build} {path tried : BindPath}
  {outcome : Except Trap (Except StrategyError Strategy)}

theorem bindsTo_conclude_iff {s : Strategy} :
    BindsTo (u.conclude b tried outcome) path s ↔ tried = path ∧ outcome = .ok (.ok s) := by
  constructor
  · rintro ⟨r, hr, rfl, rfl⟩
    obtain ⟨found, rfl, hfound⟩ := map_eq_ok_iff.mp hr
    cases found with
    | ok strategy =>
        obtain rfl := Except.ok.inj hfound
        exact ⟨rfl, rfl⟩
    | error e => cases hfound
  · rintro ⟨rfl, rfl⟩
    exact ⟨_, rfl, rfl, rfl⟩

theorem failsWith_conclude (b : Build) (path : BindPath) {e : StrategyError}
    (h : outcome = .ok (.error e)) : FailsWith (u.conclude b path outcome) ⟨path, e⟩ := by
  subst h
  exact ⟨_, rfl, rfl⟩

theorem bindDetected_eq (u : Unbound σ) (s : Scanner) (tableOnly : Bool) :
    u.bindDetected s tableOnly =
      u.conclude u.build .detection (u.process.detectedStrategy u.build s tableOnly) := by
  unfold bindDetected
  cases u.process.detectedStrategy u.build s tableOnly with
  | error t => rfl
  | ok found => cases found <;> rfl

theorem bindThunk_eq (u : Unbound σ) (s : Scanner) :
    u.bindThunk s = u.conclude u.build .thunk (u.process.thunkStrategy s) := by
  unfold bindThunk
  cases u.process.thunkStrategy s with
  | error t => rfl
  | ok found => cases found <;> rfl

theorem bindOverride_eq (u : Unbound σ) (o : Override) :
    .ok (u.bindOverride o) = u.conclude { u.build with usesPool := o.isPool } .override
      (.ok (u.process.overrideStrategy u.build o)) := by
  unfold bindOverride
  cases u.process.overrideStrategy u.build o <;> rfl

/-- A plan without an override is a detection, unless that fails and the thunk is allowed. -/
theorem bind_none_eq (u : Unbound σ) (s : Scanner) (tableOnly allowThunk : Bool) :
    u.bind ⟨none, tableOnly, allowThunk⟩ s =
      u.process.detectedStrategy u.build s tableOnly >>= fun detected =>
        match detected with
        | .ok strategy => u.conclude u.build .detection (.ok (.ok strategy))
        | .error e =>
            if allowThunk then (u.record .detection (.error e)).bindThunk s
            else u.conclude u.build .detection (.ok (.error e)) := by
  simp only [bind]
  congr 1
  funext detected
  cases detected with
  | ok strategy => rfl
  | error e => cases allowThunk <;> rfl

end Conclude

/-- The resolver with failed tries added to its record. -/
def recordErrors (u : Unbound σ) (errors : List BindError) : Unbound σ :=
  { u with attempts := u.attempts ++ errors.map Attempt.ofError }

theorem recordErrors_nil (u : Unbound σ) : u.recordErrors [] = u := by
  simp [recordErrors]

/-- The last try fails like those before it. -/
theorem refused_conclude {u : Unbound σ} {q : BindRequest} (errors : List BindError)
    {path : BindPath} {e : StrategyError} (b : Build)
    (ht : q.tries u.process u.build = errors.map BindError.try ++ [(path, .ok (.error e))]) :
    ∃ f, (u.recordErrors errors).conclude b path (.ok (.error e)) = .ok (.error f) ∧
      Refused u q (errors ++ [⟨path, e⟩]) f := by
  refine ⟨_, rfl, ?_, List.getLast?_concat, ?_⟩
  · rw [ht, List.map_append]
    rfl
  · simp [recordErrors, record, fail, Attempt.ofOutcome, Attempt.ofError]

/-- A try gives a strategy after those before it failed. -/
theorem granted_conclude {u : Unbound σ} {q : BindRequest} (errors : List BindError)
    {path : BindPath} {strategy : Strategy}
    {unused : List (BindPath × Except Trap (Except StrategyError Strategy))}
    (ht : q.tries u.process u.build =
      errors.map BindError.try ++ (path, .ok (.ok strategy)) :: unused) :
    ∃ r, (u.recordErrors errors).conclude (q.buildFor u.build) path (.ok (.ok strategy)) =
        .ok (.ok r) ∧ Granted u q errors r :=
  ⟨_, rfl, ⟨unused, ht⟩, rfl, rfl, rfl, rfl, rfl⟩

/-- What a request comes to, told by its tries. -/
inductive Answered (u : Unbound σ) (q : BindRequest) :
    Except Trap (Except (BindFailure σ) (Resolver σ)) → Prop where
  /-- A try traps after those before it failed. -/
  | trapped {errors : List BindError} {path : BindPath} {t : Trap}
      {unused : List (BindPath × Except Trap (Except StrategyError Strategy))} :
      q.tries u.process u.build = errors.map BindError.try ++ (path, .error t) :: unused →
      Answered u q (.error t)
  | refused {errors : List BindError} {f : BindFailure σ} :
      Refused u q errors f → Answered u q (.ok (.error f))
  | granted {errors : List BindError} {r : Resolver σ} :
      Granted u q errors r → Answered u q (.ok (.ok r))

/-- The last try of a request, with failed ones before it. -/
theorem answered_conclude {u : Unbound σ} (q : BindRequest) (errors : List BindError)
    {path : BindPath} {outcome : Except Trap (Except StrategyError Strategy)}
    (ht : q.tries u.process u.build = errors.map BindError.try ++ [(path, outcome)]) :
    Answered u q ((u.recordErrors errors).conclude (q.buildFor u.build) path outcome) := by
  cases outcome with
  | error t => exact .trapped ht
  | ok found =>
      cases found with
      | error e =>
          obtain ⟨f, hf, hr⟩ := refused_conclude errors (q.buildFor u.build) ht
          rw [hf]
          exact .refused hr
      | ok strategy =>
          obtain ⟨r, hr, hg⟩ := granted_conclude errors ht
          rw [hr]
          exact .granted hg

/-- A request that consists of one try. -/
theorem answered_conclude_single {u : Unbound σ} (q : BindRequest) {path : BindPath}
    {outcome : Except Trap (Except StrategyError Strategy)}
    (ht : q.tries u.process u.build = [(path, outcome)]) :
    Answered u q (u.conclude (q.buildFor u.build) path outcome) := by
  have hanswered := answered_conclude q [] ht
  rwa [recordErrors_nil] at hanswered

/-! ## All tries -/

/-- A plan that may go on to the thunk. The second try is made with the first one on record. -/
theorem answered_bind_thunk (u : Unbound σ) (s : Scanner) (tableOnly : Bool) :
    Answered u (.planned ⟨none, tableOnly, true⟩ s) (u.bind ⟨none, tableOnly, true⟩ s) := by
  have htries : (BindRequest.planned ⟨none, tableOnly, true⟩ s).tries u.process u.build =
      [(.detection, u.process.detectedStrategy u.build s tableOnly),
        (.thunk, u.process.thunkStrategy s)] :=
    rfl
  rw [bind_none_eq]
  cases hd : u.process.detectedStrategy u.build s tableOnly with
  | error t =>
      rw [hd] at htries
      exact .trapped (show _ = [].map BindError.try ++ _ :: [_] from htries)
  | ok found =>
      rw [hd] at htries
      cases found with
      | ok strategy =>
          obtain ⟨r, hr, hg⟩ := granted_conclude [] htries
          have hanswered : Answered u (.planned ⟨none, tableOnly, true⟩ s) (.ok (.ok r)) :=
            .granted hg
          rw [recordErrors_nil] at hr
          rw [← hr] at hanswered
          exact hanswered
      | error e =>
          have hthunk : (u.record .detection (.error e)).bindThunk s =
              (u.recordErrors [⟨.detection, e⟩]).conclude u.build .thunk
                (u.process.thunkStrategy s) :=
            bindThunk_eq _ s
          simp only [ok_bind, if_true, hthunk]
          exact answered_conclude (.planned ⟨none, tableOnly, true⟩ s) [⟨.detection, e⟩] htries

/-- Everything that a request can do. -/
theorem answered (u : Unbound σ) (q : BindRequest) : Answered u q (u.answer q) := by
  match q with
  | .override o =>
      rw [answer, bindOverride_eq]
      exact answered_conclude_single (.override o) rfl
  | .detection s tableOnly =>
      rw [answer, bindDetected_eq]
      exact answered_conclude_single (.detection s tableOnly) rfl
  | .thunk s =>
      rw [answer, bindThunk_eq]
      exact answered_conclude_single (.thunk s) rfl
  | .planned ⟨some o, tableOnly, allowThunk⟩ s =>
      have hbind : u.answer (.planned ⟨some o, tableOnly, allowThunk⟩ s) =
          .ok (u.bindOverride o) := rfl
      rw [hbind, bindOverride_eq]
      exact answered_conclude_single (.planned ⟨some o, tableOnly, allowThunk⟩ s) rfl
  | .planned ⟨none, tableOnly, false⟩ s =>
      have hbind : u.answer (.planned ⟨none, tableOnly, false⟩ s) =
          u.conclude u.build .detection (u.process.detectedStrategy u.build s tableOnly) := by
        rw [answer, bind_none_eq]
        cases u.process.detectedStrategy u.build s tableOnly with
        | error t => rfl
        | ok found => cases found <;> rfl
      rw [hbind]
      exact answered_conclude_single (.planned ⟨none, tableOnly, false⟩ s) rfl
  | .planned ⟨none, tableOnly, true⟩ s => exact answered_bind_thunk u s tableOnly

theorem refused_of_answer {u : Unbound σ} {q : BindRequest} {f : BindFailure σ}
    (h : u.answer q = .ok (.error f)) : ∃ errors, Refused u q errors f := by
  have hanswered := answered u q
  rw [h] at hanswered
  cases hanswered with
  | refused hr => exact ⟨_, hr⟩

theorem granted_of_answer {u : Unbound σ} {q : BindRequest} {r : Resolver σ}
    (h : u.answer q = .ok (.ok r)) : ∃ errors, Granted u q errors r := by
  have hanswered := answered u q
  rw [h] at hanswered
  cases hanswered with
  | granted hg => exact ⟨_, hg⟩

end Unbound

end EngineNames
