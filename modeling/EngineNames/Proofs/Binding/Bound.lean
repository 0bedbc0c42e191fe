import EngineNames.Proofs.Binding.Retries
import EngineNames.Proofs.Strategy.Sound

/-! # Bound resolvers

However many binds failed before, a resolver that is bound in the end has a sound strategy, and its
strategy, build, layout and record agree with each other.
-/

namespace EngineNames

/-- A strategy that a try gives is sound for the build that the resolver is bound with. -/
theorem BindRequest.sound_of_mem_tries {q : BindRequest} {p : TargetProcess} {b : Build}
    {path : BindPath} {s : Strategy} (h : (path, .ok (.ok s)) ∈ q.tries p b) :
    s.Sound p (q.buildFor b) ∧ (path = .override ↔ q.override?.isSome = true) := by
  rcases mem_tries h with ⟨o, ho, ht⟩ | ⟨ho, ⟨scanner, tableOnly, ht⟩ | ⟨scanner, ht⟩⟩
  · obtain ⟨rfl, hs⟩ := Prod.mk.inj ht
    simp only [buildFor, ho, Option.isSome_some, and_true]
    exact TargetProcess.overrideStrategy_sound (Except.ok.inj hs.symm)
  · obtain ⟨rfl, hs⟩ := Prod.mk.inj ht
    simp only [buildFor, ho, Option.isSome_none, reduceCtorEq, Bool.false_eq_true, and_true]
    exact TargetProcess.detectedStrategy_sound hs.symm
  · obtain ⟨rfl, hs⟩ := Prod.mk.inj ht
    simp only [buildFor, ho, Option.isSome_none, reduceCtorEq, Bool.false_eq_true, and_true]
    exact TargetProcess.thunkStrategy_sound hs.symm

namespace Unbound

variable {σ : Type}

/-- What holds of a resolver that the last request `q` bound, when all before it failed. -/
structure BoundSpec (p : TargetProcess) (b : Build) (q : BindRequest) (r : Resolver σ) : Prop where
  process : r.process = p
  executable : r.strategy.kind ≠ .nameTable → p.isExecutable r.strategy.address = true
  readable : r.strategy.kind = .nameTable → p.isReadable r.strategy.address = true
  /-- A table is the one of the build at the bound address, so a pool if the build has one. -/
  table : ∀ t, r.strategy = .nameTable t → t = .ofBuild r.strategy.address r.build ∧
    ((∃ layout, t = .pool r.strategy.address layout) ↔ r.build.usesPool = true)
  layout : r.layout = r.build.handleLayout
  /-- Only the last thing on record is a success, and it is how the resolver is bound. -/
  attempts : ∃ earlier,
    r.attempts = earlier ++ [⟨r.path, .bound r.strategy.kind r.strategy.address⟩] ∧
    ∀ a ∈ earlier, ∃ reason, a.outcome = .failed reason
  path : r.path = .override ↔ q.override?.isSome = true
  /-- The build is the given one, but for the word of an override on pools. -/
  build : r.build = match q.override? with
    | some o => { b with usesPool := o.isPool }
    | none => b

theorem Granted.sound {u : Unbound σ} {q : BindRequest} {errors : List BindError}
    {r : Resolver σ} (h : Granted u q errors r) :
    r.strategy.Sound u.process r.build ∧ (r.path = .override ↔ q.override?.isSome = true) := by
  obtain ⟨unused, ht⟩ := h.tries
  rw [h.build]
  refine BindRequest.sound_of_mem_tries ?_
  rw [ht]
  exact List.mem_append_right _ List.mem_cons_self

/-- A resolver is bound to what was found, and to nothing that was not checked. -/
theorem FailedBinds.bound_spec {p : TargetProcess} {b : Build} {i : Invoker σ}
    {requests : List BindRequest} {failures : List (BindFailure σ)} {v : Unbound σ}
    {q : BindRequest} {r : Resolver σ}
    (h : FailedBinds (start p b i) requests failures v) (hq : v.answer q = .ok (.ok r)) :
    BoundSpec p b q r := by
  have hv := h.resolver_eq
  have hprocess : v.process = p := by rw [hv]; rfl
  have hbuild : v.build = b := by rw [hv]; rfl
  have hfailed : ∀ a ∈ v.attempts, ∃ reason, a.outcome = .failed reason := by
    rw [hv]
    exact h.failed
  obtain ⟨errors, hg⟩ := granted_of_answer hq
  obtain ⟨hs, hpath⟩ := hg.sound
  rw [hprocess] at hs
  refine ⟨?_, hs.executable, hs.readable, ?_, hg.layout, ⟨_, hg.attempts, ?_⟩, hpath, ?_⟩
  · rw [hg.process, hprocess]
  · intro t ht
    exact ⟨hs.table_eq ht, NameTable.exists_eq_pool_iff (hs.table_eq ht)⟩
  · intro a ha
    rcases List.mem_append.mp ha with ha | ha
    · exact hfailed a ha
    · exact Attempt.failed_of_mem_map ha
  · rw [hg.build, hbuild]
    rfl

/-- A process with one module and readable memory, none of it executable. -/
def dataProcess : TargetProcess where
  readBytes _ size := .ok (List.replicate size 0)
  isReadable _ := true
  modules := .ok [⟨0x1000, 0x100, "Game.exe"⟩]
  regions := .ok []
  findPattern _ _ _ := .ok []

/-- A detection fails, and then an override binds a pool although the build has none. -/
theorem bound_spec_of_dataProcess :
    let c : Candidates := { appendString := some 0x1010 }
    let requests := [BindRequest.detection c.scanner false]
    let q := BindRequest.override { offset := 0x10, kind := .nameTable, isPool := true }
    ∃ failures v r,
      FailedBinds (start dataProcess {} idleInvoker) requests failures v ∧
      v.answer q = .ok (.ok r) ∧
      BoundSpec dataProcess {} q r ∧
      r.strategy = .nameTable (.pool 0x1010 {}) ∧ r.build = { usesPool := true } := by
  intro c requests q
  have h : FailedBinds (start dataProcess {} idleInvoker) requests _ _ := .cons rfl (.nil _)
  refine ⟨_, _, _, h, rfl, h.bound_spec rfl, rfl, rfl⟩

end Unbound

end EngineNames
