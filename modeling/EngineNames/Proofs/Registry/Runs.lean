import EngineNames.Proofs.Registry.Suffix

/-! # Runs of a registry

A run is a list of requests that are answered one after the other, with nothing forgotten in
between. Every request either gives one identifier to its raw name or is refused and changes
nothing, so what a raw name holds it keeps.
-/

namespace EngineNames.Registry

/-- What may be asked of a registry. -/
inductive Request where
  | register (raw identifier : String)
  | registerName (name : Name)
  | assign (raw identifier : String)

/-- What a request is answered with. -/
inductive Answer where
  | registered
  | refused (collision : Collision)
  | assigned (identifier : String)
deriving DecidableEq, Repr

namespace Request

def raw : Request → String
  | register raw _ => raw
  | registerName name => name.rawText
  | assign raw _ => raw

def identifier : Request → String
  | register _ identifier => identifier
  | registerName name => name.identifier
  | assign _ identifier => identifier

end Request

/-- The answer to a registration, and the registry that is left; a refused one leaves it alone. -/
def settle (r : Registry) : Except Collision Registry → Answer × Registry
  | .ok next => (.registered, next)
  | .error collision => (.refused collision, r)

def step (r : Registry) : Request → Answer × Registry
  | .register raw identifier => r.settle (r.register raw identifier)
  | .registerName name => r.settle (r.registerName name)
  | .assign raw identifier =>
      let (granted, next) := r.assign raw identifier
      (.assigned granted, next)

def after (r : Registry) (requests : List Request) : Registry :=
  requests.foldl (fun s request => (s.step request).2) r

/-- The identifier that a request is granted by its answer. -/
def granted? (request : Request) : Answer → Option String
  | .registered => some request.identifier
  | .refused _ => none
  | .assigned identifier => some identifier

def log (r : Registry) : List Request → List (Request × Answer)
  | [] => []
  | request :: rest => (request, (r.step request).1) :: log (r.step request).2 rest

theorem after_cons (r : Registry) (request : Request) (rest : List Request) :
    r.after (request :: rest) = (r.step request).2.after rest :=
  rfl

theorem after_append (r : Registry) (earlier later : List Request) :
    r.after (earlier ++ later) = (r.after earlier).after later :=
  List.foldl_append

theorem log_append (r : Registry) (earlier later : List Request) :
    r.log (earlier ++ later) = r.log earlier ++ (r.after earlier).log later := by
  induction earlier generalizing r with
  | nil => rfl
  | cons request earlier ih =>
      rw [List.cons_append, log, log, ih, after_cons, List.cons_append]

/-! ## One request -/

/-- `raw` is given `identifier`, which was free or its own, and nothing else changes hands. -/
structure Grant (r next : Registry) (raw identifier : String) : Prop where
  before : r.owner? identifier = none ∨ r.owner? identifier = some raw
  owned : next.owner? identifier = some raw
  frame : ∀ other ≠ identifier, next.owner? other = r.owner? other

theorem grant_insertNew {r : Registry} {raw identifier : String}
    (h : r.owner? identifier = none ∨ r.owner? identifier = some raw) :
    Grant r (r.insertNew identifier raw) raw identifier := by
  refine ⟨h, ?_, fun other hne => owner?_insertNew_of_ne r raw hne⟩
  rw [owner?_insertNew_self]
  rcases h with h | h <;> simp [h]

theorem assign_grant (r : Registry) (raw identifier : String) :
    Grant r (r.assign raw identifier).2 raw (r.assign raw identifier).1 :=
  grant_insertNew
    (admits_eq_true_iff.mp (firstSuffix_isFirstSuffix r raw identifier).admitted)

/-- A registration is granted, or refused because another raw name holds the identifier. -/
theorem settle_register_cases (r : Registry) (raw identifier : String) :
    ((r.settle (r.register raw identifier)).1 = .registered ∧
      Grant r (r.settle (r.register raw identifier)).2 raw identifier) ∨
    ∃ existing, existing ≠ raw ∧ r.owner? identifier = some existing ∧
      r.settle (r.register raw identifier) = (.refused ⟨identifier, existing, raw⟩, r) := by
  unfold register
  cases ho : r.owner? identifier with
  | none => exact .inl ⟨rfl, grant_insertNew (.inl ho)⟩
  | some existing =>
      by_cases he : existing = raw
      · subst he
        refine .inl ?_
        simp only [if_true]
        exact ⟨rfl, .inr ho, ho, fun _ _ => rfl⟩
      · refine .inr ⟨existing, he, rfl, ?_⟩
        simp only [he, if_false]
        rfl

/-- Everything that a request can do. -/
theorem step_cases (r : Registry) (request : Request) :
    (∃ identifier, granted? request (r.step request).1 = some identifier ∧
      Grant r (r.step request).2 request.raw identifier) ∨
    ∃ existing, existing ≠ request.raw ∧ r.owner? request.identifier = some existing ∧
      r.step request = (.refused ⟨request.identifier, existing, request.raw⟩, r) := by
  cases request with
  | register raw identifier =>
      rcases settle_register_cases r raw identifier with ⟨ha, hg⟩ | h
      · exact .inl ⟨identifier, by simp only [step, ha, granted?, Request.identifier], hg⟩
      · exact .inr h
  | registerName name =>
      rcases settle_register_cases r name.rawText name.identifier with ⟨ha, hg⟩ | h
      · refine .inl ⟨name.identifier, ?_, hg⟩
        simp only [step, registerName, ha, granted?, Request.identifier]
      · exact .inr h
  | assign raw identifier => exact .inl ⟨_, rfl, assign_grant r raw identifier⟩

/-! ## Ownership only grows -/

/-- Every identifier that is held in `r` is held by the same raw name in `s`. -/
def Extends (r s : Registry) : Prop :=
  ∀ identifier raw, r.owner? identifier = some raw → s.owner? identifier = some raw

theorem Extends.refl (r : Registry) : Extends r r :=
  fun _ _ h => h

theorem Extends.trans {r s t : Registry} (hrs : Extends r s) (hst : Extends s t) :
    Extends r t :=
  fun identifier raw h => hst identifier raw (hrs identifier raw h)

theorem Grant.extends {r next : Registry} {raw identifier : String}
    (h : Grant r next raw identifier) : Extends r next := by
  intro other owner ho
  by_cases he : other = identifier
  · subst he
    rcases h.before with hb | hb
    · rw [hb] at ho
      cases ho
    · rw [h.owned, ← ho, hb]
  · rw [h.frame other he, ho]

theorem step_extends (r : Registry) (request : Request) :
    Extends r (r.step request).2 := by
  rcases step_cases r request with ⟨identifier, _, hg⟩ | ⟨existing, _, _, hs⟩
  · exact hg.extends
  · rw [hs]
    exact Extends.refl r

theorem after_extends (r : Registry) (requests : List Request) :
    Extends r (r.after requests) := by
  induction requests generalizing r with
  | nil => exact Extends.refl r
  | cons request rest ih => exact (step_extends r request).trans (ih (r.step request).2)

theorem owner?_step_of_granted? {r : Registry} {request : Request} {identifier : String}
    (h : granted? request (r.step request).1 = some identifier) :
    (r.step request).2.owner? identifier = some request.raw := by
  rcases step_cases r request with ⟨own, hi, hg⟩ | ⟨existing, _, _, hs⟩
  · obtain rfl : own = identifier := Option.some.inj (hi.symm.trans h)
    exact hg.owned
  · rw [hs] at h
    cases h

theorem owner?_after_of_mem_log {r : Registry} {requests : List Request} {request : Request}
    {answer : Answer} {identifier : String} (hm : (request, answer) ∈ r.log requests)
    (hg : granted? request answer = some identifier) :
    (r.after requests).owner? identifier = some request.raw := by
  induction requests generalizing r with
  | nil => cases hm
  | cons first rest ih =>
      rcases List.mem_cons.mp hm with he | hm
      · obtain ⟨rfl, rfl⟩ := Prod.mk.inj he
        exact after_extends _ rest _ _ (owner?_step_of_granted? hg)
      · exact ih hm

/-! ## Repeated assignments -/

/-- The candidates before the granted one belong to other raw names and stay with them, so the
same assignment made later finds the same candidate first. -/
theorem firstSuffix_eq_of_extends {r s : Registry} {raw identifier : String}
    (h : Extends (r.assign raw identifier).2 s) :
    s.firstSuffix raw identifier = r.firstSuffix raw identifier := by
  have hf := firstSuffix_isFirstSuffix r raw identifier
  have hg := assign_grant r raw identifier
  refine firstSuffix_eq_iff.mpr ⟨?_, ?_⟩
  · exact admits_eq_true_iff.mpr (.inr (h _ _ hg.owned))
  · intro j hj
    obtain ⟨existing, he, hne⟩ := admits_eq_false_iff.mp (hf.least j hj)
    exact admits_eq_false_iff.mpr ⟨existing, h _ _ (hg.extends _ _ he), hne⟩

theorem assign_fst_of_extends {r s : Registry} {raw identifier : String}
    (h : Extends (r.assign raw identifier).2 s) :
    (s.assign raw identifier).1 = (r.assign raw identifier).1 :=
  congrArg (candidate identifier) (firstSuffix_eq_of_extends h)

/-- What holds of the run of `requests` from `r`, at each of its points. -/
structure RunSpec (r : Registry) (requests : List Request) : Prop where
  /-- A held identifier keeps its owner for the rest of the run. -/
  keeps : ∀ earlier between later, requests = earlier ++ between ++ later →
    ∀ identifier raw, (r.after earlier).owner? identifier = some raw →
      (r.after (earlier ++ between)).owner? identifier = some raw
  /-- Requests that are granted one identifier are made for one raw name. -/
  granted_once : ∀ first ∈ r.log requests, ∀ second ∈ r.log requests, ∀ identifier,
    granted? first.1 first.2 = some identifier → granted? second.1 second.2 = some identifier →
      first.1.raw = second.1.raw
  /-- A refused request changes no owner and names the owner that stands in its way. -/
  refusal : ∀ earlier request later, requests = earlier ++ request :: later →
    ∀ collision, ((r.after earlier).step request).1 = .refused collision →
      r.after (earlier ++ [request]) = r.after earlier ∧
        (r.after earlier).owner? request.identifier = some collision.existing ∧
        collision.existing ≠ request.raw ∧
        collision.identifier = request.identifier ∧ collision.incoming = request.raw
  /-- An assignment that is made again is answered with the same identifier. -/
  repeated : ∀ earlier between later raw identifier,
    requests = earlier ++ .assign raw identifier :: between ++ .assign raw identifier :: later →
      ((r.after (earlier ++ .assign raw identifier :: between)).assign raw identifier).1 =
        ((r.after earlier).assign raw identifier).1

/-- Whatever is asked of whatever registry, claims are stable and assignments repeatable. -/
theorem after_spec (r : Registry) (requests : List Request) : RunSpec r requests := by
  refine ⟨?_, ?_, ?_, ?_⟩
  · intro earlier between later _ identifier raw ho
    rw [after_append]
    exact after_extends _ between identifier raw ho
  · rintro ⟨q₁, a₁⟩ h₁ ⟨q₂, a₂⟩ h₂ identifier hg₁ hg₂
    have ho₁ := owner?_after_of_mem_log h₁ hg₁
    have ho₂ := owner?_after_of_mem_log h₂ hg₂
    exact Option.some.inj (ho₁.symm.trans ho₂)
  · intro earlier request later _ collision hc
    rcases step_cases (r.after earlier) request with ⟨i, hi, _⟩ | ⟨existing, hne, ho, hs⟩
    · rw [hc] at hi
      cases hi
    · rw [hs] at hc
      obtain rfl := Answer.refused.inj hc
      refine ⟨?_, ho, hne, rfl, rfl⟩
      rw [after_append, after_cons, hs]
      rfl
  · intro earlier between later raw identifier _
    rw [after_append, after_cons]
    exact assign_fst_of_extends (after_extends _ between)

end EngineNames.Registry
