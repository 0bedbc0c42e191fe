import EngineNames.Proofs.Identifier.FixedPoints
import EngineNames.Proofs.Registry.Runs

/-! # Identifiers that stay identifiers

An assignment may have to put a suffix behind the identifier that is asked for. The suffix begins
with an underscore, which no reserved word has, and goes on with digits, so what comes of an
identifier is one again. A registry that is asked for identifiers only therefore holds no others.
-/

namespace EngineNames.Registry

open Identifier

/-! ## Suffixes -/

theorem isContinue_of_isDigit {c : Char} (h : c.isDigit = true) : isContinue c = true := by
  have hm : (0x30, 0x39) ∈ extenderRanges := List.mem_cons_self
  have hv : '0'.val ≤ c.val ∧ c.val ≤ '9'.val := by
    simpa only [Char.isDigit, Bool.and_eq_true, decide_eq_true_eq] using h
  rw [UInt32.le_iff_toNat_le, UInt32.le_iff_toNat_le] at hv
  have he : inRanges extenderRanges c = true := List.any_eq_true.mpr ⟨_, hm, by simpa using hv⟩
  rw [isContinue, he, Bool.or_true]

theorem isContinue_of_mem_toString {n : ℕ} {c : Char} (h : c ∈ (toString n).toList) :
    isContinue c = true := by
  have hd : c ∈ Nat.toDigits 10 n := by rwa [← Nat.toList_repr]
  exact isContinue_of_isDigit (Nat.isDigit_of_mem_toDigits (by decide) (by decide) hd)

theorem toList_candidate_succ (identifier : String) (k : ℕ) :
    (candidate identifier (k + 1)).toList =
      identifier.toList ++ '_' :: (toString (k + 1)).toList := by
  have hu : "_".toList = ['_'] := rfl
  simp only [candidate, String.toList_append, hu, List.append_assoc, List.singleton_append]

/-- No reserved word has an underscore. -/
theorem ne_reserved_of_underscore {word : String} (h : '_' ∈ word.toList) :
    ∀ entry ∈ reservedWords, word ≠ entry.1 := by
  rintro entry hentry rfl
  exact underscore_notMem_reserved entry hentry h

/-- Whatever its suffix is, a candidate for an identifier is an identifier. -/
theorem wellFormed_candidate {identifier : String} (h : WellFormed identifier) (k : ℕ) :
    WellFormed (candidate identifier k) := by
  cases k with
  | zero => exact h
  | succ k =>
      refine ⟨?_, ne_reserved_of_underscore ?_⟩
      · rw [toList_candidate_succ]
        refine isSpelled_append h.spelled fun c hc => ?_
        rcases List.mem_cons.mp hc with rfl | hc
        · exact isContinue_underscore
        · exact isContinue_of_mem_toString hc
      · rw [toList_candidate_succ]
        exact List.mem_append_right _ List.mem_cons_self

theorem isIdentifier_candidate {identifier : String} (h : isIdentifier identifier = true) (k : ℕ) :
    isIdentifier (candidate identifier k) = true :=
  isIdentifier_iff_wellFormed.mpr (wellFormed_candidate (isIdentifier_iff_wellFormed.mp h) k)

theorem isIdentifier_sanitize (text : String) : isIdentifier (sanitize text) = true :=
  isIdentifier_iff_wellFormed.mpr (wellFormed_sanitize text)

/-! ## One request -/

/-- Everything that is held is an identifier. -/
def HoldsIdentifiers (r : Registry) : Prop :=
  ∀ identifier raw, r.owner? identifier = some raw → isIdentifier identifier = true

theorem holdsIdentifiers_empty : empty.HoldsIdentifiers := by
  intro identifier raw h
  cases h

/-- A registration is granted what is asked for. -/
theorem eq_identifier_of_settle {r : Registry} {outcome : Except Collision Registry}
    {request : Request} {identifier : String}
    (h : granted? request (r.settle outcome).1 = some identifier) :
    identifier = request.identifier := by
  cases outcome with
  | ok next => exact (Option.some.inj h).symm
  | error collision => cases h

/-- What is granted is one of the candidates for what is asked for. -/
theorem exists_candidate_of_granted? {r : Registry} {request : Request} {identifier : String}
    (h : granted? request (r.step request).1 = some identifier) :
    ∃ k, identifier = candidate request.identifier k := by
  cases request with
  | register raw asked => exact ⟨0, eq_identifier_of_settle h⟩
  | registerName name => exact ⟨0, eq_identifier_of_settle h⟩
  | assign raw asked => exact ⟨r.firstSuffix raw asked, (Option.some.inj h).symm⟩

theorem isIdentifier_of_granted? {r : Registry} {request : Request} {identifier : String}
    (hq : isIdentifier request.identifier = true)
    (h : granted? request (r.step request).1 = some identifier) :
    isIdentifier identifier = true := by
  obtain ⟨k, rfl⟩ := exists_candidate_of_granted? h
  exact isIdentifier_candidate hq k

/-- Who asks for an identifier does not bring anything else into a registry. -/
theorem HoldsIdentifiers.step {r : Registry} {request : Request} (h : r.HoldsIdentifiers)
    (hq : isIdentifier request.identifier = true) : (r.step request).2.HoldsIdentifiers := by
  intro identifier raw ho
  rcases step_cases r request with ⟨granted, hi, hg⟩ | ⟨_, _, _, hs⟩
  · by_cases he : identifier = granted
    · subst he
      exact isIdentifier_of_granted? hq hi
    · rw [hg.frame identifier he] at ho
      exact h identifier raw ho
  · rw [hs] at ho
    exact h identifier raw ho

/-! ## Sessions -/

/-- What is done with a registry: something is asked of it, or everything is forgotten. -/
inductive Action where
  | ask (request : Request)
  | clear

def act (r : Registry) : Action → Registry
  | .ask request => (r.step request).2
  | .clear => empty

def afterActions (r : Registry) (actions : List Action) : Registry :=
  actions.foldl act r

theorem HoldsIdentifiers.afterActions {r : Registry} {actions : List Action}
    (h : r.HoldsIdentifiers)
    (hq : ∀ request, .ask request ∈ actions → isIdentifier request.identifier = true) :
    (r.afterActions actions).HoldsIdentifiers := by
  induction actions generalizing r with
  | nil => exact h
  | cons action rest ih =>
      refine ih ?_ fun request hin => hq request (List.mem_cons_of_mem _ hin)
      cases action with
      | ask request => exact h.step (hq request List.mem_cons_self)
      | clear => exact holdsIdentifiers_empty

/-- In a session all that is held, and all that is granted on the way, is left alone by
sanitising. -/
structure SanitizedSpec (actions : List Action) : Prop where
  held : ∀ identifier raw, (empty.afterActions actions).owner? identifier = some raw →
    sanitize identifier = identifier
  granted : ∀ earlier request later, actions = earlier ++ .ask request :: later → ∀ identifier,
    granted? request ((empty.afterActions earlier).step request).1 = some identifier →
      sanitize identifier = identifier

theorem sanitizedSpec_of_asked {actions : List Action}
    (h : ∀ request, .ask request ∈ actions → ∃ text, request.identifier = sanitize text) :
    SanitizedSpec actions := by
  have hq : ∀ request, .ask request ∈ actions → isIdentifier request.identifier = true := by
    intro request hin
    obtain ⟨text, ht⟩ := h request hin
    rw [ht]
    exact isIdentifier_sanitize text
  refine ⟨fun identifier raw ho => ?_, ?_⟩
  · exact eq_of_beq (holdsIdentifiers_empty.afterActions hq identifier raw ho)
  · rintro earlier request later rfl identifier hg
    have hin : .ask request ∈ earlier ++ .ask request :: later :=
      List.mem_append_right _ List.mem_cons_self
    exact eq_of_beq (isIdentifier_of_granted? (hq request hin) hg)

/-- Whatever a registry holds and whichever suffix is needed, what is assigned for an identifier is
an identifier, in particular for one that was made by sanitising. So if a session asks only for
such, it knows no others. -/
theorem identifiers_stay :
    (∀ (r : Registry) (raw identifier : String), isIdentifier identifier = true →
      isIdentifier (r.assign raw identifier).1 = true) ∧
    (∀ (r : Registry) (raw text : String),
      isIdentifier (r.assign raw (sanitize text)).1 = true) ∧
    ∀ actions : List Action,
      (∀ request, .ask request ∈ actions → ∃ text, request.identifier = sanitize text) →
        SanitizedSpec actions := by
  have hassign : ∀ (r : Registry) (raw identifier : String), isIdentifier identifier = true →
      isIdentifier (r.assign raw identifier).1 = true :=
    fun r raw identifier h => isIdentifier_candidate h (r.firstSuffix raw identifier)
  refine ⟨hassign, fun r raw text => ?_, fun actions h => sanitizedSpec_of_asked h⟩
  exact hassign r raw _ (isIdentifier_sanitize text)

/-- Two names with one identifier: the second one gets a suffix, and after all is forgotten it gets
the identifier itself. -/
theorem identifiers_stay_of_two_names :
    let both := [Action.ask (.assign "x y" (sanitize "x y")), .ask (.assign "x.y" (sanitize "x.y"))]
    let again := both ++ [.clear, .ask (.assign "x.y" (sanitize "x.y"))]
    (∀ request, .ask request ∈ again → ∃ text, request.identifier = sanitize text) ∧
    SanitizedSpec again ∧
    (empty.afterActions both).owner? "X_y_1" = some "x.y" ∧
    (empty.afterActions again).owner? "X_y" = some "x.y" := by
  intro both again
  have h : ∀ request, .ask request ∈ again → ∃ text, request.identifier = sanitize text := by
    intro request hin
    simp only [again, both, List.cons_append, List.nil_append, List.mem_cons, reduceCtorEq,
      Action.ask.injEq, List.not_mem_nil, or_false, false_or] at hin
    -- `rfl` alone would evaluate the identifiers.
    rcases hin with rfl | rfl | rfl <;> dsimp only [Request.identifier] <;> exact ⟨_, rfl⟩
  exact ⟨h, identifiers_stay.2.2 again h, by decide +kernel, by decide +kernel⟩

end EngineNames.Registry
