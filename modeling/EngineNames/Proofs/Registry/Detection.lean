import EngineNames.Proofs.Registry.Runs
import EngineNames.Proofs.Text.Repair

/-! # Names that the registry tells apart

A registry keeps raw names as text, and raw names that are no text are decoded for it. Of two names
with one identifier the second is refused exactly if their units differ after repair, so names that
differ in surrogates without a partner pass for one name.
-/

namespace EngineNames.Registry

open Utf16 (repair WellFormed)

theorem registerName_of_owner? {r : Registry} {name : Name} {existing : String}
    (h : r.owner? name.identifier = some existing) :
    r.registerName name = if existing = name.rawText then .ok r
      else .error ⟨name.identifier, existing, name.rawText⟩ := by
  simp only [registerName, register, h]

/-- Names that are displayed alike have one identifier. -/
theorem identifier_eq_of_display_eq {units others : List UInt16}
    (h : (Name.ofUnits units).display = (Name.ofUnits others).display) :
    (Name.ofUnits units).identifier = (Name.ofUnits others).identifier := by
  rw [Name.identifier_ofUnits, Name.identifier_ofUnits, h]

section Registered

variable {r : Registry} {requests : List Request} {units others : List UInt16}

/-- What becomes of a name after another one with the same identifier. -/
theorem registerName_of_registered
    (hr : (.registerName (.ofUnits units), .registered) ∈ r.log requests)
    (hi : (Name.ofUnits units).identifier = (Name.ofUnits others).identifier) :
    (r.after requests).registerName (.ofUnits others) =
      if repair units = repair others then .ok (r.after requests)
      else .error ⟨(Name.ofUnits others).identifier, (Name.ofUnits units).rawText,
        (Name.ofUnits others).rawText⟩ := by
  have ho : (r.after requests).owner? (Name.ofUnits others).identifier =
      some (Name.ofUnits units).rawText :=
    owner?_after_of_mem_log hr (congrArg some hi)
  have ht : (Name.ofUnits units).rawText = (Name.ofUnits others).rawText ↔
      repair units = repair others :=
    Utf16.toString_eq_iff
  rw [registerName_of_owner? ho]
  by_cases h : repair units = repair others
  · rw [if_pos h, if_pos (ht.mpr h)]
  · rw [if_neg h, if_neg fun he => h (ht.mp he)]

/-- Different units are repaired to the same units only if both have a replacement character then,
and only if one of them was ill-formed. -/
theorem repair_ne (hne : units ≠ others)
    (h : WellFormed units ∧ WellFormed others ∨ 0xFFFD ∉ repair units ∨ 0xFFFD ∉ repair others) :
    repair units ≠ repair others := by
  intro he
  rcases h with ⟨hu, ho⟩ | h
  · rw [hu.repair_eq, ho.repair_eq] at he
    exact hne he
  · have hno : 0xFFFD ∉ repair units ∧ 0xFFFD ∉ repair others := by
      rw [he] at h ⊢
      simpa using h
    have hu := (Utf16.repair_eq_or_mem units).resolve_right hno.1
    have ho := (Utf16.repair_eq_or_mem others).resolve_right hno.2
    rw [hu, ho] at he
    exact hne he

/-- How `r` answers to the name with the units `others`, when their identifier was registered for
the name with the units `units`. -/
structure DetectionSpec (r : Registry) (units others : List UInt16) : Prop where
  refused_iff : (∃ collision, r.registerName (.ofUnits others) = .error collision) ↔
    repair units ≠ repair others
  refusal : ∀ collision, r.registerName (.ofUnits others) = .error collision →
    collision.identifier = (Name.ofUnits units).identifier ∧
      collision.existing = (Name.ofUnits units).rawText ∧
      collision.incoming = (Name.ofUnits others).rawText
  /-- A name that is not told apart is accepted as if it were registered already. -/
  missed : repair units = repair others → r.registerName (.ofUnits others) = .ok r
  /-- Text in UTF-16 is told apart, and so is a name that reads without a replacement character. -/
  detected : units ≠ others →
    WellFormed units ∧ WellFormed others ∨ 0xFFFD ∉ repair units ∨ 0xFFFD ∉ repair others →
    ∃ collision, r.registerName (.ofUnits others) = .error collision

/-- In whatever state a registry is, it tells names with one identifier apart by their repaired
units. -/
theorem detection_spec
    (hr : (.registerName (.ofUnits units), .registered) ∈ r.log requests)
    (hi : (Name.ofUnits units).identifier = (Name.ofUnits others).identifier) :
    DetectionSpec (r.after requests) units others := by
  have hreg := registerName_of_registered hr hi
  refine ⟨?_, ?_, ?_, ?_⟩
  · rw [hreg]
    by_cases h : repair units = repair others <;> simp [h]
  · intro collision hc
    rw [hreg] at hc
    split at hc
    · cases hc
    · obtain rfl := Except.error.inj hc
      refine ⟨?_, rfl, rfl⟩
      -- `exact` alone would evaluate both identifiers.
      dsimp only
      exact hi.symm
  · intro h
    rw [hreg, if_pos h]
  · intro hne h
    rw [hreg, if_neg (repair_ne hne h)]
    exact ⟨_, rfl⟩

end Registered

/-- `X` in package `/A` stands in the way of `X` in package `/B`. -/
theorem detection_spec_of_packages :
    let requests := [Request.registerName (.ofUnits [47, 65, 47, 88]), .assign "Y" "X"]
    (.registerName (.ofUnits [47, 65, 47, 88]), .registered) ∈ empty.log requests ∧
    (Name.ofUnits [47, 65, 47, 88]).identifier = (Name.ofUnits [47, 66, 47, 88]).identifier ∧
    DetectionSpec (empty.after requests) [47, 65, 47, 88] [47, 66, 47, 88] ∧
    ∃ collision,
      (empty.after requests).registerName (.ofUnits [47, 66, 47, 88]) = .error collision := by
  intro requests
  have hr : (.registerName (.ofUnits [47, 65, 47, 88]), .registered) ∈ empty.log requests :=
    List.mem_cons_self
  have hi : (Name.ofUnits [47, 65, 47, 88]).identifier =
      (Name.ofUnits [47, 66, 47, 88]).identifier :=
    identifier_eq_of_display_eq (by decide)
  have hspec := detection_spec hr hi
  exact ⟨hr, hi, hspec, hspec.refused_iff.mpr (by decide)⟩

/-- A lone surrogate is registered, and then the replacement character passes for it. -/
theorem not_registerName_of_lone_surrogate :
    ¬∀ (names : List Name) (units others : List UInt16), units ≠ others →
      (.registerName (.ofUnits units), .registered) ∈
        empty.log (names.map Request.registerName) →
      (Name.ofUnits units).identifier = (Name.ofUnits others).identifier →
      ∃ collision, (empty.after (names.map Request.registerName)).registerName
        (.ofUnits others) = .error collision := by
  intro h
  have hr : (.registerName (.ofUnits [0xD800]), .registered) ∈
      empty.log ([Name.ofUnits [0xD800]].map Request.registerName) :=
    List.mem_cons_self
  have hi : (Name.ofUnits [0xD800]).identifier = (Name.ofUnits [0xFFFD]).identifier :=
    identifier_eq_of_display_eq (by decide)
  obtain ⟨collision, hc⟩ := h [.ofUnits [0xD800]] [0xD800] [0xFFFD] (by decide) hr hi
  have hrepair : repair [0xD800] = repair [0xFFFD] := by decide
  rw [registerName_of_registered hr hi, if_pos hrepair] at hc
  cases hc

end EngineNames.Registry
