import EngineNames.Proofs.Registry.Runs
import Mathlib.Data.List.Perm.Subperm
import Mathlib.Data.List.Dedup

/-! # First owners

Names are registered one after the other, and those that collide are left out. Then each identifier
is held by the first of the names that have it, and as many are held as there are different ones.
-/

namespace EngineNames.Registry

/-- A name gets its identifier only if nobody has it yet. -/
theorem owner?_step_registerName (r : Registry) (name : Name) (identifier : String) :
    (r.step (.registerName name)).2.owner? identifier =
      (r.owner? identifier).or
        (if name.identifier = identifier then some name.rawText else none) := by
  rcases settle_register_cases r name.rawText name.identifier with ⟨-, hg⟩ | ⟨_, _, ho, hs⟩
  · by_cases hi : name.identifier = identifier
    · subst hi
      rw [if_pos rfl]
      refine hg.owned.trans ?_
      rcases hg.before with hb | hb <;> rw [hb] <;> rfl
    · rw [if_neg hi, Option.or_none]
      exact hg.frame identifier (Ne.symm hi)
  · have hstep : (r.step (.registerName name)).2 = r := congrArg Prod.snd hs
    rw [hstep]
    by_cases hi : name.identifier = identifier
    · subst hi
      rw [ho]
      rfl
    · rw [if_neg hi, Option.or_none]

/-- The first name with an identifier owns it, unless it was owned before. -/
theorem owner?_after_registerName (r : Registry) (names : List Name) (identifier : String) :
    (r.after (names.map .registerName)).owner? identifier =
      (r.owner? identifier).or
        ((names.find? (·.identifier = identifier)).map Name.rawText) := by
  induction names generalizing r with
  | nil => exact Option.or_none.symm
  | cons name names ih =>
      rw [List.map_cons, after_cons, ih, owner?_step_registerName, Option.or_assoc,
        List.find?_cons]
      by_cases hi : name.identifier = identifier <;> simp [hi]

theorem mem_keys_iff {r : Registry} {identifier : String} :
    identifier ∈ r.entries.map Prod.fst ↔ (r.owner? identifier).isSome = true := by
  constructor
  · intro hm
    rw [Option.isSome_iff_ne_none]
    intro hnone
    exact notMem_of_lookup_eq_none hnone hm
  · intro h
    obtain ⟨raw, ho⟩ := Option.isSome_iff_exists.mp h
    exact mem_of_owner?_eq_some ho

/-- There is one entry for each identifier, however many names have it. -/
theorem size_after_registerName (names : List Name) :
    (empty.after (names.map .registerName)).size = (names.map Name.identifier).dedup.length := by
  have hkeys : ((empty.after (names.map .registerName)).entries.map Prod.fst).Perm
      (names.map Name.identifier).dedup := by
    rw [List.perm_ext_iff_of_nodup (Registry.nodup _) (List.nodup_dedup _)]
    intro identifier
    rw [mem_keys_iff, owner?_after_registerName, List.mem_dedup, List.mem_map]
    simp [owner?, empty]
  rw [size, ← hkeys.length_eq, List.length_map]

end EngineNames.Registry
