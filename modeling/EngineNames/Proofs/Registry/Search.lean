import EngineNames.Proofs.Registry.Runs
import Mathlib.Order.Bounds.Defs

/-! # The search for a candidate

An assignment looks one candidate up after the other until the raw name may have it. The search is a
relation beside `assign`, with rules for what a lookup can show, so that it also tells how many
lookups there are. It has no bound of its own: it ends because candidates differ from each other and
a registry holds finitely many identifiers.
-/

namespace EngineNames.Registry

/-- The search from the candidate of a suffix on, with the number of lookups and what they come to.
A candidate that the raw name holds is granted as it is and a free one is taken; a candidate that
another name holds sends the search to the next suffix. -/
inductive Search (r : Registry) (raw identifier : String) :
    ℕ → ℕ → String × Registry → Prop where
  | own {k} (h : r.owner? (candidate identifier k) = some raw) :
      Search r raw identifier k 1 (candidate identifier k, r)
  | free {k} (h : r.owner? (candidate identifier k) = none) :
      Search r raw identifier k 1
        (candidate identifier k, r.insertNew (candidate identifier k) raw)
  | held {k existing lookups outcome} (h : r.owner? (candidate identifier k) = some existing)
      (hne : existing ≠ raw) (next : Search r raw identifier (k + 1) lookups outcome) :
      Search r raw identifier k (lookups + 1) outcome

variable {r : Registry} {raw identifier : String} {k : ℕ}

/-- A search cannot go on in two ways. -/
theorem Search.unique {lookups lookups' : ℕ} {outcome outcome' : String × Registry}
    (h : Search r raw identifier k lookups outcome)
    (h' : Search r raw identifier k lookups' outcome') :
    lookups = lookups' ∧ outcome = outcome' := by
  induction h generalizing lookups' with
  | own ho =>
      cases h' with
      | own => exact ⟨rfl, rfl⟩
      | free ho' => cases ho.symm.trans ho'
      | held ho' hne => exact absurd (Option.some.inj (ho'.symm.trans ho)) hne
  | free ho =>
      cases h' with
      | own ho' => cases ho.symm.trans ho'
      | free => exact ⟨rfl, rfl⟩
      | held ho' => cases ho.symm.trans ho'
  | held ho hne _ ih =>
      cases h' with
      | own ho' => exact absurd (Option.some.inj (ho.symm.trans ho')) hne
      | free ho' => cases ho.symm.trans ho'
      | held _ _ next =>
          obtain ⟨rfl, rfl⟩ := ih next
          exact ⟨rfl, rfl⟩

theorem insertNew_of_owner? {existing : String} (h : r.owner? identifier = some existing) :
    r.insertNew identifier raw = r := by
  rw [insertNew, dif_neg]
  rw [h]
  exact Option.some_ne_none existing

/-- At the first suffix that may be taken one lookup is left. -/
theorem IsFirstSuffix.search_self (h : IsFirstSuffix r raw identifier k) :
    Search r raw identifier k 1
      (candidate identifier k, r.insertNew (candidate identifier k) raw) := by
  rcases admits_eq_true_iff.mp h.admitted with ho | ho
  · exact .free ho
  · rw [insertNew_of_owner? ho]
    exact .own ho

/-- From a suffix that lies this far before it, one lookup for each suffix up to it. By induction on
the distance, since the search goes towards the first suffix and not away from zero. -/
theorem IsFirstSuffix.search (h : IsFirstSuffix r raw identifier k) {distance : ℕ}
    (hd : distance ≤ k) : Search r raw identifier (k - distance) (distance + 1)
      (candidate identifier k, r.insertNew (candidate identifier k) raw) := by
  induction distance with
  | zero => exact h.search_self
  | succ distance ih =>
      obtain ⟨existing, ho, hne⟩ := admits_eq_false_iff.mp (h.least (k - (distance + 1)) (by omega))
      have hnext : k - (distance + 1) + 1 = k - distance := by omega
      refine .held ho hne ?_
      rw [hnext]
      exact ih (Nat.le_of_succ_le hd)

theorem IsFirstSuffix.isLeast (h : IsFirstSuffix r raw identifier k) :
    IsLeast {j | r.owner? (candidate identifier j) = none ∨
      r.owner? (candidate identifier j) = some raw} k := by
  refine ⟨admits_eq_true_iff.mp h.admitted, fun j hj => ?_⟩
  by_contra hlt
  have hrefused := h.least j (Nat.lt_of_not_le hlt)
  rw [admits_eq_true_iff.mpr hj] at hrefused
  cases hrefused

theorem firstSuffix_le_size (r : Registry) (raw identifier : String) :
    r.firstSuffix raw identifier ≤ r.size := by
  obtain ⟨k, hk, ha⟩ := exists_admits r raw identifier
  have hleast := (firstSuffix_isFirstSuffix r raw identifier).isLeast.2
  exact Nat.le_trans (hleast (admits_eq_true_iff.mp ha)) hk

/-- What an assignment comes to when the least suffix that may be taken is `k`. -/
structure AssignSpec (r : Registry) (raw identifier : String) (k : ℕ) (granted : String)
    (next : Registry) : Prop where
  least : IsLeast {j | r.owner? (candidate identifier j) = none ∨
    r.owner? (candidate identifier j) = some raw} k
  granted_eq : granted = candidate identifier k
  /-- One lookup more than there are entries is enough. -/
  search : k + 1 ≤ r.size + 1 ∧ Search r raw identifier 0 (k + 1) (granted, next)
  /-- There is no other way for the search to end. -/
  only : ∀ lookups outcome, Search r raw identifier 0 lookups outcome →
    lookups = k + 1 ∧ outcome = (granted, next)
  owned : next.owner? granted = some raw
  frame : ∀ other ≠ granted, next.owner? other = r.owner? other
  size_eq : next.size = if r.owner? granted = none then r.size + 1 else r.size

/-- Whatever a registry holds, an assignment ends with the first candidate that is free or the raw
name's own, and nothing but the owner of that candidate changes. -/
theorem assign_spec (r : Registry) (raw identifier : String) :
    ∃ k, AssignSpec r raw identifier k (r.assign raw identifier).1 (r.assign raw identifier).2 := by
  have hfirst := firstSuffix_isFirstSuffix r raw identifier
  have hgrant := assign_grant r raw identifier
  have hsearch := hfirst.search (Nat.le_refl _)
  rw [Nat.sub_self] at hsearch
  refine ⟨r.firstSuffix raw identifier, hfirst.isLeast, rfl, ⟨?_, hsearch⟩, ?_, hgrant.owned,
    hgrant.frame, size_insertNew r _ raw⟩
  · exact Nat.succ_le_succ (firstSuffix_le_size r raw identifier)
  · intro lookups outcome hother
    exact hother.unique hsearch

end EngineNames.Registry
