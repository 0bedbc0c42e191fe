import EngineNames.Proofs.Registry.Owners
import EngineNames.Proofs.Registry.Search
import Mathlib.Data.List.Induction

/-! # One identifier for many names

Raw names ask for one and the same identifier, each as often as it likes. Then they are numbered in
the order in which they come up for the first time: the name with the number `k` is always given the
candidate with the suffix `k`, and no suffix is left out.
-/

namespace EngineNames.Registry

/-! ## First appearances -/

section FirstAppearances

variable {α : Type} [BEq α] [LawfulBEq α] {xs : List α} {x : α}

theorem eraseDups_concat_of_mem (h : x ∈ xs) : (xs ++ [x]).eraseDups = xs.eraseDups := by
  simp [List.eraseDups_append, List.removeAll, h]

theorem eraseDups_concat_of_notMem (h : x ∉ xs) :
    (xs ++ [x]).eraseDups = xs.eraseDups ++ [x] := by
  simp [List.eraseDups_append, List.removeAll, h, List.eraseDups_cons]

theorem nodup_eraseDups (xs : List α) : xs.eraseDups.Nodup := by
  induction xs using List.reverseRecOn with
  | nil => exact List.nodup_nil
  | append_singleton xs x ih =>
      by_cases h : x ∈ xs
      · rw [eraseDups_concat_of_mem h]
        exact ih
      · have hx : x ∉ xs.eraseDups := fun hx => h (List.mem_eraseDups.mp hx)
        rw [eraseDups_concat_of_notMem h, List.nodup_append_comm]
        exact List.nodup_cons.mpr ⟨hx, ih⟩

/-- The number of an element is settled as soon as it has come up. -/
theorem idxOf_eraseDups_append (h : x ∈ xs) (later : List α) :
    (xs ++ later).eraseDups.idxOf x = xs.eraseDups.idxOf x := by
  rw [List.eraseDups_append]
  exact List.idxOf_append_of_mem (List.mem_eraseDups.mpr h)

/-- An element that comes up for the first time has the next number. -/
theorem idxOf_eraseDups_concat : (xs ++ [x]).eraseDups.idxOf x = xs.eraseDups.idxOf x := by
  by_cases h : x ∈ xs
  · rw [eraseDups_concat_of_mem h]
  · have hx : x ∉ xs.eraseDups := fun hx => h (List.mem_eraseDups.mp hx)
    rw [eraseDups_concat_of_notMem h, List.idxOf_append_of_notMem hx, List.idxOf_eq_length hx]
    simp

end FirstAppearances

/-! ## One name -/

/-- The raw names hold the candidates for the identifier in their order, and nothing else is
held. -/
structure Numbered (r : Registry) (identifier : String) (raws : List String) : Prop where
  owner : ∀ k, r.owner? (candidate identifier k) = raws[k]?
  others : ∀ other, (∀ k, other ≠ candidate identifier k) → r.owner? other = none

namespace Numbered

variable {r : Registry} {identifier : String} {raws : List String}

theorem empty (identifier : String) : Numbered Registry.empty identifier [] :=
  ⟨fun _ => rfl, fun _ _ => rfl⟩

/-- The candidates before its number belong to others, and that one is its own or free. -/
theorem firstSuffix_eq (h : Numbered r identifier raws) (raw : String) :
    r.firstSuffix raw identifier = raws.idxOf raw := by
  refine firstSuffix_eq_iff.mpr ⟨?_, fun j hj => ?_⟩
  · rw [admits_eq_true_iff, h.owner]
    by_cases hr : raw ∈ raws
    · exact .inr (List.getElem?_idxOf hr)
    · rw [List.idxOf_eq_length hr]
      exact .inl (List.getElem?_eq_none (Nat.le_refl _))
  · have hlt : j < raws.length := Nat.lt_of_lt_of_le hj List.idxOf_le_length
    rw [admits_eq_false_iff, h.owner, List.getElem?_eq_getElem hlt]
    exact ⟨raws[j], rfl, ne_of_beq_false (List.not_of_lt_findIdx hj)⟩

/-- A name that has a number keeps it, and nobody else is touched. -/
theorem assign_of_mem (h : Numbered r identifier raws) {raw : String} (hr : raw ∈ raws) :
    (r.assign raw identifier).2 = r := by
  have ho : r.owner? (candidate identifier (r.firstSuffix raw identifier)) = some raw := by
    rw [h.firstSuffix_eq, h.owner, List.getElem?_idxOf hr]
  exact insertNew_of_owner? ho

/-- A new name is the next one. -/
theorem assign_of_notMem (h : Numbered r identifier raws) {raw : String} (hr : raw ∉ raws) :
    Numbered (r.assign raw identifier).2 identifier (raws ++ [raw]) := by
  have hg := assign_grant r raw identifier
  have hgranted : (r.assign raw identifier).1 = candidate identifier raws.length := by
    rw [assign, h.firstSuffix_eq, List.idxOf_eq_length hr]
  rw [hgranted] at hg
  refine ⟨fun k => ?_, fun other hne => ?_⟩
  · by_cases hk : k = raws.length
    · rw [hk, hg.owned, List.getElem?_concat_length]
    · rw [hg.frame _ fun he => hk (candidate_injective identifier he), h.owner]
      rcases Nat.lt_or_gt_of_ne hk with hlt | hgt
      · rw [List.getElem?_append_left hlt]
      · have hle : (raws ++ [raw]).length ≤ k := by
          rw [List.length_append]
          exact hgt
        rw [List.getElem?_eq_none (Nat.le_of_lt hgt), List.getElem?_eq_none hle]
  · rw [hg.frame other (hne _)]
    exact h.others other hne

end Numbered

/-! ## All names -/

/-- Each of the raw names asks for the identifier. -/
def requestsFor (identifier : String) (raws : List String) : List Request :=
  raws.map (.assign · identifier)

theorem requestsFor_append (identifier : String) (earlier later : List String) :
    requestsFor identifier (earlier ++ later) =
      requestsFor identifier earlier ++ requestsFor identifier later :=
  List.map_append

section Runs

variable (identifier : String) (raws : List String)

/-- By induction from the right, because a name that comes later changes no number. -/
theorem numbered_after :
    Numbered (empty.after (requestsFor identifier raws)) identifier raws.eraseDups := by
  induction raws using List.reverseRecOn with
  | nil => exact .empty identifier
  | append_singleton raws raw ih =>
      have hstep : empty.after (requestsFor identifier (raws ++ [raw])) =
          ((empty.after (requestsFor identifier raws)).assign raw identifier).2 := by
        rw [requestsFor_append, after_append]
        rfl
      rw [hstep]
      by_cases h : raw ∈ raws
      · rw [ih.assign_of_mem (List.mem_eraseDups.mpr h), eraseDups_concat_of_mem h]
        exact ih
      · rw [eraseDups_concat_of_notMem h]
        exact ih.assign_of_notMem fun hr => h (List.mem_eraseDups.mp hr)

/-- Every name is answered with its number, as often as it asks. -/
theorem log_requestsFor :
    empty.log (requestsFor identifier raws) = raws.map fun raw =>
      (.assign raw identifier, .assigned (candidate identifier (raws.eraseDups.idxOf raw))) := by
  induction raws using List.reverseRecOn with
  | nil => rfl
  | append_singleton raws raw ih =>
      have hraw : ((empty.after (requestsFor identifier raws)).assign raw identifier).1 =
          candidate identifier ((raws ++ [raw]).eraseDups.idxOf raw) := by
        rw [assign, (numbered_after identifier raws).firstSuffix_eq, idxOf_eraseDups_concat]
      have hearlier : ∀ other ∈ raws,
          (raws ++ [raw]).eraseDups.idxOf other = raws.eraseDups.idxOf other :=
        fun other h => idxOf_eraseDups_append h [raw]
      rw [requestsFor_append, log_append, ih, List.map_append]
      congr 1
      · refine List.map_congr_left fun other h => ?_
        rw [hearlier other h]
      · rw [List.map_singleton, ← hraw]
        rfl

theorem isSome_owner?_after_iff (other : String) :
    ((empty.after (requestsFor identifier raws)).owner? other).isSome = true ↔
      ∃ k < raws.eraseDups.length, other = candidate identifier k := by
  have h := numbered_after identifier raws
  by_cases hc : ∃ k, other = candidate identifier k
  · obtain ⟨k, rfl⟩ := hc
    rw [h.owner, isSome_getElem?]
    constructor
    · intro hk
      exact ⟨k, hk, rfl⟩
    · rintro ⟨j, hj, he⟩
      rw [candidate_injective identifier he]
      exact hj
  · rw [h.others other fun k he => hc ⟨k, he⟩]
    constructor
    · intro hnone
      cases hnone
    · rintro ⟨k, _, he⟩
      exact absurd ⟨k, he⟩ hc

theorem size_after_requestsFor :
    (empty.after (requestsFor identifier raws)).size = raws.eraseDups.length := by
  have hcandidates : ((List.range raws.eraseDups.length).map (candidate identifier)).Nodup :=
    List.nodup_range.map (candidate_injective identifier)
  have hkeys : ((empty.after (requestsFor identifier raws)).entries.map Prod.fst).Perm
      ((List.range raws.eraseDups.length).map (candidate identifier)) := by
    rw [List.perm_ext_iff_of_nodup (Registry.nodup _) hcandidates]
    intro other
    rw [mem_keys_iff, isSome_owner?_after_iff, List.mem_map]
    simp only [List.mem_range, eq_comm]
  rw [size, ← List.length_map, hkeys.length_eq, List.length_map, List.length_range]

end Runs

theorem length_eraseDups_of_perm {raws others : List String} (h : others.Perm raws) :
    others.eraseDups.length = raws.eraseDups.length := by
  have hperm : others.eraseDups.Perm raws.eraseDups := by
    rw [List.perm_ext_iff_of_nodup (nodup_eraseDups _) (nodup_eraseDups _)]
    intro raw
    rw [List.mem_eraseDups, List.mem_eraseDups, h.mem_iff]
  exact hperm.length_eq

/-- What comes of the raw names' requests for one identifier, made in their order of a registry that
holds nothing. The names without their repetitions are `raws.eraseDups`, each where it comes up for
the first time. -/
structure NumberingSpec (identifier : String) (raws : List String) : Prop where
  answers : empty.log (requestsFor identifier raws) = raws.map fun raw =>
    (.assign raw identifier, .assigned (candidate identifier (raws.eraseDups.idxOf raw)))
  answered : ∀ k raw, raws.eraseDups[k]? = some raw →
    ∀ answer, (.assign raw identifier, answer) ∈ empty.log (requestsFor identifier raws) →
      answer = .assigned (candidate identifier k)
  owner : ∀ k, (empty.after (requestsFor identifier raws)).owner? (candidate identifier k) =
    raws.eraseDups[k]?
  held_iff : ∀ other, ((empty.after (requestsFor identifier raws)).owner? other).isSome = true ↔
    ∃ k < raws.eraseDups.length, other = candidate identifier k
  size_eq : (empty.after (requestsFor identifier raws)).size = raws.eraseDups.length
  /-- In another order the names have other numbers, but the same identifiers are held. -/
  order : ∀ others, others.Perm raws → ∀ other,
    ((empty.after (requestsFor identifier others)).owner? other).isSome =
      ((empty.after (requestsFor identifier raws)).owner? other).isSome

/-- Names that share an identifier are numbered without gaps. -/
theorem numbering_spec (identifier : String) (raws : List String) :
    NumberingSpec identifier raws := by
  have hlog := log_requestsFor identifier raws
  refine ⟨hlog, ?_, (numbered_after identifier raws).owner, isSome_owner?_after_iff identifier raws,
    size_after_requestsFor identifier raws, ?_⟩
  · intro k raw hk answer hanswer
    obtain ⟨hlt, rfl⟩ := List.getElem?_eq_some_iff.mp hk
    rw [hlog, List.mem_map] at hanswer
    obtain ⟨other, _, he⟩ := hanswer
    obtain ⟨hrequest, rfl⟩ := Prod.mk.inj he
    obtain ⟨rfl, -⟩ := Request.assign.inj hrequest
    rw [(nodup_eraseDups raws).idxOf_getElem k hlt]
  · intro others hperm other
    rw [Bool.eq_iff_iff, isSome_owner?_after_iff, isSome_owner?_after_iff,
      length_eraseDups_of_perm hperm]

/-- A name that asks again does not take a number from the others. -/
example : (empty.log (requestsFor "A_B" ["A B", "A.B", "A B", "A-B", "A.B"])).map Prod.snd =
    ["A_B", "A_B_1", "A_B", "A_B_2", "A_B_1"].map .assigned := by
  decide +kernel

end EngineNames.Registry
