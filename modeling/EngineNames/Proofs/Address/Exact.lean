import EngineNames.Address
import Mathlib.Algebra.Group.Nat.Defs
import Mathlib.Data.List.Basic

/-! # Exact forms

A computation with sums of addresses has an exact form, in which a sum that is no address leads
nowhere. The computation itself does not go on from such a sum: it comes to its exact form, or it
stops where the first of these sums is taken.
-/

namespace EngineNames

/-- The run comes to its exact form, and it stops if it takes a sum that is no address. -/
structure Agrees {α : Type} (run : Except Trap α) (exact : α) (Overflows : Prop) : Prop where
  inside : ¬ Overflows → run = .ok exact
  outside : Overflows → run = .error .overflow

namespace Agrees

variable {α β : Type} {run : Except Trap α} {exact : α} {Overflows Other : Prop}

/-- Whatever a run comes to, it is the exact form. -/
theorem eq_of_ok (h : Agrees run exact Overflows) {x : α} (hx : run = .ok x) :
    x = exact ∧ ¬ Overflows := by
  by_cases hover : Overflows
  · rw [h.outside hover] at hx
    cases hx
  · exact ⟨Except.ok.inj (hx.symm.trans (h.inside hover)), hover⟩

theorem eq_error_iff (h : Agrees run exact Overflows) {t : Trap} :
    run = .error t ↔ t = .overflow ∧ Overflows := by
  by_cases hover : Overflows
  · rw [h.outside hover]
    simp [hover, eq_comm]
  · rw [h.inside hover]
    simp [hover]

theorem map (h : Agrees run exact Overflows) (f : α → β) :
    Agrees (run.map f) (f exact) Overflows where
  inside hin := by
    rw [h.inside hin]
    rfl
  outside hover := by
    rw [h.outside hover]
    rfl

theorem congr (h : Agrees run exact Overflows) (hiff : Overflows ↔ Other) :
    Agrees run exact Other where
  inside hin := h.inside (mt hiff.mp hin)
  outside hover := h.outside (hiff.mpr hover)

end Agrees

theorem agrees_ok {α : Type} (a : α) : Agrees (.ok a) a False :=
  ⟨fun _ => rfl, False.elim⟩

namespace Address

variable {a b : Address}

theorem add?_of_le (h : 2 ^ 64 ≤ a.toNat + b.toNat) : a.add? b = none :=
  ofNat?_eq_none_iff.mpr h

theorem exists_ofNat?_of_lt {n : ℕ} (h : n < 2 ^ 64) : ∃ c : Address, ofNat? n = some c :=
  ⟨_, if_pos h⟩

/-- A sum that is an address is the same with or without a trap. -/
theorem advance_of_ofNat? {distance : ℕ} {c : Address}
    (h : ofNat? (a.toNat + distance) = some c) : a.advance distance = .ok c :=
  advance_eq_ok_iff.mpr (ofNat?_eq_some_iff.mp h)

end Address

/-! ## Searches -/

section Search

variable {α β : Type} {run : α → Except Trap (Option β)} {exact : α → Option β}
  {Overflows : α → Prop}

/-- A search comes to something with a sum that is no address, with nothing found before it. -/
def OverflowsFirst (exact : α → Option β) (Overflows : α → Prop) (l : List α) : Prop :=
  ∃ earlier x later, l = earlier ++ x :: later ∧
    (∀ y ∈ earlier, exact y = none ∧ ¬ Overflows y) ∧ Overflows x

theorem not_overflowsFirst_nil : ¬ OverflowsFirst exact Overflows [] := by
  rintro ⟨earlier, x, later, h, _⟩
  cases earlier <;> cases h

theorem overflowsFirst_cons_iff {x : α} {l : List α} :
    OverflowsFirst exact Overflows (x :: l) ↔
      Overflows x ∨ exact x = none ∧ ¬ Overflows x ∧ OverflowsFirst exact Overflows l := by
  constructor
  · rintro ⟨earlier, y, later, h, hearlier, hover⟩
    cases earlier with
    | nil =>
        obtain ⟨rfl, -⟩ := List.cons.inj h
        exact .inl hover
    | cons z earlier =>
        obtain ⟨rfl, rfl⟩ := List.cons.inj h
        obtain ⟨⟨hnone, hin⟩, hrest⟩ := List.forall_mem_cons.mp hearlier
        exact .inr ⟨hnone, hin, earlier, y, later, rfl, hrest, hover⟩
  · rintro (hover | ⟨hnone, hin, earlier, y, later, rfl, hearlier, hover⟩)
    · exact ⟨[], x, l, rfl, fun y hy => absurd hy List.not_mem_nil, hover⟩
    · exact ⟨x :: earlier, y, later, rfl, List.forall_mem_cons.mpr ⟨⟨hnone, hin⟩, hearlier⟩, hover⟩

/-- A search for the first thing found is exact up to where it takes a sum that is no address. -/
theorem agrees_findSomeM? (h : ∀ x, Agrees (run x) (exact x) (Overflows x)) (l : List α) :
    Agrees (l.findSomeM? run) (l.findSome? exact) (OverflowsFirst exact Overflows l) := by
  induction l with
  | nil => exact (agrees_ok none).congr (iff_of_false id not_overflowsFirst_nil)
  | cons x l ih =>
      rw [List.findSomeM?, List.findSome?_cons]
      by_cases hover : Overflows x
      · refine ⟨fun hin => (hin (overflowsFirst_cons_iff.mpr (.inl hover))).elim, fun _ => ?_⟩
        rw [(h x).outside hover]
        rfl
      · rw [(h x).inside hover, ok_bind]
        cases hx : exact x with
        | some b =>
            refine (agrees_ok (some b)).congr (iff_of_false id ?_)
            rw [overflowsFirst_cons_iff, hx]
            simp [hover]
        | none =>
            refine ih.congr ?_
            rw [overflowsFirst_cons_iff, hx]
            simp [hover]

theorem findSomeM?_append {f : α → Except Trap (Option β)} (l l' : List α) :
    (l ++ l').findSomeM? f = l.findSomeM? f >>= fun found =>
      match found with
      | some b => .ok (some b)
      | none => l'.findSomeM? f := by
  induction l with
  | nil => rfl
  | cons x l ih =>
      rw [List.cons_append, List.findSomeM?, List.findSomeM?, ih, bind_assoc]
      congr 1
      funext found
      cases found <;> rfl

/-- A search through lists goes through all that they hold. -/
theorem findSomeM?_flatMap {γ : Type} {f : β → Except Trap (Option γ)} (g : α → List β)
    (l : List α) : (l.flatMap g).findSomeM? f = l.findSomeM? fun x => (g x).findSomeM? f := by
  induction l with
  | nil => rfl
  | cons x l ih =>
      rw [List.flatMap_cons, findSomeM?_append, ih, List.findSomeM?]
      rfl

theorem findSomeM?_map {γ : Type} {f : β → Except Trap (Option γ)} (g : α → β) (l : List α) :
    (l.map g).findSomeM? f = l.findSomeM? (f ∘ g) := by
  induction l with
  | nil => rfl
  | cons x l ih =>
      rw [List.map_cons, List.findSomeM?, List.findSomeM?, ih]
      rfl

end Search

end EngineNames
