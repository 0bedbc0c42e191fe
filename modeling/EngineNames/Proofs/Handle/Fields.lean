import EngineNames.Proofs.Address.Exact
import EngineNames.Resolver

/-! # The fields of name values

What is read of a name value stands at a distance from its address. By exact sums a field without an
address cannot be read, and the handle leads nowhere. The reading itself stops there, at the index
in any case and at the number once the index is read.
-/

namespace EngineNames.HandleLayout

/-- The comparison index and the number of a handle, by exact sums. -/
def exactRead? (layout : HandleLayout) (m : Memory) : Handle → Option (UInt32 × UInt32)
  | .index comparison number =>
      some (comparison, if layout.number.isSome then number.getD 0 else 0)
  | .address a => do
      if a = 0 then none
      else
        let place ← Address.ofNat? (a.toNat + layout.comparisonIndex)
        let index ← (m.readUInt32 place).toOption
        match layout.number with
        | some offset =>
            let place ← Address.ofNat? (a.toNat + offset)
            some (index, ← (m.readUInt32 place).toOption)
        | none => some (index, 0)

/-- A field that is read of a handle has no address. -/
inductive Overflows (layout : HandleLayout) (m : Memory) : Handle → Prop where
  | index {a : Address} (h0 : a ≠ 0) (hout : 2 ^ 64 ≤ a.toNat + layout.comparisonIndex) :
      Overflows layout m (.address a)
  | number {a place : Address} {index : UInt32} {offset : ℕ} (h0 : a ≠ 0)
      (hplace : a.toNat + layout.comparisonIndex = place.toNat)
      (hread : m.readUInt32 place = .ok index) (hoffset : layout.number = some offset)
      (hout : 2 ^ 64 ≤ a.toNat + offset) : Overflows layout m (.address a)

variable {layout : HandleLayout} {m : Memory} {a : Address} {h : Handle}

theorem not_overflows_null : ¬ layout.Overflows m (.address 0) := by
  rintro (⟨h0, -⟩ | ⟨h0, -, -, -, -⟩) <;> exact h0 rfl

/-- One field is read, and what follows depends on its value. -/
theorem agrees_field {β : Type} (a : Address) (offset : ℕ)
    {run : UInt32 → Except Trap (Option β)} {exact : UInt32 → Option β} {Later : UInt32 → Prop}
    (h : ∀ word, Agrees (run word) (exact word) (Later word)) :
    Agrees
      (a.advance offset >>= fun place =>
        match m.readUInt32 place with
        | .error _ => .ok none
        | .ok word => run word)
      ((Address.ofNat? (a.toNat + offset)).bind fun place =>
        (m.readUInt32 place).toOption.bind exact)
      (2 ^ 64 ≤ a.toNat + offset ∨ ∃ place word, a.toNat + offset = place.toNat ∧
        m.readUInt32 place = .ok word ∧ Later word) := by
  cases hplace : Address.ofNat? (a.toNat + offset) with
  | none =>
      have hout := Address.ofNat?_eq_none_iff.mp hplace
      refine ⟨fun hin => (hin (.inl hout)).elim, fun _ => ?_⟩
      rw [Address.advance_of_le hout, error_bind]
  | some place =>
      have hsum := Address.ofNat?_eq_some_iff.mp hplace
      have hlt : ¬ 2 ^ 64 ≤ place.toNat := Nat.not_le.mpr place.toNat_lt
      rw [Address.advance_of_ofNat? hplace, ok_bind, Option.bind_some, hsum]
      cases hread : m.readUInt32 place with
      | error e =>
          refine (agrees_ok none).congr (iff_of_false id ?_)
          rintro (hout | ⟨other, word, hsame, hword, -⟩)
          · exact hlt hout
          · obtain rfl := UInt64.toNat_inj.mp hsame
            cases hread.symm.trans hword
      | ok word =>
          refine (h word).congr ⟨fun hlater => .inr ⟨place, word, rfl, hread, hlater⟩, ?_⟩
          rintro (hout | ⟨other, found, hsame, hfound, hlater⟩)
          · exact absurd hout hlt
          · obtain rfl := UInt64.toNat_inj.mp hsame
            obtain rfl := Except.ok.inj (hread.symm.trans hfound)
            exact hlater

/-- The reading of a handle is exact, unless a field has no address. -/
theorem agrees_read? (layout : HandleLayout) (m : Memory) (h : Handle) :
    Agrees (layout.read? m h) (layout.exactRead? m h) (layout.Overflows m h) := by
  cases h with
  | index comparison number => exact (agrees_ok _).congr (iff_of_false id (by rintro ⟨⟩))
  | address a =>
      by_cases h0 : a = 0
      · subst h0
        exact (agrees_ok none).congr (iff_of_false id not_overflows_null)
      · rw [read?, exactRead?, if_neg h0, if_neg h0]
        cases hnumber : layout.number with
        | none =>
            refine (agrees_field a _ fun index => agrees_ok (some (index, 0))).congr ?_
            constructor
            · rintro (hout | ⟨_, _, _, _, hfalse⟩)
              · exact .index h0 hout
              · exact hfalse.elim
            · rintro (⟨-, hout⟩ | ⟨-, -, -, hoffset, -⟩)
              · exact .inl hout
              · cases hnumber.symm.trans hoffset
        | some offset =>
            refine (agrees_field a _ fun index => agrees_field a offset fun number =>
              agrees_ok (some (index, number))).congr ?_
            constructor
            · rintro (hout | ⟨place, index, hplace, hread, hout | ⟨_, _, _, _, hfalse⟩⟩)
              · exact .index h0 hout
              · exact .number h0 hplace hread hnumber hout
              · exact hfalse.elim
            · rintro (⟨-, hout⟩ | ⟨-, hplace, hread, hoffset, hout⟩)
              · exact .inl hout
              · obtain rfl := Option.some.inj (hnumber.symm.trans hoffset)
                exact .inr ⟨_, _, hplace, hread, .inl hout⟩

/-- Where a field has no address, the exact reading leads nowhere. -/
theorem Overflows.exactRead?_eq_none (hover : layout.Overflows m h) :
    layout.exactRead? m h = none := by
  cases hover with
  | index h0 hout =>
      have hplace := Address.ofNat?_eq_none_iff.mpr hout
      simp only [exactRead?, h0, if_false, hplace, Option.bind_eq_bind, Option.bind_none]
  | number h0 hplace hread hoffset hout =>
      have hnumber := Address.ofNat?_eq_none_iff.mpr hout
      simp only [exactRead?, h0, if_false, hoffset, hnumber, Option.bind_eq_bind, Option.bind_none,
        Option.bind_fun_none]

theorem field_lt_size (b : Build) : b.handleLayout.comparisonIndex < b.handleLayout.size ∧
    ∀ offset, b.handleLayout.number = some offset → offset < b.handleLayout.size := by
  unfold Build.handleLayout
  split <;> simp

/-- All fields have addresses where the value as a whole lies in the address space. -/
theorem not_overflows_of_le {b : Build} (hfit : a.toNat + b.handleLayout.size ≤ 2 ^ 64) :
    ¬ b.handleLayout.Overflows m (.address a) := by
  obtain ⟨hindex, hnumber⟩ := field_lt_size b
  rintro (⟨-, hout⟩ | ⟨-, -, -, hoffset, hout⟩)
  · omega
  · have hlt := hnumber _ hoffset
    omega

end EngineNames.HandleLayout
