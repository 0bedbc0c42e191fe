import EngineNames.Proofs.Address.Exact
import EngineNames.Proofs.NameTable.Pieces
import EngineNames.Proofs.Strategy.ThunkCalls
import EngineNames.Signature

/-! # Where occurrences lead

The rule of a signature adds two offsets to the address of an occurrence. By exact sums it leads to
a target or nowhere. The rule itself comes to the same, unless it takes a sum that is no address:
the first one in any case, and the second one once the operand is read.
-/

namespace EngineNames

theorem Address.add?_of_lt {a b : Address} (h : a.toNat + b.toNat < 2 ^ 64) :
    a.add? b = some (a + b) := by
  rw [add?_eq_some_iff, UInt64.toNat_add, Nat.mod_eq_of_lt h]

/-- A sum of two addresses that has to be one. -/
theorem Address.advance_toNat (a b : Address) : a.advance b.toNat =
    match a.add? b with
    | some c => .ok c
    | none => .error .overflow :=
  rfl

namespace Signature

/-- The address that an occurrence leads to by exact sums. -/
def exactTarget? (s : Signature) (m : Memory) (a : Address) : Option Address :=
  match s.operandOffset, s.instructionLength with
  | some offset, some length => do
      let distance ← (m.readInt32 (← a.add? offset)).toOption
      (← a.add? length).displace? distance
  | _, _ => some a

/-- By exact sums an occurrence leads to a target: to itself, or to the end of its instruction
displaced by the operand. -/
inductive LeadsTo (s : Signature) (m : Memory) (a : Address) : Address → Prop where
  | itself (h : s.operandOffset = none ∨ s.instructionLength = none) : LeadsTo s m a a
  | displaced {offset length place distance target} (hoffset : s.operandOffset = some offset)
      (hlength : s.instructionLength = some length)
      (hplace : a.toNat + offset.toNat = place.toNat) (hread : m.readInt32 place = .ok distance)
      (hstop : a.toNat + length.toNat < 2 ^ 64)
      (htarget : ((a.toNat + length.toNat : ℕ) : ℤ) + distance = target.toNat) :
      LeadsTo s m a target

/-- A sum that is taken for an occurrence is no address. -/
inductive Overflows (s : Signature) (m : Memory) (a : Address) : Prop where
  | operand {offset length} (hoffset : s.operandOffset = some offset)
      (hlength : s.instructionLength = some length) (hout : 2 ^ 64 ≤ a.toNat + offset.toNat) :
      Overflows s m a
  | stop {offset length place distance} (hoffset : s.operandOffset = some offset)
      (hlength : s.instructionLength = some length)
      (hplace : a.toNat + offset.toNat = place.toNat) (hread : m.readInt32 place = .ok distance)
      (hout : 2 ^ 64 ≤ a.toNat + length.toNat) : Overflows s m a

variable {s : Signature} {m : Memory} {a t : Address}

theorem exactTarget?_eq_some_iff : s.exactTarget? m a = some t ↔ s.LeadsTo m a t := by
  unfold exactTarget?
  constructor
  · intro h
    cases hoffset : s.operandOffset with
    | none =>
        rw [hoffset] at h
        obtain rfl := Option.some.inj h
        exact .itself (.inl hoffset)
    | some offset =>
        cases hlength : s.instructionLength with
        | none =>
            rw [hoffset, hlength] at h
            obtain rfl := Option.some.inj h
            exact .itself (.inr hlength)
        | some length =>
            rw [hoffset, hlength] at h
            simp only [Option.bind_eq_bind, Option.bind_eq_some_iff] at h
            obtain ⟨place, hplace, distance, hread, stop, hstop, htarget⟩ := h
            rw [Address.add?_eq_some_iff] at hplace hstop
            rw [Address.displace?_eq_some_iff, ← hstop] at htarget
            exact .displaced hoffset hlength hplace (eq_ok_of_toOption hread)
              (hstop ▸ stop.toNat_lt) htarget
  · rintro (h | ⟨hoffset, hlength, hplace, hread, hstop, htarget⟩)
    · rcases h with h | h
      · rw [h]
      · rw [h]
        cases s.operandOffset <;> rfl
    · have hend := Address.add?_of_lt hstop
      rw [Address.add?_eq_some_iff] at hend
      rw [hend, ← Address.displace?_eq_some_iff] at htarget
      rw [hoffset, hlength]
      simp only [Address.add?_eq_some_iff.mpr hplace, Address.add?_of_lt hstop, hread,
        Except.toOption, Option.bind_eq_bind, Option.bind_some, htarget]

/-- Where a sum is no address, the exact rule leads nowhere. -/
theorem Overflows.exactTarget?_eq_none (h : s.Overflows m a) : s.exactTarget? m a = none := by
  cases h with
  | operand hoffset hlength hout =>
      simp only [exactTarget?, hoffset, hlength, Address.add?_of_le hout, Option.bind_eq_bind,
        Option.bind_none]
  | stop hoffset hlength hplace hread hout =>
      simp only [exactTarget?, hoffset, hlength, Address.add?_of_le hout, Option.bind_eq_bind,
        Option.bind_none, Option.bind_fun_none]

/-- The targets of direct occurrences take no sums. -/
theorem not_overflows_of_direct (h : s.operandOffset = none ∨ s.instructionLength = none) :
    ¬ s.Overflows m a := by
  rintro (⟨hoffset, hlength, -⟩ | ⟨hoffset, hlength, -, -, -⟩)
  · rw [hoffset, hlength] at h
    simp at h
  · rw [hoffset, hlength] at h
    simp at h

theorem overflows_iff {offset length : UInt64} (hoffset : s.operandOffset = some offset)
    (hlength : s.instructionLength = some length) : s.Overflows m a ↔
      2 ^ 64 ≤ a.toNat + offset.toNat ∨ 2 ^ 64 ≤ a.toNat + length.toNat ∧
        ∃ place distance, a.toNat + offset.toNat = place.toNat ∧
          m.readInt32 place = .ok distance := by
  constructor
  · rintro (⟨ho, hl, hout⟩ | ⟨ho, hl, hplace, hread, hout⟩)
    all_goals obtain rfl := Option.some.inj (hoffset.symm.trans ho)
    all_goals obtain rfl := Option.some.inj (hlength.symm.trans hl)
    · exact .inl hout
    · exact .inr ⟨hout, _, _, hplace, hread⟩
  · rintro (hout | ⟨hout, place, distance, hplace, hread⟩)
    · exact .operand hoffset hlength hout
    · exact .stop hoffset hlength hplace hread hout

/-- The rule of a signature is exact, unless it takes a sum that is no address. -/
theorem agrees_target? (s : Signature) (m : Memory) (a : Address) :
    Agrees (s.target? m a) (s.exactTarget? m a) (s.Overflows m a) := by
  unfold target? exactTarget?
  cases hoffset : s.operandOffset with
  | none =>
      exact (agrees_ok (some a)).congr (iff_of_false id (not_overflows_of_direct (.inl hoffset)))
  | some offset =>
      cases hlength : s.instructionLength with
      | none =>
          exact (agrees_ok (some a)).congr
            (iff_of_false id (not_overflows_of_direct (.inr hlength)))
      | some length =>
          refine Agrees.congr ?_ (overflows_iff hoffset hlength).symm
          simp only [Address.advance_toNat]
          cases hplace : a.add? offset with
          | none =>
              have hout := Address.ofNat?_eq_none_iff.mp hplace
              exact ⟨fun hin => (hin (.inl hout)).elim, fun _ => rfl⟩
          | some place =>
              have hsum := Address.add?_eq_some_iff.mp hplace
              have hlt : ¬ 2 ^ 64 ≤ place.toNat := Nat.not_le.mpr place.toNat_lt
              simp only [hsum, hlt, false_or, UInt64.toNat_inj, exists_and_left,
                exists_eq_left', ok_bind, Option.bind_eq_bind, Option.bind_some]
              cases hread : m.readInt32 place with
              | error e =>
                  refine (agrees_ok none).congr (iff_of_false id ?_)
                  rintro ⟨-, distance, hok⟩
                  cases hok
              | ok distance =>
                  cases hstop : a.add? length with
                  | none =>
                      have hout := Address.ofNat?_eq_none_iff.mp hstop
                      exact ⟨fun hin => (hin ⟨hout, distance, rfl⟩).elim, fun _ => rfl⟩
                  | some stop =>
                      have hend := Address.add?_eq_some_iff.mp hstop
                      refine (agrees_ok _).congr (iff_of_false id fun hout => ?_)
                      exact Nat.not_le.mpr (hend ▸ stop.toNat_lt) hout.1

end Signature

end EngineNames
