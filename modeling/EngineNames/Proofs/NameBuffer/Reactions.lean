import EngineNames.Call
import EngineNames.Proofs.NameBuffer.Foreign

/-! # Reactions to a buffer

A name function that is called with a buffer may write to the storage, assign the counts and replace
the pointer. What is then read from the buffer is free of what was there before the call if the
function itself wrote all that it counts.
-/

namespace EngineNames

/-! ## Written units -/

/-- Every unit before the count is written, unless a null is written before it. -/
def Covers (writes : ℕ → Option UInt16) (count : ℕ) : Prop :=
  ∀ i < count, (∀ j < i, writes j ≠ some 0) → (writes i).isSome = true

theorem covers_succ_iff {writes : ℕ → Option UInt16} {count : ℕ} :
    Covers writes (count + 1) ↔
      ∃ unit, writes 0 = some unit ∧ (unit ≠ 0 → Covers (fun i => writes (i + 1)) count) := by
  constructor
  · intro h
    obtain ⟨unit, hunit⟩ := Option.isSome_iff_exists.mp
      (h 0 (Nat.succ_pos count) fun j hj => absurd hj (Nat.not_lt_zero j))
    refine ⟨unit, hunit, fun hne i hi hbefore => h (i + 1) (Nat.succ_lt_succ hi) ?_⟩
    intro j hj
    cases j with
    | zero => simpa only [hunit, ne_eq, Option.some.injEq] using hne
    | succ j => exact hbefore j (Nat.lt_of_succ_lt_succ hj)
  · rintro ⟨unit, hunit, h⟩ i hi hbefore
    cases i with
    | zero => rw [hunit, Option.isSome_some]
    | succ i =>
        have hne : unit ≠ 0 := by
          simpa only [hunit, ne_eq, Option.some.injEq] using hbefore 0 (Nat.succ_pos i)
        exact h hne i (Nat.lt_of_succ_lt_succ hi) fun j hj => hbefore (j + 1) (Nat.succ_lt_succ hj)

theorem overlay_cons (writes : ℕ → Option UInt16) (unit : UInt16) (storage : List UInt16) :
    overlay writes (unit :: storage) =
      (writes 0).getD unit :: overlay (fun i => writes (i + 1)) storage :=
  List.mapIdx_cons

theorem overlay_getElem? {storage other : List UInt16} (h : other.length = storage.length) :
    overlay (storage[·]?) other = storage := by
  induction storage generalizing other with
  | nil =>
      rw [List.length_eq_zero_iff.mp h]
      rfl
  | cons unit storage ih =>
      cases other with
      | nil => cases h
      | cons first other =>
          rw [overlay_cons]
          exact congrArg (unit :: ·) (ih (Nat.succ.inj h))

/-- What is read of storage, when so many units are in use. -/
def inUse (count : ℕ) (storage : List UInt16) : List UInt16 :=
  (storage.take count).takeWhile (· != 0)

theorem inUse_zero (storage : List UInt16) : inUse 0 storage = [] :=
  rfl

theorem inUse_null (count : ℕ) (storage : List UInt16) : inUse (count + 1) (0 :: storage) = [] :=
  rfl

theorem inUse_cons {unit : UInt16} (h : unit ≠ 0) (count : ℕ) (storage : List UInt16) :
    inUse (count + 1) (unit :: storage) = unit :: inUse count storage := by
  rw [inUse, List.take_succ_cons, List.takeWhile_cons_of_pos (by simpa using h), inUse]

theorem inUse_overlay_eq {writes : ℕ → Option UInt16} {xs ys : List UInt16} {count : ℕ}
    (hlength : xs.length = ys.length) (h : Covers writes count) :
    inUse count (overlay writes xs) = inUse count (overlay writes ys) := by
  induction xs generalizing ys count writes with
  | nil => rw [List.length_eq_zero_iff.mp hlength.symm]
  | cons x xs ih =>
      cases ys with
      | nil => cases hlength
      | cons y ys =>
          cases count with
          | zero => rw [inUse_zero, inUse_zero]
          | succ count =>
              obtain ⟨unit, hunit, hrest⟩ := covers_succ_iff.mp h
              rw [overlay_cons, overlay_cons, hunit, Option.getD_some, Option.getD_some]
              by_cases hnull : unit = 0
              · rw [hnull, inUse_null, inUse_null]
              · rw [inUse_cons hnull, inUse_cons hnull, ih (Nat.succ.inj hlength) (hrest hnull)]

/-- If units over zeros are read as they are over ones, no unit that is read was there before. -/
theorem covers_of_inUse_overlay_eq {writes : ℕ → Option UInt16} {length count : ℕ}
    (hle : count ≤ length) (h : inUse count (overlay writes (List.replicate length 0)) =
      inUse count (overlay writes (List.replicate length 1))) : Covers writes count := by
  induction length generalizing count writes with
  | zero =>
      intro i hi
      exact absurd (Nat.lt_of_lt_of_le hi hle) (Nat.not_lt_zero i)
  | succ length ih =>
      cases count with
      | zero =>
          intro i hi
          exact absurd hi (Nat.not_lt_zero i)
      | succ count =>
          rw [List.replicate_succ, List.replicate_succ, overlay_cons, overlay_cons] at h
          rw [covers_succ_iff]
          cases hunit : writes 0 with
          | none =>
              -- What is left over shows: the reading of zeros ends here, that of ones goes on.
              rw [hunit, Option.getD_none, Option.getD_none, inUse_null,
                inUse_cons (by decide)] at h
              cases h
          | some unit =>
              refine ⟨unit, rfl, fun hne => ih (Nat.le_of_succ_le_succ hle) ?_⟩
              rw [hunit, Option.getD_some, Option.getD_some, inUse_cons hne, inUse_cons hne] at h
              exact (List.cons.inj h).2

/-! ## Reactions -/

/-- What a name function sees of a buffer. -/
structure Header where
  data : Storage
  num : Int32
  max : Int32
deriving DecidableEq

def NameBuffer.header (b : NameBuffer) : Header :=
  ⟨b.data, b.num, b.max⟩

/-- What a name function does with a buffer that it is given, and whether the call succeeds. -/
structure Reaction where
  writes : ℕ → Option UInt16
  header : Header
  result : Except ProcessError Unit

namespace Reaction

def applyTo (ρ : Reaction) (b : NameBuffer) : NameBuffer :=
  { b.scribble ρ.writes ρ.header.num ρ.header.max with data := ρ.header.data }

/-- Nothing is done to the buffer, and the call fails. -/
def refusal (header : Header) (e : ProcessError) : Reaction :=
  ⟨fun _ => none, header, .error e⟩

/-- The name that is read from the buffer after the call. -/
def read? (ρ : Reaction) (b : NameBuffer) : Except Trap (Option (List UInt16)) :=
  match ρ.result with
  | .ok () => (ρ.applyTo b).wide.map some
  | .error _ => .ok none

/-- How many units a buffer of ours has in use after the call. -/
def counted (ρ : Reaction) : ℕ :=
  min ρ.header.num.toInt.toNat ρ.header.max.toInt.toNat

/-- As many units as are counted are there, in storage of `c` units or wherever else the pointer
leads. -/
def InStorage (ρ : Reaction) (c : ℕ) : Prop :=
  match ρ.header.data with
  | .null => True
  | .allocation => ρ.counted ≤ c
  | .foreign units => ρ.counted ≤ units.length

/-- A name in storage of `c` units consists of units that the function wrote. -/
def SelfContained (ρ : Reaction) (c : ℕ) : Prop :=
  ρ.result = .ok () →
    ρ.InStorage c ∧ (ρ.header.data = .allocation → Covers ρ.writes ρ.counted)

variable {ρ : Reaction} {b : NameBuffer} {storage : List UInt16}

theorem allocation_applyTo (h : b.Owns storage) :
    (ρ.applyTo b).allocation = some (overlay ρ.writes storage) :=
  (h.scribble ρ.writes ρ.header.num ρ.header.max).allocation

theorem owns_applyTo (h : b.Owns storage) (hdata : ρ.header.data = .allocation) :
    (ρ.applyTo b).Owns (overlay ρ.writes storage) :=
  ⟨h.owner, hdata, allocation_applyTo h⟩

theorem len_applyTo (h : b.owner = .tool) : (ρ.applyTo b).len = ρ.counted := by
  have howner : (ρ.applyTo b).owner = .tool := h
  rw [NameBuffer.len, howner]
  rfl

/-- What is read goes by the header: the units that it counts, if there are so many. -/
theorem wide_applyTo (h : b.Owns storage) : (ρ.applyTo b).wide =
    match ρ.header.data with
    | .null => .ok []
    | .allocation =>
        if ρ.counted ≤ storage.length then .ok (inUse ρ.counted (overlay ρ.writes storage))
        else .error .outOfBounds
    | .foreign units =>
        if ρ.counted ≤ units.length then .ok (inUse ρ.counted units) else .error .outOfBounds := by
  have hdata : (ρ.applyTo b).data = ρ.header.data := rfl
  rw [NameBuffer.wide, NameBuffer.units?, hdata, len_applyTo h.owner]
  cases ρ.header.data with
  | null => rfl
  | allocation =>
      rw [allocation_applyTo h, ← length_overlay ρ.writes storage]
      rfl
  | foreign units => rfl

/-- A reading gets beyond the storage if there are fewer units than the header counts. -/
theorem read?_eq_error_iff (h : b.Owns storage) {t : Trap} : ρ.read? b = .error t ↔
    t = .outOfBounds ∧ ρ.result = .ok () ∧ ¬ρ.InStorage storage.length := by
  unfold read? InStorage
  cases ρ.result with
  | error e => simp
  | ok done =>
      simp only [map_eq_error_iff, wide_applyTo h]
      cases ρ.header.data with
      | null => simp
      | allocation => by_cases hle : ρ.counted ≤ storage.length <;> simp [hle, eq_comm]
      | foreign units => by_cases hle : ρ.counted ≤ units.length <;> simp [hle, eq_comm]

theorem exists_read?_iff (h : b.Owns storage) : (∃ units, ρ.read? b = .ok units) ↔
    (ρ.result = .ok () → ρ.InStorage storage.length) := by
  have hiff : ∀ t, ρ.read? b = .error t ↔
      t = .outOfBounds ∧ ρ.result = .ok () ∧ ¬ρ.InStorage storage.length :=
    fun t => read?_eq_error_iff h
  cases hread : ρ.read? b with
  | ok units =>
      have hnone := (hiff .outOfBounds).not.mp (by rw [hread]; intro hcontra; cases hcontra)
      refine iff_of_true ⟨units, rfl⟩ fun hok => ?_
      by_contra hout
      exact hnone ⟨rfl, hok, hout⟩
  | error t =>
      obtain ⟨-, hok, hout⟩ := (hiff t).mp hread
      refine iff_of_false ?_ fun hin => hout (hin hok)
      rintro ⟨units, hcontra⟩
      cases hcontra

/-- What is written first is read first. -/
theorem exists_read?_eq_cons {unit : UInt16} (h : b.Owns storage) (hok : ρ.result = .ok ())
    (hdata : ρ.header.data = .allocation) (hle : ρ.counted ≤ storage.length) (hpos : 0 < ρ.counted)
    (hunit : ρ.writes 0 = some unit) (hne : unit ≠ 0) :
    ∃ rest, ρ.read? b = .ok (some (unit :: rest)) := by
  obtain ⟨first, others, rfl⟩ := List.exists_cons_of_length_pos (Nat.lt_of_lt_of_le hpos hle)
  obtain ⟨count, hcount⟩ := Nat.exists_eq_succ_of_ne_zero (Nat.ne_of_gt hpos)
  rw [hcount] at hle
  refine ⟨inUse count (overlay (fun i => ρ.writes (i + 1)) others), ?_⟩
  simp only [read?, hok, wide_applyTo h, hdata, if_pos hle, hcount, Nat.succ_eq_add_one,
    overlay_cons, hunit, Option.getD_some, inUse_cons hne]
  rfl

theorem read?_eq {b' : NameBuffer} {storage' : List UInt16} (h : b.Owns storage)
    (h' : b'.Owns storage') (hlength : storage.length = storage'.length)
    (hρ : ρ.SelfContained storage.length) : ρ.read? b = ρ.read? b' := by
  unfold read?
  cases hresult : ρ.result with
  | error e => rfl
  | ok done =>
      obtain ⟨-, hcovers⟩ := hρ hresult
      rw [wide_applyTo h, wide_applyTo h', ← hlength]
      cases hdata : ρ.header.data with
      | null => rfl
      | allocation =>
          have hsame := inUse_overlay_eq hlength (hcovers hdata)
          simp only [hsame]
      | foreign units => rfl

/-- Between zeros and ones every unit shows that was there before. -/
theorem selfContained_of_read?_eq {b' : NameBuffer} {c : ℕ} {units : Option (List UInt16)}
    (h : b.Owns (List.replicate c 0)) (h' : b'.Owns (List.replicate c 1))
    (hread : ρ.read? b = .ok units) (hread' : ρ.read? b' = .ok units) : ρ.SelfContained c := by
  have hin := (exists_read?_iff h).mp ⟨units, hread⟩
  rw [List.length_replicate] at hin
  intro hok
  refine ⟨hin hok, fun hdata => ?_⟩
  have hle : ρ.counted ≤ c := by
    have hin := hin hok
    rwa [InStorage, hdata] at hin
  have heq := hread.trans hread'.symm
  simp only [read?, hok, wide_applyTo h, wide_applyTo h', hdata, List.length_replicate,
    if_pos hle, Except.map, Except.ok.injEq, Option.some.injEq] at heq
  exact covers_of_inUse_overlay_eq hle heq

end Reaction

end EngineNames
