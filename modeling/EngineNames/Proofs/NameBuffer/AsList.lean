import EngineNames.Proofs.NameBuffer.Bounds
import Mathlib.Algebra.Group.Nat.Defs
import Mathlib.Data.List.TakeWhile

/-! # Buffers as lists

To its owner a buffer is a list of units with a limit on its length. Appended units go where the
first null stands and not behind all units in use, so neither a null among the units of an earlier
append nor what the storage still holds from before a reset is ever read.
-/

namespace EngineNames.NameBuffer

/-- The units before the first null. -/
def beforeNull (units : List UInt16) : List UInt16 :=
  units.takeWhile (· != 0)

/-- What its owner may do with a buffer. -/
inductive Edit where
  | append (units : List UInt16)
  | reset

/-- Whether a buffer takes an edit, and the buffer after it. -/
def edit (b : NameBuffer) : Edit → Except Trap (Bool × NameBuffer)
  | .append units => do
      let next ← b.append? units
      return (next.isSome, next.getD b)
  | .reset => .ok (true, b.reset)

/-- The same for a list that has room for `c` units, a null behind it included. -/
def Edit.ofList (c : ℕ) (w : List UInt16) : Edit → Bool × List UInt16
  | .append units =>
      if w.length + units.length + 1 ≤ c then (true, w ++ beforeNull units) else (false, w)
  | .reset => (true, [])

def afterEdits (b : NameBuffer) (edits : List Edit) : Except Trap NameBuffer :=
  edits.foldlM (fun b e => Prod.snd <$> b.edit e) b

def listAfter (c : ℕ) (w : List UInt16) (edits : List Edit) : List UInt16 :=
  edits.foldl (fun w e => (e.ofList c w).2) w

/-- A buffer of ours with all its storage reserved, which reads as this list. -/
structure Lists (b : NameBuffer) (c : ℕ) (w : List UInt16) : Prop where
  storage : ∃ storage, b.Owns storage ∧ storage.length = c
  capacity : b.capacity = c
  wide : b.wide = .ok w

/-- No append is taken, and none changes anything. -/
def RefusesAppends (b : NameBuffer) : Prop :=
  ∀ units, b.edit (.append units) = .ok (false, b)

/-! ## Reading after an append -/

section Append

variable {b : NameBuffer} {storage units w : List UInt16}

theorem capacity_lt (b : NameBuffer) : b.capacity < 2 ^ 31 := by
  have h := b.max.toInt_lt
  unfold capacity
  omega

theorem beforeNull_append_null (units : List UInt16) :
    beforeNull (units ++ [0]) = beforeNull units := by
  induction units with
  | nil => rfl
  | cons unit units ih =>
      by_cases hnull : unit = 0
      · simp [beforeNull, hnull]
      · simpa [beforeNull, hnull] using ih

theorem beforeNull_append_of_read (h : beforeNull w = w) (units : List UInt16) :
    beforeNull (w ++ units) = w ++ beforeNull units := by
  apply List.takeWhile_append_of_pos
  rwa [beforeNull, List.takeWhile_eq_self_iff] at h

theorem Owns.beforeNull_of_wide (h : b.Owns storage) (hw : b.wide = .ok w) :
    beforeNull w = w := by
  obtain ⟨-, rfl⟩ := h.wide_eq_ok_iff.mp hw
  exact List.takeWhile_idem

/-- What is read stands at the start of the storage. -/
theorem Owns.take_of_wide (h : b.Owns storage) (hw : b.wide = .ok w) :
    storage.take w.length = w := by
  have hprefix : w <+: storage := by
    obtain ⟨-, rfl⟩ := h.wide_eq_ok_iff.mp hw
    exact (List.takeWhile_prefix _).trans (List.take_prefix _ _)
  exact (List.prefix_iff_eq_take.mp hprefix).symm

/-- The null that is appended is counted, and so are the units behind an earlier one. -/
theorem Owns.len_appended (h : b.Owns storage)
    (hcapacity : w.length + units.length + 1 ≤ b.capacity) :
    (b.appended storage w units).len = w.length + units.length + 1 := by
  have hlt : w.length + units.length + 1 < 2 ^ 31 := Nat.lt_of_le_of_lt hcapacity b.capacity_lt
  have hnum : (b.appended storage w units).num.toInt.toNat = w.length + units.length + 1 := by
    rw [NameBuffer.appended, Int32.toInt_ofNat_of_lt hlt, Int.toNat_natCast]
  rw [(h.appended w units).len_eq, hnum]
  exact Nat.min_eq_left hcapacity

theorem Owns.wide_appended (h : b.Owns storage) (hw : b.wide = .ok w)
    (hcapacity : w.length + units.length + 1 ≤ b.capacity)
    (hstorage : w.length + units.length + 1 ≤ storage.length) :
    (b.appended storage w units).wide = .ok (w ++ beforeNull units) := by
  have hwritten : (w ++ (units ++ [0])).length = w.length + units.length + 1 := by
    simp only [List.length_append, List.length_singleton, Nat.add_assoc]
  rw [(h.appended w units).wide_eq_ok_iff, h.len_appended hcapacity]
  refine ⟨Nat.le_trans hstorage (Nat.le_of_eq (length_appended hstorage).symm), ?_⟩
  change beforeNull _ = _
  calc beforeNull ((storage.take w.length ++ (units ++ [0]) ++
          storage.drop (w.length + units.length + 1)).take (w.length + units.length + 1))
      = beforeNull (w ++ (units ++ [0])) := by rw [h.take_of_wide hw, List.take_left' hwritten]
    _ = w ++ beforeNull units := by
        rw [beforeNull_append_of_read (h.beforeNull_of_wide hw), beforeNull_append_null]

/-- A string of the target that counts its units and one null reads as the units. -/
theorem wide_ofTarget {rest : List UInt16} {num max : Int32} (h : num.toInt = units.length + 1) :
    (ofTarget (some (units ++ 0 :: rest)) num max).wide = .ok (beforeNull units) := by
  have hlen : (ofTarget (some (units ++ 0 :: rest)) num max).len = (units ++ [0]).length := by
    simp only [len, ofTarget, h, List.length_append, List.length_singleton]
    omega
  have hsplit : units ++ 0 :: rest = (units ++ [0]) ++ rest := by simp
  have hstorage : (units ++ [0]).length ≤ (units ++ 0 :: rest).length := by
    rw [hsplit]
    exact (List.prefix_append _ _).length_le
  calc (ofTarget (some (units ++ 0 :: rest)) num max).wide
      = .ok (beforeNull ((units ++ 0 :: rest).take (units ++ [0]).length)) := by
        rw [wide, hlen]
        exact if_pos hstorage
    _ = .ok (beforeNull (units ++ [0])) := by rw [hsplit, List.take_left]
    _ = .ok (beforeNull units) := by rw [beforeNull_append_null]

end Append

/-! ## One edit -/

namespace Lists

variable {b : NameBuffer} {c : ℕ} {w : List UInt16}

theorem withCapacity (hpos : 0 < c) (hmax : c ≤ maxCapacity) : (withCapacity c).Lists c [] := by
  have howns := owns_withCapacity hpos hmax
  have hnum : (NameBuffer.withCapacity c).num = 0 := by
    unfold NameBuffer.withCapacity
    split <;> rfl
  have hlen : (NameBuffer.withCapacity c).len = 0 := by
    rw [howns.len_eq, hnum]
    exact Nat.zero_min _
  refine ⟨⟨_, howns, List.length_replicate⟩, capacity_withCapacity hpos hmax, ?_⟩
  rw [howns.wide_eq_ok_iff, hlen]
  exact ⟨Nat.zero_le _, rfl⟩

theorem reset (h : b.Lists c w) : b.reset.Lists c [] := by
  obtain ⟨storage, howns, hlength⟩ := h.storage
  exact ⟨⟨storage, howns.reset, hlength⟩, h.capacity, wide_reset b⟩

theorem append?_of_full {units : List UInt16} (h : b.Lists c w)
    (hfull : c < w.length + units.length + 1) : b.append? units = .ok none := by
  obtain ⟨storage, howns, -⟩ := h.storage
  rw [howns.append?_eq h.wide, h.capacity, if_neg (Nat.not_le.mpr hfull)]

theorem append?_of_fits {units : List UInt16} (h : b.Lists c w)
    (hfits : w.length + units.length + 1 ≤ c) :
    ∃ next, b.append? units = .ok (some next) ∧ next.Lists c (w ++ beforeNull units) := by
  obtain ⟨storage, howns, hlength⟩ := h.storage
  have hstorage : w.length + units.length + 1 ≤ storage.length := hlength.symm ▸ hfits
  have hcapacity : w.length + units.length + 1 ≤ b.capacity := h.capacity.symm ▸ hfits
  refine ⟨b.appended storage w units, ?_, ⟨_, howns.appended w units, ?_⟩, h.capacity, ?_⟩
  · rw [howns.append?_eq h.wide, if_pos hcapacity, if_pos hstorage]
  · rw [length_appended hstorage, hlength]
  · exact howns.wide_appended h.wide hcapacity hstorage

/-- Writing units and a null into an empty buffer is appending the units. -/
theorem append?_of_empty {units : List UInt16} (h : b.Lists c []) (hfits : units.length + 1 ≤ c) :
    ∃ written, b.poke 0 (units ++ [0]) = .ok written ∧
      { written with num := .ofNat (units.length + 1) }.Lists c (beforeNull units) := by
  have hcount : ([] : List UInt16).length + units.length + 1 = units.length + 1 := by simp
  obtain ⟨next, ha, hnext⟩ := h.append?_of_fits (hcount.symm ▸ hfits)
  obtain ⟨storage, howns, -⟩ := h.storage
  simp only [NameBuffer.append?, howns.isWritable, if_true, h.wide, ok_bind, h.capacity,
    List.length_nil, Nat.zero_add, if_pos hfits] at ha
  obtain ⟨written, hwritten, hsame⟩ := bind_eq_ok_iff.mp ha
  obtain rfl := Option.some.inj (Except.ok.inj hsame)
  exact ⟨written, hwritten, hnext⟩

/-- The buffer and the list give the same answer and stay together. A buffer that takes no units is
left as it was. -/
theorem edit (h : b.Lists c w) (e : Edit) : ∃ next, b.edit e = .ok ((e.ofList c w).1, next) ∧
    next.Lists c (e.ofList c w).2 ∧ ((e.ofList c w).1 = false → next = b) := by
  cases e with
  | reset => exact ⟨_, rfl, h.reset, fun hrefused => by cases hrefused⟩
  | append units =>
      simp only [NameBuffer.edit, Edit.ofList]
      by_cases hfits : w.length + units.length + 1 ≤ c
      · obtain ⟨next, ha, hnext⟩ := h.append?_of_fits hfits
        rw [if_pos hfits, ha]
        exact ⟨next, rfl, hnext, fun hrefused => by cases hrefused⟩
      · rw [if_neg hfits, h.append?_of_full (Nat.lt_of_not_le hfits)]
        exact ⟨b, rfl, h, fun _ => rfl⟩

/-! ## Runs of edits -/

theorem afterEdits (h : b.Lists c w) (edits : List Edit) :
    ∃ last, b.afterEdits edits = .ok last ∧ last.Lists c (listAfter c w edits) := by
  induction edits generalizing b w with
  | nil => exact ⟨b, rfl, h⟩
  | cons e edits ih =>
      obtain ⟨next, he, hnext, -⟩ := h.edit e
      obtain ⟨last, hrest, hlast⟩ := ih hnext
      refine ⟨last, ?_, hlast⟩
      rw [NameBuffer.afterEdits, List.foldlM_cons, he]
      exact hrest

end Lists

theorem refusesAppends_of_not_isWritable {b : NameBuffer} (h : b.isWritable = false) :
    b.RefusesAppends := by
  intro units
  rw [edit, append?_of_not_isWritable h]
  rfl

/-- A buffer that is never written to stays so, since nothing gives it storage of ours. -/
theorem isWritable_afterEdits {b : NameBuffer} (h : b.isWritable = false) (edits : List Edit) :
    ∃ last, b.afterEdits edits = .ok last ∧ last.isWritable = false := by
  induction edits generalizing b with
  | nil => exact ⟨b, rfl, h⟩
  | cons e edits ih =>
      have he : ∃ answer next, b.edit e = .ok (answer, next) ∧ next.isWritable = false := by
        cases e with
        | append units => exact ⟨_, b, refusesAppends_of_not_isWritable h units, h⟩
        | reset => exact ⟨_, _, rfl, h⟩
      obtain ⟨answer, next, he, hnext⟩ := he
      obtain ⟨last, hrest, hlast⟩ := ih hnext
      refine ⟨last, ?_, hlast⟩
      rw [afterEdits, List.foldlM_cons, he]
      exact hrest

/-- What can be told of a buffer from outside, when it reads as a list. -/
structure ListSpec (b : NameBuffer) (c : ℕ) (w : List UInt16) : Prop where
  wide : b.wide = .ok w
  isEmpty : b.isEmpty = .ok (decide (w = []))
  capacity : b.capacity = c
  owner : b.owner = .tool
  usable : b.isUsable = true
  attached : b.isDetached = false
  /-- The next edit is taken if the list takes it, and then the buffer reads as the new list. One
  that is not taken changes nothing. -/
  next : ∀ e, ∃ next, b.edit e = .ok ((e.ofList c w).1, next) ∧ next.wide = .ok (e.ofList c w).2 ∧
    ((e.ofList c w).1 = false → next = b)

theorem Lists.spec {b : NameBuffer} {c : ℕ} {w : List UInt16} (h : b.Lists c w) :
    b.ListSpec c w := by
  obtain ⟨storage, howns, -⟩ := h.storage
  refine ⟨h.wide, ?_, h.capacity, howns.owner, howns.isUsable, howns.isDetached, fun e => ?_⟩
  · rw [isEmpty, h.wide]
    cases w <;> rfl
  · obtain ⟨next, he, hnext, hrefused⟩ := h.edit e
    exact ⟨next, he, hnext.wide, hrefused⟩

/-- After any edits a buffer that was made with storage reads as the list after the same edits. One
that has none, or that the target made, takes no units at all. -/
theorem edits_refine_list (c : ℕ) (edits : List Edit) :
    (0 < c ∧ c ≤ maxCapacity → ∃ b,
      (withCapacity c).afterEdits edits = .ok b ∧ b.ListSpec c (listAfter c [] edits)) ∧
    (¬(0 < c ∧ c ≤ maxCapacity) →
      ∃ b, (withCapacity c).afterEdits edits = .ok b ∧ b.RefusesAppends) ∧
    ∀ units num max, ∃ b, (ofTarget units num max).afterEdits edits = .ok b ∧ b.RefusesAppends := by
  have hrefuses : ∀ b : NameBuffer, b.isWritable = false →
      ∃ last, b.afterEdits edits = .ok last ∧ last.RefusesAppends := by
    intro b hb
    obtain ⟨last, hedits, hlast⟩ := isWritable_afterEdits hb edits
    exact ⟨last, hedits, refusesAppends_of_not_isWritable hlast⟩
  refine ⟨?_, ?_, ?_⟩
  · rintro ⟨hpos, hmax⟩
    obtain ⟨b, hedits, hb⟩ := (Lists.withCapacity hpos hmax).afterEdits edits
    exact ⟨b, hedits, hb.spec⟩
  · intro hc
    have hnone : withCapacity c = unallocated .tool := by
      apply if_pos
      simp only [Bool.or_eq_true, decide_eq_true_eq]
      omega
    apply hrefuses
    rw [hnone]
    rfl
  · intro units num max
    apply hrefuses
    cases units <;> rfl

/-- The second append goes on where the null of the first one stands; the third finds no room, and
the fourth, after a reset, does not bring the old units back. -/
theorem edits_refine_list_of_six_units :
    (0 < 6 ∧ 6 ≤ maxCapacity) ∧
    (∃ b, (withCapacity 6).afterEdits
      [.append [97, 0, 98], .append [99], .append [100, 101, 102, 103]] = .ok b ∧
      b.ListSpec 6 [97, 99]) ∧
    (∃ b, (withCapacity 6).afterEdits [.append [97, 98, 99], .reset, .append [100]] = .ok b ∧
      b.ListSpec 6 [100]) ∧
    ∃ b, (withCapacity 0).afterEdits [.reset] = .ok b ∧ b.RefusesAppends := by
  have hc : 0 < 6 ∧ 6 ≤ maxCapacity := by decide
  refine ⟨hc, (edits_refine_list 6 _).1 hc, (edits_refine_list 6 _).1 hc, ?_⟩
  exact (edits_refine_list 0 _).2.1 (by decide)

end EngineNames.NameBuffer
