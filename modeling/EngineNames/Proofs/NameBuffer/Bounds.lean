import EngineNames.Proofs.NameBuffer.Foreign
import Mathlib.Data.Int.Notation

/-! # Bounds of the storage

A buffer of ours believes the counts in its header, and a foreign function may assign them. So all
accesses stay in the storage as long as no function assigns more reserved units than were allocated,
and once one has done so there is an append that is accepted and writes beyond the storage.
-/

namespace EngineNames.NameBuffer

/-- What may happen to a buffer that keeps its storage. -/
inductive Event where
  | append (units : List UInt16)
  | reset
  /-- A foreign function writes units to the storage and assigns both counts. -/
  | scribble (writes : ℕ → Option UInt16) (num max : Int32)

/-- An append that is refused leaves the buffer as it is. -/
def happen (b : NameBuffer) : Event → Except Trap NameBuffer
  | .append units => do return (← b.append? units).getD b
  | .reset => .ok b.reset
  | .scribble writes num max => .ok (b.scribble writes num max)

def afterEvents (b : NameBuffer) (events : List Event) : Except Trap NameBuffer :=
  events.foldlM happen b

/-- No function assigns more than `c` reserved units. -/
def Event.Reserves (c : ℕ) : Event → Prop
  | .scribble _ _ max => max.toInt ≤ c
  | _ => True

instance (c : ℕ) : DecidablePred (Event.Reserves c)
  | .scribble _ _ max => inferInstanceAs (Decidable (max.toInt ≤ c))
  | .append _ => isTrue trivial
  | .reset => isTrue trivial

/-- What is read and what is written is in the storage of `c` units: the buffer reads as units `w`,
and an append either is refused or puts all its units and the null behind these. -/
structure InBounds (c : ℕ) (b : NameBuffer) : Prop where
  storage : ∃ storage, b.units? = some storage ∧ storage.length = c
  inspected : b.len ≤ c
  accessed : ∃ w, b.wide = .ok w ∧ ∀ units, b.append? units = .ok none ∨
    ∃ next, b.append? units = .ok (some next) ∧ w.length + units.length + 1 ≤ c ∧
      next.units? = b.units?.map fun storage =>
        storage.take w.length ++ (units ++ [0]) ++ storage.drop (w.length + units.length + 1)

/-! ## One append -/

section Append

variable {b next : NameBuffer} {storage units w : List UInt16}

theorem overwrite_eq {start : ℕ} (h : start + units.length ≤ storage.length) :
    overwrite storage start units =
      .ok (storage.take start ++ units ++ storage.drop (start + units.length)) :=
  if_pos h

theorem overwrite_of_lt {start : ℕ} (h : storage.length < start + units.length) :
    overwrite storage start units = .error .outOfBounds :=
  if_neg (Nat.not_le.mpr h)

/-- The buffer with its storage after units and a null were put behind `w`. -/
def appended (b : NameBuffer) (storage w units : List UInt16) : NameBuffer :=
  { b with
    allocation := some (storage.take w.length ++ (units ++ [0]) ++
      storage.drop (w.length + units.length + 1))
    num := Int32.ofNat (w.length + units.length + 1) }

theorem Owns.appended (h : b.Owns storage) (w units : List UInt16) :
    (b.appended storage w units).Owns (storage.take w.length ++ (units ++ [0]) ++
      storage.drop (w.length + units.length + 1)) :=
  ⟨h.owner, h.data, rfl⟩

theorem Owns.poke_eq (h : b.Owns storage) (start : ℕ) (units : List UInt16) :
    b.poke start units = (overwrite storage start units).map fun written =>
      { b with allocation := some written } := by
  unfold poke
  rw [h.data, h.allocation]
  cases hwritten : overwrite storage start units <;> simp [hwritten, Except.map]

/-- The counts decide whether units are taken, and then there may be no storage for them. -/
theorem Owns.append?_eq (h : b.Owns storage) (hw : b.wide = .ok w) (units : List UInt16) :
    b.append? units =
      if w.length + units.length + 1 ≤ b.capacity then
        if w.length + units.length + 1 ≤ storage.length then .ok (some (b.appended storage w units))
        else .error .outOfBounds
      else .ok none := by
  have hfit : w.length + (units ++ [0]).length = w.length + units.length + 1 := by
    rw [List.length_append, List.length_singleton, Nat.add_assoc]
  simp only [append?, h.isWritable, if_true, hw, ok_bind, h.poke_eq]
  split
  · split
    · rename_i hstorage
      rw [overwrite_eq (hfit ▸ hstorage), hfit]
      rfl
    · rename_i hstorage
      rw [overwrite_of_lt (hfit ▸ Nat.not_le.mp hstorage)]
      rfl
  · rfl

theorem Owns.append?_eq_some (h : b.Owns storage) (ha : b.append? units = .ok (some next)) :
    ∃ w, b.wide = .ok w ∧ w.length + units.length + 1 ≤ b.capacity ∧
      w.length + units.length + 1 ≤ storage.length ∧ next = b.appended storage w units := by
  cases hw : b.wide with
  | error t =>
      simp only [append?, h.isWritable, if_true, hw, error_bind] at ha
      cases ha
  | ok w =>
      rw [h.append?_eq hw] at ha
      split at ha
      · rename_i hcapacity
        split at ha
        · rename_i hstorage
          simp only [Except.ok.injEq, Option.some.injEq] at ha
          exact ⟨w, rfl, hcapacity, hstorage, ha.symm⟩
        · cases ha
      · cases ha

theorem length_appended (h : w.length + units.length + 1 ≤ storage.length) :
    (storage.take w.length ++ (units ++ [0]) ++
      storage.drop (w.length + units.length + 1)).length = storage.length := by
  simp only [List.length_append, List.length_take, List.length_drop, List.length_singleton]
  omega

end Append

/-! ## One event -/

theorem Owns.of_happen {b next : NameBuffer} {storage : List UInt16} (h : b.Owns storage)
    {event : Event} (hb : b.happen event = .ok next) :
    ∃ storage', next.Owns storage' ∧ storage'.length = storage.length := by
  cases event with
  | append units =>
      obtain ⟨answer, ha, hnext⟩ := bind_eq_ok_iff.mp hb
      obtain rfl := Except.ok.inj hnext
      cases answer with
      | none => exact ⟨storage, h, rfl⟩
      | some next =>
          obtain ⟨w, _, _, hstorage, rfl⟩ := h.append?_eq_some ha
          exact ⟨_, h.appended w units, length_appended hstorage⟩
  | reset =>
      obtain rfl := Except.ok.inj hb
      exact ⟨storage, h.reset, rfl⟩
  | scribble writes num max =>
      obtain rfl := Except.ok.inj hb
      exact ⟨_, h.scribble writes num max, length_overlay writes storage⟩

/-- As long as no more is reserved than there is, nothing that happens gets at anything else. -/
theorem Owns.happen {b : NameBuffer} {storage : List UInt16} (h : b.Owns storage)
    (hc : b.capacity ≤ storage.length) {event : Event} (hr : event.Reserves storage.length) :
    ∃ next, b.happen event = .ok next ∧ next.capacity ≤ storage.length := by
  cases event with
  | append units =>
      have hlen : b.len ≤ storage.length := by
        rw [h.len_eq]
        exact Nat.le_trans (Nat.min_le_right _ _) hc
      rw [NameBuffer.happen, h.append?_eq (h.wide_eq hlen)]
      split
      · rename_i hcapacity
        rw [if_pos (Nat.le_trans hcapacity hc)]
        exact ⟨_, rfl, hc⟩
      · exact ⟨_, rfl, hc⟩
  | reset => exact ⟨_, rfl, hc⟩
  | scribble writes num max =>
      have hm : max.toInt ≤ storage.length := hr
      exact ⟨_, rfl, Int.toNat_le.mpr hm⟩

theorem lt_capacity_of_happen {b next : NameBuffer} {event : Event} {c : ℕ}
    (h : ¬event.Reserves c) (hb : b.happen event = .ok next) : c < next.capacity := by
  cases event with
  | append units => exact absurd trivial h
  | reset => exact absurd trivial h
  | scribble writes num max =>
      obtain rfl := Except.ok.inj hb
      have hm : (c : ℤ) < max.toInt := Int.not_le.mp h
      exact Int.lt_toNat.mpr hm

/-! ## One state -/

/-- Units that fill all that the header promises are taken, and there is no storage for them. -/
theorem Owns.exists_append?_outOfBounds {b : NameBuffer} {storage w : List UInt16}
    (h : b.Owns storage) (hw : b.wide = .ok w) (hc : storage.length < b.capacity) :
    ∃ units, b.append? units = .error .outOfBounds := by
  have hwide := h.length_le_of_wide hw
  let units := List.replicate (b.capacity - w.length - 1) (1 : UInt16)
  have hend : w.length + units.length + 1 = b.capacity := by
    rw [List.length_replicate]
    omega
  refine ⟨units, ?_⟩
  rw [h.append?_eq hw, hend, if_pos (Nat.le_refl _), if_neg (Nat.not_le.mpr hc)]

/-- What the header says is reserved is all that the accesses go by. -/
theorem Owns.inBounds_iff {b : NameBuffer} {storage : List UInt16} (h : b.Owns storage) :
    b.InBounds storage.length ↔ b.capacity ≤ storage.length := by
  constructor
  · intro hb
    by_contra hlt
    obtain ⟨w, hw, happend⟩ := hb.accessed
    obtain ⟨units, htrap⟩ := h.exists_append?_outOfBounds hw (Nat.not_le.mp hlt)
    rcases happend units with hrefused | ⟨next, htaken, _⟩
    · rw [htrap] at hrefused
      cases hrefused
    · rw [htrap] at htaken
      cases htaken
  · intro hc
    have hlen : b.len ≤ storage.length := by
      rw [h.len_eq]
      exact Nat.le_trans (Nat.min_le_right _ _) hc
    have hw := h.wide_eq hlen
    refine ⟨⟨storage, h.units?_eq, rfl⟩, hlen, _, hw, fun units => ?_⟩
    rw [h.append?_eq hw]
    split
    · rename_i hcapacity
      have hstorage := Nat.le_trans hcapacity hc
      refine .inr ⟨_, if_pos hstorage, hstorage, ?_⟩
      rw [(h.appended _ units).units?_eq, h.units?_eq, Option.map_some]
    · exact .inl rfl

/-! ## Runs -/

theorem Owns.of_afterEvents {b last : NameBuffer} {storage : List UInt16} (h : b.Owns storage)
    {events : List Event} (hb : b.afterEvents events = .ok last) :
    ∃ storage', last.Owns storage' ∧ storage'.length = storage.length := by
  induction events generalizing b storage with
  | nil =>
      obtain rfl := Except.ok.inj hb
      exact ⟨storage, h, rfl⟩
  | cons event events ih =>
      rw [NameBuffer.afterEvents, List.foldlM_cons] at hb
      obtain ⟨next, hevent, hrest⟩ := bind_eq_ok_iff.mp hb
      obtain ⟨storage', hnext, hlength⟩ := h.of_happen hevent
      obtain ⟨storage'', hlast, hl⟩ := ih hnext hrest
      exact ⟨storage'', hlast, hl.trans hlength⟩

/-- By induction on the events: each leaves storage of the same length, and no more reserved. -/
theorem Owns.afterEvents {b : NameBuffer} {storage : List UInt16} (h : b.Owns storage)
    (hc : b.capacity ≤ storage.length) {events : List Event}
    (hr : ∀ event ∈ events, event.Reserves storage.length) :
    ∃ last, b.afterEvents events = .ok last ∧ last.capacity ≤ storage.length := by
  induction events generalizing b storage with
  | nil => exact ⟨b, rfl, hc⟩
  | cons event events ih =>
      obtain ⟨next, hevent, hcapacity⟩ := h.happen hc (hr event List.mem_cons_self)
      obtain ⟨storage', hnext, hlength⟩ := h.of_happen hevent
      rw [← hlength] at hcapacity hr ⊢
      rw [NameBuffer.afterEvents, List.foldlM_cons, hevent, ok_bind]
      exact ih hnext hcapacity fun e he => hr e (List.mem_cons_of_mem _ he)

/-- Every access stays in the storage of `c` units, in all states of a run, exactly if no foreign
function assigns more than `c` reserved units. -/
theorem inBounds_throughout_iff {c : ℕ} (hpos : 0 < c) (hmax : c ≤ maxCapacity)
    (events : List Event) :
    (∀ n, ∃ b, (withCapacity c).afterEvents (events.take n) = .ok b ∧ b.InBounds c) ↔
      ∀ event ∈ events, event.Reserves c := by
  have howns := owns_withCapacity hpos hmax
  have hlength : (List.replicate c (0 : UInt16)).length = c := List.length_replicate
  have hstate : ∀ past b, (withCapacity c).afterEvents past = .ok b →
      (b.InBounds c ↔ b.capacity ≤ c) := by
    intro past b hb
    obtain ⟨storage, hs, hl⟩ := howns.of_afterEvents hb
    have hiff := hs.inBounds_iff
    rwa [hl, hlength] at hiff
  constructor
  · intro h event he
    by_contra hr
    obtain ⟨before, later, rfl⟩ := List.append_of_mem he
    have htake : (before ++ event :: later).take (before.length + 1) = before ++ [event] := by
      rw [List.take_append, List.take_of_length_le (Nat.le_succ _)]
      simp
    obtain ⟨b, hb, hin⟩ := h (before.length + 1)
    have hc := (hstate _ b hb).mp hin
    rw [htake, afterEvents, List.foldlM_append] at hb
    obtain ⟨last, -, hevent⟩ := bind_eq_ok_iff.mp hb
    rw [List.foldlM_cons] at hevent
    obtain ⟨next, hnext, hsame⟩ := bind_eq_ok_iff.mp hevent
    obtain rfl := Except.ok.inj hsame
    exact absurd hc (Nat.not_le.mpr (lt_capacity_of_happen hr hnext))
  · intro h n
    have hcapacity : (withCapacity c).capacity ≤ (List.replicate c (0 : UInt16)).length :=
      Nat.le_of_eq ((capacity_withCapacity hpos hmax).trans hlength.symm)
    have hreserves : ∀ event ∈ events.take n,
        event.Reserves (List.replicate c (0 : UInt16)).length := by
      rw [hlength]
      exact fun event he => h event (List.mem_of_mem_take he)
    obtain ⟨b, hb, hc⟩ := howns.afterEvents hcapacity hreserves
    rw [hlength] at hc
    exact ⟨b, hb, (hstate _ b hb).mpr hc⟩

/-- A function may take units away, or claim all of them; one unit more is too much. -/
theorem inBounds_throughout_of_four_units :
    0 < 4 ∧ 4 ≤ maxCapacity ∧
      (∀ n, ∃ b, (withCapacity 4).afterEvents (List.take n
        [.append [97, 98], .scribble (fun _ => some 99) 2 3, .append [100], .reset,
          .scribble (fun _ => none) 7 4]) = .ok b ∧ b.InBounds 4) ∧
      ¬∀ n, ∃ b, (withCapacity 4).afterEvents (List.take n
        [.append [97, 98], .reset, .scribble (fun _ => none) 0 5]) = .ok b ∧ b.InBounds 4 := by
  have hmax : 4 ≤ maxCapacity := by decide
  refine ⟨by decide, hmax, ?_, ?_⟩
  · exact (inBounds_throughout_iff (by decide) hmax _).mpr (by decide)
  · intro h
    exact absurd ((inBounds_throughout_iff (by decide) hmax _).mp h) (by decide)

/-- Four units are taken by storage of four units, and the null goes to the unit behind it. -/
theorem not_append_of_overstated :
    ¬∀ (c : ℕ) (events : List Event), 0 < c → c ≤ maxCapacity →
      ∀ b, (withCapacity c).afterEvents events = .ok b → b.len ≤ c ∧
        ∀ units, b.append? units ≠ .error .outOfBounds := by
  intro h
  have hbounds := h 4 [.scribble (fun _ => none) 0 5] (by decide) (by decide) _ rfl
  exact hbounds.2 [97, 98, 99, 100] rfl

end EngineNames.NameBuffer
