import EngineNames.Proofs.Memory.Mapping
import Mathlib.Data.List.TakeWhile

/-! # Strings that end in a null

A string of an array entry is fetched in pieces of fixed length, each of them whole. So the string
is read exactly if its pieces are readable up to the one with the null in it, and that one reaches
beyond the null.
-/

namespace EngineNames

/-- `name` and a null stand at a location, and there is no null before. -/
structure StandsAt (contents : ℕ → UInt8) (wide : Bool) (location : ℕ)
    (name : List UInt16) : Prop where
  units : unitsFrom contents wide location (name.length + 1) = name ++ [0]
  no_null : 0 ∉ name

namespace StandsAt

variable {contents : ℕ → UInt8} {wide : Bool} {location : ℕ} {name : List UInt16}

theorem unitsFrom_eq_take (h : StandsAt contents wide location name) {n : ℕ}
    (hn : n ≤ name.length) : unitsFrom contents wide location n = name.take n := by
  have hs : name.length + 1 = n + (name.length + 1 - n) := by omega
  have hu := h.units
  rw [hs, unitsFrom_add] at hu
  have ht := congrArg (List.take n) hu
  rwa [List.take_left' (length_unitsFrom n), List.take_append_of_le_length hn] at ht

theorem exists_unitsFrom_eq (h : StandsAt contents wide location name) {n : ℕ}
    (hn : name.length < n) :
    ∃ tail, unitsFrom contents wide location n = name ++ 0 :: tail := by
  have hs : n = name.length + 1 + (n - (name.length + 1)) := by omega
  rw [hs, unitsFrom_add, h.units, List.append_assoc]
  exact ⟨_, rfl⟩

/-- Units read beyond the null are the rest of the name, a null, and more. -/
theorem exists_piece_eq (h : StandsAt contents wide location name) {p n : ℕ}
    (hp : p ≤ name.length) (hn : name.length < p + n) :
    ∃ tail, unitsFrom contents wide (location + p * unitSize wide) n =
      name.drop p ++ 0 :: tail := by
  obtain ⟨tail, ht⟩ := h.exists_unitsFrom_eq hn
  refine ⟨tail, ?_⟩
  rw [unitsFrom_add, h.unitsFrom_eq_take hp] at ht
  rw [← List.append_right_inj (name.take p), ht, ← List.append_assoc, List.take_append_drop]

/-- Units read before the null continue the name. -/
theorem take_append_piece (h : StandsAt contents wide location name) {p n : ℕ}
    (hn : p + n ≤ name.length) :
    name.take p ++ unitsFrom contents wide (location + p * unitSize wide) n =
      name.take (p + n) := by
  rw [← h.unitsFrom_eq_take (by omega), ← unitsFrom_add, h.unitsFrom_eq_take hn]

end StandsAt

theorem ne_null_of_not_mem {units : List UInt16} (h : 0 ∉ units) :
    ∀ u ∈ units, (u != 0) = true := by
  intro u hu
  rw [bne_iff_ne]
  rintro rfl
  exact h hu

theorem takeWhile_append_null {units tail : List UInt16} (h : 0 ∉ units) :
    (units ++ 0 :: tail).takeWhile (· != 0) = units := by
  rw [List.takeWhile_append_of_pos (ne_null_of_not_mem h), List.takeWhile_cons_of_neg (by simp),
    List.append_nil]

theorem takeWhile_ne_null {units : List UInt16} (h : 0 ∉ units) :
    units.takeWhile (· != 0) = units := by
  rw [List.takeWhile_eq_self_iff]
  exact ne_null_of_not_mem h

namespace Memory

variable {m : Memory} {contents : ℕ → UInt8} {wide : Bool} {start : Address}
  {maxLength j : ℕ} {name : List UInt16}

/-- The piece of this number is readable; the last piece of the longest string is cut short. -/
def PieceReadable (m : Memory) (wide : Bool) (start : Address) (maxLength j : ℕ) : Prop :=
  m.Readable (start.toNat + pieceLength * j * unitSize wide)
    (unitSize wide * min pieceLength (maxLength - pieceLength * j))

/-! ## One piece -/

theorem readTerminatedFrom_of_not_readable (hmax : name.length < maxLength)
    (hj : pieceLength * j ≤ name.length) (hr : ¬ m.PieceReadable wide start maxLength j) :
    m.readTerminatedFrom wide start maxLength (name.take (pieceLength * j)) = .unreadable := by
  have hlen : (name.take (pieceLength * j)).length = pieceLength * j :=
    List.length_take_of_le hj
  rw [readTerminatedFrom, dif_pos (by omega), hlen]
  cases ha : Address.ofNat? (start.toNat + pieceLength * j * if wide then 2 else 1) with
  | none => rfl
  | some position =>
      have hp : position.toNat = start.toNat + pieceLength * j * unitSize wide :=
        (Address.ofNat?_eq_some_iff.mp ha).symm
      rw [PieceReadable, ← hp] at hr
      obtain ⟨e, he⟩ := readCharacters_of_not_readable hr
      simp only [he]

theorem PieceReadable.exists_position (hm : m.Shows contents)
    (hr : m.PieceReadable wide start maxLength j) : ∃ position : Address,
    Address.ofNat? (start.toNat + pieceLength * j * if wide then 2 else 1) = some position ∧
    m.readCharacters wide position (min pieceLength (maxLength - pieceLength * j)) =
      .ok (unitsFrom contents wide (start.toNat + pieceLength * j * unitSize wide)
        (min pieceLength (maxLength - pieceLength * j))) := by
  obtain ⟨position, bytes, hp, hb⟩ := hr
  refine ⟨position, Address.ofNat?_eq_some_iff.mpr hp.symm, ?_⟩
  rw [← hp]
  exact hm.readCharacters_of_readable ⟨position, bytes, rfl, hb⟩

theorem readTerminatedFrom_of_null_in (hm : m.Shows contents)
    (hs : StandsAt contents wide start.toNat name) (hmax : name.length < maxLength)
    (hj : pieceLength * j ≤ name.length) (hr : m.PieceReadable wide start maxLength j)
    (hlast : name.length < pieceLength * j + pieceLength) :
    m.readTerminatedFrom wide start maxLength (name.take (pieceLength * j)) = .found name := by
  have hlen : (name.take (pieceLength * j)).length = pieceLength * j :=
    List.length_take_of_le hj
  have hno : 0 ∉ name.drop (pieceLength * j) := fun h => hs.no_null (List.mem_of_mem_drop h)
  obtain ⟨position, hp, hread⟩ := hr.exists_position hm
  obtain ⟨tail, ht⟩ := hs.exists_piece_eq hj
    (n := min pieceLength (maxLength - pieceLength * j)) (by omega)
  have hshort : (name.drop (pieceLength * j)).length <
      (name.drop (pieceLength * j) ++ 0 :: tail).length := by
    rw [List.length_append, List.length_cons]
    omega
  rw [readTerminatedFrom, dif_pos (by omega), hlen, hp]
  simp only [hread, ht, takeWhile_append_null hno, hshort, if_true, List.take_append_drop]

theorem readTerminatedFrom_of_null_after (hm : m.Shows contents)
    (hs : StandsAt contents wide start.toNat name) (hmax : name.length < maxLength)
    (hr : m.PieceReadable wide start maxLength j)
    (hnext : pieceLength * j + pieceLength ≤ name.length) :
    m.readTerminatedFrom wide start maxLength (name.take (pieceLength * j)) =
      m.readTerminatedFrom wide start maxLength (name.take (pieceLength * (j + 1))) := by
  have hlen : (name.take (pieceLength * j)).length = pieceLength * j :=
    List.length_take_of_le (by omega)
  have hwhole : min pieceLength (maxLength - pieceLength * j) = pieceLength := by omega
  obtain ⟨position, hp, hread⟩ := hr.exists_position hm
  have hname := hs.take_append_piece hnext
  rw [hwhole] at hread
  generalize hpiece : unitsFrom contents wide
    (start.toNat + pieceLength * j * unitSize wide) pieceLength = piece at hread hname
  have hpos : piece ≠ [] := by
    apply List.ne_nil_of_length_pos
    rw [← hpiece, length_unitsFrom]
    decide
  have hno : 0 ∉ piece := by
    intro h
    have hin : 0 ∈ name.take (pieceLength * j + pieceLength) := by
      rw [← hname]
      exact List.mem_append_right _ h
    exact hs.no_null (List.mem_of_mem_take hin)
  rw [readTerminatedFrom, dif_pos (by omega), hlen, hp]
  simp only [hwhole, hread, takeWhile_ne_null hno, Nat.lt_irrefl, if_false, hpos, dif_neg,
    hname, Nat.mul_succ, not_false_eq_true]

/-! ## All pieces -/

/-- A string is found if the pieces up to its null are readable, and only then. -/
theorem readTerminatedFrom_take (hm : m.Shows contents)
    (hs : StandsAt contents wide start.toNat name) (hmax : name.length < maxLength)
    (hj : j ≤ name.length / pieceLength) :
    ((∀ i, j ≤ i → i ≤ name.length / pieceLength → m.PieceReadable wide start maxLength i) →
      m.readTerminatedFrom wide start maxLength (name.take (pieceLength * j)) = .found name) ∧
    (¬ (∀ i, j ≤ i → i ≤ name.length / pieceLength → m.PieceReadable wide start maxLength i) →
      m.readTerminatedFrom wide start maxLength (name.take (pieceLength * j)) = .unreadable) := by
  have hle : pieceLength * j ≤ name.length :=
    Nat.le_trans (Nat.mul_le_mul_left _ hj) (Nat.mul_div_le _ _)
  -- The induction counts the pieces that are still to be read.
  generalize hk : name.length / pieceLength - j = k
  induction k generalizing j with
  | zero =>
      have hlast : j = name.length / pieceLength := by omega
      have hin : name.length < pieceLength * j + pieceLength := by
        rw [hlast]
        exact Nat.lt_mul_div_succ _ (by decide)
      refine ⟨fun hall => ?_, fun hnot => ?_⟩
      · exact readTerminatedFrom_of_null_in hm hs hmax hle (hall j (Nat.le_refl j) hj) hin
      · refine readTerminatedFrom_of_not_readable hmax hle fun hr => hnot fun i hji hi => ?_
        obtain rfl : i = j := by omega
        exact hr
  | succ k ih =>
      have hnext : j + 1 ≤ name.length / pieceLength := by omega
      have hafter : pieceLength * j + pieceLength ≤ name.length :=
        Nat.le_trans (Nat.mul_le_mul_left _ hnext) (Nat.mul_div_le _ _)
      by_cases hr : m.PieceReadable wide start maxLength j
      · rw [readTerminatedFrom_of_null_after hm hs hmax hr hafter]
        obtain ⟨hfound, hunreadable⟩ := ih hnext hafter (by omega)
        refine ⟨fun hall => ?_, fun hnot => ?_⟩
        · exact hfound fun i hji hi => hall i (Nat.le_of_succ_le hji) hi
        · refine hunreadable fun hall => hnot fun i hji hi => ?_
          rcases Nat.eq_or_lt_of_le hji with rfl | hlt
          · exact hr
          · exact hall i hlt hi
      · refine ⟨fun hall => ?_, fun _ => ?_⟩
        · exact (hr (hall j (Nat.le_refl j) hj)).elim
        · exact readTerminatedFrom_of_not_readable hmax hle hr

/-- An offset lies before the end of the last piece if and only if it lies in one of the pieces. -/
theorem lt_last_piece_iff {last i : ℕ} :
    i < unitSize wide * min (pieceLength * (last + 1)) maxLength ↔
      ∃ j ≤ last, ∃ k < unitSize wide * min pieceLength (maxLength - pieceLength * j),
        pieceLength * j * unitSize wide + k = i := by
  cases wide with
  | false =>
      simp only [unitSize, pieceLength, Bool.false_eq_true, if_false, Nat.one_mul, Nat.mul_one]
      constructor
      · intro hi
        exact ⟨i / 32, by omega, i % 32, by omega, Nat.div_add_mod i 32⟩
      · rintro ⟨j, hj, k, hk, rfl⟩
        omega
  | true =>
      simp only [unitSize, pieceLength, if_true]
      constructor
      · intro hi
        exact ⟨i / 64, by omega, i % 64, by omega, by omega⟩
      · rintro ⟨j, hj, k, hk, rfl⟩
        omega

/-- The pieces are read in full where all bytes up to the end of the last one are mapped. -/
theorem Maps.pieces_readable_iff {mapped : ℕ → Prop} {last : ℕ} (hp : m.Maps mapped)
    (hmax : pieceLength * last < maxLength) :
    (∀ j ≤ last, m.PieceReadable wide start maxLength j) ↔
      ∀ i < unitSize wide * min (pieceLength * (last + 1)) maxLength,
        mapped (start.toNat + i) := by
  have hsize : ∀ j ≤ last, 0 < unitSize wide * min pieceLength (maxLength - pieceLength * j) := by
    intro j hj
    have hle := Nat.mul_le_mul_left pieceLength hj
    refine Nat.mul_pos (by cases wide <;> decide) (Nat.lt_min.mpr ⟨by decide, by omega⟩)
  constructor
  · intro hall i hi
    obtain ⟨j, hj, k, hk, rfl⟩ := lt_last_piece_iff.mp hi
    have hk' := (hp _ _ (hsize j hj)).mp (hall j hj) k hk
    rwa [Nat.add_assoc] at hk'
  · intro hall j hj
    refine (hp _ _ (hsize j hj)).mpr fun k hk => ?_
    have hin := lt_last_piece_iff.mpr ⟨j, hj, k, hk, rfl⟩
    rw [Nat.add_assoc]
    exact hall _ hin

end Memory

namespace NameTable

variable {m : Memory} {contents : ℕ → UInt8} {wide : Bool} {a start : Address}
  {layout : ArrayLayout} {index : UInt32} {name : List UInt16}

theorem readName?_array_of_found {units : List UInt16} (b : Build)
    (h : lookupArray m a layout index = .found units) :
    (array a layout).readName? m b index 0 = .ok (some units) := by
  simp only [readName?, readBase, h, Except.map, Option.map_some, numberSuffix, if_true,
    List.append_nil]

theorem readName?_array_of_unreadable (b : Build)
    (h : lookupArray m a layout index = .unreadable) :
    (array a layout).readName? m b index 0 = .ok none := by
  simp only [readName?, readBase, h, Except.map, Option.map_none]

/-- A name that is read for ever is no name that is not there. -/
theorem readName?_array_of_stalled (b : Build) (h : lookupArray m a layout index = .stalled) :
    (array a layout).readName? m b index 0 = .error .endless := by
  simp only [readName?, readBase, h, Except.map]

theorem lookupArray_eq (h : arrayText? m a layout index = some (wide, start)) :
    lookupArray m a layout index =
      m.readTerminatedFrom wide start layout.maxNameLength.toNat [] := by
  rw [lookupArray, h]

/-- A name that stands in an array is read if the pieces up to its null are readable as a whole,
and otherwise there is none. So memory has to be mapped beyond the null, up to the end of its piece
or the longest name. -/
theorem readName?_array_iff (b : Build) (hm : m.Shows contents)
    (ht : arrayText? m a layout index = some (wide, start))
    (hs : StandsAt contents wide start.toNat name)
    (hmax : name.length < layout.maxNameLength.toNat) :
    ((array a layout).readName? m b index 0 = .ok (some name) ↔
      ∀ j ≤ name.length / Memory.pieceLength,
        m.PieceReadable wide start layout.maxNameLength.toNat j) ∧
    ((array a layout).readName? m b index 0 = .ok none ↔
      ∃ j ≤ name.length / Memory.pieceLength,
        ¬ m.PieceReadable wide start layout.maxNameLength.toNat j) ∧
    ∀ mapped, m.Maps mapped → ((array a layout).readName? m b index 0 = .ok (some name) ↔
      ∀ i < unitSize wide * min (Memory.pieceLength * (name.length / Memory.pieceLength + 1))
        layout.maxNameLength.toNat, mapped (start.toNat + i)) := by
  have hrun := Memory.readTerminatedFrom_take hm hs hmax (Nat.zero_le _)
  rw [Nat.mul_zero, List.take_zero, ← lookupArray_eq ht] at hrun
  obtain ⟨hfound, hunreadable⟩ := hrun
  have hsome : (array a layout).readName? m b index 0 = .ok (some name) ↔
      ∀ j ≤ name.length / Memory.pieceLength,
        m.PieceReadable wide start layout.maxNameLength.toNat j := by
    constructor
    · intro hname
      by_contra hnot
      rw [readName?_array_of_unreadable b
        (hunreadable fun hall => hnot fun j => hall j (Nat.zero_le j))] at hname
      cases hname
    · intro hall
      exact readName?_array_of_found b (hfound fun j _ => hall j)
  refine ⟨hsome, ?_, fun mapped hp => hsome.trans (hp.pieces_readable_iff ?_)⟩
  · constructor
    · intro hname
      by_contra hnot
      have hall := hsome.mpr fun j hj => by_contra fun hr => hnot ⟨j, hj, hr⟩
      rw [hname] at hall
      cases hall
    · rintro ⟨j, hj, hr⟩
      exact readName?_array_of_unreadable b
        (hunreadable fun hall => hr (hall j (Nat.zero_le j) hj))
  · exact Nat.lt_of_le_of_lt (Nat.mul_div_le _ _) hmax

/-! ## The end of a mapping -/

/-- An array whose only name, `Pawn`, ends with the mapping. -/
def arrayToEnd : List UInt8 :=
  littleEndianBytes 8 0x1008 ++ littleEndianBytes 8 0x1010 ++ List.replicate 16 0 ++
    [80, 97, 119, 110, 0]

theorem standsAt_arrayToEnd :
    StandsAt (Memory.mappedBytes 0x1000 arrayToEnd) false 0x1020 [80, 97, 119, 110] :=
  ⟨by decide, by decide⟩

/-- Where names are known to be shorter, the piece is cut short and ends with the mapping too. -/
theorem readName?_array_of_cut_piece :
    arrayText? (.ofMapping 0x1000 arrayToEnd) 0x1000 { maxNameLength := 5 } 0 =
      some (false, 0x1020) ∧
    (array 0x1000 { maxNameLength := 5 }).readName? (.ofMapping 0x1000 arrayToEnd) {} 0 0 =
      .ok (some [80, 97, 119, 110]) := by
  have ht : arrayText? (.ofMapping 0x1000 arrayToEnd) 0x1000 { maxNameLength := 5 } 0 =
      some (false, 0x1020) := by
    decide
  obtain ⟨_, _, hmapped⟩ := readName?_array_iff {} Memory.shows_ofMapping ht standsAt_arrayToEnd
    (by decide)
  exact ⟨ht, (hmapped _ (Memory.maps_ofMapping (by decide))).mpr (by decide)⟩

/-- It is not enough for a name that its units and its null are mapped. -/
theorem not_readName?_array_of_mapped :
    ¬ ∀ (m : Memory) (contents : ℕ → UInt8) (mapped : ℕ → Prop) (b : Build) (a : Address)
      (layout : ArrayLayout) (index : UInt32) (wide : Bool) (start : Address)
      (name : List UInt16), m.Shows contents → m.Maps mapped →
      arrayText? m a layout index = some (wide, start) →
      StandsAt contents wide start.toNat name → name.length < layout.maxNameLength.toNat →
      (∀ i < unitSize wide * (name.length + 1), mapped (start.toNat + i)) →
      (array a layout).readName? m b index 0 = .ok (some name) := by
  intro h
  have ht : arrayText? (.ofMapping 0x1000 arrayToEnd) 0x1000 {} 0 = some (false, 0x1020) := by
    decide
  have hread := h (.ofMapping 0x1000 arrayToEnd) _ _ {} 0x1000 {} 0 false 0x1020 _
    Memory.shows_ofMapping (Memory.maps_ofMapping (by decide)) ht standsAt_arrayToEnd (by decide)
    (by decide)
  have hpiece : ¬ (Memory.ofMapping 0x1000 arrayToEnd).PieceReadable false 0x1020 1024 0 := by
    rw [Memory.PieceReadable, Memory.readable_ofMapping_iff]
    decide
  have hlength : ([80, 97, 119, 110] : List UInt16).length < 1024 := by decide
  have hnone := Memory.readTerminatedFrom_of_not_readable hlength (Nat.zero_le _) hpiece
  rw [readName?_array_of_unreadable {} ((lookupArray_eq ht).trans hnone)] at hread
  cases hread

end NameTable

end EngineNames
