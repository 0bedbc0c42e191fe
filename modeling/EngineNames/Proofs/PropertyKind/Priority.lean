import EngineNames.PropertyKind
import EngineNames.Proofs.Flags.Words
import Mathlib.Order.MinMax

/-! # Priorities of property kinds

The kind of a property class depends on the place of the first entry of `castOrder` whose bit is
set, its rank, and on nothing else. The rank of a union is the smaller one of the two ranks, so
unions choose between kinds by priority. The bits of base classes stand behind those of the classes
that derive from them, so they do not change the rank of a word that has a bit of such a class.
-/

namespace EngineNames

namespace CastFlag

/-- The first flag is that of a listed property class, the second that of one of its base classes. -/
inductive Derives : Flag → Flag → Prop
  | object : Derives classProperty objectProperty
  | softObject : Derives softClassProperty softObjectProperty
  | objectBase {flag : Flag}
      (h : flag ∈ [objectProperty, weakObjectProperty, lazyObjectProperty, softObjectProperty]) :
      Derives flag objectPropertyBase
  | multicast {flag : Flag}
      (h : flag ∈ [multicastInlineDelegateProperty, multicastSparseDelegateProperty]) :
      Derives flag multicastDelegateProperty
  | numeric {flag : Flag}
      (h : flag ∈ [byteProperty, intProperty, floatProperty, doubleProperty, uint64Property,
        uint32Property, uint16Property, int64Property, int16Property, int8Property]) :
      Derives flag numericProperty
  | property {flag : Flag} (h : flag ∈ PropertyKind.castOrder.map Prod.fst) :
      Derives flag property
  | field {flag : Flag} (h : flag ∈ PropertyKind.castOrder.map Prod.fst) : Derives flag field
  | trans {flag base other : Flag} (h : Derives flag base) (h' : Derives base other) :
      Derives flag other

end CastFlag

namespace PropertyKind

open CastFlag

variable {m n : Mask castFlags}

/-! ## Ranks -/

theorem mem_flags_of_mem_castOrder :
    ∀ entry ∈ castOrder, entry.1 ∈ castFlags.flags := by
  decide

theorem ne_unknown_of_mem_castOrder : ∀ entry ∈ castOrder, entry.2 ≠ unknown := by
  decide

theorem test_iff {entry : Flag × PropertyKind} (h : entry ∈ castOrder) :
    m.test (entry.1.mask castFlags) = true ↔ m.Has entry.1.bit :=
  Mask.test_mask_iff (mem_flags_of_mem_castOrder entry h)

/-- How many entries of `castOrder` stand before the first one whose bit is set. -/
def rank (m : Mask castFlags) : ℕ :=
  castOrder.findIdx fun entry => m.test (entry.1.mask castFlags)

/-- The kind of the entry at a place of `castOrder`. -/
def kindAt (i : ℕ) : PropertyKind :=
  match castOrder[i]? with
  | some entry => entry.2
  | none => unknown

theorem ofCastFlags_eq_kindAt (m : Mask castFlags) : ofCastFlags m = kindAt (rank m) := by
  rw [ofCastFlags, List.find?_eq_getElem?_findIdx]
  rfl

theorem le_rank_iff {k : ℕ} :
    k ≤ rank m ↔ k ≤ castOrder.length ∧ ∀ entry ∈ castOrder.take k, ¬ m.Has entry.1.bit := by
  constructor
  · intro h
    refine ⟨h.trans List.findIdx_le_length, fun entry hentry hbit => ?_⟩
    have htest := (test_iff (List.mem_of_mem_take hentry)).mpr hbit
    have hfalse := List.false_of_mem_take_findIdx (List.take_subset_take_left castOrder h hentry)
    rw [htest] at hfalse
    cases hfalse
  · rintro ⟨hk, hnone⟩
    by_contra hlt
    have hrank : rank m < castOrder.length := by omega
    have hmem : castOrder[rank m] ∈ castOrder.take k :=
      List.mem_take_iff_getElem.mpr ⟨rank m, by omega, rfl⟩
    refine hnone _ hmem ((test_iff (List.getElem_mem hrank)).mp ?_)
    exact List.findIdx_getElem (w := hrank)

theorem rank_le_length (m : Mask castFlags) : rank m ≤ castOrder.length :=
  List.findIdx_le_length

/-- Only the bits that `castOrder` lists have a say in the rank. -/
theorem rank_congr (h : ∀ entry ∈ castOrder, m.Has entry.1.bit ↔ n.Has entry.1.bit) :
    rank m = rank n := by
  refine eq_of_forall_le_iff fun k => ?_
  rw [le_rank_iff, le_rank_iff]
  refine and_congr_right fun _ => forall₂_congr fun entry hentry => not_congr ?_
  exact h entry (List.mem_of_mem_take hentry)

theorem rank_union (m n : Mask castFlags) : rank (m.union n) = min (rank m) (rank n) := by
  refine eq_of_forall_le_iff fun k => ?_
  rw [le_min_iff, le_rank_iff, le_rank_iff, le_rank_iff]
  simp only [Mask.has_union, not_or]
  constructor
  · rintro ⟨hk, hnone⟩
    exact ⟨⟨hk, fun entry h => (hnone entry h).1⟩, ⟨hk, fun entry h => (hnone entry h).2⟩⟩
  · rintro ⟨⟨hk, hm⟩, ⟨_, hn⟩⟩
    exact ⟨hk, fun entry h => ⟨hm entry h, hn entry h⟩⟩

theorem kindAt_eq_unknown_iff {i : ℕ} : kindAt i = unknown ↔ castOrder.length ≤ i := by
  rw [kindAt]
  split
  · rename_i entry hentry
    obtain ⟨hlt, _⟩ := List.getElem?_eq_some_iff.mp hentry
    have hne := ne_unknown_of_mem_castOrder entry (List.mem_of_getElem? hentry)
    exact ⟨fun h => absurd h hne, fun hle => by omega⟩
  · rename_i hnone
    exact ⟨fun _ => List.getElem?_eq_none_iff.mp hnone, fun _ => rfl⟩

theorem ofCastFlags_eq_unknown_iff :
    ofCastFlags m = unknown ↔ ∀ entry ∈ castOrder, ¬ m.Has entry.1.bit := by
  rw [ofCastFlags_eq_kindAt, kindAt_eq_unknown_iff, le_rank_iff, List.take_length,
    and_iff_right le_rfl]

/-! ## Base classes -/

/-- How many entries of `castOrder` stand before the one with this bit. -/
def place (flag : Flag) : ℕ :=
  castOrder.findIdx fun entry => entry.1.bit == flag.bit

theorem place_congr {flag other : Flag} (h : flag.bit = other.bit) : place flag = place other := by
  rw [place, h, place]

theorem kindAt_place : ∀ entry ∈ castOrder, kindAt (place entry.1) = entry.2 := by
  decide

/-- A class stands before the classes that it derives from, as far as those are listed. -/
theorem place_le_of_derives {flag base : Flag} (h : Derives flag base) :
    place flag ≤ place base := by
  -- `property` and `field` are not listed, and what is not listed stands behind everything.
  have hlast : ∀ flag ∈ castOrder.map Prod.fst,
      place flag ≤ place property ∧ place flag ≤ place field := by decide
  induction h with
  | object => decide
  | softObject => decide
  | objectBase h => exact (by decide : ∀ flag ∈ _, place flag ≤ place objectPropertyBase) _ h
  | multicast h => exact (by decide : ∀ flag ∈ _, place flag ≤ place multicastDelegateProperty) _ h
  | numeric h => exact (by decide : ∀ flag ∈ _, place flag ≤ place numericProperty) _ h
  | property h => exact (hlast _ h).1
  | field h => exact (hlast _ h).2
  | trans _ _ ih ih' => exact ih.trans ih'

theorem rank_le_place {flag : Flag} (h : m.Has flag.bit) : rank m ≤ place flag := by
  by_contra hlt
  have hplace : place flag < castOrder.length := by
    have := rank_le_length m
    omega
  have hbit : castOrder[place flag].1.bit = flag.bit :=
    eq_of_beq (List.findIdx_getElem (w := hplace))
  have hmem : castOrder[place flag] ∈ castOrder.take (place flag + 1) :=
    List.mem_take_iff_getElem.mpr ⟨place flag, by omega, rfl⟩
  exact (le_rank_iff.mp (by omega : place flag + 1 ≤ rank m)).2 _ hmem (hbit ▸ h)

/-- A word none of whose listed bits stands before a flag does not rank before it. -/
theorem place_le_rank {flag : Flag}
    (h : ∀ entry ∈ castOrder, m.Has entry.1.bit → place flag ≤ place entry.1) :
    place flag ≤ rank m := by
  refine le_rank_iff.mpr ⟨List.findIdx_le_length, fun entry hentry hbit => ?_⟩
  have hle := h entry (List.mem_of_mem_take hentry) hbit
  have hfalse := List.false_of_mem_take_findIdx (List.take_subset_take_left castOrder hle hentry)
  simp at hfalse

/-- All bits of a mask are those of base classes of a class. -/
def OfBases (flag : Flag) (bases : Mask castFlags) : Prop :=
  ∀ i, bases.Has i → ∃ base, Derives flag base ∧ base.bit = i

theorem rank_union_of_bases {flag : Flag} {bases : Mask castFlags} (h : m.Has flag.bit)
    (hbases : OfBases flag bases) : rank (m.union bases) = rank m := by
  have hplace : place flag ≤ rank bases := by
    refine place_le_rank fun entry _ hbit => ?_
    obtain ⟨base, hbase, hsame⟩ := hbases _ hbit
    rw [← place_congr hsame]
    exact place_le_of_derives hbase
  rw [rank_union, min_eq_left ((rank_le_place h).trans hplace)]

/-- The listed bits of a word are those of an entry and of base classes of it. -/
structure Only (entry : Flag × PropertyKind) (m : Mask castFlags) : Prop where
  has : m.Has entry.1.bit
  derives : ∀ other ∈ castOrder, m.Has other.1.bit → other = entry ∨ Derives entry.1 other.1

theorem Only.rank_eq {entry : Flag × PropertyKind} (h : Only entry m) :
    rank m = place entry.1 := by
  refine (rank_le_place h.has).antisymm (place_le_rank fun other hother hbit => ?_)
  rcases h.derives other hother hbit with rfl | hderives
  · exact le_rfl
  · exact place_le_of_derives hderives

/-! ## All together -/

/-- What decides the kind of a property class. -/
structure KindSpec (m : Mask castFlags) : Prop where
  eq_kindAt : ofCastFlags m = kindAt (rank m)
  rank_union : ∀ n, rank (m.union n) = min (rank m) (rank n)
  unknown_iff : ofCastFlags m = unknown ↔ ∀ entry ∈ castOrder, ¬ m.Has entry.1.bit
  /-- Bits that are not listed may be set and cleared. -/
  unlisted : ∀ n, (∀ entry ∈ castOrder, m.Has entry.1.bit ↔ n.Has entry.1.bit) →
    ofCastFlags n = ofCastFlags m
  union : ∀ n, ofCastFlags (m.union n) = ofCastFlags m ∨ ofCastFlags (m.union n) = ofCastFlags n
  union_unknown_iff : ∀ n, ofCastFlags (m.union n) = unknown ↔
    ofCastFlags m = unknown ∧ ofCastFlags n = unknown
  /-- Bits of base classes may be set, whatever else is set. -/
  bases : ∀ flag bases, m.Has flag.bit → OfBases flag bases →
    ofCastFlags (m.union bases) = ofCastFlags m
  only : ∀ entry ∈ castOrder, Only entry m → ofCastFlags m = entry.2

/-- The kind of a word is that of its first listed bit, so unions choose by priority. -/
theorem ofCastFlags_spec (m : Mask castFlags) : KindSpec m := by
  refine ⟨ofCastFlags_eq_kindAt m, rank_union m, ofCastFlags_eq_unknown_iff, fun n h => ?_,
    fun n => ?_, fun n => ?_, fun flag bases h hbases => ?_, fun entry hentry h => ?_⟩
  · rw [ofCastFlags_eq_kindAt, ofCastFlags_eq_kindAt, rank_congr h]
  · simp only [ofCastFlags_eq_kindAt, rank_union]
    rcases min_choice (rank m) (rank n) with hmin | hmin
    · exact .inl (by rw [hmin])
    · exact .inr (by rw [hmin])
  · simp only [ofCastFlags_eq_kindAt, kindAt_eq_unknown_iff, rank_union, le_min_iff]
  · rw [ofCastFlags_eq_kindAt, ofCastFlags_eq_kindAt, rank_union_of_bases h hbases]
  · rw [ofCastFlags_eq_kindAt, h.rank_eq, kindAt_place entry hentry]

/-- A class property without and with the bits of its base classes, and a word of several kinds. -/
theorem ofCastFlags_spec_of_class_property :
    let derived : Mask castFlags := Mask.ofWord 0x400
    let bases : Mask castFlags := Mask.ofWord 0x4018001
    KindSpec derived ∧ derived.Has classProperty.bit ∧ OfBases classProperty bases ∧
      Only (classProperty, object) derived ∧ ofCastFlags (derived.union bases) = object ∧
      ofCastFlags (derived.union (Mask.ofWord 0x60)) = byte := by
  intro derived bases
  have hbits : ∀ i < 64, bases.bits.getLsbD i = true → i ∈ [0, 15, 16, 26] := by decide +kernel
  have hbases : OfBases classProperty bases := by
    intro i hi
    have hmem := hbits i (BitVec.lt_of_getLsbD hi) hi
    simp only [List.mem_cons, List.not_mem_nil, or_false] at hmem
    rcases hmem with rfl | rfl | rfl | rfl
    · exact ⟨field, .field (by decide), rfl⟩
    · exact ⟨property, .property (by decide), rfl⟩
    · exact ⟨objectProperty, .object, rfl⟩
    · exact ⟨objectPropertyBase, .trans .object (.objectBase (by decide)), rfl⟩
  have hclass : derived.bits.getLsbD classProperty.bit = true := by decide +kernel
  have hlisted : ∀ other ∈ castOrder, derived.bits.getLsbD other.1.bit = true →
      other = (classProperty, object) := by decide +kernel
  have honly : Only (classProperty, object) derived :=
    ⟨hclass, fun other hother hbit => .inl (hlisted other hother hbit)⟩
  have hspec := ofCastFlags_spec derived
  refine ⟨hspec, honly.has, hbases, honly, ?_, by decide +kernel⟩
  rw [hspec.bases classProperty bases honly.has hbases]
  exact hspec.only _ (by decide) honly

end PropertyKind

end EngineNames
