import EngineNames.Flags.Cast
import EngineNames.Flags.Class
import EngineNames.Flags.FieldClass
import EngineNames.Flags.Function
import EngineNames.Flags.Object
import EngineNames.Flags.Property
import Mathlib.Algebra.Group.Nat.Defs
import Mathlib.Data.List.Nodup
import Mathlib.Tactic.Common

/-! # Parts of flag words

Everything about a mask is decided bit by bit. A named bit belongs to one flag only and an unknown
one to none, so the flags of a mask and its unknown bits have no bit in common, and together they
are the word. A union has a bit if one of the words has it, whatever their order.
-/

namespace EngineNames

/-- The domains of the engine. -/
def FlagDomain.engine : List FlagDomain :=
  [propertyFlags, functionFlags, objectFlags, castFlags, classFlags, fieldClassFlags]

theorem FlagDomain.width_le_of_engine : ∀ d ∈ engine, d.width ≤ 64 := by
  decide

/-- In a domain of the engine the flags have names of their own. -/
theorem FlagDomain.nodup_names_of_engine :
    ∀ d ∈ engine, (d.flags.map Flag.name).Nodup := by
  decide +kernel

namespace Mask

variable {d : FlagDomain}

/-! ## Bits -/

/-- The bit is set. -/
def Has (m : Mask d) (i : ℕ) : Prop :=
  m.bits.getLsbD i = true

theorem eq_of_has_iff {m n : Mask d} (h : ∀ i, m.Has i ↔ n.Has i) : m = n := by
  have hbits : m.bits = n.bits := BitVec.eq_of_getLsbD_eq fun i _ => Bool.eq_iff_iff.mpr (h i)
  cases m
  cases n
  exact congrArg mk hbits

theorem not_has_none (i : ℕ) : ¬ (none : Mask d).Has i := by
  simp [Has, none]

theorem has_union {m n : Mask d} {i : ℕ} : (m.union n).Has i ↔ m.Has i ∨ n.Has i := by
  simp [Has, union]

theorem has_foldl_union {ms : List (Mask d)} {start : Mask d} {i : ℕ} :
    (ms.foldl union start).Has i ↔ start.Has i ∨ ∃ m ∈ ms, m.Has i := by
  induction ms generalizing start with
  | nil => simp
  | cons m ms ih => simp only [List.foldl_cons, ih, has_union, List.mem_cons, exists_eq_or_imp, or_assoc]

theorem has_mask {flag : Flag} (h : flag ∈ d.flags) {i : ℕ} :
    (flag.mask d).Has i ↔ flag.bit = i := by
  simp [Has, Flag.mask, BitVec.getLsbD_twoPow, d.bit_lt_width flag h]

/-- A flag of the domain is tested by its bit. -/
theorem test_mask_iff {flag : Flag} (h : flag ∈ d.flags) {m : Mask d} :
    m.test (flag.mask d) = true ↔ m.Has flag.bit := by
  have hself : (flag.mask d).Has flag.bit := (has_mask h).mpr rfl
  have hne : (flag.mask d).bits ≠ 0#d.width := by
    intro hzero
    simp [Has, hzero] at hself
  rw [test, Bool.and_eq_true, beq_iff_eq, bne_iff_ne, and_iff_right hne]
  constructor
  · intro heq
    rw [Has, ← heq, BitVec.getLsbD_and, Bool.and_eq_true] at hself
    exact hself.1
  · intro hbit
    refine BitVec.eq_of_getLsbD_eq fun i _ => ?_
    rw [BitVec.getLsbD_and, Bool.and_eq_right_iff_imp]
    intro hi
    rw [← (has_mask h).mp hi]
    exact hbit

theorem mem_flags_iff {m : Mask d} {flag : Flag} :
    flag ∈ m.flags ↔ flag ∈ d.flags ∧ m.Has flag.bit := by
  rw [flags, List.mem_filter]
  exact and_congr_right fun h => test_mask_iff h

theorem has_named {i : ℕ} : (named d).Has i ↔ ∃ flag ∈ d.flags, flag.bit = i := by
  have hfold : named d = (d.flags.map (Flag.mask d)).foldl union none := List.foldl_map.symm
  rw [hfold, has_foldl_union, or_iff_right (not_has_none i)]
  simp only [List.mem_map, exists_exists_and_eq_and]
  exact exists_congr fun flag => and_congr_right fun h => has_mask h

theorem has_unknown {m : Mask d} {i : ℕ} :
    m.unknown.Has i ↔ m.Has i ∧ ∀ flag ∈ d.flags, flag.bit ≠ i := by
  have hnamed : (named d).bits.getLsbD i = false ↔ ∀ flag ∈ d.flags, flag.bit ≠ i := by
    rw [← Bool.not_eq_true, ← Has, has_named]
    simp
  rw [← hnamed, Has, Has, unknown, BitVec.getLsbD_and, BitVec.getLsbD_not, Bool.and_eq_true,
    Bool.and_eq_true, decide_eq_true_eq, Bool.not_eq_true']
  exact and_congr_right fun h => and_iff_right (BitVec.lt_of_getLsbD h)

/-! ## Parts -/

/-- The flags of a mask and its unknown bits make it up. -/
theorem foldl_flags_unknown (m : Mask d) :
    (m.flags.map (Flag.mask d)).foldl union m.unknown = m := by
  refine eq_of_has_iff fun i => ?_
  simp only [has_foldl_union, has_unknown, List.mem_map, exists_exists_and_eq_and]
  constructor
  · rintro (⟨hm, _⟩ | ⟨flag, hflag, hi⟩)
    · exact hm
    · obtain ⟨hmem, hbit⟩ := mem_flags_iff.mp hflag
      exact (has_mask hmem).mp hi ▸ hbit
  · intro hm
    by_cases hknown : ∃ flag ∈ d.flags, flag.bit = i
    · obtain ⟨flag, hmem, rfl⟩ := hknown
      exact .inr ⟨flag, mem_flags_iff.mpr ⟨hmem, hm⟩, (has_mask hmem).mpr rfl⟩
    · exact .inl ⟨hm, fun flag hmem hi => hknown ⟨flag, hmem, hi⟩⟩

/-- No bit belongs to two parts of a mask. -/
theorem pairwise_parts (m : Mask d) :
    (m.unknown :: m.flags.map (Flag.mask d)).Pairwise fun a b => ∀ i, ¬ (a.Has i ∧ b.Has i) := by
  rw [List.pairwise_cons, List.pairwise_map]
  constructor
  · intro part hpart i ⟨hunknown, hi⟩
    obtain ⟨flag, hflag, rfl⟩ := List.mem_map.mp hpart
    have hmem := (mem_flags_iff.mp hflag).1
    exact (has_unknown.mp hunknown).2 flag hmem ((has_mask hmem).mp hi)
  · have hbits : d.flags.Pairwise fun f g => f.bit ≠ g.bit := List.pairwise_map.mp d.bits_nodup
    refine (hbits.sublist List.filter_sublist).imp_of_mem ?_
    intro f g hf hg hne i ⟨hfi, hgi⟩
    have hfi := (has_mask (mem_flags_iff.mp hf).1).mp hfi
    have hgi := (has_mask (mem_flags_iff.mp hg).1).mp hgi
    exact hne (hfi.trans hgi.symm)

/-! ## Words -/

theorem toNat_toWord (h : d.width ≤ 64) (m : Mask d) : m.toWord.toNat = m.bits.toNat := by
  have hlt : m.bits.toNat < UInt64.size :=
    Nat.lt_of_lt_of_le m.bits.isLt (Nat.pow_le_pow_right (by decide) h)
  exact UInt64.toNat_ofNat_of_lt' hlt

theorem toWord_union (h : d.width ≤ 64) (m n : Mask d) :
    (m.union n).toWord = m.toWord ||| n.toWord := by
  rw [← UInt64.toNat_inj, UInt64.toNat_or, toNat_toWord h, toNat_toWord h, toNat_toWord h]
  exact BitVec.toNat_or m.bits n.bits

theorem toWord_foldl_union (h : d.width ≤ 64) (ms : List (Mask d)) (start : Mask d) :
    (ms.foldl union start).toWord = (ms.map toWord).foldl (· ||| ·) start.toWord := by
  induction ms generalizing start with
  | nil => rfl
  | cons m ms ih => rw [List.foldl_cons, ih, toWord_union h, List.map_cons, List.foldl_cons]

theorem toWord_and_eq_zero (h : d.width ≤ 64) {m n : Mask d} (hmn : ∀ i, ¬ (m.Has i ∧ n.Has i)) :
    m.toWord &&& n.toWord = 0 := by
  have hbits : m.bits &&& n.bits = 0#d.width := by
    refine BitVec.eq_of_getLsbD_eq fun i _ => ?_
    simpa [Has] using hmn i
  rw [← UInt64.toNat_inj, UInt64.toNat_and, toNat_toWord h, toNat_toWord h, ← BitVec.toNat_and,
    hbits]
  simp

/-- A mask's flags are those of the domain whose names the mask has. -/
theorem filter_mem_names (h : (d.flags.map Flag.name).Nodup) (m : Mask d) :
    (d.flags.filter fun flag => flag.name ∈ m.names) = m.flags := by
  refine List.filter_congr fun flag hmem => ?_
  rw [Bool.eq_iff_iff, decide_eq_true_eq, names, List.mem_map]
  constructor
  · rintro ⟨other, hother, hname⟩
    obtain ⟨hmem', htest⟩ := List.mem_filter.mp hother
    rwa [← List.inj_on_of_nodup_map h hmem' hmem hname]
  · intro htest
    exact ⟨flag, List.mem_filter.mpr ⟨hmem, htest⟩, rfl⟩

/-! ## Unions -/

/-- All these words as one mask. -/
def unionOf (d : FlagDomain) (words : List UInt64) : Mask d :=
  words.foldl (fun m word => m.union (ofWord word)) none

variable {words others : List UInt64}

theorem has_unionOf {i : ℕ} :
    (unionOf d words).Has i ↔ ∃ word ∈ words, (ofWord word : Mask d).Has i := by
  have hfold : unionOf d words = (words.map ofWord).foldl union none := List.foldl_map.symm
  rw [hfold, has_foldl_union, or_iff_right (not_has_none i)]
  simp only [List.mem_map, exists_exists_and_eq_and]

/-- Order and repetition of the words make no difference. -/
theorem unionOf_congr (h : ∀ word, word ∈ words ↔ word ∈ others) :
    unionOf d words = unionOf d others := by
  refine eq_of_has_iff fun i => ?_
  simp only [has_unionOf, h]

theorem unknown_unionOf :
    (unionOf d words).unknown =
      (words.map fun word => (ofWord word : Mask d).unknown).foldl union none := by
  refine eq_of_has_iff fun i => ?_
  rw [has_foldl_union, or_iff_right (not_has_none i), has_unknown, has_unionOf]
  simp only [List.mem_map, exists_exists_and_eq_and, has_unknown]
  constructor
  · rintro ⟨⟨word, hword, hi⟩, hunknown⟩
    exact ⟨word, hword, hi, hunknown⟩
  · rintro ⟨word, hword, hi, hunknown⟩
    exact ⟨⟨word, hword, hi⟩, hunknown⟩

/-! ## All together -/

/-- A word read as a mask is cut to the width of the domain, and its parts are the named bits that
it has and the rest. -/
structure PartsSpec (d : FlagDomain) (word : UInt64) (m : Mask d) : Prop where
  raw : m.toWord.toNat = word.toNat % 2 ^ d.width
  whole : ((d.flags.filter fun flag => flag.name ∈ m.names).map
    fun flag => (flag.mask d).toWord).foldl (· ||| ·) m.unknown.toWord = m.toWord
  disjoint : (m.unknown.toWord :: (d.flags.filter fun flag => flag.name ∈ m.names).map
    fun flag => (flag.mask d).toWord).Pairwise fun a b => a &&& b = 0

/-- What the union of words is, and that nothing but the set of words decides it. -/
structure UnionSpec (d : FlagDomain) (words : List UInt64) (m : Mask d) : Prop where
  /-- The same mask, and so the same word, unknown bits, names and text. -/
  unordered : ∀ others, (∀ word, word ∈ words ↔ word ∈ others) → unionOf d others = m
  test_iff : ∀ flag ∈ d.flags, m.test (flag.mask d) = true ↔
    ∃ word ∈ words, (ofWord word : Mask d).test (flag.mask d) = true
  unknown : m.unknown.toWord =
    (words.map fun word => (ofWord word : Mask d).unknown.toWord).foldl (· ||| ·) 0

/-- Named and unknown bits divide each word of a domain, and unions do so by the words in them. -/
theorem partition_spec (h : d ∈ FlagDomain.engine) :
    (∀ word, PartsSpec d word (ofWord word)) ∧ ∀ words, UnionSpec d words (unionOf d words) := by
  have hwidth := FlagDomain.width_le_of_engine d h
  have hnames := FlagDomain.nodup_names_of_engine d h
  constructor
  · intro word
    have hparts : (m : Mask d) → m.flags.map (fun flag => (flag.mask d).toWord) =
        (m.flags.map (Flag.mask d)).map toWord := fun m => by rw [List.map_map]; rfl
    refine ⟨?_, ?_, ?_⟩
    · rw [toNat_toWord_ofWord hwidth, Nat.one_shiftLeft]
    · rw [filter_mem_names hnames, hparts, ← toWord_foldl_union hwidth, foldl_flags_unknown]
    · rw [filter_mem_names hnames, hparts, ← List.map_cons, List.pairwise_map]
      exact (pairwise_parts _).imp (toWord_and_eq_zero hwidth)
  · intro words
    refine ⟨fun others hsame => (unionOf_congr hsame).symm, fun flag hmem => ?_, ?_⟩
    · simp only [test_mask_iff hmem, has_unionOf]
    · rw [unknown_unionOf, toWord_foldl_union hwidth, List.map_map]
      rfl

theorem partition_spec_of_function_words : functionFlags ∈ FlagDomain.engine ∧
    PartsSpec functionFlags 0x100000431 (ofWord 0x100000431) ∧
    UnionSpec functionFlags [0x400, 0x31, 0x400] (unionOf functionFlags [0x400, 0x31, 0x400]) ∧
    (ofWord 0x100000431 : Mask functionFlags).names = ["Final", "Native"] ∧
    (ofWord 0x100000431 : Mask functionFlags).unknown.toWord = 0x30 := by
  have h : functionFlags ∈ FlagDomain.engine := by simp [FlagDomain.engine]
  exact ⟨h, (partition_spec h).1 _, (partition_spec h).2 _, by decide +kernel, by decide +kernel⟩

end Mask

end EngineNames
