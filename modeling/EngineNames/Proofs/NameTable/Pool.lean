import EngineNames.Proofs.Memory.Mapping

/-! # Entries of a pool

An entry is stored as a header, which tells length and width, and the characters. Reading the index
of a stored entry gives its characters back, whatever the layout of the pool.
-/

namespace EngineNames

/-- The characters of an entry as they are stored. -/
inductive StoredText where
  | narrow (bytes : List UInt8)
  | wide (units : List UInt16)

namespace StoredText

def isWide : StoredText → Bool
  | narrow _ => false
  | wide _ => true

/-- The units that the characters stand for; a byte is the unit of the same value. -/
def units : StoredText → List UInt16
  | narrow bytes => bytes.map UInt8.toUInt16
  | wide units => units

def length : StoredText → ℕ
  | narrow bytes => bytes.length
  | wide units => units.length

def bytes : StoredText → List UInt8
  | narrow bytes => bytes
  | wide units => unitBytes units

theorem readCharacters_of_holds {m : Memory} {a : Address} {text : StoredText}
    (h : m.Holds a.toNat text.bytes) :
    m.readCharacters text.isWide a text.length = .ok text.units := by
  cases text with
  | narrow bytes =>
      have hr : m.readBytes a bytes.length = .ok bytes := h.readBytes
      simp only [Memory.readCharacters, isWide, length, hr, Bool.false_eq_true, if_false]
      rfl
  | wide units => exact Memory.Holds.readUnits h

end StoredText

namespace NameTable

/-! ## Headers -/

/-- The header of an entry: the length above the bit that marks wide characters. -/
def entryHeader (layout : PoolLayout) (text : StoredText) : UInt16 :=
  .ofNat (text.length <<< layout.lengthShift.toNat |||
    if text.isWide then layout.wideMask.toNat else 0)

theorem or_div_two_pow {length mask shift : ℕ} (hm : mask < 2 ^ shift) :
    (length <<< shift ||| mask) / 2 ^ shift = length := by
  rw [Nat.shiftLeft_eq, Nat.mul_comm, ← Nat.two_pow_add_eq_or_of_lt hm,
    Nat.mul_add_div (Nat.two_pow_pos shift), Nat.div_eq_of_lt hm, Nat.add_zero]

theorem shiftLeft_and_eq_zero {length mask shift : ℕ} (hm : mask < 2 ^ shift) :
    length <<< shift &&& mask = 0 := by
  apply Nat.eq_of_testBit_eq
  intro i
  rw [Nat.testBit_and, Nat.testBit_shiftLeft, Nat.zero_testBit]
  by_cases hi : shift ≤ i
  · have hp : 2 ^ shift ≤ 2 ^ i := Nat.pow_le_pow_right (by decide) hi
    rw [Nat.testBit_lt_two_pow (Nat.lt_of_lt_of_le hm hp), Bool.and_false]
  · simp [hi]

theorem toNat_entryHeader {layout : PoolLayout} {text : StoredText}
    (hf : text.length <<< layout.lengthShift.toNat < 2 ^ 16) :
    (entryHeader layout text).toNat = text.length <<< layout.lengthShift.toNat |||
      if text.isWide then layout.wideMask.toNat else 0 := by
  refine UInt16.toNat_ofNat_of_lt' (Nat.or_lt_two_pow hf ?_)
  split
  · exact layout.wideMask.toNat_lt
  · decide

theorem lengthShift_lt {layout : PoolLayout} {text : StoredText} (hl : 0 < text.length)
    (hf : text.length <<< layout.lengthShift.toNat < 2 ^ 16) :
    layout.lengthShift.toNat < 16 := by
  rw [Nat.shiftLeft_eq] at hf
  have hp : 2 ^ layout.lengthShift.toNat < 2 ^ 16 :=
    Nat.lt_of_le_of_lt (Nat.le_mul_of_pos_left _ hl) hf
  exact (Nat.pow_lt_pow_iff_right (by decide)).mp hp

/-- A header tells the length and the width that it was made from. -/
theorem splitHeader_entryHeader {layout : PoolLayout} {text : StoredText}
    (h0 : layout.wideMask ≠ 0) (hm : layout.wideMask.toNat < 2 ^ layout.lengthShift.toNat)
    (hl : 0 < text.length) (hf : text.length <<< layout.lengthShift.toNat < 2 ^ 16) :
    splitHeader layout (entryHeader layout text) = (text.length, text.isWide) := by
  have hs := lengthShift_lt hl hf
  have hmark : (if text.isWide then layout.wideMask.toNat else 0) <
      2 ^ layout.lengthShift.toNat := by
    split
    · exact hm
    · exact Nat.two_pow_pos _
  have hlen : (entryHeader layout text).toNat / 2 ^ min layout.lengthShift.toNat 16 =
      text.length := by
    rw [Nat.min_eq_left (Nat.le_of_lt hs), toNat_entryHeader hf, or_div_two_pow hmark]
  have hbits : (entryHeader layout text &&& layout.wideMask).toNat =
      if text.isWide then layout.wideMask.toNat else 0 := by
    rw [UInt16.toNat_and, toNat_entryHeader hf, Nat.and_or_distrib_right,
      shiftLeft_and_eq_zero hm, Nat.zero_or]
    split
    · exact Nat.and_self _
    · exact Nat.zero_and _
  have hwide : (entryHeader layout text &&& layout.wideMask != 0) = text.isWide := by
    cases hw : text.isWide with
    | false =>
        rw [hw] at hbits
        have hz : entryHeader layout text &&& layout.wideMask = 0 := UInt16.toNat_inj.mp hbits
        rw [hz]
        rfl
    | true =>
        rw [hw] at hbits
        have hz : entryHeader layout text &&& layout.wideMask = layout.wideMask :=
          UInt16.toNat_inj.mp hbits
        rw [hz]
        exact bne_iff_ne.mpr h0
  rw [splitHeader, Nat.shiftRight_eq_div_pow, hlen, hwide]

/-! ## Blocks -/

theorem splitIndex_eq {bits index : UInt32} {block position : ℕ}
    (hp : position < 2 ^ bits.toNat)
    (hi : index.toNat = block * 2 ^ bits.toNat + position) :
    splitIndex bits index = (block, position) := by
  have hlt := index.toNat_lt
  by_cases hb : bits.toNat ≤ 32
  · rw [splitIndex, Nat.min_eq_left hb, Nat.one_shiftLeft, hi]
    have hq : (block * 2 ^ bits.toNat + position) / 2 ^ bits.toNat = block := by
      rw [Nat.mul_comm, Nat.mul_add_div (Nat.two_pow_pos _), Nat.div_eq_of_lt hp, Nat.add_zero]
    have hr : (block * 2 ^ bits.toNat + position) % 2 ^ bits.toNat = position := by
      rw [Nat.mul_comm, Nat.mul_add_mod, Nat.mod_eq_of_lt hp]
    exact Prod.ext hq hr
  · -- With more than 32 low bits the index lies in block zero.
    have hle : 2 ^ 32 ≤ 2 ^ bits.toNat := Nat.pow_le_pow_right (by decide) (by omega)
    have hz : block = 0 := by
      rcases Nat.eq_zero_or_pos block with h | h
      · exact h
      · have hm := Nat.le_mul_of_pos_left (2 ^ bits.toNat) h
        omega
    subst hz
    rw [Nat.zero_mul, Nat.zero_add] at hi
    rw [splitIndex, Nat.min_eq_right (by omega), Nat.one_shiftLeft, hi]
    rw [hi] at hlt
    exact Prod.ext (Nat.div_eq_of_lt hlt) (Nat.mod_eq_of_lt hlt)

/-- An index points to the entry at a location: the table holds a pointer to the block that the
high bits of the index choose, and the low bits count strides from there. -/
inductive PointsTo (m : Memory) (a : Address) (layout : PoolLayout) (index : UInt32) :
    ℕ → Prop where
  | entry {block position : ℕ} {start : Address}
      (block_lt : block < layout.maxBlocks.toNat)
      (position_lt : position < 2 ^ layout.blockOffsetBits.toNat)
      (index_eq : index.toNat = block * 2 ^ layout.blockOffsetBits.toNat + position)
      (start_ne : start ≠ 0)
      (slot : m.Holds (a.toNat + layout.blocksOffset.toNat + 8 * block)
        (littleEndianBytes 8 start.toNat)) :
      PointsTo m a layout index (start.toNat + layout.stride.toNat * position)

theorem readBlock_of_holds {m : Memory} {a : Address} {layout : PoolLayout} {block : ℕ}
    {start : Address} (hb : block < layout.maxBlocks.toNat) (h0 : start ≠ 0)
    (hs : m.Holds (a.toNat + layout.blocksOffset.toNat + 8 * block)
      (littleEndianBytes 8 start.toNat)) :
    readBlock m a layout block = some start := by
  obtain ⟨slot, hslot⟩ : ∃ slot : Address,
      slot.toNat = a.toNat + layout.blocksOffset.toNat + 8 * block :=
    Address.exists_toNat_eq hs.lt
  obtain ⟨table, htable⟩ : ∃ table : Address,
      table.toNat = a.toNat + layout.blocksOffset.toNat :=
    Address.exists_toNat_eq (Nat.lt_of_le_of_lt (Nat.le_add_right _ _) hs.lt)
  rw [← hslot] at hs
  have ht : a.add? layout.blocksOffset = some table :=
    Address.add?_eq_some_iff.mpr htable.symm
  have hat : Address.ofNat? (table.toNat + 8 * block) = some slot :=
    Address.ofNat?_eq_some_iff.mpr (by rw [htable, hslot])
  simp only [readBlock, Nat.not_le.mpr hb, if_false, ht, hat, hs.readPointer, h0,
    Except.toOption, Option.bind_eq_bind, Option.bind_some]

theorem PointsTo.readPoolEntry {m : Memory} {a : Address} {layout : PoolLayout} {index : UInt32}
    {entry : Address} (h : PointsTo m a layout index entry.toNat) (b : Build) :
    readPoolEntry m a layout b index = readEntry m layout b entry := by
  generalize he : entry.toNat = location at h
  cases h with
  | @entry block position start hb hp hi h0 hs =>
      have hlt := entry.toNat_lt
      have hindex := index.toNat_lt
      have hsmall : position < 2 ^ 64 := by omega
      have hposition : (UInt64.ofNat position).toNat = position :=
        UInt64.toNat_ofNat_of_lt' hsmall
      obtain ⟨distance, hd⟩ : ∃ distance : Address,
          distance.toNat = layout.stride.toNat * position :=
        Address.exists_toNat_eq (by omega)
      have hmul : Address.mul? (UInt64.ofNat position) layout.stride = some distance :=
        Address.mul?_eq_some_iff.mpr (by rw [hposition, hd, Nat.mul_comm])
      have hadd : start.add? distance = some entry :=
        Address.add?_eq_some_iff.mpr (by rw [hd, he])
      simp only [NameTable.readPoolEntry, splitIndex_eq hp hi, readBlock_of_holds hb h0 hs, hmul,
        hadd, Option.bind_eq_bind, Option.bind_some]

/-! ## Entries -/

/-- A location holds an entry with these characters. -/
structure HoldsPlain (m : Memory) (layout : PoolLayout) (b : Build) (entry : ℕ)
    (text : StoredText) : Prop where
  length_pos : 0 < text.length
  length_le : text.length ≤ layout.maxNameLength.toNat
  fits : text.length <<< layout.lengthShift.toNat < 2 ^ 16
  header : m.Holds (entry + b.poolHeaderOffset.toNat)
    (littleEndianBytes 2 (entryHeader layout text).toNat)
  characters : m.Holds (entry + b.poolHeaderOffset.toNat + 2) text.bytes

/-- A location holds an entry without characters that stands for another index with a number. -/
structure HoldsNumbered (m : Memory) (layout : PoolLayout) (b : Build) (entry : ℕ)
    (target number : UInt32) : Prop where
  header : ∃ header : UInt16, header.toNat < 2 ^ layout.lengthShift.toNat ∧
    m.Holds (entry + b.poolHeaderOffset.toNat) (littleEndianBytes 2 header.toNat)
  target : m.Holds (entry + b.poolNumberedOffset.toNat) (littleEndianBytes 4 target.toNat)
  number : m.Holds (entry + b.poolNumberedOffset.toNat + 4) (littleEndianBytes 4 number.toNat)

theorem readEntry_of_holdsPlain {m : Memory} {layout : PoolLayout} {b : Build} {entry : Address}
    {text : StoredText} (h0 : layout.wideMask ≠ 0)
    (hm : layout.wideMask.toNat < 2 ^ layout.lengthShift.toNat)
    (h : HoldsPlain m layout b entry.toNat text) :
    readEntry m layout b entry = some (.plain text.units) := by
  obtain ⟨headerAt, hh⟩ := Address.exists_toNat_eq h.header.lt
  obtain ⟨charactersAt, hc⟩ := Address.exists_toNat_eq h.characters.lt
  have hheader := h.header
  have hcharacters := h.characters
  rw [← hh] at hheader
  rw [← hc] at hcharacters
  have hadd : entry.add? b.poolHeaderOffset = some headerAt :=
    Address.add?_eq_some_iff.mpr hh.symm
  have hadd₂ : headerAt.add? 2 = some charactersAt :=
    Address.add?_eq_some_iff.mpr (by rw [hh, hc]; rfl)
  simp only [readEntry, hadd, hheader.readUInt16, splitHeader_entryHeader h0 hm h.length_pos h.fits,
    Nat.ne_of_gt h.length_pos, Nat.not_lt.mpr h.length_le, hadd₂,
    StoredText.readCharacters_of_holds hcharacters, Except.toOption, Option.bind_eq_bind,
    Option.bind_some, if_false]

theorem readEntry_of_holdsNumbered {m : Memory} {layout : PoolLayout} {b : Build}
    {entry : Address} {target number : UInt32} (hb : b.outlineNumbers = true)
    (h : HoldsNumbered m layout b entry.toNat target number) :
    readEntry m layout b entry = some (.numbered target number) := by
  obtain ⟨header, hz, hheader⟩ := h.header
  obtain ⟨headerAt, hh⟩ := Address.exists_toNat_eq hheader.lt
  obtain ⟨targetAt, ht⟩ := Address.exists_toNat_eq h.target.lt
  obtain ⟨numberAt, hn⟩ := Address.exists_toNat_eq h.number.lt
  have htarget := h.target
  have hnumber := h.number
  rw [← hh] at hheader
  rw [← ht] at htarget
  rw [← hn] at hnumber
  have hadd : entry.add? b.poolHeaderOffset = some headerAt :=
    Address.add?_eq_some_iff.mpr hh.symm
  have hadd₂ : entry.add? b.poolNumberedOffset = some targetAt :=
    Address.add?_eq_some_iff.mpr ht.symm
  have hadd₃ : targetAt.add? 4 = some numberAt :=
    Address.add?_eq_some_iff.mpr (by rw [ht, hn]; rfl)
  have hlen : (splitHeader layout header).1 = 0 := by
    rw [splitHeader, Nat.shiftRight_eq_div_pow]
    refine Nat.div_eq_of_lt ?_
    rcases Nat.le_total layout.lengthShift.toNat 16 with hs | hs
    · rwa [Nat.min_eq_left hs]
    · rw [Nat.min_eq_right hs]
      exact header.toNat_lt
  simp only [readEntry, hadd, hheader.readUInt16, hlen, hb, hadd₂, htarget.readUInt32, hadd₃,
    hnumber.readUInt32, Except.toOption, Option.bind_eq_bind, Option.bind_some, if_true]

/-! ## Names -/

variable {m : Memory} {a : Address} {layout : PoolLayout} {b : Build} {index : UInt32}

theorem readPoolEntry_of_holdsPlain {entry : ℕ} {text : StoredText} (h0 : layout.wideMask ≠ 0)
    (hm : layout.wideMask.toNat < 2 ^ layout.lengthShift.toNat)
    (hi : PointsTo m a layout index entry) (ht : HoldsPlain m layout b entry text) :
    readPoolEntry m a layout b index = some (.plain text.units) := by
  obtain ⟨e, rfl⟩ := Address.exists_toNat_eq
    (Nat.lt_of_le_of_lt (Nat.le_add_right _ _) ht.header.lt)
  rw [hi.readPoolEntry b, readEntry_of_holdsPlain h0 hm ht]

theorem readPoolEntry_of_holdsNumbered {entry : ℕ} {target number : UInt32}
    (hb : b.outlineNumbers = true) (hi : PointsTo m a layout index entry)
    (hn : HoldsNumbered m layout b entry target number) :
    readPoolEntry m a layout b index = some (.numbered target number) := by
  obtain ⟨e, rfl⟩ := Address.exists_toNat_eq
    (Nat.lt_of_le_of_lt (Nat.le_add_right _ _) hn.target.lt)
  rw [hi.readPoolEntry b, readEntry_of_holdsNumbered hb hn]

theorem numberSuffix_of_ne {number : UInt32} (h : number ≠ 0) :
    numberSuffix number = Utf16.ofString ("_" ++ toString (number.toNat - 1)) :=
  if_neg h

/-- Decoding a pool undoes its encoding. A stored entry reads as its characters, with the number of
the name after them, and an entry that stands for it reads as it does with the number stored
there. -/
theorem readName?_pool_of_holdsPlain {entry : ℕ} {text : StoredText} (h0 : layout.wideMask ≠ 0)
    (hm : layout.wideMask.toNat < 2 ^ layout.lengthShift.toNat)
    (hi : PointsTo m a layout index entry) (ht : HoldsPlain m layout b entry text) :
    (pool a layout).readName? m b index 0 = .ok (some text.units) ∧
    (∀ number : UInt32, number ≠ 0 → (pool a layout).readName? m b index number =
      .ok (some (text.units ++ Utf16.ofString ("_" ++ toString (number.toNat - 1))))) ∧
    (b.outlineNumbers = true → ∀ (other : UInt32) (location : ℕ) (stored : UInt32),
      PointsTo m a layout other location → HoldsNumbered m layout b location index stored →
      ∀ number : UInt32, (pool a layout).readName? m b other number =
        (pool a layout).readName? m b index stored) := by
  have hplain := readPoolEntry_of_holdsPlain h0 hm hi ht
  refine ⟨?_, ?_, ?_⟩
  · simp only [readName?, readBase, hplain, Except.map, Option.map_some, numberSuffix, if_true,
      List.append_nil]
  · intro number hne
    simp only [readName?, readBase, hplain, Except.map, Option.map_some, numberSuffix_of_ne hne]
  · intro hb other location stored hp hn number
    have hnumbered := readPoolEntry_of_holdsNumbered hb hp hn
    simp only [readName?, readBase, hplain, hnumbered]

/-- Positions of four bytes, eight to a block. -/
def smallLayout : PoolLayout where
  blocksOffset := 0
  blockOffsetBits := 3
  maxBlocks := 2
  stride := 4

/-- A pool whose block one has a wide entry at position one and, at position four, one that stands
for it with the number three. -/
def smallPool : List UInt8 :=
  List.replicate 8 0 ++ littleEndianBytes 8 0x1010 ++ List.replicate 8 0 ++
    littleEndianBytes 2 0x81 ++ unitBytes [0x47, 0x540D] ++ List.replicate 10 0 ++
    littleEndianBytes 4 9 ++ littleEndianBytes 4 3

def smallBuild : Build where
  casePreserving := true
  outlineNumbers := true

theorem pointsTo_smallPool {index : UInt32} {position : ℕ} (hp : position < 8)
    (hi : index.toNat = 8 + position) :
    PointsTo (.ofMapping 0x1000 smallPool) 0x1000 smallLayout index (0x1010 + 4 * position) := by
  have hslot : (Memory.ofMapping 0x1000 smallPool).Holds 0x1008
      (littleEndianBytes 8 (0x1010 : Address).toNat) :=
    ⟨0x1008, by decide, by decide⟩
  have hentry : PointsTo (.ofMapping 0x1000 smallPool) 0x1000 smallLayout index
      ((0x1010 : Address).toNat + smallLayout.stride.toNat * position) :=
    .entry (by decide : 1 < 2) hp hi (by decide) hslot
  exact hentry

/-- In the small pool the entry at position four reads as the wide one, with its own number. -/
theorem readName?_pool_of_wide_and_numbered :
    PointsTo (.ofMapping 0x1000 smallPool) 0x1000 smallLayout 9 0x1014 ∧
    HoldsPlain (.ofMapping 0x1000 smallPool) smallLayout smallBuild 0x1014
      (.wide [0x47, 0x540D]) ∧
    (pool 0x1000 smallLayout).readName? (.ofMapping 0x1000 smallPool) smallBuild 9 0 =
      .ok (some [0x47, 0x540D]) ∧
    (pool 0x1000 smallLayout).readName? (.ofMapping 0x1000 smallPool) smallBuild 12 0 =
      .ok (some ([0x47, 0x540D] ++ Utf16.ofString ("_" ++ toString 2))) := by
  have hi := pointsTo_smallPool (by decide : 1 < 8) (by decide : (9 : UInt32).toNat = 8 + 1)
  have ho := pointsTo_smallPool (by decide : 4 < 8) (by decide : (12 : UInt32).toNat = 8 + 4)
  have ht : HoldsPlain (.ofMapping 0x1000 smallPool) smallLayout smallBuild 0x1014
      (.wide [0x47, 0x540D]) := {
    length_pos := by decide
    length_le := by decide
    fits := by decide
    header := ⟨0x1018, by decide, by decide⟩
    characters := ⟨0x101A, by decide, by decide⟩ }
  have hn : HoldsNumbered (.ofMapping 0x1000 smallPool) smallLayout smallBuild 0x1020 9 3 := {
    header := ⟨0, by decide, 0x1024, by decide, by decide⟩
    target := ⟨0x1028, by decide, by decide⟩
    number := ⟨0x102C, by decide, by decide⟩ }
  obtain ⟨hplain, hnumber, hother⟩ :=
    readName?_pool_of_holdsPlain (by decide) (by decide) hi ht
  refine ⟨hi, ht, hplain, ?_⟩
  rw [hother rfl 12 _ 3 ho hn 0, hnumber 3 (by decide)]
  rfl

end NameTable

end EngineNames
