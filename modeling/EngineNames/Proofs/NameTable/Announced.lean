import EngineNames.Proofs.Memory.ShortReads

/-! # Announced characters

The header of a pool entry announces how many characters there are. Everything up to them is read in
full or not at all, but the characters are taken as the read gives them, so a name has the announced
length exactly if that read is complete.
-/

namespace EngineNames

/-- The characters that a header announces: how many, how wide, and where they start. -/
structure Announcement where
  length : ℕ
  wide : Bool
  start : Address
deriving DecidableEq, Repr

namespace Announcement

def size (c : Announcement) : ℕ :=
  unitSize c.wide * c.length

def read? (c : Announcement) (m : Memory) : Option (List UInt16) :=
  (m.readCharacters c.wide c.start c.length).toOption

theorem read?_eq (c : Announcement) (m : Memory) :
    c.read? m = (m.readBytes c.start c.size).toOption.map (charactersOf c.wide) := by
  rw [read?, Memory.readCharacters_eq, size]
  cases m.readBytes c.start (unitSize c.wide * c.length) <;> rfl

end Announcement

namespace NameTable

/-- The address of the entry of an index. -/
def entryAt? (m : Memory) (a : Address) (layout : PoolLayout) (index : UInt32) :
    Option Address := do
  let (block, position) := splitIndex layout.blockOffsetBits index
  let start ← readBlock m a layout block
  start.add? (← Address.mul? (UInt64.ofNat position) layout.stride)

/-- What the header of an entry announces; none for an entry without characters, or with more of
them than are believed. -/
def header? (m : Memory) (layout : PoolLayout) (b : Build) (entry : Address) :
    Option Announcement := do
  let headerAt ← entry.add? b.poolHeaderOffset
  let (length, wide) := splitHeader layout (← (m.readUInt16 headerAt).toOption)
  if length = 0 ∨ layout.maxNameLength.toNat < length then none
  else some ⟨length, wide, ← headerAt.add? 2⟩

def headerAt? (m : Memory) (a : Address) (layout : PoolLayout) (b : Build) (index : UInt32) :
    Option Announcement :=
  (entryAt? m a layout index).bind (header? m layout b)

/-- The characters that are announced for a name, and the number that follows them. An entry that
stands for another one brings its own number. -/
def announced? (m : Memory) (a : Address) (layout : PoolLayout) (b : Build)
    (index number : UInt32) : Option (Announcement × UInt32) :=
  match readPoolEntry m a layout b index with
  | some (.numbered target own) => (headerAt? m a layout b target).map (·, own)
  | _ => (headerAt? m a layout b index).map (·, number)

variable {m : Memory} {a : Address} {layout : PoolLayout} {b : Build} {index number : UInt32}

/-! ## Entries -/

/-- The characters of an entry are what is read where its header announces them. -/
theorem readEntry_eq_plain_iff {entry : Address} {units : List UInt16} :
    readEntry m layout b entry = some (.plain units) ↔
      (header? m layout b entry).bind (·.read? m) = some units := by
  unfold readEntry header?
  cases hh : entry.add? b.poolHeaderOffset with
  | none => simp
  | some headerAt =>
      cases hw : m.readUInt16 headerAt with
      | error e => simp [hw, Except.toOption]
      | ok header =>
          simp only [hw, Except.toOption, Option.bind_eq_bind, Option.bind_some]
          generalize splitHeader layout header = told
          obtain ⟨length, wide⟩ := told
          by_cases h0 : length = 0
          · simp only [h0, if_true, true_or, Option.bind_none, reduceCtorEq, iff_false]
            simp [Option.bind_eq_some_iff]
          · by_cases hmax : layout.maxNameLength.toNat < length
            · simp [h0, hmax]
            · cases headerAt.add? 2 with
              | none => simp [h0, hmax]
              | some start =>
                  simp only [h0, hmax, or_self, if_false, Option.bind_some, Announcement.read?]
                  cases m.readCharacters wide start length <;> simp [Except.toOption]

theorem readPoolEntry_eq : readPoolEntry m a layout b index =
    (entryAt? m a layout index).bind (readEntry m layout b) := by
  simp only [readPoolEntry, entryAt?, Option.bind_eq_bind, Option.bind_assoc]

theorem readPoolEntry_eq_plain_iff {units : List UInt16} :
    readPoolEntry m a layout b index = some (.plain units) ↔
      (headerAt? m a layout b index).bind (·.read? m) = some units := by
  rw [readPoolEntry_eq, headerAt?]
  cases entryAt? m a layout index with
  | none => simp
  | some entry => exact readEntry_eq_plain_iff

/-- The characters that are announced at an index are there if its entry is a plain one. -/
theorem headerAt?_bind_read? : (headerAt? m a layout b index).bind (·.read? m) =
    match readPoolEntry m a layout b index with
    | some (.plain units) => some units
    | _ => none := by
  apply Option.ext
  intro units
  rw [← readPoolEntry_eq_plain_iff]
  split
  · rename_i own h
    simp [h]
  · rename_i h
    constructor
    · intro hp
      exact (h units hp).elim
    · intro hn
      cases hn

/-! ## Names -/

/-- A name is read where its characters are announced. -/
theorem readBase_pool_eq : (pool a layout).readBase m b index number =
    .ok ((announced? m a layout b index number).bind fun (c, own) =>
      (c.read? m).map (·, own)) := by
  have hpair (i own : UInt32) :
      ((headerAt? m a layout b i).map (·, own)).bind
        (fun (c, own) => (c.read? m).map (·, own)) =
      ((headerAt? m a layout b i).bind (·.read? m)).map (·, own) := by
    cases headerAt? m a layout b i <;> rfl
  simp only [readBase, announced?]
  cases hr : readPoolEntry m a layout b index with
  | none => rw [hpair, headerAt?_bind_read?, hr]; rfl
  | some found =>
      cases found with
      | plain units => rw [hpair, headerAt?_bind_read?, hr]; rfl
      | numbered target own =>
          simp only [hpair, headerAt?_bind_read?]
          cases readPoolEntry m a layout b target with
          | none => rfl
          | some found => cases found <;> rfl

theorem readName?_pool_of_announced {c : Announcement} {own : UInt32}
    (h : announced? m a layout b index number = some (c, own)) :
    (pool a layout).readName? m b index number =
      .ok ((c.read? m).map (· ++ numberSuffix own)) := by
  rw [readName?, readBase_pool_eq, h, Option.bind_some, Except.map, Option.map_map]
  rfl

theorem readName?_pool_of_unannounced (h : announced? m a layout b index number = none) :
    (pool a layout).readName? m b index number = .ok none := by
  rw [readName?, readBase_pool_eq, h]
  rfl

/-- What a memory whose reads may come short gives for words, for units and for the names of a
pool. -/
structure ShortReadSpec (m : Memory) : Prop where
  /-- Words come from complete reads only. -/
  word : ∀ a size value, m.readWord a size = .ok value →
    ∃ bytes, m.readBytes a size = .ok bytes ∧ bytes.length = size
  units : ∀ a n found, m.readUnits a n = .ok found → found.length ≤ n ∧
    (found.length = n ↔ ∃ bytes, m.readBytes a (2 * n) = .ok bytes ∧ bytes.length = 2 * n)
  unannounced : ∀ a layout b index number, announced? m a layout b index number = none →
    (pool a layout).readName? m b index number = .ok none
  unreadable : ∀ a layout b index number c own,
    announced? m a layout b index number = some (c, own) →
    ∀ e, m.readBytes c.start c.size = .error e →
      (pool a layout).readName? m b index number = .ok none
  /-- A name is made of the bytes that there are. It has the announced length exactly if these are
  all that were asked for, and otherwise it is cut. -/
  name : ∀ a layout b index number c own,
    announced? m a layout b index number = some (c, own) →
    ∀ bytes, m.readBytes c.start c.size = .ok bytes →
      (pool a layout).readName? m b index number =
        .ok (some (charactersOf c.wide bytes ++ numberSuffix own)) ∧
      (charactersOf c.wide bytes).length ≤ c.length ∧
      ((charactersOf c.wide bytes).length = c.length ↔ bytes.length = c.size)

theorem short_read_spec (hm : m.Bounded) : ShortReadSpec m := by
  refine ⟨?_, ?_, ?_, ?_, ?_⟩
  · intro a size value h
    exact Memory.exists_of_readWord_eq_ok h
  · intro a n found h
    exact hm.length_readUnits h
  · intro a layout b index number h
    exact readName?_pool_of_unannounced h
  · intro a layout b index number c own h e he
    rw [readName?_pool_of_announced h, c.read?_eq, he]
    rfl
  · intro a layout b index number c own h bytes hb
    refine ⟨?_, hm.length_charactersOf hb⟩
    rw [readName?_pool_of_announced h, c.read?_eq, hb]
    rfl

/-- A block with nine narrow characters at position zero and five wide ones at position six. -/
def twoEntryPool : List UInt8 :=
  List.replicate 16 0 ++ littleEndianBytes 8 0x1018 ++
    littleEndianBytes 2 0x240 ++ [67, 104, 97, 114, 97, 99, 116, 101, 114, 0] ++
    littleEndianBytes 2 0x141 ++ unitBytes [0x540D, 0x524D, 0x30C6, 0x30B9, 0x30C8]

/-- With nine bytes at a time the narrow name is complete. Of the wide one the last unit is lost,
of which there is one byte. -/
theorem short_read_spec_of_nine_bytes :
    ((Memory.ofMapping 0x1000 twoEntryPool).limited 9).Bounded ∧
    ShortReadSpec ((Memory.ofMapping 0x1000 twoEntryPool).limited 9) ∧
    (pool 0x1000 {}).readName? ((Memory.ofMapping 0x1000 twoEntryPool).limited 9) {} 0 0 =
      .ok (some [67, 104, 97, 114, 97, 99, 116, 101, 114]) ∧
    (pool 0x1000 {}).readName? ((Memory.ofMapping 0x1000 twoEntryPool).limited 9) {} 6 0 =
      .ok (some [0x540D, 0x524D, 0x30C6, 0x30B9]) := by
  have hm : ((Memory.ofMapping 0x1000 twoEntryPool).limited 9).Bounded :=
    (Memory.bounded_ofMapping 0x1000 twoEntryPool).limited 9
  have hspec := short_read_spec hm
  have hnarrow := hspec.name 0x1000 {} {} 0 0 ⟨9, false, 0x101A⟩ 0 (by decide) _ rfl
  have hwide := hspec.name 0x1000 {} {} 6 0 ⟨5, true, 0x1026⟩ 0 (by decide) _ rfl
  exact ⟨hm, hspec, hnarrow.1, hwide.1⟩

/-- A read of units may give fewer, and a name may be cut although its header tells its length. -/
theorem not_readName?_pool_of_short_read :
    (¬∀ (m : Memory) (a : Address) (n : ℕ) (found : List UInt16), m.Bounded →
      m.readUnits a n = .ok found → found.length = n) ∧
    ¬∀ (m : Memory) (a : Address) (layout : PoolLayout) (b : Build) (index number : UInt32)
      (name : List UInt16), m.Bounded →
      (pool a layout).readName? m b index number = .ok (some name) →
      ∃ c own base, announced? m a layout b index number = some (c, own) ∧
        name = base ++ numberSuffix own ∧ base.length = c.length := by
  have hm : ((Memory.ofMapping 0x1000 twoEntryPool).limited 8).Bounded :=
    (Memory.bounded_ofMapping 0x1000 twoEntryPool).limited 8
  constructor
  · intro h
    exact absurd (h _ 0x1026 5 _ hm rfl) (by decide)
  · intro h
    have ha : announced? ((Memory.ofMapping 0x1000 twoEntryPool).limited 8) 0x1000 {} {} 0 0 =
        some (⟨9, false, 0x101A⟩, 0) := by
      decide
    obtain ⟨c, own, base, hc, hname, hlen⟩ := h _ 0x1000 {} {} 0 0
      [67, 104, 97, 114, 97, 99, 116, 101] hm (readName?_pool_of_announced ha)
    obtain ⟨rfl, rfl⟩ := Prod.mk.inj (Option.some.inj (ha.symm.trans hc))
    have hl := congrArg List.length hname
    rw [List.length_append, hlen] at hl
    exact absurd hl (by decide)

end NameTable

end EngineNames
