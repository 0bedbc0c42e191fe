import EngineNames.Proofs.Memory.Locations
import EngineNames.Proofs.NameTable.Pieces
import EngineNames.Proofs.NameTable.Pool

/-! # Tables walked with exact sums

A table can be walked a second time with natural numbers for its locations, so that no sum and no
product has a bound. All that is known of the end of the address space is that nothing can be read
there and behind it. Both walks come to the same, except where an array believes no characters: then
none is read, and it is only the first one that asks whether they would start at an address.
-/

namespace EngineNames

/-! ## The exact walk -/

namespace Memory

/-- The piece of a string that follows the units read so far. -/
def nextPiece? (m : Memory) (wide : Bool) (start maxLength : ℕ) (done : List UInt16) :
    Option (List UInt16) :=
  m.charactersAt? wide (start + done.length * unitSize wide)
    (min pieceLength (maxLength - done.length))

/-- The units of a string before its null, read in pieces at exact positions. -/
def exactTerminated (m : Memory) (wide : Bool) (start maxLength : ℕ) (done : List UInt16) :
    Terminated :=
  if _hlt : done.length < maxLength then
    match m.nextPiece? wide start maxLength done with
    | none => .unreadable
    | some piece =>
        let text := piece.takeWhile (· != 0)
        if text.length < piece.length then .found (done ++ text)
        else if _hne : piece = [] then .stalled
        else exactTerminated m wide start maxLength (done ++ piece)
  else .found done
termination_by maxLength - done.length
decreasing_by
  have := List.length_pos_iff.mpr _hne
  simp only [List.length_append]
  omega

end Memory

namespace NameTable

/-- Where a block starts; none for a null pointer. -/
def exactBlock? (m : Memory) (a : ℕ) (layout : PoolLayout) (block : ℕ) : Option ℕ :=
  if layout.maxBlocks.toNat ≤ block then none
  else m.pointerAt? (a + layout.blocksOffset.toNat + 8 * block)

/-- What an entry without characters stands for: an index and a number. -/
def exactNumbered? (m : Memory) (data : ℕ) : Option PoolEntry := do
  let target ← m.wordAt? data 4
  let number ← m.wordAt? (data + 4) 4
  some (.numbered (.ofNat target) (.ofNat number))

def exactPlain? (m : Memory) (wide : Bool) (length start : ℕ) : Option PoolEntry :=
  (m.charactersAt? wide start length).map .plain

/-- The entry at a location whose header is at another one. -/
def exactHeaded? (m : Memory) (layout : PoolLayout) (b : Build) (entry headerAt : ℕ) :
    Option PoolEntry := do
  let header ← m.wordAt? headerAt 2
  let length := header / 2 ^ layout.lengthShift.toNat
  if length = 0 then
    if b.outlineNumbers then exactNumbered? m (entry + b.poolNumberedOffset.toNat) else none
  else if layout.maxNameLength.toNat < length then none
  else exactPlain? m (header &&& layout.wideMask.toNat != 0) length (headerAt + 2)

def exactEntryAt? (m : Memory) (layout : PoolLayout) (b : Build) (entry : ℕ) : Option PoolEntry :=
  exactHeaded? m layout b entry (entry + b.poolHeaderOffset.toNat)

/-- The pool entry of an index: the block that its high bits choose, and there as many strides as
its low bits say. -/
def exactEntryOf? (m : Memory) (a : ℕ) (layout : PoolLayout) (b : Build) (index : ℕ) :
    Option PoolEntry := do
  let start ← exactBlock? m a layout (index / 2 ^ layout.blockOffsetBits.toNat)
  exactEntryAt? m layout b (start + index % 2 ^ layout.blockOffsetBits.toNat * layout.stride.toNat)

/-- Where the array entry of an index starts; none where a pointer is null. -/
def exactArrayAt? (m : Memory) (a : ℕ) (layout : ArrayLayout) (index : ℕ) : Option ℕ := do
  if layout.elementsPerChunk = 0 then none
  else
    let chunk ← m.pointerAt? (a + 8 * (index / layout.elementsPerChunk.toNat))
    m.pointerAt? (chunk + 8 * (index % layout.elementsPerChunk.toNat))

/-- The width of the characters of an array entry, and where they start. -/
def exactText? (m : Memory) (a : ℕ) (layout : ArrayLayout) (index : ℕ) : Option (Bool × ℕ) := do
  let entry ← exactArrayAt? m a layout index
  let field ← m.wordAt? (entry + layout.entryIndexOffset.toNat) 4
  some (field % 2 == 1, entry + layout.entryStringOffset.toNat)

/-- What comes of reading the array entry of an index. -/
def exactLookup (m : Memory) (a : ℕ) (layout : ArrayLayout) (index : ℕ) : Terminated :=
  match exactText? m a layout index with
  | none => .unreadable
  | some (wide, start) => m.exactTerminated wide start layout.maxNameLength.toNat []

/-- The name that an index stands for and the number that goes with it. -/
def exactBase? (t : NameTable) (m : Memory) (b : Build) (index number : UInt32) :
    Except Trap (Option (List UInt16 × UInt32)) :=
  match t with
  | pool a layout =>
      match exactEntryOf? m a.toNat layout b index.toNat with
      | some (.plain units) => .ok (some (units, number))
      | some (.numbered target own) =>
          match exactEntryOf? m a.toNat layout b target.toNat with
          | some (.plain units) => .ok (some (units, own))
          | _ => .ok none
      | none => .ok none
  | array a layout =>
      match exactLookup m a.toNat layout index.toNat with
      | .found units => .ok (some (units, number))
      | .unreadable => .ok none
      | .stalled => .error .endless

/-- The name of an index and a number. -/
def exactName? (t : NameTable) (m : Memory) (b : Build) (index number : UInt32) :
    Except Trap (Option (List UInt16)) :=
  (t.exactBase? m b index number).map fun found =>
    found.map fun (units, own) => units ++ numberSuffix own

/-! ## Pools -/

variable {m : Memory} {a : Address} {b : Build}

theorem splitHeader_eq_exact (layout : PoolLayout) (header : UInt16) :
    splitHeader layout header = (header.toNat / 2 ^ layout.lengthShift.toNat,
      header.toNat &&& layout.wideMask.toNat != 0) := by
  have hlength : header.toNat >>> min layout.lengthShift.toNat 16 =
      header.toNat / 2 ^ layout.lengthShift.toNat := by
    rw [Nat.shiftRight_eq_div_pow]
    rcases Nat.le_total layout.lengthShift.toNat 16 with hle | hle
    · rw [Nat.min_eq_left hle]
    · -- A header has 16 bits, so a longer shift leaves none of them either.
      have hlt : header.toNat < 2 ^ 16 := header.toNat_lt
      have hpow : 2 ^ 16 ≤ 2 ^ layout.lengthShift.toNat := Nat.pow_le_pow_right (by decide) hle
      rw [Nat.min_eq_right hle, Nat.div_eq_of_lt hlt,
        Nat.div_eq_of_lt (Nat.lt_of_lt_of_le hlt hpow)]
  have hwide : (header &&& layout.wideMask != 0) =
      (header.toNat &&& layout.wideMask.toNat != 0) := by
    rw [Bool.eq_iff_iff, bne_iff_ne, bne_iff_ne, ← UInt16.toNat_and, ne_eq, ne_eq,
      ← UInt16.toNat_inj]
    rfl
  rw [splitHeader, hlength, hwide]

theorem splitIndex_eq_exact (bits index : UInt32) :
    splitIndex bits index = (index.toNat / 2 ^ bits.toNat, index.toNat % 2 ^ bits.toNat) :=
  splitIndex_eq (Nat.mod_lt _ (Nat.two_pow_pos _)) (Nat.div_add_mod' _ _).symm

section Pool

variable {layout : PoolLayout} {index : UInt32}

theorem readBlock_bind_eq_exact {α : Type} {block : ℕ} {f : Address → Option α}
    {g : ℕ → Option α} (h : ∀ start, f start = g start.toNat) :
    (readBlock m a layout block).bind f = (exactBlock? m a.toNat layout block).bind g := by
  unfold readBlock exactBlock?
  split
  · rfl
  · simp only [Option.bind_eq_bind, Option.bind_assoc]
    refine Address.bind_ofNat?_eq (g := fun n => (m.pointerAt? (n + 8 * block)).bind g)
      (fun table => ?_) (fun n hn => ?_) _
    · rw [← Memory.ofNat?_bind_readPointer h]
      congr 1
      funext slot
      congr 1
      funext start
      split <;> rfl
    · rw [Memory.pointerAt?_of_le (Nat.le_add_right_of_le hn), Option.bind_none]

theorem exactEntryAt?_of_le {entry : ℕ} (h : 2 ^ 64 ≤ entry) :
    exactEntryAt? m layout b entry = none := by
  simp only [exactEntryAt?, exactHeaded?, Memory.wordAt?_of_le (Nat.le_add_right_of_le h),
    Option.bind_eq_bind, Option.bind_none]

theorem readNumbered_eq_exact {entry : Address} :
    ((entry.add? b.poolNumberedOffset).bind fun data =>
      (m.readUInt32 data).toOption.bind fun target =>
        (data.add? 4).bind fun place =>
          (m.readUInt32 place).toOption.bind fun number =>
            some (PoolEntry.numbered target number)) =
      exactNumbered? m (entry.toNat + b.poolNumberedOffset.toNat) := by
  refine Address.bind_ofNat?_eq (g := exactNumbered? m) (fun data => ?_) (fun n hn => ?_) _
  · refine Memory.toOption_readUInt32_bind fun target => ?_
    refine Memory.ofNat?_bind_readUInt32 (fun number => ?_) _
    rw [UInt32.ofNat_toNat, UInt32.ofNat_toNat]
  · rw [exactNumbered?, Memory.wordAt?_of_le hn]
    rfl

theorem readPlain_eq_exact {headerAt : Address} {wide : Bool} {length : ℕ} :
    ((headerAt.add? 2).bind fun start => (m.readCharacters wide start length).toOption.bind
      fun units => some (PoolEntry.plain units)) =
      exactPlain? m wide length (headerAt.toNat + 2) := by
  refine Address.bind_ofNat?_eq (g := exactPlain? m wide length) (fun start => ?_)
    (fun n hn => ?_) _
  · rw [Memory.toOption_readCharacters, exactPlain?, Option.map_eq_bind]
    rfl
  · rw [exactPlain?, Memory.charactersAt?_of_le hn, Option.map_none]

theorem readEntry_eq_exact {entry : Address} :
    readEntry m layout b entry = exactEntryAt? m layout b entry.toNat := by
  simp only [readEntry, exactEntryAt?, Option.bind_eq_bind, splitHeader_eq_exact]
  refine Address.bind_ofNat?_eq (g := exactHeaded? m layout b entry.toNat) (fun headerAt => ?_)
    (fun n hn => ?_) _
  · refine Memory.toOption_readUInt16_bind fun header => ?_
    simp only [readNumbered_eq_exact, readPlain_eq_exact]
  · rw [exactHeaded?, Memory.wordAt?_of_le hn]
    rfl

/-- In a pool the two walks come to the same. -/
theorem readPoolEntry_eq_exact :
    readPoolEntry m a layout b index = exactEntryOf? m a.toNat layout b index.toNat := by
  simp only [readPoolEntry, exactEntryOf?, Option.bind_eq_bind, splitIndex_eq_exact]
  refine readBlock_bind_eq_exact fun start => ?_
  have hindex := index.toNat_lt
  have hposition : (UInt64.ofNat (index.toNat % 2 ^ layout.blockOffsetBits.toNat)).toNat =
      index.toNat % 2 ^ layout.blockOffsetBits.toNat := by
    refine UInt64.toNat_ofNat_of_lt' (Nat.lt_of_le_of_lt (Nat.mod_le _ _) ?_)
    exact Nat.lt_trans hindex (by decide)
  refine (Address.bind_ofNat?_eq
    (g := fun distance => exactEntryAt? m layout b (start.toNat + distance))
    (fun distance => ?_) (fun n hn => ?_) _).trans ?_
  · refine Address.bind_ofNat?_eq (g := exactEntryAt? m layout b) (fun entry => ?_)
      (fun n hn => ?_) _
    · exact readEntry_eq_exact
    · exact exactEntryAt?_of_le hn
  · exact exactEntryAt?_of_le (Nat.le_add_left_of_le hn)
  · rw [hposition]

end Pool

/-! ## Arrays -/

section Array

variable {layout : ArrayLayout} {index : UInt32}

theorem arrayEntry?_bind_eq_exact {α : Type} {f : Address → Option α} {g : ℕ → Option α}
    (h : ∀ entry, f entry = g entry.toNat) :
    arrayEntry? m a layout index >>= f =
      (exactArrayAt? m a.toNat layout index.toNat).bind g := by
  have hentry (n : ℕ) : ((Address.ofNat? n).bind fun slot =>
      (m.readPointer slot).toOption.bind fun entry =>
        (if entry = 0 then none else some entry).bind f) = (m.pointerAt? n).bind g := by
    rw [← Memory.ofNat?_bind_readPointer h]
    congr 1
    funext slot
    congr 1
    funext entry
    split <;> rfl
  unfold arrayEntry? exactArrayAt?
  split
  · rfl
  · simp only [Option.bind_eq_bind, Option.bind_assoc]
    rw [← Memory.ofNat?_bind_readPointer
      (f := fun chunk => (m.pointerAt? (chunk.toNat + 8 * (index.toNat %
        layout.elementsPerChunk.toNat))).bind g) (fun chunk => rfl)]
    congr 1
    funext slot
    congr 1
    funext chunk
    split
    · rfl
    · simp only [Option.bind_assoc]
      exact hentry _

theorem arrayText?_eq_exact : arrayText? m a layout index =
    (exactText? m a.toNat layout index.toNat).bind fun (wide, start) =>
      (Address.ofNat? start).map (wide, ·) := by
  simp only [arrayText?, exactText?, Option.bind_eq_bind, Option.bind_assoc, Option.bind_some]
  refine arrayEntry?_bind_eq_exact fun entry => ?_
  refine Memory.ofNat?_bind_readUInt32 (fun field => ?_) _
  rw [and_one_bne_zero, Option.map_eq_bind]
  rfl

end Array

end NameTable

/-! ## Strings -/

namespace Memory

variable {m : Memory} {wide : Bool} {maxLength : ℕ}

theorem nextPiece?_of_ofNat?_eq (m : Memory) (maxLength : ℕ) {start : ℕ} {done : List UInt16}
    {place : Option Address} (h : Address.ofNat? (start + done.length * unitSize wide) = place) :
    m.nextPiece? wide start maxLength done = place.bind fun position =>
      (m.readCharacters wide position (min pieceLength (maxLength - done.length))).toOption := by
  rw [← h]
  refine (Address.bind_ofNat?_eq
    (g := fun n => m.charactersAt? wide n (min pieceLength (maxLength - done.length)))
    (fun _ => ?_) (fun _ hn => ?_) _).symm
  · exact toOption_readCharacters
  · exact charactersAt?_of_le hn

/-- From an address the same comes of the exact positions. By induction on the pieces. -/
theorem readTerminatedFrom_eq_exact {start : Address} {done : List UInt16} :
    m.readTerminatedFrom wide start maxLength done =
      m.exactTerminated wide start.toNat maxLength done := by
  fun_induction readTerminatedFrom m wide start maxLength done with
  | case1 done hlt hposition =>
      have hpiece := nextPiece?_of_ofNat?_eq m maxLength hposition
      rw [exactTerminated, dif_pos hlt, hpiece]
      rfl
  | case2 done hlt position hposition e hread =>
      have hpiece := nextPiece?_of_ofNat?_eq m maxLength hposition
      rw [exactTerminated, dif_pos hlt, hpiece, Option.bind_some, hread]
      rfl
  | case3 done hlt position hposition piece hread text htext =>
      have hpiece := nextPiece?_of_ofNat?_eq m maxLength hposition
      rw [exactTerminated, dif_pos hlt, hpiece, Option.bind_some, hread]
      exact (if_pos htext).symm
  | case4 done hlt position hposition hread text htext =>
      have hpiece := nextPiece?_of_ofNat?_eq m maxLength hposition
      rw [exactTerminated, dif_pos hlt, hpiece, Option.bind_some, hread]
      rfl
  | case5 done hlt position hposition piece hread text htext hne ih =>
      have hpiece := nextPiece?_of_ofNat?_eq m maxLength hposition
      rw [exactTerminated, dif_pos hlt, hpiece, Option.bind_some, hread]
      simp only [Except.toOption]
      rw [if_neg htext, dif_neg hne, ih]
  | case6 done hge => rw [exactTerminated, dif_neg hge]

theorem exactTerminated_of_le {start : ℕ} (h : 2 ^ 64 ≤ start) (hmax : 0 < maxLength) :
    m.exactTerminated wide start maxLength [] = .unreadable := by
  rw [exactTerminated, List.length_nil, dif_pos hmax, nextPiece?,
    charactersAt?_of_le (Nat.le_add_right_of_le h)]

theorem exactTerminated_zero {start : ℕ} :
    m.exactTerminated wide start 0 [] = .found [] := by
  rw [exactTerminated, List.length_nil, dif_neg (Nat.lt_irrefl 0)]

end Memory

namespace NameTable

variable {m : Memory} {b : Build} {index number : UInt32}

/-- An array of empty strings, one of which would start behind the last address. -/
def StartsOutside (t : NameTable) (m : Memory) (index : UInt32) : Prop :=
  match t with
  | pool _ _ => False
  | array a layout => layout.maxNameLength.toNat = 0 ∧
      ∃ wide start, exactText? m a.toNat layout index.toNat = some (wide, start) ∧ 2 ^ 64 ≤ start

section Array

variable {a : Address} {layout : ArrayLayout}

theorem lookupArray_eq_exact (h : ¬ (array a layout).StartsOutside m index) :
    lookupArray m a layout index = exactLookup m a.toNat layout index.toNat := by
  rw [lookupArray, exactLookup, arrayText?_eq_exact]
  cases htext : exactText? m a.toNat layout index.toNat with
  | none => rfl
  | some text =>
      obtain ⟨wide, start⟩ := text
      simp only [Option.bind_some]
      cases hstart : Address.ofNat? start with
      | some position =>
          obtain rfl := Address.ofNat?_eq_some_iff.mp hstart
          exact Memory.readTerminatedFrom_eq_exact
      | none =>
          have hout : 2 ^ 64 ≤ start := by
            by_contra hlt
            obtain ⟨position, rfl⟩ := Address.exists_toNat_eq (Nat.lt_of_not_le hlt)
            rw [Address.ofNat?_eq_some_iff.mpr rfl] at hstart
            cases hstart
          have hmax : 0 < layout.maxNameLength.toNat :=
            Nat.pos_of_ne_zero fun hzero => h ⟨hzero, wide, start, htext, hout⟩
          exact (Memory.exactTerminated_of_le hout hmax).symm

/-- Only the first walk fails where a string would start outside: the other one reads nothing, and
so misses nothing. -/
theorem lookups_of_startsOutside (h : (array a layout).StartsOutside m index) :
    lookupArray m a layout index = .unreadable ∧
      exactLookup m a.toNat layout index.toNat = .found [] := by
  obtain ⟨hzero, wide, start, htext, hout⟩ := h
  have hstart : Address.ofNat? start = none := if_neg (Nat.not_lt.mpr hout)
  constructor
  · rw [lookupArray, arrayText?_eq_exact, htext, Option.bind_some]
    simp only [hstart, Option.map_none]
  · rw [exactLookup, htext, hzero]
    exact Memory.exactTerminated_zero

theorem readName?_of_startsOutside (h : (array a layout).StartsOutside m index) :
    (array a layout).readName? m b index number = .ok none ∧
      (array a layout).exactName? m b index number = .ok (some (numberSuffix number)) := by
  obtain ⟨hread, hexact⟩ := lookups_of_startsOutside h
  constructor
  · rw [readName?, readBase, hread]
    rfl
  · rw [exactName?, exactBase?, hexact]
    rfl

end Array

theorem readBase_eq_exact {t : NameTable} (h : ¬ t.StartsOutside m index) :
    t.readBase m b index number = t.exactBase? m b index number := by
  cases t with
  | pool a layout =>
      cases hentry : exactEntryOf? m a.toNat layout b index.toNat with
      | none => simp only [readBase, exactBase?, readPoolEntry_eq_exact, hentry]
      | some entry =>
          cases entry with
          | plain units => simp only [readBase, exactBase?, readPoolEntry_eq_exact, hentry]
          | numbered target own =>
              cases htarget : exactEntryOf? m a.toNat layout b target.toNat with
              | none => simp only [readBase, exactBase?, readPoolEntry_eq_exact, hentry, htarget]
              | some further => cases further <;>
                  simp only [readBase, exactBase?, readPoolEntry_eq_exact, hentry, htarget]
  | array a layout =>
      cases hlookup : exactLookup m a.toNat layout index.toNat <;>
        simp only [readBase, exactBase?, lookupArray_eq_exact h, hlookup]

/-! ## Both walks -/

/-- What a table gives, told by the exact walk. -/
structure ExactSpec (t : NameTable) (m : Memory) (b : Build) (index number : UInt32) : Prop where
  same : ¬ t.StartsOutside m index → t.readName? m b index number = t.exactName? m b index number
  outside : t.StartsOutside m index → t.readName? m b index number = .ok none ∧
    t.exactName? m b index number = .ok (some (numberSuffix number))
  /-- Neither walk ends where the other one does. -/
  stalls : ∀ a layout, t = array a layout → (lookupArray m a layout index = .stalled ↔
    exactLookup m a.toNat layout index.toNat = .stalled)
  index_eq : ∀ bits : UInt32, index.toNat =
    (splitIndex bits index).1 * 2 ^ bits.toNat + (splitIndex bits index).2
  position_lt : ∀ bits : UInt32, (splitIndex bits index).2 < 2 ^ bits.toNat
  one_block : ∀ bits : UInt32, 32 ≤ bits.toNat → (splitIndex bits index).1 = 0
  few_blocks : ∀ a layout, t = pool a layout →
    layout.maxBlocks.toNat ≤ (splitIndex layout.blockOffsetBits index).1 →
    t.readName? m b index number = .ok none
  /-- The name that a number belongs to has none of its own, not even this one. -/
  one_number : ∀ a layout target own further other, t = pool a layout →
    readPoolEntry m a layout b index = some (.numbered target own) →
    readPoolEntry m a layout b target = some (.numbered further other) →
    t.readName? m b index number = .ok none

theorem readPoolEntry_of_max_le {a : Address} {layout : PoolLayout}
    (h : layout.maxBlocks.toNat ≤ (splitIndex layout.blockOffsetBits index).1) :
    readPoolEntry m a layout b index = none := by
  simp only [readPoolEntry, readBlock, if_pos h, Option.bind_eq_bind, Option.bind_none]

/-- No address wraps around on the way to a name, whatever stands in memory and however the table is
laid out: a table is read as if its locations were numbers without a bound. -/
theorem exact_spec (t : NameTable) (m : Memory) (b : Build) (index number : UInt32) :
    t.ExactSpec m b index number where
  same h := by rw [readName?, exactName?, readBase_eq_exact h]
  outside h := by
    cases t with
    | pool a layout => exact h.elim
    | array a layout => exact readName?_of_startsOutside h
  stalls := by
    rintro a layout rfl
    by_cases h : (array a layout).StartsOutside m index
    · obtain ⟨hread, hexact⟩ := lookups_of_startsOutside h
      simp only [hread, hexact, reduceCtorEq]
    · rw [lookupArray_eq_exact h]
  index_eq bits := by
    rw [splitIndex_eq_exact]
    exact (Nat.div_add_mod' _ _).symm
  position_lt bits := by
    rw [splitIndex_eq_exact]
    exact Nat.mod_lt _ (Nat.two_pow_pos _)
  one_block bits h := by
    rw [splitIndex_eq_exact]
    exact Nat.div_eq_of_lt (Nat.lt_of_lt_of_le index.toNat_lt (Nat.pow_le_pow_right (by decide) h))
  few_blocks := by
    rintro a layout rfl h
    simp only [readName?, readBase, readPoolEntry_of_max_le h, Except.map, Option.map_none]
  one_number := by
    rintro a layout target own further other rfl hentry htarget
    simp only [readName?, readBase, hentry, htarget, Except.map, Option.map_none]

/-- An array in the last 32 bytes of the address space. The characters of its entry would start
right behind them. -/
def arrayAtEnd : Memory :=
  .ofMapping 0xFFFFFFFFFFFFFFE0 (littleEndianBytes 8 0xFFFFFFFFFFFFFFE8 ++
    littleEndianBytes 8 0xFFFFFFFFFFFFFFF0 ++ List.replicate 8 0)

/-- If strings are known to be empty none is read, so that the exact walk finds one anywhere. -/
theorem not_readName?_eq_exact :
    ¬ ∀ (t : NameTable) (m : Memory) (b : Build) (index number : UInt32),
      t.readName? m b index number = t.exactName? m b index number := by
  intro h
  have hout : (array 0xFFFFFFFFFFFFFFE0 { maxNameLength := 0 }).StartsOutside arrayAtEnd 0 :=
    ⟨rfl, false, 2 ^ 64, by decide, Nat.le_refl _⟩
  have hsame := h (array 0xFFFFFFFFFFFFFFE0 { maxNameLength := 0 }) arrayAtEnd {} 0 0
  rw [(readName?_of_startsOutside hout).1, (readName?_of_startsOutside hout).2] at hsame
  cases hsame

end NameTable

end EngineNames
