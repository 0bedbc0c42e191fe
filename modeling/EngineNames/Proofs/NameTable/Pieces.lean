import EngineNames.Proofs.Memory.Coherent
import EngineNames.Proofs.NameTable.Terminated
import Mathlib.Tactic.IntervalCases

/-! # Names that are read in pieces

The characters of an array entry are fetched a piece at a time, and a piece may come back short. As
long as the reads are coherent, what was fetched so far are the first units of the string, so what
comes of it is the string up to its null or up to the longest name.
-/

namespace EngineNames

theorem eq_ok_of_toOption {ε α : Type} {x : Except ε α} {a : α} (h : x.toOption = some a) :
    x = .ok a := by
  cases x with
  | error e => cases h
  | ok found => exact congrArg Except.ok (Option.some.inj h)

/-! ## Parts of a string -/

/-- Units with a null among them are the text before the first null, that null, and more. -/
theorem exists_eq_text_append {units : List UInt16}
    (h : (units.takeWhile (· != 0)).length < units.length) :
    ∃ rest, units = units.takeWhile (· != 0) ++ 0 :: rest := by
  induction units with
  | nil => cases h
  | cons unit units ih =>
      by_cases hunit : unit = 0
      · exact ⟨units, by simp [hunit]⟩
      · rw [List.takeWhile_cons_of_pos (by simpa using hunit)] at h ⊢
        obtain ⟨rest, hrest⟩ := ih (Nat.lt_of_succ_lt_succ h)
        exact ⟨rest, congrArg (unit :: ·) hrest⟩

theorem null_notMem_takeWhile (units : List UInt16) : 0 ∉ units.takeWhile (· != 0) := by
  intro h
  simpa using List.mem_takeWhile_imp h

/-- A unit in the middle stands where its position says, and those before it are stored too. -/
theorem unitsFrom_eq_append_cons {contents : ℕ → UInt8} {wide : Bool} {location : ℕ}
    {text rest : List UInt16} {unit : UInt16}
    (h : text ++ unit :: rest =
      unitsFrom contents wide location (text ++ unit :: rest).length) :
    text = unitsFrom contents wide location text.length ∧
      unit = unitAt contents wide (location + text.length * unitSize wide) := by
  rw [List.length_append, List.length_cons, unitsFrom_add, unitsFrom] at h
  obtain ⟨htext, hbehind⟩ := List.append_inj h (length_unitsFrom _).symm
  exact ⟨htext, (List.cons.inj hbehind).1⟩

/-- The first units of the string at a location, no more of them than the longest name has, and no
null among them. -/
structure ReadSoFar (contents : ℕ → UInt8) (wide : Bool) (location maxLength : ℕ)
    (units : List UInt16) : Prop where
  stored : units = unitsFrom contents wide location units.length
  no_null : 0 ∉ units
  length_le : units.length ≤ maxLength

/-- The whole string: it ends before a null, or is the longest that is read. -/
structure ReadToEnd (contents : ℕ → UInt8) (wide : Bool) (location maxLength : ℕ)
    (units : List UInt16) : Prop extends ReadSoFar contents wide location maxLength units where
  ended : unitAt contents wide (location + units.length * unitSize wide) = 0 ∨
    units.length = maxLength

namespace ReadSoFar

variable {contents : ℕ → UInt8} {wide : Bool} {location maxLength : ℕ} {done piece : List UInt16}

theorem nil : ReadSoFar contents wide location maxLength [] :=
  ⟨rfl, List.not_mem_nil, Nat.zero_le _⟩

/-- A piece that stands behind what was read continues it. -/
theorem stored_append (h : ReadSoFar contents wide location maxLength done)
    (hpiece : piece = unitsFrom contents wide (location + done.length * unitSize wide)
      piece.length) :
    done ++ piece = unitsFrom contents wide location (done ++ piece).length := by
  rw [List.length_append, unitsFrom_add, ← h.stored, ← hpiece]

theorem append (h : ReadSoFar contents wide location maxLength done)
    (hpiece : piece = unitsFrom contents wide (location + done.length * unitSize wide)
      piece.length)
    (hlength : piece.length ≤ maxLength - done.length) (hnull : 0 ∉ piece) :
    ReadSoFar contents wide location maxLength (done ++ piece) := by
  refine ⟨h.stored_append hpiece, ?_, ?_⟩
  · rw [List.mem_append, not_or]
    exact ⟨h.no_null, hnull⟩
  · have hle := h.length_le
    rw [List.length_append]
    omega

/-- A piece with a null in it ends the string. -/
theorem append_text (h : ReadSoFar contents wide location maxLength done)
    (hpiece : piece = unitsFrom contents wide (location + done.length * unitSize wide)
      piece.length)
    (hlength : piece.length ≤ maxLength - done.length)
    (hnull : (piece.takeWhile (· != 0)).length < piece.length) :
    ReadToEnd contents wide location maxLength (done ++ piece.takeWhile (· != 0)) := by
  obtain ⟨rest, hsplit⟩ := exists_eq_text_append hnull
  have hstored := h.stored_append hpiece
  rw [hsplit, ← List.append_assoc] at hstored
  obtain ⟨htext, hend⟩ := unitsFrom_eq_append_cons hstored
  refine ⟨⟨htext, ?_, ?_⟩, .inl hend.symm⟩
  · rw [List.mem_append, not_or]
    exact ⟨h.no_null, null_notMem_takeWhile piece⟩
  · have hle := h.length_le
    rw [List.length_append]
    omega

end ReadSoFar

/-! ## The loop -/

namespace Memory

variable {m : Memory} {contents : ℕ → UInt8} {wide : Bool} {start : Address} {maxLength : ℕ}
  {done name : List UInt16}

/-- A piece is what stands behind the units that were read so far. -/
theorem Coherent.piece_stored (hm : m.Coherent contents) {position : Address}
    {piece : List UInt16} {n : ℕ}
    (hposition : Address.ofNat? (start.toNat + done.length * if wide then 2 else 1) =
      some position)
    (hread : m.readCharacters wide position n = .ok piece) :
    piece = unitsFrom contents wide (start.toNat + done.length * unitSize wide) piece.length ∧
      piece.length ≤ n := by
  have hplace : start.toNat + done.length * unitSize wide = position.toNat :=
    Address.ofNat?_eq_some_iff.mp hposition
  rw [hplace]
  exact hm.readCharacters hread

theorem not_null_mem_of_takeWhile {piece : List UInt16}
    (h : ¬(piece.takeWhile (· != 0)).length < piece.length) : 0 ∉ piece := by
  have hwhole : piece.takeWhile (· != 0) = piece :=
    (List.takeWhile_prefix _).eq_of_length_le (Nat.le_of_not_lt h)
  rw [← hwhole]
  exact null_notMem_takeWhile piece

/-- What is found is the string. By induction on the pieces, with what was read so far. -/
theorem Coherent.readToEnd (hm : m.Coherent contents)
    (hdone : ReadSoFar contents wide start.toNat maxLength done)
    (h : m.readTerminatedFrom wide start maxLength done = .found name) :
    ReadToEnd contents wide start.toNat maxLength name := by
  fun_induction readTerminatedFrom m wide start maxLength done with
  | case1 done hlt hposition => cases h
  | case2 done hlt position hposition e hread => cases h
  | case3 done hlt position hposition piece hread text hshort =>
      obtain rfl := Terminated.found.inj h
      obtain ⟨hpiece, hlength⟩ := hm.piece_stored hposition hread
      exact hdone.append_text hpiece (hlength.trans (Nat.min_le_right _ _)) hshort
  | case4 done hlt position hposition hread text hlong => cases h
  | case5 done hlt position hposition piece hread text hlong hne ih =>
      obtain ⟨hpiece, hlength⟩ := hm.piece_stored hposition hread
      refine ih (hdone.append hpiece (hlength.trans (Nat.min_le_right _ _)) ?_) h
      exact not_null_mem_of_takeWhile hlong
  | case6 done hge =>
      obtain rfl := Terminated.found.inj h
      exact ⟨hdone, .inr (Nat.le_antisymm hdone.length_le (Nat.le_of_not_lt hge))⟩

/-- Wherever the string goes on, a read gives the next unit at least. -/
def GivesUnits (m : Memory) (contents : ℕ → UInt8) (wide : Bool) (location maxLength : ℕ) : Prop :=
  ∀ n < maxLength, 0 ∉ unitsFrom contents wide location n →
    ∃ position units, Address.ofNat? (location + n * unitSize wide) = some position ∧
      m.readCharacters wide position (min pieceLength (maxLength - n)) = .ok units ∧ units ≠ []

theorem GivesUnits.next {location : ℕ} (hgives : m.GivesUnits contents wide location maxLength)
    (hdone : ReadSoFar contents wide location maxLength done) (hlt : done.length < maxLength) :
    ∃ position units,
      Address.ofNat? (location + done.length * unitSize wide) = some position ∧
      m.readCharacters wide position (min pieceLength (maxLength - done.length)) = .ok units ∧
      units ≠ [] := by
  apply hgives done.length hlt
  rw [← hdone.stored]
  exact hdone.no_null

/-- Then the string is found, however short the reads come back. -/
theorem Coherent.exists_found (hm : m.Coherent contents)
    (hgives : m.GivesUnits contents wide start.toNat maxLength)
    (hdone : ReadSoFar contents wide start.toNat maxLength done) :
    ∃ name, m.readTerminatedFrom wide start maxLength done = .found name := by
  fun_induction readTerminatedFrom m wide start maxLength done with
  | case1 done hlt hposition =>
      obtain ⟨position, units, hplace, -, -⟩ := hgives.next hdone hlt
      cases hposition.symm.trans hplace
  | case2 done hlt position hposition e hread =>
      obtain ⟨own, units, hplace, hunits, -⟩ := hgives.next hdone hlt
      obtain rfl := Option.some.inj (hposition.symm.trans hplace)
      cases hread.symm.trans hunits
  | case3 done hlt position hposition piece hread text hshort => exact ⟨_, rfl⟩
  | case4 done hlt position hposition hread text hlong =>
      obtain ⟨own, units, hplace, hunits, hne⟩ := hgives.next hdone hlt
      obtain rfl := Option.some.inj (hposition.symm.trans hplace)
      exact absurd (Except.ok.inj (hunits.symm.trans hread)) hne
  | case5 done hlt position hposition piece hread text hlong hne ih =>
      obtain ⟨hpiece, hlength⟩ := hm.piece_stored hposition hread
      refine ih (hdone.append hpiece (hlength.trans (Nat.min_le_right _ _)) ?_)
      exact not_null_mem_of_takeWhile hlong
  | case6 done hge => exact ⟨done, rfl⟩

end Memory

/-! ## Entries of an array -/

namespace NameTable

variable {m : Memory} {contents : ℕ → UInt8} {a : Address} {layout : ArrayLayout}
  {index : UInt32} {name : List UInt16}

/-- Where the chunk of an index starts, going by the bytes that stand in memory. -/
def chunkFrom (contents : ℕ → UInt8) (a : Address) (layout : ArrayLayout) (index : UInt32) : ℕ :=
  wordFrom contents (a.toNat + 8 * (index.toNat / layout.elementsPerChunk.toNat)) 8

/-- Where the entry of an index starts. -/
def entryFrom (contents : ℕ → UInt8) (a : Address) (layout : ArrayLayout) (index : UInt32) : ℕ :=
  wordFrom contents
    (chunkFrom contents a layout index + 8 * (index.toNat % layout.elementsPerChunk.toNat)) 8

/-- Whether the lowest bit of the index field of an entry is set. -/
def isWideFrom (contents : ℕ → UInt8) (layout : ArrayLayout) (entry : ℕ) : Bool :=
  wordFrom contents (entry + layout.entryIndexOffset.toNat) 4 % 2 == 1

theorem pointer_of_coherent (hm : m.Coherent contents) {location : ℕ} {slot target : Address}
    (hslot : Address.ofNat? location = some slot)
    (h : (m.readPointer slot).toOption = some target) :
    target.toNat = wordFrom contents location 8 := by
  rw [Address.ofNat?_eq_some_iff.mp hslot]
  exact hm.readPointer (eq_ok_of_toOption h)

/-- There is a chunk for the index and an entry in it, and neither pointer is null. -/
structure HasEntry (contents : ℕ → UInt8) (a : Address) (layout : ArrayLayout)
    (index : UInt32) : Prop where
  chunked : layout.elementsPerChunk ≠ 0
  chunk_ne : chunkFrom contents a layout index ≠ 0
  entry_ne : entryFrom contents a layout index ≠ 0

theorem arrayEntry?_of_coherent (hm : m.Coherent contents) {entry : Address}
    (h : arrayEntry? m a layout index = some entry) :
    HasEntry contents a layout index ∧ entry.toNat = entryFrom contents a layout index := by
  unfold arrayEntry? at h
  split at h
  · cases h
  rename_i hchunked
  simp only [Option.bind_eq_bind, Option.bind_eq_some_iff] at h
  obtain ⟨slot, hslot, chunk, hchunk, h⟩ := h
  have hchunkAt : chunk.toNat = chunkFrom contents a layout index :=
    pointer_of_coherent hm hslot hchunk
  split at h
  · cases h
  rename_i hchunkNe
  simp only [Option.bind_eq_some_iff] at h
  obtain ⟨slot, hslot, found, hfound, h⟩ := h
  rw [hchunkAt] at hslot
  have hfoundAt : found.toNat = entryFrom contents a layout index :=
    pointer_of_coherent hm hslot hfound
  split at h
  · cases h
  rename_i hfoundNe
  obtain rfl := Option.some.inj h
  refine ⟨⟨hchunked, ?_, ?_⟩, hfoundAt⟩
  · rw [← hchunkAt]
    exact fun h0 => hchunkNe (UInt64.toNat_inj.mp h0)
  · rw [← hfoundAt]
    exact fun h0 => hfoundNe (UInt64.toNat_inj.mp h0)

theorem and_one_bne_zero (field : UInt32) : (field &&& 1 != 0) = (field.toNat % 2 == 1) := by
  have hbit : (field &&& 1).toNat = field.toNat % 2 := by
    rw [UInt32.toNat_and]
    exact Nat.and_one_is_mod _
  have hzero : field &&& 1 = 0 ↔ field.toNat % 2 = 0 := by
    rw [← hbit]
    exact UInt32.toNat_inj.symm
  rw [Bool.eq_iff_iff, bne_iff_ne, beq_iff_eq, ne_eq, hzero]
  omega

theorem arrayText?_of_coherent (hm : m.Coherent contents) {wide : Bool} {start : Address}
    (h : arrayText? m a layout index = some (wide, start)) :
    HasEntry contents a layout index ∧
      wide = isWideFrom contents layout (entryFrom contents a layout index) ∧
      start.toNat = entryFrom contents a layout index + layout.entryStringOffset.toNat := by
  simp only [arrayText?, Option.bind_eq_bind, Option.bind_eq_some_iff] at h
  obtain ⟨entry, hentry, place, hplace, field, hfield, text, htext, h⟩ := h
  obtain ⟨rfl, rfl⟩ := Prod.mk.inj (Option.some.inj h)
  obtain ⟨hhas, hentryAt⟩ := arrayEntry?_of_coherent hm hentry
  refine ⟨hhas, ?_, ?_⟩
  · have hword := hm.readUInt32 (eq_ok_of_toOption hfield)
    rw [← Address.add?_eq_some_iff.mp hplace, hentryAt] at hword
    rw [and_one_bne_zero, hword, isWideFrom]
  · rw [← Address.add?_eq_some_iff.mp htext, hentryAt]

/-- A name is the string that stands in the entry: whole, or cut at the longest name. -/
structure ArrayNameSpec (contents : ℕ → UInt8) (a : Address) (layout : ArrayLayout)
    (index : UInt32) (name : List UInt16) : Prop extends HasEntry contents a layout index,
    ReadToEnd contents (isWideFrom contents layout (entryFrom contents a layout index))
      (entryFrom contents a layout index + layout.entryStringOffset.toNat)
      layout.maxNameLength.toNat name

theorem lookupArray_of_readName? {b : Build}
    (h : (array a layout).readName? m b index 0 = .ok (some name)) :
    lookupArray m a layout index = .found name := by
  simp only [readName?, readBase] at h
  cases hfound : lookupArray m a layout index with
  | found units =>
      rw [hfound] at h
      simpa [Except.map, numberSuffix] using h
  | unreadable =>
      rw [hfound] at h
      cases h
  | stalled =>
      rw [hfound] at h
      cases h

/-- A name that is read in however many pieces is the one that stands in memory, if the reads agree
with each other. It is read if each of them gives at least one unit. -/
theorem readName?_array_of_coherent (hm : m.Coherent contents) (b : Build) (a : Address)
    (layout : ArrayLayout) (index : UInt32) :
    (∀ name, (array a layout).readName? m b index 0 = .ok (some name) →
      ArrayNameSpec contents a layout index name) ∧
    ∀ wide start, arrayText? m a layout index = some (wide, start) →
      m.GivesUnits contents wide start.toNat layout.maxNameLength.toNat →
      ∃ name, (array a layout).readName? m b index 0 = .ok (some name) := by
  constructor
  · intro name h
    have hfound := lookupArray_of_readName? h
    unfold lookupArray at hfound
    split at hfound
    · cases hfound
    · rename_i wide start htext
      obtain ⟨hhas, hwide, hstart⟩ := arrayText?_of_coherent hm htext
      have hread := hm.readToEnd .nil hfound
      rw [hwide, hstart] at hread
      exact ⟨hhas, hread⟩
  · intro wide start htext hgives
    obtain ⟨name, hfound⟩ := hm.exists_found hgives .nil
    rw [← lookupArray_eq htext] at hfound
    exact ⟨name, readName?_array_of_found b hfound⟩

/-! ## Reads of an odd number of bytes -/

/-- An array whose only name, `Pawns!`, is stored as UTF-16 units. -/
def wideArray : List UInt8 :=
  littleEndianBytes 8 0x1008 ++ littleEndianBytes 8 0x1010 ++ littleEndianBytes 16 1 ++
    unitBytes [80, 97, 119, 110, 115, 33, 0]

/-- Nine bytes hold four units, so wherever the string goes on a read gives some of it. -/
theorem givesUnits_wideArray : ((Memory.ofMapping 0x1000 wideArray).limited 9).GivesUnits
    (Memory.mappedBytes 0x1000 wideArray) true 0x1020 7 := by
  intro n hn _
  interval_cases n <;> exact ⟨_, _, rfl, rfl, by decide⟩

/-- The first piece comes back with nine bytes, and the last of them is read again with the second.
-/
theorem readName?_array_of_nine_bytes :
    let m := (Memory.ofMapping 0x1000 wideArray).limited 9
    let contents := Memory.mappedBytes 0x1000 wideArray
    let layout : ArrayLayout := { maxNameLength := 7 }
    m.Coherent contents ∧ arrayText? m 0x1000 layout 0 = some (true, 0x1020) ∧
      m.GivesUnits contents true 0x1020 7 ∧
      (array 0x1000 layout).readName? m {} 0 0 = .ok (some [80, 97, 119, 110, 115, 33]) ∧
      ArrayNameSpec contents 0x1000 layout 0 [80, 97, 119, 110, 115, 33] := by
  intro m contents layout
  have hm : m.Coherent contents := Memory.shows_ofMapping.coherent.limited 9
  have htext : arrayText? m 0x1000 layout 0 = some (true, 0x1020) := by decide
  have hspec := readName?_array_of_coherent hm {} 0x1000 layout 0
  obtain ⟨name, hname⟩ := hspec.2 true 0x1020 htext givesUnits_wideArray
  have hread : (array 0x1000 layout).readName? m {} 0 0 =
      .ok (some [80, 97, 119, 110, 115, 33]) := by
    decide +kernel
  obtain rfl := Option.some.inj (Except.ok.inj (hname.symm.trans hread))
  exact ⟨hm, htext, givesUnits_wideArray, hname, hspec.1 _ hname⟩

end NameTable

end EngineNames
