import EngineNames.Proofs.Memory.Coherent

/-! # Reads at locations

A location is a natural number, with no bound. Where it is an address a memory is read as ever; from
the end of the address space on nothing can be read.
-/

namespace EngineNames

/-- An address comes of a number. What follows is the same for all numbers if it is so for addresses
and nothing follows from a number behind the last one. -/
theorem Address.bind_ofNat?_eq {α : Type} {f : Address → Option α} {g : ℕ → Option α}
    (hin : ∀ a : Address, f a = g a.toNat) (hout : ∀ n, 2 ^ 64 ≤ n → g n = none) (n : ℕ) :
    (Address.ofNat? n).bind f = g n := by
  unfold Address.ofNat?
  split
  · rename_i h
    rw [Option.bind_some, hin, UInt64.toNat_ofNat_of_lt' h]
  · rename_i h
    rw [Option.bind_none, hout n (Nat.le_of_not_lt h)]

theorem toOption_map {ε α β : Type} (x : Except ε α) (f : α → β) :
    (x.map f).toOption = x.toOption.map f := by
  cases x <;> rfl

namespace Memory

/-- The bytes at a location; at the end of the address space and behind it there are none. -/
def bytesAt? (m : Memory) (location size : ℕ) : Option (List UInt8) :=
  if location < 2 ^ 64 then (m.readBytes (.ofNat location) size).toOption else none

/-- The value of a word at a location, if all its bytes are there. -/
def wordAt? (m : Memory) (location size : ℕ) : Option ℕ :=
  (m.bytesAt? location size).bind fun bytes =>
    if bytes.length = size then some (littleEndian bytes) else none

/-- A pointer at a location, unless it is null. -/
def pointerAt? (m : Memory) (location : ℕ) : Option ℕ :=
  (m.wordAt? location 8).bind fun target => if target = 0 then none else some target

def charactersAt? (m : Memory) (wide : Bool) (location length : ℕ) : Option (List UInt16) :=
  (m.bytesAt? location (unitSize wide * length)).map (charactersOf wide)

variable {m : Memory} {a : Address} {wide : Bool} {location size length : ℕ}

theorem bytesAt?_toNat : m.bytesAt? a.toNat size = (m.readBytes a size).toOption := by
  rw [bytesAt?, if_pos a.toNat_lt, UInt64.ofNat_toNat]

theorem bytesAt?_of_le (h : 2 ^ 64 ≤ location) : m.bytesAt? location size = none :=
  if_neg (Nat.not_lt.mpr h)

theorem wordAt?_of_le (h : 2 ^ 64 ≤ location) : m.wordAt? location size = none := by
  rw [wordAt?, bytesAt?_of_le h, Option.bind_none]

theorem charactersAt?_of_le (h : 2 ^ 64 ≤ location) :
    m.charactersAt? wide location length = none := by
  rw [charactersAt?, bytesAt?_of_le h, Option.map_none]

theorem pointerAt?_of_le (h : 2 ^ 64 ≤ location) : m.pointerAt? location = none := by
  rw [pointerAt?, wordAt?_of_le h, Option.bind_none]

theorem wordAt?_lt {value : ℕ} (h : m.wordAt? location size = some value) :
    value < 256 ^ size := by
  rw [wordAt?, Option.bind_eq_some_iff] at h
  obtain ⟨bytes, -, h⟩ := h
  split at h
  · rename_i hlength
    obtain rfl := Option.some.inj h
    rw [← hlength]
    exact littleEndian_lt bytes
  · cases h

theorem toOption_readWord : (m.readWord a size).toOption = m.wordAt? a.toNat size := by
  rw [wordAt?, bytesAt?_toNat, readWord, toOption_map, readExact]
  cases m.readBytes a size with
  | error e => rfl
  | ok bytes =>
      by_cases hlength : bytes.length = size
      · simp [hlength, bind, Except.bind, pure, Except.pure, Except.toOption]
      · simp [hlength, bind, Except.bind, Except.toOption, throw, throwThe, MonadExceptOf.throw]

theorem toOption_readCharacters :
    (m.readCharacters wide a length).toOption = m.charactersAt? wide a.toNat length := by
  rw [charactersAt?, bytesAt?_toNat, readCharacters_eq, toOption_map]

/-! ## What follows a read

What follows is given twice: as a function of the word that was read, and as one of the number.
-/

variable {α : Type}

theorem bind_wordAt?_congr {f g : ℕ → Option α} (h : ∀ value < 256 ^ size, f value = g value) :
    (m.wordAt? location size).bind f = (m.wordAt? location size).bind g := by
  cases hw : m.wordAt? location size with
  | none => rfl
  | some value => exact h value (wordAt?_lt hw)

theorem toOption_readUInt16_bind {f : UInt16 → Option α} {g : ℕ → Option α}
    (h : ∀ word, f word = g word.toNat) :
    (m.readUInt16 a).toOption.bind f = (m.wordAt? a.toNat 2).bind g := by
  rw [readUInt16, toOption_map, toOption_readWord, Option.bind_map]
  refine bind_wordAt?_congr fun value hlt => ?_
  rw [Function.comp, h, UInt16.toNat_ofNat_of_lt' hlt]

theorem toOption_readUInt32_bind {f : UInt32 → Option α} {g : ℕ → Option α}
    (h : ∀ word, f word = g word.toNat) :
    (m.readUInt32 a).toOption.bind f = (m.wordAt? a.toNat 4).bind g := by
  rw [readUInt32, toOption_map, toOption_readWord, Option.bind_map]
  refine bind_wordAt?_congr fun value hlt => ?_
  rw [Function.comp, h, UInt32.toNat_ofNat_of_lt' hlt]

theorem toOption_readPointer_bind {f : Address → Option α} {g : ℕ → Option α}
    (h : ∀ target, f target = g target.toNat) :
    ((m.readPointer a).toOption.bind fun target => if target = 0 then none else f target) =
      (m.pointerAt? a.toNat).bind g := by
  rw [readPointer, readUInt64, toOption_map, toOption_readWord, Option.bind_map, pointerAt?,
    Option.bind_assoc]
  refine bind_wordAt?_congr fun value hlt => ?_
  have hvalue : (UInt64.ofNat value).toNat = value := UInt64.toNat_ofNat_of_lt' hlt
  have hzero : UInt64.ofNat value = 0 ↔ value = 0 := by
    rw [← UInt64.toNat_inj, hvalue]
    rfl
  simp only [Function.comp, hzero, h, hvalue]
  split <;> rfl

theorem ofNat?_bind_readUInt32 {f : UInt32 → Option α} {g : ℕ → Option α}
    (h : ∀ word, f word = g word.toNat) (n : ℕ) :
    ((Address.ofNat? n).bind fun place => (m.readUInt32 place).toOption.bind f) =
      (m.wordAt? n 4).bind g := by
  refine Address.bind_ofNat?_eq (g := fun n => (m.wordAt? n 4).bind g) (fun place => ?_)
    (fun n hn => ?_) n
  · exact toOption_readUInt32_bind h
  · rw [wordAt?_of_le hn, Option.bind_none]

theorem ofNat?_bind_readPointer {f : Address → Option α} {g : ℕ → Option α}
    (h : ∀ target, f target = g target.toNat) (n : ℕ) :
    ((Address.ofNat? n).bind fun slot => (m.readPointer slot).toOption.bind fun target =>
      if target = 0 then none else f target) = (m.pointerAt? n).bind g := by
  refine Address.bind_ofNat?_eq (g := fun n => (m.pointerAt? n).bind g) (fun slot => ?_)
    (fun n hn => ?_) n
  · exact toOption_readPointer_bind h
  · rw [pointerAt?_of_le hn, Option.bind_none]

end Memory

end EngineNames
