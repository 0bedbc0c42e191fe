/-!
# Flag words

A flag domain names some bits of a word of fixed width, in the order in which the engine declares
them. A mask is a word of one domain. Bits that the domain does not name are kept in the mask but
have no text, so the text of a mask does not determine it.
-/

namespace EngineNames

/-- One named bit. -/
structure Flag where
  bit : Nat
  name : String
deriving DecidableEq, Repr

/-- A family of flags that share a word. Each flag has a bit of its own within the word. -/
structure FlagDomain where
  name : String
  width : Nat
  flags : List Flag
  bit_lt_width : ∀ flag ∈ flags, flag.bit < width := by decide
  bits_nodup : (flags.map Flag.bit).Nodup := by decide

/-- A word of a flag domain. -/
structure Mask (d : FlagDomain) where
  bits : BitVec d.width
deriving DecidableEq

/-- The mask with this flag alone. -/
def Flag.mask (d : FlagDomain) (flag : Flag) : Mask d :=
  ⟨BitVec.twoPow d.width flag.bit⟩

namespace Mask

variable {d : FlagDomain}

/-- The mask with no bit set. -/
def none : Mask d :=
  ⟨0#d.width⟩

/-- The low bits of a word, as many as the domain is wide. -/
def ofWord (word : UInt64) : Mask d :=
  ⟨BitVec.ofNat d.width word.toNat⟩

/-- The word of a mask, unnamed bits included. -/
def toWord (m : Mask d) : UInt64 :=
  UInt64.ofNat m.bits.toNat

/-- A word read as a mask and written back keeps the bits that fit the domain. -/
theorem toNat_toWord_ofWord {word : UInt64} (h : d.width ≤ 64) :
    (ofWord word : Mask d).toWord.toNat = word.toNat % 1 <<< d.width := by
  have hlt : word.toNat % 2 ^ d.width < 2 ^ 64 :=
    Nat.lt_of_lt_of_le (Nat.mod_lt _ (Nat.two_pow_pos _)) (Nat.pow_le_pow_right (by decide) h)
  simp only [toWord, ofWord, BitVec.toNat_ofNat, Nat.one_shiftLeft]
  exact UInt64.toNat_ofNat_of_lt' hlt

def union (m n : Mask d) : Mask d :=
  ⟨m.bits ||| n.bits⟩

/-- Whether every bit of a nonempty mask is set. -/
def test (m flag : Mask d) : Bool :=
  flag.bits != 0#d.width && m.bits &&& flag.bits == flag.bits

/-- All named bits of a domain. -/
def named (d : FlagDomain) : Mask d :=
  d.flags.foldl (fun m flag => m.union (flag.mask d)) none

/-- The set bits that the domain does not name. -/
def unknown (m : Mask d) : Mask d :=
  ⟨m.bits &&& ~~~(named d).bits⟩

/-- The flags that are set, in declaration order. -/
def flags (m : Mask d) : List Flag :=
  d.flags.filter fun flag => m.test (flag.mask d)

/-- The names of the flags that are set, in declaration order. -/
def names (m : Mask d) : List String :=
  m.flags.map Flag.name

/-- The names joined by a separator; empty when no named bit is set. -/
def text (separator : String) (m : Mask d) : String :=
  separator.intercalate m.names

instance : ToString (Mask d) :=
  ⟨text ", "⟩

end Mask

end EngineNames
