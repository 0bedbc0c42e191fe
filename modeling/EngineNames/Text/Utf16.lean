/-!
# UTF-16 text

Engine names are sequences of UTF-16 units, and nothing keeps a target from storing a surrogate
without its partner. `decode` reads such a unit as the replacement character and every other one as
what it encodes; `encode` writes characters back as units, and `decode_encode` says that nothing is
lost on the way.
-/

namespace EngineNames.Utf16

/-- Whether a unit opens a surrogate pair. -/
def isLead (u : UInt16) : Bool :=
  0xD800 ≤ u && u < 0xDC00

/-- Whether a unit closes a surrogate pair. -/
def isTrail (u : UInt16) : Bool :=
  0xDC00 ≤ u && u < 0xE000

/-- The character that a surrogate pair encodes. -/
def pair (lead trail : UInt16) : Char :=
  Char.ofNat (0x10000 + (lead.toNat - 0xD800) * 0x400 + (trail.toNat - 0xDC00))

/-- The character that a unit encodes by itself. -/
def single (u : UInt16) : Char :=
  if isLead u || isTrail u then '\uFFFD' else Char.ofNat u.toNat

/-- The characters of a sequence of units. -/
def decode : List UInt16 → List Char
  | [] => []
  | [u] => [single u]
  | u :: v :: rest =>
      if isLead u && isTrail v then pair u v :: decode rest
      else single u :: decode (v :: rest)

/-- The units that encode a character. -/
def encodeChar (c : Char) : List UInt16 :=
  if c.toNat < 0x10000 then [UInt16.ofNat c.toNat]
  else
    let offset := c.toNat - 0x10000
    [UInt16.ofNat (0xD800 + offset / 0x400), UInt16.ofNat (0xDC00 + offset % 0x400)]

/-- The units of a sequence of characters. -/
def encode (text : List Char) : List UInt16 :=
  text.flatMap encodeChar

/-- The text that a sequence of units stands for. -/
def toString (units : List UInt16) : String :=
  String.ofList (decode units)

/-- The units of a text. -/
def ofString (text : String) : List UInt16 :=
  encode text.toList

theorem decode_cons_of_isLead_eq_false {u : UInt16} (h : isLead u = false) (rest : List UInt16) :
    decode (u :: rest) = single u :: decode rest := by
  cases rest with
  | nil => simp [decode]
  | cons v rest => simp [decode, h]

theorem isLead_ofNat {n : Nat} (h : n < UInt16.size) :
    isLead (UInt16.ofNat n) = (0xD800 ≤ n && n < 0xDC00 : Bool) := by
  simp [isLead, UInt16.le_iff_toNat_le, UInt16.lt_iff_toNat_lt, UInt16.toNat_ofNat_of_lt' h]

theorem isTrail_ofNat {n : Nat} (h : n < UInt16.size) :
    isTrail (UInt16.ofNat n) = (0xDC00 ≤ n && n < 0xE000 : Bool) := by
  simp [isTrail, UInt16.le_iff_toNat_le, UInt16.lt_iff_toNat_lt, UInt16.toNat_ofNat_of_lt' h]

theorem decode_encodeChar_append (c : Char) (rest : List UInt16) :
    decode (encodeChar c ++ rest) = c :: decode rest := by
  have hv : c.toNat < 0xD800 ∨ 0xDFFF < c.toNat ∧ c.toNat < 0x110000 := c.valid
  unfold encodeChar
  split
  · rename_i h
    have hl : isLead (UInt16.ofNat c.toNat) = false := by
      rw [isLead_ofNat h]
      simp
      omega
    have ht : isTrail (UInt16.ofNat c.toNat) = false := by
      rw [isTrail_ofNat h]
      simp
      omega
    rw [List.singleton_append, decode_cons_of_isLead_eq_false hl]
    simp [single, hl, ht, Nat.mod_eq_of_lt h, Char.ofNat_toNat]
  · rename_i h
    have hlead : 0xD800 + (c.toNat - 0x10000) / 0x400 < 2 ^ 16 := by omega
    have htrail : 0xDC00 + (c.toNat - 0x10000) % 0x400 < 2 ^ 16 := by omega
    have hl : isLead (UInt16.ofNat (0xD800 + (c.toNat - 0x10000) / 0x400)) = true := by
      rw [isLead_ofNat hlead]
      simp
      omega
    have ht : isTrail (UInt16.ofNat (0xDC00 + (c.toNat - 0x10000) % 0x400)) = true := by
      rw [isTrail_ofNat htrail]
      simp
      omega
    simp only [List.cons_append, List.nil_append, decode, hl, ht, Bool.and_self, if_true,
      List.cons.injEq, and_true]
    rw [pair, UInt16.toNat_ofNat_of_lt' hlead, UInt16.toNat_ofNat_of_lt' htrail]
    have he : 0x10000 + (0xD800 + (c.toNat - 0x10000) / 0x400 - 0xD800) * 0x400 +
        (0xDC00 + (c.toNat - 0x10000) % 0x400 - 0xDC00) = c.toNat := by
      omega
    rw [he, Char.ofNat_toNat]

/-- Decoding undoes encoding. -/
theorem decode_encode (text : List Char) : decode (encode text) = text := by
  induction text with
  | nil => rfl
  | cons c rest ih =>
      rw [encode, List.flatMap_cons, decode_encodeChar_append]
      exact congrArg (c :: ·) ih

end EngineNames.Utf16
