import EngineNames.Proofs.Memory.Mapping

/-! # Short reads

A read may succeed and give fewer bytes than were asked for. A word is refused then. Characters are
made of the bytes that there are, so there are fewer of them, and nothing tells.
-/

namespace EngineNames

theorem length_pairUnits (bytes : List UInt8) : (pairUnits bytes).length = bytes.length / 2 := by
  induction bytes using pairUnits.induct with
  | case1 low high rest ih =>
      simp only [pairUnits, List.length_cons, ih]
      omega
  | case2 bytes h =>
      rcases bytes with _ | ⟨low, _ | ⟨high, rest⟩⟩
      · rfl
      · simp [pairUnits]
      · exact (h low high rest rfl).elim

/-- The characters that bytes make up. -/
def charactersOf : Bool → List UInt8 → List UInt16
  | false, bytes => bytes.map UInt8.toUInt16
  | true, bytes => pairUnits bytes

theorem length_charactersOf (wide : Bool) (bytes : List UInt8) :
    (charactersOf wide bytes).length = bytes.length / unitSize wide := by
  cases wide <;> simp [charactersOf, unitSize, length_pairUnits]

namespace Memory

variable {m : Memory} {wide : Bool} {a : Address} {n : ℕ} {bytes : List UInt8}

/-- No read gives more bytes than were asked for. It may give fewer. -/
def Bounded (m : Memory) : Prop :=
  ∀ (a : Address) size bytes, m.readBytes a size = .ok bytes → bytes.length ≤ size

theorem readCharacters_eq (m : Memory) (wide : Bool) (a : Address) (n : ℕ) :
    m.readCharacters wide a n =
      (m.readBytes a (unitSize wide * n)).map (charactersOf wide) := by
  cases wide with
  | false =>
      simp only [readCharacters, unitSize, Bool.false_eq_true, if_false, Nat.one_mul]
      rfl
  | true =>
      simp only [readCharacters, readUnits, unitSize, if_true]
      rfl

/-- A read gives the characters that were asked for if all their bytes are there, else fewer. -/
theorem Bounded.length_charactersOf (hm : m.Bounded)
    (h : m.readBytes a (unitSize wide * n) = .ok bytes) :
    (charactersOf wide bytes).length ≤ n ∧
      ((charactersOf wide bytes).length = n ↔ bytes.length = unitSize wide * n) := by
  have hle := hm a _ bytes h
  rw [EngineNames.length_charactersOf]
  cases wide <;> simp only [unitSize, Bool.false_eq_true, if_false, if_true] at * <;> omega

/-- Units are as many as were asked for if and only if the read of their bytes is complete. -/
theorem Bounded.length_readUnits (hm : m.Bounded) {found : List UInt16}
    (h : m.readUnits a n = .ok found) : found.length ≤ n ∧
      (found.length = n ↔ ∃ bytes, m.readBytes a (2 * n) = .ok bytes ∧ bytes.length = 2 * n) := by
  unfold readUnits at h
  cases hr : m.readBytes a (2 * n) with
  | error e =>
      rw [hr] at h
      cases h
  | ok bytes =>
      rw [hr] at h
      obtain rfl := Except.ok.inj h
      have hwide : m.readBytes a (unitSize true * n) = .ok bytes := hr
      simpa [charactersOf, unitSize] using hm.length_charactersOf hwide

/-- A word comes from a complete read. -/
theorem exists_of_readWord_eq_ok {size value : ℕ} (h : m.readWord a size = .ok value) :
    ∃ bytes, m.readBytes a size = .ok bytes ∧ bytes.length = size := by
  unfold readWord readExact at h
  cases hr : m.readBytes a size with
  | error e =>
      rw [hr] at h
      cases h
  | ok bytes =>
      refine ⟨bytes, rfl, ?_⟩
      by_contra hne
      simp only [hr, bind, Except.bind, hne, if_false] at h
      cases h

/-! ## A memory that gives a few bytes at a time -/

def limited (m : Memory) (limit : ℕ) : Memory :=
  { m with readBytes := fun a size => (m.readBytes a size).map (·.take limit) }

theorem bounded_ofMapping (start : ℕ) (bytes : List UInt8) : (ofMapping start bytes).Bounded := by
  intro a size found h
  simp only [ofMapping] at h
  split at h
  · cases h
    exact List.length_take_le _ _
  · cases h

theorem Bounded.limited (hm : m.Bounded) (limit : ℕ) : (m.limited limit).Bounded := by
  intro a size found h
  simp only [Memory.limited] at h
  cases hr : m.readBytes a size with
  | error e =>
      rw [hr] at h
      cases h
  | ok bytes =>
      rw [hr] at h
      cases h
      exact Nat.le_trans (List.length_take_le' _ _) (hm a size bytes hr)

end Memory

end EngineNames
