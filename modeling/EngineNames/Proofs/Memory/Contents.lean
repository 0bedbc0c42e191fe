import EngineNames.NameTable
import EngineNames.Proofs.Memory.Holds

/-! # What stands in a memory

A memory shows contents when each of its reads gives the bytes at the addresses that were asked
for, all of them, or fails. Which reads fail is left open.
-/

namespace EngineNames

/-! ## Bytes and units from a location on -/

def bytesFrom (contents : ℕ → UInt8) (location : ℕ) : ℕ → List UInt8
  | 0 => []
  | n + 1 => contents location :: bytesFrom contents (location + 1) n

/-- How many bytes a unit takes up. -/
def unitSize (wide : Bool) : ℕ :=
  if wide then 2 else 1

/-- The unit at a location: a byte, or two with the least significant one first. -/
def unitAt (contents : ℕ → UInt8) (wide : Bool) (location : ℕ) : UInt16 :=
  if wide then .ofNat ((contents location).toNat + 256 * (contents (location + 1)).toNat)
  else (contents location).toUInt16

def unitsFrom (contents : ℕ → UInt8) (wide : Bool) (location : ℕ) : ℕ → List UInt16
  | 0 => []
  | n + 1 => unitAt contents wide location ::
      unitsFrom contents wide (location + unitSize wide) n

variable {contents : ℕ → UInt8} {wide : Bool} {location : ℕ}

@[simp] theorem length_unitsFrom (n : ℕ) :
    (unitsFrom contents wide location n).length = n := by
  induction n generalizing location with
  | zero => rfl
  | succ n ih => rw [unitsFrom, List.length_cons, ih]

theorem unitsFrom_add (p q : ℕ) :
    unitsFrom contents wide location (p + q) = unitsFrom contents wide location p ++
      unitsFrom contents wide (location + p * unitSize wide) q := by
  induction p generalizing location with
  | zero => simp [unitsFrom]
  | succ p ih =>
      have hl : location + (p + 1) * unitSize wide =
          location + unitSize wide + p * unitSize wide := by
        rw [Nat.succ_mul]
        omega
      rw [Nat.succ_add, unitsFrom, unitsFrom, ih, hl, List.cons_append]

theorem pairUnits_bytesFrom (n : ℕ) :
    pairUnits (bytesFrom contents location (2 * n)) = unitsFrom contents true location n := by
  induction n generalizing location with
  | zero => rfl
  | succ n ih =>
      rw [Nat.mul_succ, bytesFrom, bytesFrom, pairUnits, ih]
      rfl

theorem map_toUInt16_bytesFrom (n : ℕ) :
    (bytesFrom contents location n).map UInt8.toUInt16 = unitsFrom contents false location n := by
  induction n generalizing location with
  | zero => rfl
  | succ n ih =>
      rw [bytesFrom, List.map_cons, ih]
      rfl

namespace Memory

variable {m : Memory}

/-- A read of these bytes succeeds. -/
def Readable (m : Memory) (location size : ℕ) : Prop :=
  ∃ (a : Address) (bytes : List UInt8), a.toNat = location ∧ m.readBytes a size = .ok bytes

/-- Each read gives all the bytes that were asked for, or fails. -/
def Shows (m : Memory) (contents : ℕ → UInt8) : Prop :=
  ∀ (a : Address) size bytes, m.readBytes a size = .ok bytes →
    bytes = bytesFrom contents a.toNat size

/-- The reads that succeed are those of mapped bytes. -/
def Maps (m : Memory) (mapped : ℕ → Prop) : Prop :=
  ∀ location size, 0 < size → (m.Readable location size ↔ ∀ i < size, mapped (location + i))

theorem readable_iff {a : Address} {size : ℕ} :
    m.Readable a.toNat size ↔ ∃ bytes, m.readBytes a size = .ok bytes := by
  constructor
  · rintro ⟨own, bytes, ho, hr⟩
    obtain rfl := UInt64.toNat_inj.mp ho
    exact ⟨bytes, hr⟩
  · rintro ⟨bytes, hr⟩
    exact ⟨a, bytes, rfl, hr⟩

theorem Shows.readCharacters_of_readable {a : Address} {n : ℕ} (hm : m.Shows contents)
    (h : m.Readable a.toNat (unitSize wide * n)) :
    m.readCharacters wide a n = .ok (unitsFrom contents wide a.toNat n) := by
  obtain ⟨bytes, hr⟩ := readable_iff.mp h
  have hb := hm a _ bytes hr
  subst hb
  cases wide with
  | false =>
      simp only [unitSize, Bool.false_eq_true, if_false, Nat.one_mul] at hr
      simp only [Memory.readCharacters, Bool.false_eq_true, if_false, hr]
      exact congrArg Except.ok (map_toUInt16_bytesFrom n)
  | true =>
      simp only [unitSize, if_true] at hr
      simp only [Memory.readCharacters, readUnits, if_true, hr]
      exact congrArg Except.ok (pairUnits_bytesFrom n)

theorem readCharacters_of_not_readable {a : Address} {n : ℕ}
    (h : ¬ m.Readable a.toNat (unitSize wide * n)) :
    ∃ e, m.readCharacters wide a n = .error e := by
  cases hr : m.readBytes a (unitSize wide * n) with
  | ok bytes => exact (h ⟨a, bytes, rfl, hr⟩).elim
  | error e =>
      refine ⟨e, ?_⟩
      cases wide with
      | false =>
          simp only [unitSize, Bool.false_eq_true, if_false, Nat.one_mul] at hr
          simp only [readCharacters, Bool.false_eq_true, if_false, hr]
          rfl
      | true =>
          simp only [unitSize, if_true] at hr
          simp only [readCharacters, readUnits, if_true, hr]
          rfl

end Memory

end EngineNames
