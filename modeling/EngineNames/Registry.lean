import EngineNames.Name

/-!
# Registry of emitted identifiers

Sanitising is not injective, so a generator registers each identifier that it emits together with
the raw name behind it. `register` refuses an identifier that another raw name holds; `assign` looks
for the first suffix that is free.
-/

namespace EngineNames

/-- Two raw names that ask for one identifier. -/
structure Collision where
  identifier : String
  existing : String
  incoming : String
deriving DecidableEq, Repr

namespace Collision

def message (c : Collision) : String :=
  s!"Valid name '{c.identifier}' produced by both '{c.existing}' and '{c.incoming}'"

end Collision

/-- Identifiers with the raw name that holds each; no identifier is listed twice. -/
structure Registry where
  entries : List (String × String)
  nodup : (entries.map Prod.fst).Nodup

namespace Registry

def empty : Registry :=
  ⟨[], List.nodup_nil⟩

instance : Inhabited Registry :=
  ⟨empty⟩

/-- The raw name that holds an identifier. -/
def owner? (r : Registry) (identifier : String) : Option String :=
  r.entries.lookup identifier

def size (r : Registry) : Nat :=
  r.entries.length

def isEmpty (r : Registry) : Bool :=
  r.entries.isEmpty

theorem notMem_of_lookup_eq_none {entries : List (String × String)} {identifier : String}
    (h : entries.lookup identifier = none) : identifier ∉ entries.map Prod.fst := by
  induction entries with
  | nil => simp
  | cons entry rest ih =>
      obtain ⟨key, raw⟩ := entry
      rw [List.lookup_cons] at h
      split at h
      · simp at h
      · rename_i hne
        simp only [List.map_cons, List.mem_cons, not_or]
        exact ⟨by simpa using hne, ih h⟩

/-- Adds an identifier that nobody holds; one that is held stays with its owner. -/
def insertNew (r : Registry) (identifier raw : String) : Registry :=
  if h : r.owner? identifier = none then
    ⟨(identifier, raw) :: r.entries, List.nodup_cons.mpr ⟨notMem_of_lookup_eq_none h, r.nodup⟩⟩
  else r

theorem owner?_insertNew_self (r : Registry) (identifier raw : String) :
    (r.insertNew identifier raw).owner? identifier = some ((r.owner? identifier).getD raw) := by
  unfold insertNew
  split
  · rename_i h
    have hl : r.entries.lookup identifier = none := h
    simp [owner?, hl]
  · rename_i h
    cases ho : r.owner? identifier with
    | none => exact absurd ho h
    | some existing => rfl

theorem owner?_insertNew_of_ne (r : Registry) {identifier other : String} (raw : String)
    (hne : other ≠ identifier) :
    (r.insertNew identifier raw).owner? other = r.owner? other := by
  unfold insertNew
  split
  · have h : (other == identifier) = false := by simpa using hne
    simp [owner?, List.lookup_cons, h]
  · rfl

theorem size_insertNew (r : Registry) (identifier raw : String) :
    (r.insertNew identifier raw).size =
      if r.owner? identifier = none then r.size + 1 else r.size := by
  unfold insertNew
  split <;> simp_all [size]

/-- Takes an identifier for a raw name. Asking again for the same pair changes nothing. -/
def register (r : Registry) (raw identifier : String) : Except Collision Registry :=
  match r.owner? identifier with
  | none => .ok (r.insertNew identifier raw)
  | some existing =>
      if existing = raw then .ok r else .error ⟨identifier, existing, raw⟩

/-- Takes the identifier of a resolved name for its raw form. -/
def registerName (r : Registry) (name : Name) : Except Collision Registry :=
  r.register name.rawText name.identifier

/-- The identifier itself, then the identifier with the suffixes `_1`, `_2` and so on. -/
def candidate (identifier : String) : Nat → String
  | 0 => identifier
  | k + 1 => identifier ++ "_" ++ toString (k + 1)

/-- Whether a raw name may take an identifier: it is free, or the name holds it already. -/
def admits (r : Registry) (raw identifier : String) : Bool :=
  match r.owner? identifier with
  | none => true
  | some existing => existing == raw

/-- The least suffix whose candidate the raw name may take. One more candidate than there are
entries is enough to find it. -/
def firstSuffix (r : Registry) (raw identifier : String) : Nat :=
  ((List.range (r.size + 1)).find? fun k => r.admits raw (candidate identifier k)).getD 0

/-- Takes the first candidate that the raw name may take, and tells which one it is. -/
def assign (r : Registry) (raw identifier : String) : String × Registry :=
  let granted := candidate identifier (r.firstSuffix raw identifier)
  (granted, r.insertNew granted raw)

end Registry

end EngineNames
