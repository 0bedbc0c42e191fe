import EngineNames.Proofs.NameTable.Exact
import Mathlib.Logic.Relation

/-! # Passes of the loop over pieces

The loop that fetches a string piece by piece goes on until a piece has a null in it, a read fails
or the longest name is read. How much a read gives it does not ask. Here it is a relation, with one
rule for each way that a pass can go. A pass that gains nothing leads back to itself, so a string
that has no derivation is one that is read forever.
-/

namespace EngineNames

namespace Memory

/-- The passes of the loop from the units read so far on: how many there are, and the string that
they come to or the failure. -/
inductive Passes (m : Memory) (wide : Bool) (start maxLength : ℕ) :
    List UInt16 → ℕ → Option (List UInt16) → Prop where
  | longest {done} (hmax : maxLength ≤ done.length) :
      Passes m wide start maxLength done 0 (some done)
  | unreadable {done} (hlt : done.length < maxLength)
      (hpiece : m.nextPiece? wide start maxLength done = none) :
      Passes m wide start maxLength done 1 none
  | ended {done piece} (hlt : done.length < maxLength)
      (hpiece : m.nextPiece? wide start maxLength done = some piece) (hnull : 0 ∈ piece) :
      Passes m wide start maxLength done 1 (some (done ++ piece.takeWhile (· != 0)))
  | continued {done piece passes name} (hlt : done.length < maxLength)
      (hpiece : m.nextPiece? wide start maxLength done = some piece) (hnull : 0 ∉ piece)
      (rest : Passes m wide start maxLength (done ++ piece) passes name) :
      Passes m wide start maxLength done (passes + 1) name

/-- A pass that does not end the loop. -/
def Continues (m : Memory) (wide : Bool) (start maxLength : ℕ) (done next : List UInt16) : Prop :=
  done.length < maxLength ∧ ∃ piece, m.nextPiece? wide start maxLength done = some piece ∧
    0 ∉ piece ∧ next = done ++ piece

/-! ## What passes come to -/

variable {m : Memory} {wide : Bool} {start maxLength : ℕ} {done next piece : List UInt16}
  {passes : ℕ} {name : Option (List UInt16)}

/-- A loop that goes on and ends, ends in one pass less after it went on. -/
theorem Continues.exists_rest (h : m.Continues wide start maxLength done next)
    (hpasses : m.Passes wide start maxLength done passes name) :
    ∃ rest, passes = rest + 1 ∧ m.Passes wide start maxLength next rest name := by
  obtain ⟨hlt, piece, hpiece, hnull, rfl⟩ := h
  cases hpasses with
  | longest hmax => exact absurd hmax (Nat.not_le.mpr hlt)
  | unreadable _ hpiece' => cases hpiece.symm.trans hpiece'
  | ended _ hpiece' hnull' =>
      obtain rfl := Option.some.inj (hpiece.symm.trans hpiece')
      exact absurd hnull' hnull
  | continued _ hpiece' _ rest =>
      obtain rfl := Option.some.inj (hpiece.symm.trans hpiece')
      exact ⟨_, rfl, rest⟩

theorem Passes.unique {passes' : ℕ} {name' : Option (List UInt16)}
    (h : m.Passes wide start maxLength done passes name)
    (h' : m.Passes wide start maxLength done passes' name') : passes = passes' ∧ name = name' := by
  induction h generalizing passes' with
  | longest hmax =>
      cases h' with
      | longest => exact ⟨rfl, rfl⟩
      | unreadable hlt | ended hlt | continued hlt => exact absurd hmax (Nat.not_le.mpr hlt)
  | unreadable hlt hpiece =>
      cases h' with
      | longest hmax => exact absurd hmax (Nat.not_le.mpr hlt)
      | unreadable => exact ⟨rfl, rfl⟩
      | ended _ hpiece' | continued _ hpiece' => cases hpiece.symm.trans hpiece'
  | ended hlt hpiece hnull =>
      cases h' with
      | longest hmax => exact absurd hmax (Nat.not_le.mpr hlt)
      | unreadable _ hpiece' => cases hpiece.symm.trans hpiece'
      | ended _ hpiece' =>
          obtain rfl := Option.some.inj (hpiece.symm.trans hpiece')
          exact ⟨rfl, rfl⟩
      | continued _ hpiece' hnull' =>
          obtain rfl := Option.some.inj (hpiece.symm.trans hpiece')
          exact absurd hnull hnull'
  | continued hlt hpiece hnull _ ih =>
      obtain ⟨rest, rfl, hrest⟩ := Continues.exists_rest ⟨hlt, _, hpiece, hnull, rfl⟩ h'
      obtain ⟨rfl, rfl⟩ := ih hrest
      exact ⟨rfl, rfl⟩

/-- After a pass that gains nothing the loop is where it was, so no number of passes ends it. -/
theorem not_passes_of_nothing (h : m.Continues wide start maxLength done done) :
    ¬ m.Passes wide start maxLength done passes name := by
  intro hpasses
  induction passes with
  | zero =>
      obtain ⟨rest, hcount, -⟩ := h.exists_rest hpasses
      cases hcount
  | succ passes ih =>
      obtain ⟨rest, hcount, hrest⟩ := h.exists_rest hpasses
      obtain rfl := Nat.succ.inj hcount
      exact ih hrest

/-- A pass gains a unit if the loop ends after it. -/
theorem Continues.length_lt (h : m.Continues wide start maxLength done next)
    (hpasses : m.Passes wide start maxLength next passes name) : done.length < next.length := by
  have hne : done ≠ next := by
    rintro rfl
    exact not_passes_of_nothing h hpasses
  obtain ⟨-, piece, -, -, rfl⟩ := h
  rw [List.length_append, Nat.lt_add_right_iff_pos, List.length_pos_iff]
  rintro rfl
  exact hne (List.append_nil done).symm

/-- So there are no more passes than units that are still believed. By induction on the passes. -/
theorem Passes.le (h : m.Passes wide start maxLength done passes name) :
    passes ≤ maxLength - done.length := by
  induction h with
  | longest => exact Nat.zero_le _
  | unreadable hlt | ended hlt => omega
  | continued hlt hpiece hnull rest ih =>
      have hgain := Continues.length_lt ⟨hlt, _, hpiece, hnull, rfl⟩ rest
      omega

/-! ## Strings that are read forever -/

theorem null_mem_of_takeWhile (h : (piece.takeWhile (· != 0)).length < piece.length) :
    0 ∈ piece := by
  obtain ⟨rest, hsplit⟩ := exists_eq_text_append h
  rw [hsplit]
  exact List.mem_append_right _ List.mem_cons_self

/-- What an outcome says of the passes. -/
def Tells (m : Memory) (wide : Bool) (start maxLength : ℕ) (done : List UInt16) :
    Terminated → Prop
  | .found units => ∃ passes, m.Passes wide start maxLength done passes (some units)
  | .unreadable => ∃ passes, m.Passes wide start maxLength done passes none
  | .stalled => ∃ last, Relation.ReflTransGen (m.Continues wide start maxLength) done last ∧
      m.Continues wide start maxLength last last

/-- By induction on the pieces. A pass before others adds itself to what is said of them. -/
theorem tells_exactTerminated :
    m.Tells wide start maxLength done (m.exactTerminated wide start maxLength done) := by
  fun_induction exactTerminated m wide start maxLength done with
  | case1 done hlt hpiece => exact ⟨1, .unreadable hlt hpiece⟩
  | case2 done hlt piece hpiece text htext =>
      exact ⟨1, .ended hlt hpiece (null_mem_of_takeWhile htext)⟩
  | case3 done hlt hpiece text htext =>
      exact ⟨done, .refl, hlt, [], hpiece, List.not_mem_nil, (List.append_nil done).symm⟩
  | case4 done hlt piece hpiece text htext hne ih =>
      have hnull := not_null_mem_of_takeWhile htext
      have hnext : m.Continues wide start maxLength done (done ++ piece) :=
        ⟨hlt, piece, hpiece, hnull, rfl⟩
      cases hrest : m.exactTerminated wide start maxLength (done ++ piece) with
      | found | unreadable =>
          rw [hrest] at ih
          obtain ⟨passes, hpasses⟩ := ih
          exact ⟨passes + 1, .continued hlt hpiece hnull hpasses⟩
      | stalled =>
          rw [hrest] at ih
          obtain ⟨last, hreach, hlast⟩ := ih
          exact ⟨last, .head hnext hreach, hlast⟩
  | case5 done hge => exact ⟨0, .longest (Nat.le_of_not_lt hge)⟩

/-- A loop that comes to a pass that gains nothing does not end. -/
theorem not_passes_of_reaches {last : List UInt16}
    (hreach : Relation.ReflTransGen (m.Continues wide start maxLength) done last)
    (hlast : m.Continues wide start maxLength last last) :
    ¬ m.Passes wide start maxLength done passes name := by
  induction hreach using Relation.ReflTransGen.head_induction_on generalizing passes with
  | refl => exact not_passes_of_nothing hlast
  | head hnext _ ih =>
      intro hpasses
      obtain ⟨rest, -, hrest⟩ := hnext.exists_rest hpasses
      exact ih hrest

/-- No two outcomes can be told of one string. -/
theorem Tells.unique {outcome outcome' : Terminated}
    (h : m.Tells wide start maxLength done outcome)
    (h' : m.Tells wide start maxLength done outcome') : outcome = outcome' := by
  cases outcome <;> cases outcome'
  case stalled.stalled => rfl
  case found.stalled | unreadable.stalled =>
    obtain ⟨_, hpasses⟩ := h
    obtain ⟨_, hreach, hlast⟩ := h'
    exact absurd hpasses (not_passes_of_reaches hreach hlast)
  case stalled.found | stalled.unreadable =>
    obtain ⟨_, hreach, hlast⟩ := h
    obtain ⟨_, hpasses⟩ := h'
    exact absurd hpasses (not_passes_of_reaches hreach hlast)
  case found.found | found.unreadable | unreadable.found | unreadable.unreadable =>
    obtain ⟨_, hpasses⟩ := h
    obtain ⟨_, hpasses'⟩ := h'
    cases (hpasses.unique hpasses').2 <;> rfl

theorem exactTerminated_eq_iff {outcome : Terminated} :
    m.exactTerminated wide start maxLength done = outcome ↔
      m.Tells wide start maxLength done outcome := by
  constructor
  · rintro rfl
    exact tells_exactTerminated
  · exact fun h => tells_exactTerminated.unique h

/-- A string is read forever if no passes end the loop, and only then. -/
theorem exactTerminated_eq_stalled_iff : m.exactTerminated wide start maxLength done = .stalled ↔
    ∀ passes name, ¬ m.Passes wide start maxLength done passes name := by
  constructor
  · intro h passes name
    obtain ⟨_, hreach, hlast⟩ := exactTerminated_eq_iff.mp h
    exact not_passes_of_reaches hreach hlast
  · intro h
    cases hread : m.exactTerminated wide start maxLength done with
    | found | unreadable =>
        obtain ⟨passes, hpasses⟩ := exactTerminated_eq_iff.mp hread
        exact absurd hpasses (h passes _)
    | stalled => rfl

/-- A read that succeeds gives two bytes at least, or as many as were asked for. -/
def Yields (m : Memory) : Prop :=
  ∀ (a : Address) size bytes, m.readBytes a size = .ok bytes → min size 2 ≤ bytes.length

/-- Two bytes are a unit of either width, so each pass gains one. -/
theorem Yields.not_continues (hm : m.Yields) : ¬ m.Continues wide start maxLength done done := by
  rintro ⟨hlt, piece, hpiece, -, hsame⟩
  obtain rfl : piece = [] := List.append_right_eq_self.mp hsame.symm
  have hcount : 0 < min pieceLength (maxLength - done.length) :=
    Nat.lt_min.mpr ⟨by decide, Nat.sub_pos_of_lt hlt⟩
  rw [nextPiece?, charactersAt?, Option.map_eq_some_iff] at hpiece
  obtain ⟨bytes, hbytes, hnone⟩ := hpiece
  unfold bytesAt? at hbytes
  split at hbytes
  · have hmany := hm _ _ _ (eq_ok_of_toOption hbytes)
    have hlength := length_charactersOf wide bytes
    rw [hnone, List.length_nil] at hlength
    generalize min pieceLength (maxLength - done.length) = count at hcount hmany
    cases wide <;> simp only [unitSize, Bool.false_eq_true, if_false, if_true] at hlength hmany <;>
      omega
  · cases hbytes

end Memory

/-! ## Names of an array -/

namespace NameTable

variable {m : Memory} {a start : Address} {layout : ArrayLayout} {index : UInt32} {wide : Bool}

theorem lookupArray_eq_exactTerminated (h : arrayText? m a layout index = some (wide, start)) :
    lookupArray m a layout index =
      m.exactTerminated wide start.toNat layout.maxNameLength.toNat [] := by
  rw [lookupArray_eq h, Memory.readTerminatedFrom_eq_exact]

/-- How a name is read in passes from where its characters start. -/
structure PassesSpec (m : Memory) (a : Address) (layout : ArrayLayout) (index : UInt32)
    (wide : Bool) (start : Address) : Prop where
  outcome_iff : ∀ outcome, lookupArray m a layout index = outcome ↔
    m.Tells wide start.toNat layout.maxNameLength.toNat [] outcome
  /-- No number of passes ends the loop. -/
  stalled_iff : lookupArray m a layout index = .stalled ↔
    ∀ passes name, ¬ m.Passes wide start.toNat layout.maxNameLength.toNat [] passes name
  passes_le : ∀ passes name,
    m.Passes wide start.toNat layout.maxNameLength.toNat [] passes name →
      passes ≤ layout.maxNameLength.toNat
  gains : ∀ done next passes name,
    m.Continues wide start.toNat layout.maxNameLength.toNat done next →
    m.Passes wide start.toNat layout.maxNameLength.toNat next passes name →
      done.length < next.length
  ends : m.Yields → ∃ passes name,
    m.Passes wide start.toNat layout.maxNameLength.toNat [] passes name

/-- A loop that ends has no more passes than the longest name has units. It ends unless one of its
passes gains nothing, and so in any memory whose reads give two bytes if they succeed. -/
theorem passes_spec (h : arrayText? m a layout index = some (wide, start)) :
    PassesSpec m a layout index wide start where
  outcome_iff outcome := by
    rw [lookupArray_eq_exactTerminated h]
    exact Memory.exactTerminated_eq_iff
  stalled_iff := by
    rw [lookupArray_eq_exactTerminated h]
    exact Memory.exactTerminated_eq_stalled_iff
  passes_le _ _ hpasses := hpasses.le
  gains _ _ _ _ hnext hpasses := hnext.length_lt hpasses
  ends hm := by
    by_contra hnone
    simp only [not_exists] at hnone
    obtain ⟨last, -, hlast⟩ :=
      Memory.exactTerminated_eq_iff.mp (Memory.exactTerminated_eq_stalled_iff.mpr hnone)
    exact hm.not_continues hlast

/-- A name of four characters is found in at most five passes. -/
theorem passes_spec_of_cut_piece :
    let m := Memory.ofMapping 0x1000 arrayToEnd
    arrayText? m 0x1000 { maxNameLength := 5 } 0 = some (false, 0x1020) ∧
      ∃ passes ≤ 5, m.Passes false 0x1020 5 [] passes (some [80, 97, 119, 110]) := by
  intro m
  have htext : arrayText? m 0x1000 { maxNameLength := 5 } 0 = some (false, 0x1020) := by decide
  have hspec := passes_spec htext
  have hread : lookupArray m 0x1000 { maxNameLength := 5 } 0 = .found [80, 97, 119, 110] := by
    decide +kernel
  obtain ⟨passes, hpasses⟩ := (hspec.outcome_iff _).mp hread
  exact ⟨htext, passes, hspec.passes_le _ _ hpasses, hpasses⟩

end NameTable

/-! ## Reads that give what there is -/

/-- A mapping of which a read gives as much as there is of it, and at its end nothing. -/
def Memory.ofTruncated (start : ℕ) (bytes : List UInt8) : Memory where
  readBytes a size :=
    if start ≤ a.toNat ∧ a.toNat ≤ start + bytes.length then
      .ok ((bytes.drop (a.toNat - start)).take size)
    else .error (.readFailed a size "unmapped")
  isReadable a := start ≤ a.toNat && decide (a.toNat < start + bytes.length)

theorem Memory.bounded_ofTruncated (start : ℕ) (bytes : List UInt8) :
    (ofTruncated start bytes).Bounded := by
  intro a size found h
  simp only [ofTruncated] at h
  split at h
  · cases h
    exact List.length_take_le _ _
  · cases h

/-- A mapping that ends with the four characters of a name, without a null. The first pass reads
them, and from then on each one reads nothing. -/
theorem NameTable.not_exists_passes_of_truncated :
    ¬ ∀ m : Memory, m.Bounded → ∀ (a : Address) (layout : ArrayLayout) (index : UInt32)
      (wide : Bool) (start : Address), arrayText? m a layout index = some (wide, start) →
      ∃ passes name, m.Passes wide start.toNat layout.maxNameLength.toNat [] passes name := by
  intro h
  let m := Memory.ofTruncated 0x1000 (arrayToEnd.take 36)
  have htext : arrayText? m 0x1000 {} 0 = some (false, 0x1020) := by decide
  obtain ⟨passes, name, hpasses⟩ :=
    h m (Memory.bounded_ofTruncated _ _) 0x1000 {} 0 false 0x1020 htext
  have hread : lookupArray m 0x1000 {} 0 = .stalled := by decide +kernel
  rw [lookupArray_eq_exactTerminated htext] at hread
  exact Memory.exactTerminated_eq_stalled_iff.mp hread passes name hpasses

end EngineNames
