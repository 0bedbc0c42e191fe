import EngineNames.Proofs.Handle.Fields
import EngineNames.Proofs.Handle.Stored
import EngineNames.Proofs.Memory.ShortReads
import EngineNames.Proofs.Resolver.Runs

/-! # Identity of names

Two handles are of one name if both can be read and have the same index and number. A resolver that
walks the name table goes by the same reading, so such handles resolve alike, to a name that is read
for ever as well. What it asks besides, that the address of a handle be readable, is no more than
that its index was read. A handle with a field past the last address is no handle of any name: all
that is asked about it stops there.
-/

namespace EngineNames

variable {σ : Type}

/-! ## Tables of builds with numbers in name values -/

namespace NameTable

variable {m : Memory} {a : Address} {layout : PoolLayout} {b : Build} {index number : UInt32}

theorem readEntry_ne_numbered (hb : b.outlineNumbers = false) (entry : Address)
    (target own : UInt32) : readEntry m layout b entry ≠ some (.numbered target own) := by
  intro h
  simp only [readEntry, Option.bind_eq_bind, Option.bind_eq_some_iff] at h
  obtain ⟨headerAt, -, header, -, h⟩ := h
  split at h
  · rw [if_neg (by simp [hb])] at h
    cases h
  · split at h
    · cases h
    · simp [Option.bind_eq_some_iff] at h

/-- The number of the name is put after the name that the table has for the index. -/
theorem readName?_eq_map (hb : b.outlineNumbers = false) (t : NameTable) :
    t.readName? m b index number =
      (t.readName? m b index 0).map fun found => found.map (· ++ numberSuffix number) := by
  cases t with
  | array a layout =>
      simp only [readName?, readBase]
      cases lookupArray m a layout index <;> simp [numberSuffix, Except.map]
  | pool a layout =>
      simp only [readName?, readBase]
      cases hr : readPoolEntry m a layout b index with
      | none => rfl
      | some found =>
          cases found with
          | plain units => simp [numberSuffix, Except.map]
          | numbered target own =>
              simp only [readPoolEntry, Option.bind_eq_bind, Option.bind_eq_some_iff] at hr
              obtain ⟨_, _, _, _, _, _, hentry⟩ := hr
              exact absurd hentry (readEntry_ne_numbered hb _ target own)

end NameTable

/-! ## Reading handles -/

namespace Memory

/-- An address that something was read at counts as readable, unless it is null. -/
def Honest (m : Memory) : Prop :=
  ∀ (a : Address) size bytes, a ≠ 0 → m.readBytes a size = .ok bytes → bytes ≠ [] →
    m.isReadable a = true

theorem Honest.isReadable_of_readUInt32 {m : Memory} {a : Address} {word : UInt32}
    (hm : m.Honest) (h0 : a ≠ 0) (h : m.readUInt32 a = .ok word) : m.isReadable a = true := by
  obtain ⟨value, hw, -⟩ := map_eq_ok_iff.mp h
  obtain ⟨bytes, hr, hlength⟩ := exists_of_readWord_eq_ok hw
  apply hm a 4 bytes h0 hr
  rintro rfl
  cases hlength

end Memory

theorem Build.comparisonIndex_handleLayout (b : Build) : b.handleLayout.comparisonIndex = 0 := by
  unfold handleLayout
  split <;> rfl

namespace Resolver

/-- Resolvers that come of a request to bind, with or without a registry that they put names in. -/
inductive IsBound : Resolver σ → Prop
  | answer {u : Unbound σ} {q : BindRequest} {r : Resolver σ} : u.answer q = .ok (.ok r) → IsBound r
  | withTracking {r : Resolver σ} : IsBound r → IsBound r.withTracking

variable {r : Resolver σ} {g h k : Handle} {index number : UInt32} {table : NameTable}

theorem IsBound.layout_eq (hr : r.IsBound) : r.layout = r.build.handleLayout := by
  induction hr with
  | answer hq => exact layout_of_answer hq
  | withTracking _ ih => exact ih

/-- The index and the number of a handle, as this resolver reads them. -/
def readHandle? (r : Resolver σ) (h : Handle) : Except Trap (Option (UInt32 × UInt32)) :=
  r.layout.read? r.process.toMemory h

/-- A field of a handle has no address. -/
def HandleOverflows (r : Resolver σ) (h : Handle) : Prop :=
  r.layout.Overflows r.process.toMemory h

theorem readHandle?_eq_error_iff {t : Trap} :
    r.readHandle? h = .error t ↔ t = .overflow ∧ r.HandleOverflows h :=
  (r.layout.agrees_read? r.process.toMemory h).eq_error_iff

theorem comparisonIndex?_eq_some_iff : r.comparisonIndex? h = .ok (some index) ↔
    ∃ number, r.number h = .ok number ∧ r.readHandle? h = .ok (some (index, number)) := by
  rw [comparisonIndex?, Resolver.number, ← readHandle?]
  cases r.readHandle? h with
  | error t => simp [Except.map]
  | ok found => cases found <;> simp [Except.map, Prod.ext_iff]

/-- Whether two readings are of one name. -/
theorem sameName_eq (r : Resolver σ) (g h : Handle) : r.sameName g h =
    r.readHandle? g >>= fun x => (r.readHandle? h).map fun y => x.isSome && x == y := by
  rw [sameName, ← readHandle?, ← readHandle?]
  cases r.readHandle? g with
  | error t => rfl
  | ok x =>
      cases r.readHandle? h with
      | error t => cases x <;> rfl
      | ok y => cases x <;> cases y <;> rfl

theorem sameName_iff_readHandle? : r.sameName g h = .ok true ↔
    ∃ found, r.readHandle? g = .ok (some found) ∧ r.readHandle? h = .ok (some found) := by
  rw [sameName_eq]
  cases r.readHandle? g with
  | error t => simp
  | ok x =>
      cases r.readHandle? h with
      | error t => simp [Except.map]
      | ok y =>
          cases x with
          | none => simp [Except.map]
          | some x =>
              simp only [ok_bind, Except.map, Option.isSome_some, Bool.true_and, Except.ok.injEq,
                beq_iff_eq, Option.some.injEq, exists_eq_left']
              exact eq_comm

/-- The comparison index is the first field of a name value, so its address was read from. -/
theorem IsBound.accepts_of_read (hr : r.IsBound) (hm : r.process.toMemory.Honest)
    (hread : r.readHandle? h = .ok (some (index, number))) : r.accepts h = true := by
  cases h with
  | index comparison number => rfl
  | address a =>
      simp only [readHandle?, HandleLayout.read?] at hread
      split at hread
      · cases hread
      · rename_i h0
        obtain ⟨place, hplace, hread⟩ := bind_eq_ok_iff.mp hread
        rw [hr.layout_eq, Build.comparisonIndex_handleLayout, Address.advance_eq_ok_iff,
          Nat.add_zero, UInt64.toNat_inj] at hplace
        subst hplace
        cases hfirst : r.process.readUInt32 a with
        | error e =>
            rw [hfirst] at hread
            cases hread
        | ok first => simp [accepts, h0, hm.isReadable_of_readUInt32 h0 hfirst]

/-! ## Names from the table -/

/-- What a handle resolves to that was read as this index and number. -/
theorem IsBound.resolve_of_table (hr : r.IsBound) (hm : r.process.toMemory.Honest)
    (ht : r.strategy = .nameTable table) (hread : r.readHandle? h = .ok (some (index, number)))
    (s : Session σ) : (r.resolve h).run' s =
      (table.readName? r.process.toMemory r.build index number).map nameOf := by
  have hunits : r.readUnits? table h =
      table.readName? r.process.toMemory r.build index number := by
    rw [readUnits?, ← readHandle?, hread]
    rfl
  rw [resolve_run', units?_of_table ht (hr.accepts_of_read hm hread), StateT.run'_eq,
    Run.run_lift, hunits]
  cases table.readName? r.process.toMemory r.build index number <;> rfl

/-- What a bound resolver makes of two handles. -/
structure IdentitySpec (r : Resolver σ) : Prop where
  symm : ∀ g h, r.sameName g h = r.sameName h g
  trans : ∀ g h k, r.sameName g h = .ok true → r.sameName h k = .ok true →
    r.sameName g k = .ok true
  refl : ∀ h, r.sameName h h = (r.comparisonIndex? h).map Option.isSome
  same_iff : ∀ g h, r.sameName g h = .ok true ↔
    (∃ index, r.comparisonIndex? g = .ok (some index) ∧ r.comparisonIndex? h = .ok (some index)) ∧
    ∃ number, r.number g = .ok number ∧ r.number h = .ok number
  /-- There is no answer if and only if a field of a handle is past the last address. -/
  stops_iff : ∀ g h t, r.sameName g h = .error t ↔
    t = .overflow ∧ (r.HandleOverflows g ∨ r.HandleOverflows h)
  index_stops_iff : ∀ h t, r.comparisonIndex? h = .error t ↔ t = .overflow ∧ r.HandleOverflows h
  number_stops_iff : ∀ h t, r.number h = .error t ↔ t = .overflow ∧ r.HandleOverflows h
  /-- With a table, handles of one name resolve alike, whatever the session. -/
  resolve_eq : ∀ table, r.strategy = .nameTable table → ∀ g h, r.sameName g h = .ok true →
    r.resolve g = r.resolve h
  /-- Where name values have numbers, the name is the one that the table has for the index, and the
  number after it. It is read for ever if that one is. -/
  named : ∀ table, r.strategy = .nameTable table → r.build.outlineNumbers = false →
    ∀ h index, r.comparisonIndex? h = .ok (some index) → ∃ number, r.number h = .ok number ∧
      ∀ s, (r.resolve h).run' s =
        (table.readName? r.process.toMemory r.build index 0).map fun found =>
          match found with
          | some units => .ofUnits (if number = 0 then units
              else units ++ Utf16.ofString ("_" ++ toString (number.toNat - 1)))
          | none => .empty

theorem sameName_comm (r : Resolver σ) (g h : Handle) : r.sameName g h = r.sameName h g := by
  rw [sameName_eq, sameName_eq]
  cases hg : r.readHandle? g with
  | error t =>
      obtain ⟨rfl, -⟩ := readHandle?_eq_error_iff.mp hg
      cases hh : r.readHandle? h with
      | error t' =>
          obtain ⟨rfl, -⟩ := readHandle?_eq_error_iff.mp hh
          rfl
      | ok y => rfl
  | ok x =>
      cases r.readHandle? h with
      | error t => rfl
      | ok y => cases x <;> cases y <;> simp [Except.map, eq_comm]

theorem sameName_trans (hgh : r.sameName g h = .ok true) (hhk : r.sameName h k = .ok true) :
    r.sameName g k = .ok true := by
  rw [sameName_iff_readHandle?] at hgh hhk ⊢
  obtain ⟨found, hg, hh⟩ := hgh
  obtain ⟨other, hh', hk⟩ := hhk
  obtain rfl : found = other := Option.some.inj (Except.ok.inj (hh.symm.trans hh'))
  exact ⟨found, hg, hk⟩

theorem sameName_self (r : Resolver σ) (h : Handle) :
    r.sameName h h = (r.comparisonIndex? h).map Option.isSome := by
  rw [sameName_eq, comparisonIndex?, ← readHandle?]
  cases r.readHandle? h with
  | error t => rfl
  | ok found => cases found <;> simp [Except.map]

theorem sameName_iff : r.sameName g h = .ok true ↔
    (∃ index, r.comparisonIndex? g = .ok (some index) ∧ r.comparisonIndex? h = .ok (some index)) ∧
    ∃ number, r.number g = .ok number ∧ r.number h = .ok number := by
  simp only [sameName_iff_readHandle?, comparisonIndex?_eq_some_iff]
  constructor
  · rintro ⟨⟨index, number⟩, hg, hh⟩
    have hng : r.number g = .ok number := by rw [Resolver.number, ← readHandle?, hg]; rfl
    have hnh : r.number h = .ok number := by rw [Resolver.number, ← readHandle?, hh]; rfl
    exact ⟨⟨index, ⟨number, hng, hg⟩, number, hnh, hh⟩, number, hng, hnh⟩
  · rintro ⟨⟨index, ⟨m, hm, hg⟩, n, hn, hh⟩, number, hng, hnh⟩
    obtain rfl := Except.ok.inj (hm.symm.trans hng)
    obtain rfl := Except.ok.inj (hn.symm.trans hnh)
    exact ⟨_, hg, hh⟩

theorem sameName_eq_error_iff {t : Trap} : r.sameName g h = .error t ↔
    t = .overflow ∧ (r.HandleOverflows g ∨ r.HandleOverflows h) := by
  rw [sameName_eq, bind_eq_error_iff]
  simp only [map_eq_error_iff, readHandle?_eq_error_iff]
  constructor
  · rintro (⟨ht, hg⟩ | ⟨_, -, ht, hh⟩)
    · exact ⟨ht, .inl hg⟩
    · exact ⟨ht, .inr hh⟩
  · rintro ⟨ht, hor⟩
    by_cases hg : r.HandleOverflows g
    · exact .inl ⟨ht, hg⟩
    · exact .inr ⟨_, (r.layout.agrees_read? r.process.toMemory g).inside hg, ht,
        hor.resolve_left hg⟩

theorem IsBound.resolve_eq_of_sameName (hr : r.IsBound) (hm : r.process.toMemory.Honest)
    (ht : r.strategy = .nameTable table) (hgh : r.sameName g h = .ok true) :
    r.resolve g = r.resolve h := by
  obtain ⟨⟨index, number⟩, hg, hh⟩ := sameName_iff_readHandle?.mp hgh
  have hread : r.readUnits? table g = r.readUnits? table h := by
    rw [readUnits?, readUnits?, ← readHandle?, ← readHandle?, hg, hh]
  have hunits : r.units? g = r.units? h := by
    rw [units?_of_table ht (hr.accepts_of_read hm hg),
      units?_of_table ht (hr.accepts_of_read hm hh), hread]
  rw [resolve, resolve, hunits]

/-- Names are told apart by index and number, and the name table is asked for nothing else. -/
theorem IsBound.identity_spec (hr : r.IsBound) (hm : r.process.toMemory.Honest) :
    IdentitySpec r where
  symm := sameName_comm r
  trans _ _ _ := sameName_trans
  refl := sameName_self r
  same_iff _ _ := sameName_iff
  stops_iff _ _ _ := sameName_eq_error_iff
  index_stops_iff _ _ := map_eq_error_iff.trans readHandle?_eq_error_iff
  number_stops_iff _ _ := map_eq_error_iff.trans readHandle?_eq_error_iff
  resolve_eq table ht g h hgh := hr.resolve_eq_of_sameName hm ht hgh
  named := by
    intro table ht hb h index hindex
    obtain ⟨number, hnumber, hread⟩ := comparisonIndex?_eq_some_iff.mp hindex
    refine ⟨number, hnumber, fun s => ?_⟩
    rw [hr.resolve_of_table hm ht hread, NameTable.readName?_eq_map hb]
    cases table.readName? r.process.toMemory r.build index 0 with
    | error t => rfl
    | ok found =>
        cases found with
        | none => rfl
        | some units =>
            by_cases hzero : number = 0 <;>
              simp [nameOf, NameTable.numberSuffix, hzero, Except.map]

/-! ## A process with one name -/

/-- A pool whose only entry is `Pawn`, and after it a name value with the number six. -/
def onePool : List UInt8 :=
  littleEndianBytes 8 0x1008 ++ [0, 1, 80, 97, 119, 110, 0, 0] ++ wordBytes 0 ++ wordBytes 6

def onePoolProcess : TargetProcess where
  toMemory := .ofMapping 0x1000 onePool
  modules := .ok []
  regions := .ok []
  findPattern _ _ _ := .ok []

def onePoolBuild : Build :=
  { usesPool := true, pool := { blocksOffset := 0 } }

theorem honest_ofMapping (start : ℕ) (bytes : List UInt8) :
    (Memory.ofMapping start bytes).Honest := by
  intro a size found _ hr hne
  simp only [Memory.ofMapping] at hr ⊢
  split at hr
  · rename_i hin
    cases hr
    have hpos : 0 < size := by
      by_contra hzero
      simp [Nat.eq_zero_of_not_pos hzero] at hne
    simp only [Bool.and_eq_true, decide_eq_true_eq]
    omega
  · cases hr

theorem identity_spec_of_onePool :
    let c : Candidates := { nameTable := some 0x1000 }
    onePoolProcess.toMemory.Honest ∧
    ∃ r, (Unbound.start onePoolProcess onePoolBuild Unbound.idleInvoker).answer
        (.detection c.scanner true) = .ok (.ok r) ∧ IdentitySpec r.withTracking ∧
      r.withTracking.sameName (.address 0x1010) (.index 0 (some 6)) = .ok true ∧
      r.withTracking.resolve (.address 0x1010) = r.withTracking.resolve (.index 0 (some 6)) ∧
      ∀ s, (r.withTracking.resolve (.address 0x1010)).run' s =
        .ok (.ofUnits ([80, 97, 119, 110] ++ Utf16.ofString ("_" ++ toString 5))) := by
  intro c
  have hq : (Unbound.start onePoolProcess onePoolBuild Unbound.idleInvoker).answer
      (.detection c.scanner true) = .ok (.ok _) := rfl
  have hm : onePoolProcess.toMemory.Honest := honest_ofMapping 0x1000 onePool
  have hspec := (IsBound.answer hq).withTracking.identity_spec hm
  have hsame := (hspec.same_iff (.address 0x1010) (.index 0 (some 6))).mpr
    ⟨⟨0, by decide, rfl⟩, 6, by decide, rfl⟩
  refine ⟨hm, _, hq, hspec, hsame, hspec.resolve_eq _ rfl _ _ hsame, ?_⟩
  intro s
  obtain ⟨number, hnumber, hnamed⟩ := hspec.named _ rfl rfl (.address 0x1010) 0 (by decide)
  obtain rfl : number = 6 := Except.ok.inj (hnumber.symm.trans (by decide))
  exact hnamed s

end Resolver

end EngineNames
