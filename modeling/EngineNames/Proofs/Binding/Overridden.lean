import EngineNames.Proofs.Binding.Requests
import EngineNames.Proofs.Handle.Stored
import EngineNames.Proofs.Resolver.Identity
import EngineNames.Proofs.Strategy.Overrides

/-! # What an override binds

An override is bound if and only if it is sound, and then to the address that it denotes, as what
it says that is there. Whether the build had a pool before makes no difference. An override that is
not sound comes back with the error of its fault.
-/

namespace EngineNames.Unbound

variable {σ : Type} {u : Unbound σ} {o : Override}

theorem bindsTo_bindOverride_iff {path : BindPath} {s : Strategy} :
    BindsTo (.ok (u.bindOverride o)) path s ↔
      .override = path ∧ u.process.overrideStrategy u.build o = .ok s := by
  rw [bindOverride_eq, bindsTo_conclude_iff, Except.ok.injEq]

theorem failsWith_bindOverride_iff {e : BindError} : FailsWith (.ok (u.bindOverride o)) e ↔
    e.path = .override ∧ o.Fault u.process e.cause := by
  rw [← TargetProcess.overrideStrategy_eq_error_iff (b := u.build), bindOverride_eq]
  constructor
  · rintro ⟨f, hf, rfl⟩
    cases hs : u.process.overrideStrategy u.build o with
    | ok s =>
        rw [hs] at hf
        cases hf
    | error cause =>
        rw [hs] at hf
        cases hf
        exact ⟨rfl, rfl⟩
  · obtain ⟨path, cause⟩ := e
    rintro ⟨rfl, hs⟩
    exact failsWith_conclude { u.build with usesPool := o.isPool } .override (congrArg _ hs)

/-- The resolver that an override binds. -/
theorem build_of_bindOverride {r : Resolver σ} (h : u.bindOverride o = .ok r) :
    r.process = u.process ∧ r.build = { u.build with usesPool := o.isPool } ∧
      r.layout = u.build.handleLayout := by
  unfold bindOverride at h
  cases hs : u.process.overrideStrategy u.build o with
  | ok s =>
      rw [hs] at h
      cases h
      exact ⟨rfl, rfl, rfl⟩
  | error e =>
      rw [hs] at h
      cases h

/-- An override has the only word on pools. -/
theorem bindOverride_withPool_eq_ok_iff (usesPool : Bool) {r : Resolver σ} :
    (u.withPool usesPool).bindOverride o = .ok r ↔ u.bindOverride o = .ok r := by
  have hsame : (u.withPool usesPool).process.overrideStrategy (u.withPool usesPool).build o =
      u.process.overrideStrategy u.build o :=
    rfl
  unfold bindOverride
  rw [hsame]
  cases u.process.overrideStrategy u.build o with
  | ok s => exact Iff.rfl
  | error e => simp

/-- A table that an override binds is the pool or the array at the bound address, and handles with
an index are looked up in it. -/
theorem units?_of_bindOverride {r : Resolver σ} (h : u.bindOverride o = .ok r)
    (hkind : o.kind = .nameTable) (index : UInt32) (number : Option UInt32) (s : Session σ) :
    (r.units? (.index index number)).run s =
      ((if o.isPool then NameTable.pool r.strategy.address u.build.pool
        else .array r.strategy.address u.build.array).readName? u.process.toMemory u.build index
          (if u.build.outlineNumbers then 0 else number.getD 0)).map (·, s) := by
  obtain ⟨hprocess, hbuild, hlayout⟩ := build_of_bindOverride h
  obtain ⟨_, hs⟩ := bindsTo_bindOverride_iff.mp ⟨r, congrArg _ h, rfl, rfl⟩
  obtain ⟨a, _, hstrategy⟩ := TargetProcess.overrideStrategy_eq_ok_iff.mp hs
  have htable : r.strategy =
      .nameTable (if o.isPool then .pool a u.build.pool else .array a u.build.array) := by
    rw [hstrategy, Override.strategyAt, hkind]
  have haddress : r.strategy.address = a := by
    rw [htable]
    cases o.isPool <;> rfl
  rw [Resolver.units?_of_table htable rfl, Run.run_lift, haddress,
    Resolver.readUnits?, hlayout, Resolver.read?_index, ok_bind, hprocess, hbuild]
  rfl

theorem exists_bindOverride_eq_ok_iff :
    (∃ r, u.bindOverride o = .ok r) ↔ ∃ a, o.SoundAt u.process a := by
  constructor
  · rintro ⟨r, hr⟩
    obtain ⟨_, hs⟩ := bindsTo_bindOverride_iff.mp ⟨r, congrArg _ hr, rfl, rfl⟩
    obtain ⟨a, hsound, _⟩ := TargetProcess.overrideStrategy_eq_ok_iff.mp hs
    exact ⟨a, hsound⟩
  · rintro ⟨a, hsound⟩
    have hs := TargetProcess.overrideStrategy_of_soundAt u.build hsound
    obtain ⟨r, hr, _⟩ := bindsTo_bindOverride_iff.mpr ⟨rfl, hs⟩
    exact ⟨r, Except.ok.inj hr⟩

/-- What comes of an override, whatever was tried before. -/
structure OverrideSpec (u : Unbound σ) (o : Override) : Prop where
  succeeds_iff : (∃ r, u.bindOverride o = .ok r) ↔ ∃ image, o.CountsFrom u.process image ∧
    o.offset.toNat < image.size.toNat ∧ image.base.toNat + o.offset.toNat < 2 ^ 64 ∧
    o.Usable u.process (.ofNat (image.base.toNat + o.offset.toNat))
  /-- It is bound at the exact sum, as the kind that was asked for. -/
  binds_iff : ∀ path s, BindsTo (.ok (u.bindOverride o)) path s ↔
    path = .override ∧ ∃ a, o.SoundAt u.process a ∧ s = o.strategyAt u.build a
  /-- Handles with an index are looked up in a pool if the override says so, and in an array if it
  does not. -/
  index_handles : ∀ r, u.bindOverride o = .ok r → o.kind = .nameTable →
    ∀ index number s, (r.units? (.index index number)).run s =
      ((if o.isPool then NameTable.pool r.strategy.address u.build.pool
        else .array r.strategy.address u.build.array).readName? u.process.toMemory u.build index
          (if u.build.outlineNumbers then 0 else number.getD 0)).map (·, s)
  any_flag : ∀ usesPool r,
    (u.withPool usesPool).bindOverride o = .ok r ↔ u.bindOverride o = .ok r
  fails_iff : ∀ e, FailsWith (.ok (u.bindOverride o)) e ↔
    e.path = .override ∧ o.Fault u.process e.cause
  /-- The process is to blame if there is no module to count from, and the offset in all other
  cases. -/
  otherwise : (¬ ∃ r, u.bindOverride o = .ok r) →
    ∃ cause, FailsWith (.ok (u.bindOverride o)) ⟨.override, cause⟩ ∧
      ((∀ image, ¬ o.CountsFrom u.process image) → cause.IsProcess) ∧
      ∀ image, o.CountsFrom u.process image → cause.IsInvalidOffset

/-- An override is accepted exactly when it is sound. -/
theorem bindOverride_spec (u : Unbound σ) (o : Override) : OverrideSpec u o := by
  refine ⟨?_, fun path s => ?_, fun r hr hkind index number s => ?_,
    fun usesPool r => bindOverride_withPool_eq_ok_iff usesPool,
    fun e => failsWith_bindOverride_iff, fun hnot => ?_⟩
  · rw [exists_bindOverride_eq_ok_iff]
    constructor
    · rintro ⟨a, ⟨image, hcounts, hsize, hsum⟩, huse⟩
      refine ⟨image, hcounts, hsize, hsum ▸ a.toNat_lt, ?_⟩
      rwa [hsum, UInt64.ofNat_toNat]
    · rintro ⟨image, hcounts, hsize, hsum, huse⟩
      exact ⟨_, ⟨image, hcounts, hsize, (UInt64.toNat_ofNat_of_lt' hsum).symm⟩, huse⟩
  · rw [bindsTo_bindOverride_iff, TargetProcess.overrideStrategy_eq_ok_iff, eq_comm]
  · exact units?_of_bindOverride hr hkind index number s
  · have hnone : ¬ ∃ a, o.SoundAt u.process a := mt exists_bindOverride_eq_ok_iff.mpr hnot
    rcases TargetProcess.exists_soundAt_or_fault u.process o with hsound | ⟨cause, hfault⟩
    · exact absurd hsound hnone
    · exact ⟨cause, failsWith_bindOverride_iff.mpr ⟨rfl, hfault⟩, hfault.isProcess,
        fun _ => hfault.isInvalidOffset⟩

/-- A module in the last page of the address space that is said to be longer than that, another one
of its name, and one of no size. -/
def lastPage : TargetProcess where
  readBytes a size := .error (.readFailed a size "unmapped")
  isReadable _ := false
  modules := .ok [⟨0xFFFFFFFFFFFFF000, 0x2000, "Game.exe"⟩, ⟨0x1000, 0x100, "GAME.EXE"⟩,
    ⟨0x2000, 0, "empty.dll"⟩]
  regions := .ok [⟨0xFFFFFFFFFFFFF000, 0xFFFFFFFFFFFFFFFF, true, true⟩]
  findPattern _ _ _ := .ok []

/-- The first module of the name counts, up to where the address space ends. In a module of no size
there is no place for any offset. -/
example :
    lastPage.overrideStrategy {} { offset := 0xFFE, moduleName := some "gAME.exe" } =
      .ok (.appendString ⟨0xFFFFFFFFFFFFFFFE, .c⟩) ∧
    lastPage.overrideStrategy {} { offset := 0x1000, moduleName := some "gAME.exe" } =
      .error (.overflowsModule .appendString 0x1000 0xFFFFFFFFFFFFF000) ∧
    lastPage.overrideStrategy {} { offset := 0, moduleName := some "empty.dll" } =
      .error (.outsideModule .appendString 0 ⟨0x2000, 0, "empty.dll"⟩) := by
  decide +kernel

end EngineNames.Unbound
