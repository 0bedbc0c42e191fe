import EngineNames.Proofs.Strategy.Candidates
import EngineNames.Proofs.Strategy.Sound
import Mathlib.Algebra.Group.Nat.Defs
import Mathlib.Data.List.Forall2

/-! # Overrides

An override counts an offset from the base of a module. It denotes an address if the module is there
and the exact sum lies inside it, and that address is bound if it will do for what the operator says
that it is. Everything that can be wrong with an override is one of seven faults, and each of them
has an error of its own.
-/

namespace EngineNames

/-! ## Names of modules -/

/-- The first character is a capital letter of ASCII, and the second one is its small letter. -/
def IsCapitalOf (c d : Char) : Prop :=
  65 ≤ c.toNat ∧ c.toNat ≤ 90 ∧ d.toNat = c.toNat + 32

/-- Characters that do not differ, or only in the case of a letter of ASCII. -/
def SameLetter (c d : Char) : Prop :=
  c = d ∨ IsCapitalOf c d ∨ IsCapitalOf d c

theorem toNat_toLower (c : Char) : c.toLower.toNat =
    if 65 ≤ c.toNat ∧ c.toNat ≤ 90 then c.toNat + 32 else c.toNat := by
  have hrange : (c.val ≥ 'A'.val ∧ c.val ≤ 'Z'.val) ↔ 65 ≤ c.toNat ∧ c.toNat ≤ 90 := by
    rw [ge_iff_le, UInt32.le_iff_toNat_le, UInt32.le_iff_toNat_le]
    exact Iff.rfl
  by_cases h : 65 ≤ c.toNat ∧ c.toNat ≤ 90
  · have hval : c.toLower.val = c.val + ('a'.val - 'A'.val) := by
      delta Char.toLower
      rw [dif_pos (hrange.mpr h)]
    have hdistance : ('a'.val - 'A'.val).toNat = 32 := by decide
    rw [if_pos h, ← Char.toNat_val, hval, UInt32.toNat_add, hdistance, Char.toNat_val]
    omega
  · rw [if_neg h]
    delta Char.toLower
    rw [dif_neg (mt hrange.mp h)]

theorem toLower_eq_iff {c d : Char} : c.toLower = d.toLower ↔ SameLetter c d := by
  rw [← Char.toNat_inj, toNat_toLower, toNat_toLower]
  unfold SameLetter IsCapitalOf
  rw [← Char.toNat_inj]
  split <;> split <;> omega

/-- A module has this name, whatever the case of the letters. -/
def Module.HasName (m : Module) (name : String) : Prop :=
  List.Forall₂ SameLetter m.name.toList name.toList

theorem Module.isNamed_iff {m : Module} {name : String} :
    m.isNamed name = true ↔ m.HasName name := by
  rw [isNamed, beq_iff_eq, ← List.forall₂_eq_eq_eq, List.forall₂_map_left_iff,
    List.forall₂_map_right_iff]
  simp only [toLower_eq_iff]
  exact Iff.rfl

/-- An offset from the base of a module lies in the module if it is less than its size, wherever the
module is. -/
theorem Module.contains_iff {m : Module} {offset : UInt64} {a : Address}
    (h : m.base.toNat + offset.toNat = a.toNat) :
    m.contains a = true ↔ offset.toNat < m.size.toNat := by
  have hle : m.base ≤ a := UInt64.le_iff_toNat_le.mpr (by omega)
  have hsub : (a - m.base).toNat = offset.toNat := by
    rw [UInt64.toNat_sub_of_le _ _ hle]
    omega
  rw [contains, Bool.and_eq_true, decide_eq_true_eq, decide_eq_true_eq, UInt64.lt_iff_toNat_lt,
    hsub]
  exact and_iff_right hle

/-! ## What an override denotes -/

namespace Override

/-- The offset counts from this module: the first one with the name, or the first of all if the
override names none. -/
def CountsFrom (o : Override) (p : TargetProcess) (image : Module) : Prop :=
  ∃ earlier later, p.modules = .ok (earlier ++ image :: later) ∧
    match o.moduleName with
    | some name => image.HasName name ∧ ∀ other ∈ earlier, ¬ other.HasName name
    | none => earlier = []

/-- The address is the exact sum of the base and the offset, and it lies in the module. -/
def Denotes (o : Override) (p : TargetProcess) (a : Address) : Prop :=
  ∃ image, o.CountsFrom p image ∧ o.offset.toNat < image.size.toNat ∧
    image.base.toNat + o.offset.toNat = a.toNat

/-- A table has to be readable, and a function has to be executable. -/
def Usable (o : Override) (p : TargetProcess) (a : Address) : Prop :=
  match o.kind with
  | .nameTable => p.isReadable a = true
  | _ => p.InExecutableRegion a

/-- The override denotes an address that will do. -/
def SoundAt (o : Override) (p : TargetProcess) (a : Address) : Prop :=
  o.Denotes p a ∧ o.Usable p a

/-- The strategy that an override asks for, at an address. -/
def strategyAt (o : Override) (b : Build) (a : Address) : Strategy :=
  match o.kind with
  | .appendString => .appendString ⟨a, o.convention⟩
  | .toString => .toString ⟨a, o.convention⟩
  | .nameTable => .nameTable (if o.isPool then .pool a b.pool else .array a b.array)

/-- What can be wrong with an override, and the error that says so. -/
inductive Fault (o : Override) (p : TargetProcess) : StrategyError → Prop where
  | unlisted {e} (h : p.modules = .error e) : Fault o p (.process e)
  | missing {modules name} (h : p.modules = .ok modules) (hname : o.moduleName = some name)
      (hnone : ∀ m ∈ modules, ¬ m.HasName name) : Fault o p (.process (.moduleNotFound name))
  | noModules (h : p.modules = .ok []) (hname : o.moduleName = none) :
      Fault o p (.process (.moduleNotFound "<main image>"))
  | overflows {image} (h : o.CountsFrom p image)
      (hsum : 2 ^ 64 ≤ image.base.toNat + o.offset.toNat) :
      Fault o p (.overflowsModule o.kind o.offset image.base)
  | outside {image} (h : o.CountsFrom p image)
      (hsum : image.base.toNat + o.offset.toNat < 2 ^ 64)
      (hsize : image.size.toNat ≤ o.offset.toNat) :
      Fault o p (.outsideModule o.kind o.offset image)
  | notExecutable {a} (h : o.Denotes p a) (hkind : o.kind ≠ .nameTable)
      (hx : ¬ p.InExecutableRegion a) : Fault o p (.notExecutable o.kind a)
  | notReadable {a} (h : o.Denotes p a) (hkind : o.kind = .nameTable)
      (hr : p.isReadable a = false) : Fault o p (.notReadable a)

end Override

/-- The error is a failure of the process. -/
def StrategyError.IsProcess : StrategyError → Prop
  | .process _ => True
  | _ => False

/-- The error says that an offset or an address will not do. -/
def StrategyError.IsInvalidOffset : StrategyError → Prop
  | .overflowsModule .. => True
  | .outsideModule .. => True
  | .notExecutable .. => True
  | .notReadable _ => True
  | _ => False

/-! ## The module -/

namespace TargetProcess

/-- The module that an override counts from. -/
def overrideModule (p : TargetProcess) (o : Override) : Except ProcessError Module :=
  match o.moduleName with
  | some name => p.moduleNamed name
  | none => p.mainModule

variable {p : TargetProcess} {b : Build} {o : Override} {image : Module} {a : Address}

theorem overrideModule_of_unlisted {e : ProcessError} (h : p.modules = .error e) :
    p.overrideModule o = .error e := by
  unfold overrideModule
  split
  · rw [moduleNamed, h]
    rfl
  · rw [mainModule, h]
    rfl

theorem overrideModule_of_missing {modules : List Module} {name : String}
    (h : p.modules = .ok modules) (hname : o.moduleName = some name)
    (hnone : ∀ m ∈ modules, ¬ m.HasName name) :
    p.overrideModule o = .error (.moduleNotFound name) := by
  have hfind : modules.find? (·.isNamed name) = none :=
    List.find?_eq_none.mpr fun m hm hnamed => hnone m hm (Module.isNamed_iff.mp hnamed)
  rw [overrideModule, hname]
  simp only [moduleNamed, h, bind, Except.bind, hfind]
  rfl

theorem overrideModule_of_noModules (h : p.modules = .ok []) (hname : o.moduleName = none) :
    p.overrideModule o = .error (.moduleNotFound "<main image>") := by
  rw [overrideModule, hname]
  simp only [mainModule, h, bind, Except.bind, List.head?_nil]
  rfl

theorem overrideModule_of_countsFrom (h : o.CountsFrom p image) :
    p.overrideModule o = .ok image := by
  obtain ⟨earlier, later, hmodules, hfirst⟩ := h
  unfold overrideModule
  cases hname : o.moduleName with
  | some name =>
      rw [hname] at hfirst
      have hfind : (earlier ++ image :: later).find? (·.isNamed name) = some image := by
        refine List.find?_eq_some_iff_append.mpr
          ⟨Module.isNamed_iff.mpr hfirst.1, earlier, later, rfl, fun other hother => ?_⟩
        rw [Bool.not_eq_true', ← Bool.not_eq_true, Module.isNamed_iff]
        exact hfirst.2 other hother
      simp only [moduleNamed, hmodules, bind, Except.bind, hfind]
      rfl
  | none =>
      rw [hname] at hfirst
      subst hfirst
      simp only [mainModule, hmodules, bind, Except.bind, List.nil_append, List.head?_cons]
      rfl

/-- Either there is a module to count from, or one of the first three faults is there. -/
theorem exists_countsFrom_or_fault (p : TargetProcess) (o : Override) :
    (∃ image, o.CountsFrom p image) ∨ ∃ e, o.Fault p (.process e) := by
  cases hmodules : p.modules with
  | error e => exact .inr ⟨e, .unlisted hmodules⟩
  | ok modules =>
      cases hname : o.moduleName with
      | some name =>
          cases hfind : modules.find? (·.isNamed name) with
          | some image =>
              obtain ⟨hnamed, earlier, later, rfl, hbefore⟩ :=
                List.find?_eq_some_iff_append.mp hfind
              refine .inl ⟨image, earlier, later, hmodules, ?_⟩
              rw [hname]
              refine ⟨Module.isNamed_iff.mp hnamed, fun other hother => ?_⟩
              rw [← Module.isNamed_iff, Bool.not_eq_true, ← Bool.not_eq_true']
              exact hbefore other hother
          | none =>
              have hnone : ∀ m ∈ modules, ¬ m.HasName name := fun m hm hhas =>
                List.find?_eq_none.mp hfind m hm (Module.isNamed_iff.mpr hhas)
              exact .inr ⟨_, .missing hmodules hname hnone⟩
      | none =>
          cases modules with
          | nil => exact .inr ⟨_, .noModules hmodules hname⟩
          | cons image later =>
              refine .inl ⟨image, [], later, hmodules, ?_⟩
              rw [hname]

/-! ## The address and the strategy -/

/-- Where the offset leads in a module. -/
def addressIn (o : Override) (image : Module) : Except StrategyError Address :=
  match image.base.add? o.offset with
  | none => .error (.overflowsModule o.kind o.offset image.base)
  | some a => if image.contains a then .ok a else .error (.outsideModule o.kind o.offset image)

theorem overrideAddress_eq (p : TargetProcess) (o : Override) :
    p.overrideAddress o = (p.overrideModule o).mapError .process >>= addressIn o :=
  rfl

theorem overrideAddress_of_no_module {e : ProcessError} (h : p.overrideModule o = .error e) :
    p.overrideAddress o = .error (.process e) := by
  rw [overrideAddress_eq, h]
  rfl

theorem overrideAddress_of_countsFrom (h : o.CountsFrom p image) :
    p.overrideAddress o = addressIn o image := by
  rw [overrideAddress_eq, overrideModule_of_countsFrom h]
  rfl

theorem overrideAddress_of_denotes (h : o.Denotes p a) : p.overrideAddress o = .ok a := by
  obtain ⟨image, hcounts, hsize, hsum⟩ := h
  rw [overrideAddress_of_countsFrom hcounts, addressIn, Address.add?_eq_some_iff.mpr hsum]
  exact if_pos ((Module.contains_iff hsum).mpr hsize)

theorem overrideStrategy_of_address_error {e : StrategyError} (b : Build)
    (h : p.overrideAddress o = .error e) : p.overrideStrategy b o = .error e := by
  rw [overrideStrategy, h]
  rfl

theorem overrideStrategy_of_soundAt (b : Build) (h : o.SoundAt p a) :
    p.overrideStrategy b o = .ok (o.strategyAt b a) := by
  obtain ⟨hdenotes, huse⟩ := h
  simp only [overrideStrategy, overrideAddress_of_denotes hdenotes, bind, Except.bind]
  unfold Override.Usable at huse
  unfold Override.strategyAt
  cases hkind : o.kind with
  | appendString =>
      rw [hkind] at huse
      exact functionStrategy_appendString o.convention huse
  | toString =>
      rw [hkind] at huse
      exact functionStrategy_toString o.convention huse
  | nameTable =>
      rw [hkind] at huse
      exact tableStrategy_of_readable _ huse

theorem overrideStrategy_of_fault {e : StrategyError} (b : Build) (h : o.Fault p e) :
    p.overrideStrategy b o = .error e := by
  cases h with
  | unlisted h =>
      exact overrideStrategy_of_address_error b
        (overrideAddress_of_no_module (overrideModule_of_unlisted h))
  | missing h hname hnone =>
      exact overrideStrategy_of_address_error b
        (overrideAddress_of_no_module (overrideModule_of_missing h hname hnone))
  | noModules h hname =>
      exact overrideStrategy_of_address_error b
        (overrideAddress_of_no_module (overrideModule_of_noModules h hname))
  | overflows h hsum =>
      refine overrideStrategy_of_address_error b ?_
      have hadd : Address.add? _ o.offset = none := if_neg (Nat.not_lt.mpr hsum)
      rw [overrideAddress_of_countsFrom h, addressIn, hadd]
  | @outside image h hsum hsize =>
      refine overrideStrategy_of_address_error b ?_
      have hadd : image.base.add? o.offset = some (.ofNat (image.base.toNat + o.offset.toNat)) :=
        if_pos hsum
      have hplace := Address.add?_eq_some_iff.mp hadd
      rw [overrideAddress_of_countsFrom h, addressIn, hadd]
      exact if_neg fun hin => Nat.not_lt.mpr hsize ((Module.contains_iff hplace).mp hin)
  | notExecutable h hkind hx =>
      simp only [overrideStrategy, overrideAddress_of_denotes h, bind, Except.bind]
      exact functionStrategy_of_not _ _ hx
  | notReadable h hkind hr =>
      simp only [overrideStrategy, overrideAddress_of_denotes h, bind, Except.bind, hkind]
      exact tableStrategy_of_not _ hr

/-- The offset leads to a place in the module, or it leaves the address space or the module. -/
theorem exists_denotes_or_fault (h : o.CountsFrom p image) :
    (∃ a, o.Denotes p a) ∨ ∃ e, o.Fault p e := by
  rcases Nat.lt_or_ge (image.base.toNat + o.offset.toNat) (2 ^ 64) with hsum | hsum
  · rcases Nat.lt_or_ge o.offset.toNat image.size.toNat with hsize | hsize
    · exact .inl ⟨_, image, h, hsize, (UInt64.toNat_ofNat_of_lt' hsum).symm⟩
    · exact .inr ⟨_, .outside h hsum hsize⟩
  · exact .inr ⟨_, .overflows h hsum⟩

theorem usable_or_fault (h : o.Denotes p a) : o.Usable p a ∨ ∃ e, o.Fault p e := by
  by_cases huse : o.Usable p a
  · exact .inl huse
  · unfold Override.Usable at huse
    cases hkind : o.kind with
    | nameTable =>
        rw [hkind] at huse
        exact .inr ⟨_, .notReadable h hkind ((Bool.not_eq_true _).mp huse)⟩
    | _ =>
        rw [hkind] at huse
        exact .inr ⟨_, .notExecutable h (by simp [hkind]) huse⟩

/-- An override that has no fault is sound. -/
theorem exists_soundAt_or_fault (p : TargetProcess) (o : Override) :
    (∃ a, o.SoundAt p a) ∨ ∃ e, o.Fault p e := by
  rcases exists_countsFrom_or_fault p o with ⟨image, hcounts⟩ | ⟨e, hfault⟩
  · rcases exists_denotes_or_fault hcounts with ⟨a, hdenotes⟩ | hfault
    · rcases usable_or_fault hdenotes with huse | hfault
      · exact .inl ⟨a, hdenotes, huse⟩
      · exact .inr hfault
    · exact .inr hfault
  · exact .inr ⟨_, hfault⟩

theorem overrideStrategy_eq_ok_iff {s : Strategy} :
    p.overrideStrategy b o = .ok s ↔ ∃ a, o.SoundAt p a ∧ s = o.strategyAt b a := by
  constructor
  · intro h
    rcases exists_soundAt_or_fault p o with ⟨a, hsound⟩ | ⟨e, hfault⟩
    · rw [overrideStrategy_of_soundAt b hsound] at h
      exact ⟨a, hsound, (Except.ok.inj h).symm⟩
    · rw [overrideStrategy_of_fault b hfault] at h
      cases h
  · rintro ⟨a, hsound, rfl⟩
    exact overrideStrategy_of_soundAt b hsound

theorem overrideStrategy_eq_error_iff {e : StrategyError} :
    p.overrideStrategy b o = .error e ↔ o.Fault p e := by
  refine ⟨fun h => ?_, overrideStrategy_of_fault b⟩
  rcases exists_soundAt_or_fault p o with ⟨a, hsound⟩ | ⟨e', hfault⟩
  · rw [overrideStrategy_of_soundAt b hsound] at h
    cases h
  · rw [overrideStrategy_of_fault b hfault] at h
    rwa [← Except.error.inj h]

end TargetProcess

namespace Override.Fault

open TargetProcess

variable {o : Override} {p : TargetProcess} {e : StrategyError}

/-- Without a module to count from, it is the process that fails. -/
theorem isProcess (h : o.Fault p e) (hnone : ∀ image, ¬ o.CountsFrom p image) : e.IsProcess := by
  cases h with
  | unlisted => trivial
  | missing => trivial
  | noModules => trivial
  | overflows h => exact absurd h (hnone _)
  | outside h => exact absurd h (hnone _)
  | notExecutable h =>
      obtain ⟨image, hcounts, _⟩ := h
      exact absurd hcounts (hnone image)
  | notReadable h =>
      obtain ⟨image, hcounts, _⟩ := h
      exact absurd hcounts (hnone image)

/-- With a module to count from, it is the offset or the address that will not do. -/
theorem isInvalidOffset (h : o.Fault p e) {image : Module} (hcounts : o.CountsFrom p image) :
    e.IsInvalidOffset := by
  have hmodule := overrideModule_of_countsFrom hcounts
  cases h with
  | unlisted h => cases (overrideModule_of_unlisted h).symm.trans hmodule
  | missing h hname hnone => cases (overrideModule_of_missing h hname hnone).symm.trans hmodule
  | noModules h hname => cases (overrideModule_of_noModules h hname).symm.trans hmodule
  | overflows => trivial
  | outside => trivial
  | notExecutable => trivial
  | notReadable => trivial

end Override.Fault

end EngineNames
