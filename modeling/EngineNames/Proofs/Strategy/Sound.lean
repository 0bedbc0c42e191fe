import EngineNames.Strategy

/-! # Sound strategies

A strategy is sound for a process and a build if its function is executable, or if its table is
readable and laid out as in the build. Whatever a process is asked for, it gives sound strategies
only.
-/

namespace EngineNames

/-- The function can be called, or the table can be read as one of the build. -/
def Strategy.Sound (p : TargetProcess) (b : Build) : Strategy → Prop
  | .appendString f => p.isExecutable f.address = true
  | .toString f => p.isExecutable f.address = true
  | .nameTable t => p.isReadable t.address = true ∧ t = .ofBuild t.address b

namespace Strategy.Sound

variable {p : TargetProcess} {b : Build} {s : Strategy}

theorem executable (h : s.Sound p b) (hk : s.kind ≠ .nameTable) :
    p.isExecutable s.address = true := by
  cases s with
  | appendString f => exact h
  | toString f => exact h
  | nameTable t => exact absurd rfl hk

theorem readable (h : s.Sound p b) (hk : s.kind = .nameTable) :
    p.isReadable s.address = true := by
  cases s with
  | appendString f => cases hk
  | toString f => cases hk
  | nameTable t => exact h.1

theorem table_eq (h : s.Sound p b) {t : NameTable} (ht : s = .nameTable t) :
    t = .ofBuild s.address b := by
  subst ht
  exact h.2

end Strategy.Sound

theorem NameTable.address_ofBuild (a : Address) (b : Build) : (ofBuild a b).address = a := by
  unfold ofBuild
  split <;> rfl

theorem NameTable.exists_eq_pool_iff {t : NameTable} {a : Address} {b : Build}
    (h : t = ofBuild a b) : (∃ layout, t = .pool a layout) ↔ b.usesPool = true := by
  subst h
  unfold ofBuild
  cases b.usesPool <;> simp

namespace TargetProcess

variable {p : TargetProcess} {b : Build} {s : Strategy}

theorem functionStrategy_sound {kind : StrategyKind} {a : Address} {convention : Convention}
    (h : p.functionStrategy kind a convention = .ok s) : s.Sound p b := by
  unfold functionStrategy at h
  split at h
  · rename_i hx
    cases kind <;> cases h <;> exact hx
  · cases h

theorem tableStrategy_sound {a : Address} (h : p.tableStrategy a b = .ok s) : s.Sound p b := by
  unfold tableStrategy at h
  split at h
  · rename_i hr
    cases h
    rw [Strategy.Sound, NameTable.address_ofBuild]
    exact ⟨hr, rfl⟩
  · cases h

theorem overrideStrategy_sound {o : Override} (h : p.overrideStrategy b o = .ok s) :
    s.Sound p { b with usesPool := o.isPool } := by
  obtain ⟨a, _, h⟩ := bind_eq_ok_iff.mp h
  split at h
  · exact tableStrategy_sound h
  · exact functionStrategy_sound h

theorem firstFunction_sound {rejected : List (StrategyKind × Address)}
    {candidates : List (StrategyKind × Option Address)}
    (h : p.firstFunction rejected candidates = .ok s) : s.Sound p b := by
  induction candidates generalizing rejected with
  | nil => cases h
  | cons candidate rest ih =>
      obtain ⟨kind, _ | a⟩ := candidate
      · exact ih h
      · rw [firstFunction] at h
        split at h
        · rename_i found hf
          cases h
          exact functionStrategy_sound hf
        · exact ih h

theorem detectedStrategy_sound {scanner : Scanner} {tableOnly : Bool}
    (h : p.detectedStrategy b scanner tableOnly = .ok (.ok s)) : s.Sound p b := by
  unfold detectedStrategy at h
  split at h
  · obtain ⟨table, _, h⟩ := bind_eq_ok_iff.mp h
    cases table with
    | none => cases h
    | some a => exact tableStrategy_sound (Except.ok.inj h)
  · obtain ⟨appending, _, h⟩ := bind_eq_ok_iff.mp h
    obtain ⟨returning, _, h⟩ := bind_eq_ok_iff.mp h
    exact firstFunction_sound (Except.ok.inj h)

theorem thunkStrategy_sound {scanner : Scanner} (h : p.thunkStrategy scanner = .ok (.ok s)) :
    s.Sound p b := by
  obtain ⟨thunk, _, h⟩ := bind_eq_ok_iff.mp h
  cases thunk with
  | none => cases h
  | some thunk =>
      simp only at h
      split at h
      · cases h
      · obtain ⟨target, _, h⟩ := bind_eq_ok_iff.mp h
        cases target with
        | none => cases h
        | some a => exact functionStrategy_sound (Except.ok.inj h)

end TargetProcess

end EngineNames
