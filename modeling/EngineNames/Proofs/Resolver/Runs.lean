import EngineNames.Resolver

/-! # Runs of a resolver

What one resolution does, in terms of the calls that it makes: which buffer the invoker is given,
what is read after the call, and what becomes of the scratch buffer.
-/

namespace EngineNames

variable {σ τ : Type}

/-- The buffer that the next call of an appending function is given. -/
def Session.nextBuffer (s : Session σ) : NameBuffer :=
  Resolver.prepare (s.scratch.getD (.withCapacity scratchCapacity))

/-- What needs no session leaves it alone. -/
theorem Run.run_lift {α : Type} (x : Except Trap α) (s : Session σ) :
    (liftM x : Run σ α).run s = x.map (·, s) := by
  rw [StateT.run_monadLift]
  cases x <;> rfl

namespace Resolver

/-- The name that is read after a call, if the call went well. -/
def readAfter (call : Except ProcessError Unit × NameBuffer) :
    Except Trap (Option (List UInt16)) :=
  match call.1 with
  | .ok () => call.2.wide.map some
  | .error _ => .ok none

theorem callAppend_run (r : Resolver σ) (f : Callable) (name : NameArg) (b : NameBuffer)
    (s : Session σ) :
    (r.callAppend f name b).run s = do
      let called ← (r.invoker.appendString f name (prepare b)).run s
      let units ← readAfter called.1
      return ((units, called.1.2), called.2) := by
  rw [callAppend, StateT.run_bind]
  cases (r.invoker.appendString f name (prepare b)).run s with
  | error t => rfl
  | ok called =>
      obtain ⟨⟨result, left⟩, s'⟩ := called
      cases result with
      | error e => rfl
      | ok done =>
          simp only [ok_bind, readAfter, StateT.run_bind, StateT.run_monadLift]
          cases left.wide <;> rfl

/-- The invoker is called with the buffer that the session has ready. -/
theorem appendName_run (r : Resolver σ) (f : Callable) (name : NameArg) (s : Session σ) :
    (r.appendName f name).run s = do
      let called ← (r.invoker.appendString f name s.nextBuffer).run { s with scratch := none }
      let units ← readAfter called.1
      return (units,
        if s.scratch.isSome then { called.2 with scratch := some called.1.2 } else called.2) := by
  obtain ⟨scratch, registry, world⟩ := s
  cases scratch with
  | none =>
      simp only [appendName, StateT.run_bind, StateT.run_get, pure_bind, callAppend_run, bind_assoc]
      rfl
  | some b =>
      simp only [appendName, StateT.run_bind, StateT.run_get, StateT.run_modify, pure_bind,
        callAppend_run, bind_assoc]
      rfl

theorem returnName_run (r : Resolver σ) (f : Callable) (name : NameArg) (s : Session σ) :
    (r.returnName f name).run s = do
      let called ← (r.invoker.toString f name).run s
      let units ← called.1.toOption.mapM NameBuffer.wide
      return (units, called.2) := by
  rw [returnName, StateT.run_bind]
  cases (r.invoker.toString f name).run s with
  | error t => rfl
  | ok called =>
      obtain ⟨result, s'⟩ := called
      cases result with
      | error e => rfl
      | ok b =>
          simp only [ok_bind, StateT.run_bind, StateT.run_monadLift, Except.toOption]
          cases hb : b.wide <;> simp [hb]

/-- The name with these units; the empty name if there are none. -/
def nameOf : Option (List UInt16) → Name
  | some units => .ofUnits units
  | none => .empty

/-- Putting a name on record leaves the scratch buffer alone. -/
theorem scratch_track (tracked : Bool) (name : Name) (s : Session σ) :
    (if tracked then track name s else s).scratch = s.scratch := by
  unfold track
  cases tracked <;> cases s.registry.registerName name <;> rfl

/-- A resolver that tracks puts the name on record, whatever it is. -/
theorem resolve_run (r : Resolver σ) (h : Handle) (s : Session σ) :
    (r.resolve h).run s = ((r.units? h).run s).map fun read =>
      (nameOf read.1, if r.tracked then track (nameOf read.1) read.2 else read.2) := by
  simp only [resolve, StateT.run_bind]
  cases (r.units? h).run s with
  | error t => rfl
  | ok read =>
      obtain ⟨units, s'⟩ := read
      cases ht : r.tracked <;> cases units <;> rfl

theorem resolve_run' (r : Resolver σ) (h : Handle) (s : Session σ) :
    (r.resolve h).run' s = ((r.units? h).run' s).map nameOf := by
  rw [StateT.run'_eq, StateT.run'_eq, resolve_run]
  cases (r.units? h).run s <;> rfl

/-- What is left of the scratch buffer is up to the reading of the name. -/
theorem exists_of_resolve_run {r : Resolver σ} {h : Handle} {s s' : Session σ} {name : Name}
    (hrun : (r.resolve h).run s = .ok (name, s')) : ∃ units t,
      (r.units? h).run s = .ok (units, t) ∧ name = nameOf units ∧ s'.scratch = t.scratch := by
  rw [resolve_run] at hrun
  obtain ⟨⟨units, t⟩, hread, heq⟩ := map_eq_ok_iff.mp hrun
  obtain ⟨rfl, rfl⟩ := Prod.mk.inj heq
  exact ⟨units, t, hread, rfl, scratch_track _ _ _⟩

theorem units?_of_refused {r : Resolver σ} {h : Handle} (hh : r.accepts h = false) :
    r.units? h = pure none := by
  rw [units?, hh]
  rfl

/-- Where no call is worth making, there is no name. -/
theorem resolve_of_refused {r : Resolver σ} {h : Handle} (hh : r.accepts h = false)
    (s : Session σ) : (r.resolve h).run' s = .ok .empty := by
  rw [resolve_run', units?_of_refused hh]
  rfl

theorem units?_of_table {r : Resolver σ} {table : NameTable} {h : Handle}
    (ht : r.strategy = .nameTable table) (hh : r.accepts h = true) :
    r.units? h = liftM (r.readUnits? table h) := by
  rw [units?, if_pos hh, ht]

theorem units?_of_append {r : Resolver σ} {f : Callable} {h : Handle}
    (hf : r.strategy = .appendString f) (hh : r.accepts h = true) :
    r.units? h = r.appendName f (r.nameArg h) := by
  rw [units?, if_pos hh, hf]

theorem units?_of_return {r : Resolver σ} {f : Callable} {h : Handle}
    (hf : r.strategy = .toString f) (hh : r.accepts h = true) :
    r.units? h = r.returnName f (r.nameArg h) := by
  rw [units?, if_pos hh, hf]

/-- Where the units of a name come from. -/
theorem units?_cases (r : Resolver σ) (h : Handle) :
    (r.accepts h = false ∧ r.units? h = pure none) ∨
    (∃ t, r.accepts h = true ∧ r.strategy = .nameTable t ∧
      r.units? h = liftM (r.readUnits? t h)) ∨
    (∃ f, r.accepts h = true ∧ r.strategy = .appendString f ∧
      r.units? h = r.appendName f (r.nameArg h)) ∨
    ∃ f, r.accepts h = true ∧ r.strategy = .toString f ∧
      r.units? h = r.returnName f (r.nameArg h) := by
  cases hh : r.accepts h with
  | false => exact .inl ⟨rfl, units?_of_refused hh⟩
  | true =>
      right
      cases hs : r.strategy with
      | nameTable t => exact .inl ⟨t, rfl, rfl, units?_of_table hs hh⟩
      | appendString f => exact .inr (.inl ⟨f, rfl, rfl, units?_of_append hs hh⟩)
      | toString f => exact .inr (.inr ⟨f, rfl, rfl, units?_of_return hs hh⟩)

section Congr

variable {p : Resolver σ} {q : Resolver τ}

theorem accepts_congr (hprocess : q.process = p.process) (h : Handle) :
    q.accepts h = p.accepts h := by
  cases h <;> simp only [accepts, hprocess]

theorem nameArg_congr (hlayout : q.layout = p.layout) (h : Handle) :
    q.nameArg h = p.nameArg h := by
  cases h <;> simp only [nameArg, hlayout]

end Congr

/-- The units are read after the call with the buffer that the session has ready. -/
theorem units?_run'_of_append {r : Resolver σ} {f : Callable} {h : Handle}
    (hf : r.strategy = .appendString f) (hh : r.accepts h = true) (s : Session σ) :
    (r.units? h).run' s =
      (r.invoker.appendString f (r.nameArg h) s.nextBuffer).run' { s with scratch := none } >>=
        readAfter := by
  rw [units?_of_append hf hh, StateT.run'_eq, StateT.run'_eq, appendName_run]
  cases (r.invoker.appendString f (r.nameArg h) s.nextBuffer).run { s with scratch := none } with
  | error t => rfl
  | ok called =>
      simp only [ok_bind]
      cases hread : readAfter called.1 <;> simp [hread]

theorem resolve_of_append {r : Resolver σ} {f : Callable} {h : Handle}
    (hf : r.strategy = .appendString f) (hh : r.accepts h = true) (s : Session σ) :
    (r.resolve h).run' s = (do
      let call ← (r.invoker.appendString f (r.nameArg h) s.nextBuffer).run'
        { s with scratch := none }
      readAfter call).map nameOf := by
  rw [resolve_run', units?_run'_of_append hf hh]

theorem scratch_appendName {r : Resolver σ} {f : Callable} {name : NameArg} {s t : Session σ}
    {units : Option (List UInt16)} (hrun : (r.appendName f name).run s = .ok (units, t)) :
    ∃ call after, (r.invoker.appendString f name s.nextBuffer).run { s with scratch := none } =
        .ok (call, after) ∧
      t.scratch = if s.scratch.isSome then some call.2 else after.scratch := by
  rw [appendName_run] at hrun
  obtain ⟨⟨call, after⟩, hcall, hrest⟩ := bind_eq_ok_iff.mp hrun
  obtain ⟨_, -, heq⟩ := bind_eq_ok_iff.mp hrest
  obtain ⟨-, rfl⟩ := Prod.mk.inj (Except.ok.inj heq)
  refine ⟨call, after, hcall, ?_⟩
  split <;> rfl

theorem exists_of_returnName_run {r : Resolver σ} {f : Callable} {name : NameArg} {s t : Session σ}
    {units : Option (List UInt16)} (hrun : (r.returnName f name).run s = .ok (units, t)) :
    ∃ answer, (r.invoker.toString f name).run s = .ok (answer, t) := by
  rw [returnName_run] at hrun
  obtain ⟨⟨answer, after⟩, hcall, hrest⟩ := bind_eq_ok_iff.mp hrun
  obtain ⟨_, -, heq⟩ := bind_eq_ok_iff.mp hrest
  obtain ⟨-, rfl⟩ := Prod.mk.inj (Except.ok.inj heq)
  exact ⟨answer, hcall⟩

/-- After a call with an answer the name is read from the buffer, which is left to the session if it
was taken from there. -/
theorem exists_resolve_run_of_append {r : Resolver σ} {f : Callable} {h : Handle}
    {s after : Session σ} {call : Except ProcessError Unit × NameBuffer}
    {units : Option (List UInt16)} (hf : r.strategy = .appendString f) (hh : r.accepts h = true)
    (hcall : (r.invoker.appendString f (r.nameArg h) s.nextBuffer).run
      { s with scratch := none } = .ok (call, after))
    (hread : readAfter call = .ok units) :
    ∃ t, (r.resolve h).run s = .ok (nameOf units, t) ∧
      t.scratch = if s.scratch.isSome then some call.2 else after.scratch := by
  rw [resolve_run, units?_of_append hf hh, appendName_run, hcall, ok_bind, hread, ok_bind]
  refine ⟨_, rfl, (scratch_track _ _ _).trans ?_⟩
  cases s.scratch <;> rfl

theorem exists_resolve_run_of_return {r : Resolver σ} {f : Callable} {h : Handle}
    {s after : Session σ} {answer : Except ProcessError NameBuffer}
    {units : Option (List UInt16)} (hf : r.strategy = .toString f) (hh : r.accepts h = true)
    (hcall : (r.invoker.toString f (r.nameArg h)).run s = .ok (answer, after))
    (hread : answer.toOption.mapM NameBuffer.wide = .ok units) :
    ∃ t, (r.resolve h).run s = .ok (nameOf units, t) ∧ t.scratch = after.scratch := by
  rw [resolve_run, units?_of_return hf hh, returnName_run, hcall, ok_bind, hread, ok_bind]
  exact ⟨_, rfl, scratch_track _ _ _⟩

/-- Where no call is worth making, nothing is done but to put the empty name on record. -/
theorem exists_resolve_run_of_refused {r : Resolver σ} {h : Handle} (hh : r.accepts h = false)
    (s : Session σ) : ∃ t, (r.resolve h).run s = .ok (.empty, t) ∧ t.scratch = s.scratch := by
  rw [resolve_run, units?_of_refused hh]
  exact ⟨_, rfl, scratch_track _ _ _⟩

/-- What one resolution makes of the scratch buffer. -/
theorem scratch_resolve_cases {r : Resolver σ} {h : Handle} {s s' : Session σ} {name : Name}
    (hrun : (r.resolve h).run s = .ok (name, s')) :
    s'.scratch = s.scratch ∨
    (∃ f answer t, r.strategy = .toString f ∧ r.accepts h = true ∧
      (r.invoker.toString f (r.nameArg h)).run s = .ok (answer, t) ∧ s'.scratch = t.scratch) ∨
    ∃ f call after, r.strategy = .appendString f ∧ r.accepts h = true ∧
      (r.invoker.appendString f (r.nameArg h) s.nextBuffer).run { s with scratch := none } =
        .ok (call, after) ∧
      s'.scratch = if s.scratch.isSome then some call.2 else after.scratch := by
  obtain ⟨units, t, hread, -, hscratch⟩ := exists_of_resolve_run hrun
  rw [hscratch]
  rcases r.units?_cases h with ⟨-, hu⟩ | ⟨table, -, -, hu⟩ | ⟨f, hh, hf, hu⟩ | ⟨f, hh, hf, hu⟩
  · rw [hu] at hread
    cases hread
    exact .inl rfl
  · rw [hu, Run.run_lift] at hread
    obtain ⟨_, -, heq⟩ := map_eq_ok_iff.mp hread
    obtain ⟨-, rfl⟩ := Prod.mk.inj heq
    exact .inl rfl
  · rw [hu] at hread
    obtain ⟨call, after, hcall, ht⟩ := scratch_appendName hread
    exact .inr (.inr ⟨f, call, after, hf, hh, hcall, ht⟩)
  · rw [hu] at hread
    obtain ⟨answer, hcall⟩ := exists_of_returnName_run hread
    exact .inr (.inl ⟨f, answer, t, hf, hh, hcall, rfl⟩)

end Resolver

end EngineNames
