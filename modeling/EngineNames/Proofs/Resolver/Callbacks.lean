import EngineNames.Proofs.Resolver.Unspoilt

/-! # The two name functions

A function that appends a text to a buffer and one that returns it as a string lead to the same
name, if the text and a null fit into the scratch buffer. A longer text is only to be had from the
function that returns it.
-/

namespace EngineNames

open NameBuffer (beforeNull)

variable {σ : Type} {text : NameArg → List UInt16} {f g : Callable}

/-! ## Functions that tell one text for each name -/

namespace Invoker

/-- The function writes the text of a name and a null into an empty buffer of ours, and counts them,
if they fit. Otherwise it writes nothing, or the call fails, whatever it wrote until then. -/
structure AppendsText (i : Invoker σ) (f : Callable) (text : NameArg → List UInt16) : Prop where
  fits : ∀ name ≠ .address 0, ∀ (b : NameBuffer) c s, b.Lists c [] → (text name).length + 1 ≤ c →
    ∃ written t, b.poke 0 (text name ++ [0]) = .ok written ∧
      (i.appendString f name b).run s =
        .ok ((.ok (), { written with num := .ofNat ((text name).length + 1) }), t)
  full : ∀ name ≠ .address 0, ∀ (b : NameBuffer) c s, b.Lists c [] → c < (text name).length + 1 →
    (∃ t, (i.appendString f name b).run s = .ok ((.ok (), b), t)) ∨
    ∃ (ρ : Reaction) (e : ProcessError) (t : Session σ),
      (ρ.header.data = .allocation → ρ.header.max = b.max) ∧
      (i.appendString f name b).run s = .ok ((.error e, ρ.applyTo b), t)
  /-- Names that it resolves on the way do not spoil the session. -/
  unspoilt : ∀ name b s call t, s.Unspoilt →
    (i.appendString f name b).run s = .ok (call, t) → t.Unspoilt

/-- The function returns a string of the target with the text of a name and a null, both counted.
What else is in its storage is left open, and so is how much of it is reserved. -/
structure ReturnsText (i : Invoker σ) (g : Callable) (text : NameArg → List UInt16) : Prop where
  returned : ∀ name ≠ .address 0, ∀ s, ∃ (rest : List UInt16) (num max : Int32) (t : Session σ),
    num.toInt = (text name).length + 1 ∧ (i.toString g name).run s =
      .ok (.ok (.ofTarget (some (text name ++ 0 :: rest)) num max), t)
  /-- Names that it resolves on the way do not spoil the session. -/
  unspoilt : ∀ name s answer t, s.Unspoilt →
    (i.toString g name).run s = .ok (answer, t) → t.Unspoilt

variable {i : Invoker σ} {name : NameArg} {b : NameBuffer} {c : ℕ}

/-- The call ends, and the name that is then read is the text up to its first null, or nothing. -/
theorem AppendsText.exists_call (hi : i.AppendsText f text) (hn : name ≠ .address 0)
    (hb : b.Lists c []) (s : Session σ) : ∃ call t units,
      (i.appendString f name b).run s = .ok (call, t) ∧ Resolver.readAfter call = .ok units ∧
      Resolver.nameOf units = if (text name).length + 1 ≤ c then .ofUnits (beforeNull (text name))
        else .empty := by
  by_cases h : (text name).length + 1 ≤ c
  · obtain ⟨written, t, hwritten, hcall⟩ := hi.fits name hn b c s hb h
    obtain ⟨other, hother, hlists⟩ := hb.append?_of_empty h
    obtain rfl := Except.ok.inj (hwritten.symm.trans hother)
    refine ⟨_, t, some (beforeNull (text name)), hcall, ?_, (if_pos h).symm⟩
    rw [Resolver.readAfter, hlists.wide]
    rfl
  · rw [if_neg h]
    rcases hi.full name hn b c s hb (Nat.lt_of_not_le h) with ⟨t, hcall⟩ | ⟨ρ, e, t, -, hcall⟩
    · refine ⟨_, t, some [], hcall, ?_, rfl⟩
      rw [Resolver.readAfter, hb.wide]
      rfl
    · exact ⟨_, t, none, hcall, rfl, rfl⟩

theorem AppendsText.reusable (hi : i.AppendsText f text) (hn : name ≠ .address 0)
    (hb : b.Lists scratchCapacity []) {s t : Session σ}
    {call : Except ProcessError Unit × NameBuffer}
    (hrun : (i.appendString f name b).run s = .ok (call, t)) : call.2.Reusable := by
  by_cases h : (text name).length + 1 ≤ scratchCapacity
  · obtain ⟨written, t', hwritten, hcall⟩ := hi.fits name hn b _ s hb h
    obtain ⟨other, hother, hlists⟩ := hb.append?_of_empty h
    obtain rfl := Except.ok.inj (hwritten.symm.trans hother)
    obtain ⟨rfl, -⟩ := Prod.mk.inj (Except.ok.inj (hrun.symm.trans hcall))
    exact hlists.reusable
  · rcases hi.full name hn b _ s hb (Nat.lt_of_not_le h) with ⟨t', hcall⟩ | ⟨ρ, e, t', hmax, hcall⟩
    · obtain ⟨rfl, -⟩ := Prod.mk.inj (Except.ok.inj (hrun.symm.trans hcall))
      exact hb.reusable
    · obtain ⟨rfl, -⟩ := Prod.mk.inj (Except.ok.inj (hrun.symm.trans hcall))
      exact hb.reusable_applyTo hmax

end Invoker

/-! ## Resolutions -/

namespace Resolver

variable {r : Resolver σ} {h : Handle} {s t : Session σ}

/-- The function that the resolver calls, if it calls any, tells one text for each name. -/
def TellsText (r : Resolver σ) : Prop :=
  match r.strategy with
  | .appendString f => ∃ text, r.invoker.AppendsText f text
  | .toString g => ∃ text, r.invoker.ReturnsText g text
  | .nameTable _ => True

theorem nameArg_ne_null (hh : r.accepts h = true) : r.nameArg h ≠ .address 0 := by
  cases h with
  | index comparison number => simp [nameArg]
  | address a =>
      intro hnull
      cases hnull
      simp [accepts] at hh

theorem TellsText.unspoilt (hr : r.TellsText) (hs : s.Unspoilt) {name : Name}
    (hrun : (r.resolve h).run s = .ok (name, t)) : t.Unspoilt := by
  refine hs.resolve (fun f call after hf hh hcall => ?_) (fun g answer after hg hh hcall => ?_) hrun
  · rw [TellsText, hf] at hr
    obtain ⟨text, hi⟩ := hr
    exact ⟨hi.reusable (nameArg_ne_null hh) hs.lists hcall,
      hi.unspoilt _ _ _ _ _ (Session.unspoilt_of_held rfl) hcall⟩
  · rw [TellsText, hg] at hr
    obtain ⟨text, hi⟩ := hr
    exact hi.unspoilt _ s _ _ hs hcall

theorem unspoilt_afterNames {history : List (Resolver σ × Handle)} (hs : s.Unspoilt)
    (hh : ∀ call ∈ history, call.1.TellsText) (hrun : s.afterNames history = .ok t) :
    t.Unspoilt :=
  Session.afterNames_of_step
    (fun call hcall _ _ _ hs hnext => (hh call hcall).unspoilt hs hnext) hs hrun

/-- What comes of a handle by either name function, in terms of the text of its name. -/
structure CallbackSpec (r : Resolver σ) (h : Handle) (text : NameArg → List UInt16)
    (appended returned : Name) : Prop where
  returned_eq : r.accepts h = true → returned = .ofUnits (beforeNull (text (r.nameArg h)))
  agree : (text (r.nameArg h)).length ≤ 1023 → appended = returned
  too_long : 1024 ≤ (text (r.nameArg h)).length → appended = .empty
  refused : r.accepts h = false → appended = .empty ∧ returned = .empty
  no_units : beforeNull (text (r.nameArg h)) = [] → appended = .empty ∧ returned = .empty

theorem resolve_run_of_appendsText (hf : r.strategy = .appendString f) (hh : r.accepts h = true)
    (hi : r.invoker.AppendsText f text) (hs : s.Unspoilt) : ∃ t, (r.resolve h).run s =
      .ok (if (text (r.nameArg h)).length ≤ 1023 then .ofUnits (beforeNull (text (r.nameArg h)))
        else .empty, t) := by
  obtain ⟨call, after, units, hcall, hread, hname⟩ :=
    hi.exists_call (nameArg_ne_null hh) hs.lists { s with scratch := none }
  have hfits : (text (r.nameArg h)).length + 1 ≤ scratchCapacity ↔
      (text (r.nameArg h)).length ≤ 1023 :=
    Nat.succ_le_succ_iff
  obtain ⟨t, hrun, -⟩ := exists_resolve_run_of_append hf hh hcall hread
  simp only [hname, hfits] at hrun
  exact ⟨t, hrun⟩

theorem resolve_run_of_returnsText (hg : r.strategy = .toString g) (hh : r.accepts h = true)
    (hi : r.invoker.ReturnsText g text) (s : Session σ) : ∃ t,
      (r.resolve h).run s = .ok (.ofUnits (beforeNull (text (r.nameArg h))), t) := by
  obtain ⟨rest, num, max, after, hnum, hcall⟩ := hi.returned (r.nameArg h) (nameArg_ne_null hh) s
  have hread : (Except.ok (.ofTarget (some (text (r.nameArg h) ++ 0 :: rest)) num max) :
      Except ProcessError NameBuffer).toOption.mapM NameBuffer.wide =
        .ok (some (beforeNull (text (r.nameArg h)))) := by
    simp only [Except.toOption, Option.mapM_some, NameBuffer.wide_ofTarget hnum]
    rfl
  obtain ⟨t, hrun, -⟩ := exists_resolve_run_of_return hg hh hcall hread
  exact ⟨t, hrun⟩

/-- Functions that tell a text come to an end. -/
theorem TellsText.exists_run (hr : r.TellsText) (hk : r.strategy.kind ≠ .nameTable)
    (hs : s.Unspoilt) (h : Handle) : ∃ name t, (r.resolve h).run s = .ok (name, t) := by
  cases hh : r.accepts h with
  | false =>
      obtain ⟨t, hrun, -⟩ := exists_resolve_run_of_refused hh s
      exact ⟨_, t, hrun⟩
  | true =>
      rw [TellsText] at hr
      cases hf : r.strategy with
      | nameTable table =>
          rw [hf] at hk
          exact absurd rfl hk
      | appendString f =>
          rw [hf] at hr
          obtain ⟨text, hi⟩ := hr
          exact ⟨_, resolve_run_of_appendsText hf hh hi hs⟩
      | toString g =>
          rw [hf] at hr
          obtain ⟨text, hi⟩ := hr
          exact ⟨_, resolve_run_of_returnsText hf hh hi s⟩

/-- So does a history of them, by induction on it. -/
theorem exists_afterNames {history : List (Resolver σ × Handle)} (hs : s.Unspoilt)
    (hh : ∀ call ∈ history, call.1.TellsText)
    (hk : ∀ call ∈ history, call.1.strategy.kind ≠ .nameTable) :
    ∃ t, s.afterNames history = .ok t := by
  induction history generalizing s with
  | nil => exact ⟨s, rfl⟩
  | cons call history ih =>
      have htells := hh call List.mem_cons_self
      obtain ⟨name, next, hrun⟩ :=
        htells.exists_run (hk call List.mem_cons_self) hs call.2
      obtain ⟨t, hrest⟩ := ih (htells.unspoilt hs hrun)
        (fun later hl => hh later (List.mem_cons_of_mem _ hl))
        (fun later hl => hk later (List.mem_cons_of_mem _ hl))
      refine ⟨t, ?_⟩
      rw [Session.afterNames, List.foldlM_cons, hrun]
      exact hrest

/-- Whatever names were resolved before through functions of this kind, two of them that tell the
same texts lead to the same name, up to the length that the scratch buffer has room for. If none of
the names before was looked up in a table, all of them were resolved. -/
theorem callbacks_agree {p q : Resolver σ} (hp : p.strategy = .appendString f)
    (hq : q.strategy = .toString g) (hprocess : q.process = p.process)
    (hlayout : q.layout = p.layout) (hinvoker : q.invoker = p.invoker)
    (happend : p.invoker.AppendsText f text) (hreturn : p.invoker.ReturnsText g text) (world : σ)
    {history : List (Resolver σ × Handle)} (hh : ∀ call ∈ history, call.1.TellsText)
    (h : Handle) (t : Session σ) :
    (∀ s, (Session.start world).afterNames history = .ok s →
      ∃ appended returned, (p.resolve h).run' s = .ok appended ∧
        (q.resolve h).run' t = .ok returned ∧ CallbackSpec p h text appended returned) ∧
    ((∀ call ∈ history, call.1.strategy.kind ≠ .nameTable) →
      ∃ s, (Session.start world).afterNames history = .ok s) := by
  refine ⟨fun s hrun => ?_, exists_afterNames (Session.unspoilt_start world) hh⟩
  have haccepts : q.accepts h = p.accepts h := accepts_congr hprocess h
  have hname : q.nameArg h = p.nameArg h := nameArg_congr hlayout h
  cases hc : p.accepts h with
  | false =>
      refine ⟨.empty, .empty, resolve_of_refused hc s, resolve_of_refused (haccepts.trans hc) t, ?_⟩
      refine ⟨?_, fun _ => rfl, fun _ => rfl, fun _ => ⟨rfl, rfl⟩, fun _ => ⟨rfl, rfl⟩⟩
      rw [hc]
      intro hcontra
      cases hcontra
  | true =>
      have hs := unspoilt_afterNames (Session.unspoilt_start world) hh hrun
      rw [← hinvoker] at hreturn
      obtain ⟨_, happended⟩ := resolve_run_of_appendsText hp hc happend hs
      obtain ⟨_, hreturned⟩ := resolve_run_of_returnsText hq (haccepts.trans hc) hreturn t
      rw [hname] at hreturned
      refine ⟨_, _, congrArg (Except.map Prod.fst) happended,
        congrArg (Except.map Prod.fst) hreturned, ?_⟩
      refine ⟨fun _ => rfl, fun hle => if_pos hle, fun hlt => if_neg (Nat.not_le.mpr hlt), ?_, ?_⟩
      · rw [hc]
        intro hcontra
        cases hcontra
      · intro hnone
        rw [hnone]
        exact ⟨ite_self _, rfl⟩

end Resolver

/-! ## Functions of the process -/

/-- Writes units and a null over an empty buffer, and counts them, if there is room for them. -/
def NameBuffer.fill (b : NameBuffer) (units : List UInt16) : Except Trap NameBuffer :=
  if units.length + 1 ≤ b.capacity then
    (b.poke 0 (units ++ [0])).map fun written => { written with num := .ofNat (units.length + 1) }
  else .ok b

/-- Two functions for these texts, at whatever addresses they are called. -/
def NativeCode.telling (text : NameArg → List UInt16) : NativeCode σ where
  appendString _ name b := liftM (b.fill (text name))
  toString _ name :=
    let count := Int32.ofNat ((text name).length + 1)
    pure (.ofTarget (some (text name ++ [0])) count count)

namespace Invoker

theorem checkCall_eq_ok {name : NameArg} (hf : f.address ≠ 0) (hn : name ≠ .address 0) :
    checkCall f name = .ok () := by
  simp [checkCall, hf, hn]

section Telling

variable {s t : Session σ} {name : NameArg} {b : NameBuffer}

theorem telling_append_run (text : NameArg → List UInt16) (hf : f.address ≠ 0)
    (hn : name ≠ .address 0) (hb : b.isUsable = true) (s : Session σ) :
    ((native (.telling text)).appendString f name b).run s =
      (b.fill (text name)).map fun left => ((.ok (), left), s) := by
  simp only [native, checkCall_eq_ok hf hn, hb, if_true, NativeCode.telling, StateT.run_bind,
    Run.run_lift]
  cases b.fill (text name) <;> rfl

/-- Neither function gets at the session, and neither does a call that is refused. -/
theorem telling_append_session {call : Except ProcessError Unit × NameBuffer}
    (hrun : ((native (.telling text)).appendString f name b).run s = .ok (call, t)) : t = s := by
  simp only [native, NativeCode.telling] at hrun
  cases hcheck : checkCall f name with
  | error e =>
      rw [hcheck] at hrun
      cases hrun
      rfl
  | ok _ =>
      cases husable : b.isUsable with
      | false =>
          rw [hcheck, husable] at hrun
          cases hrun
          rfl
      | true =>
          simp only [hcheck, husable, if_true, StateT.run_bind, Run.run_lift] at hrun
          cases hfill : b.fill (text name) with
          | error e =>
              rw [hfill] at hrun
              cases hrun
          | ok left =>
              rw [hfill] at hrun
              cases hrun
              rfl

theorem telling_string_session {answer : Except ProcessError NameBuffer}
    (hrun : ((native (.telling text)).toString f name).run s = .ok (answer, t)) : t = s := by
  simp only [native, NativeCode.telling] at hrun
  cases hcheck : checkCall f name <;> rw [hcheck] at hrun <;> cases hrun <;> rfl

end Telling

theorem appendsText_telling (text : NameArg → List UInt16) (hf : f.address ≠ 0) :
    (native (.telling text) : Invoker σ).AppendsText f text := by
  refine ⟨?_, ?_, fun name b s call t hs hrun => telling_append_session hrun ▸ hs⟩
  · intro name hn b c s hb hfits
    obtain ⟨storage, howns, -⟩ := hb.storage
    obtain ⟨written, hwritten, -⟩ := hb.append?_of_empty hfits
    refine ⟨written, s, hwritten, ?_⟩
    rw [telling_append_run text hf hn howns.isUsable, NameBuffer.fill, hb.capacity, if_pos hfits,
      hwritten]
    rfl
  · intro name hn b c s hb hfull
    obtain ⟨storage, howns, -⟩ := hb.storage
    refine .inl ⟨s, ?_⟩
    rw [telling_append_run text hf hn howns.isUsable, NameBuffer.fill, hb.capacity,
      if_neg (Nat.not_le.mpr hfull)]
    rfl

theorem returnsText_telling (text : NameArg → List UInt16) (hg : g.address ≠ 0)
    (hlength : ∀ name, (text name).length + 1 < 2 ^ 31) :
    (native (.telling text) : Invoker σ).ReturnsText g text := by
  refine ⟨?_, fun name s answer t hs hrun => telling_string_session hrun ▸ hs⟩
  intro name hn s
  let count := Int32.ofNat ((text name).length + 1)
  refine ⟨[], count, count, s, Int32.toInt_ofNat_of_lt (hlength name), ?_⟩
  simp only [native, checkCall_eq_ok hg hn]
  rfl

end Invoker

namespace Resolver

/-- A text with a null in it, and one that leaves no room for its null. -/
def twoTexts : NameArg → List UInt16
  | .image (1 :: _) => [80, 97, 0, 119]
  | .image (2 :: _) => List.replicate 1024 97
  | _ => []

def textResolver (strategy : Strategy) : Resolver Unit :=
  .ofInvoker (.native (.telling twoTexts)) strategy

theorem callbacks_agree_of_two_texts :
    let appending := textResolver (.appendString ⟨0x1000, .c⟩)
    let returning := textResolver (.toString ⟨0x2000, .c⟩)
    let history := [(appending, Handle.index 2 none), (returning, Handle.index 2 none)]
    appending.invoker.AppendsText ⟨0x1000, .c⟩ twoTexts ∧
    appending.invoker.ReturnsText ⟨0x2000, .c⟩ twoTexts ∧
    ∃ s, (Session.start ()).afterNames history = .ok s ∧
      let name := fun (r : Resolver Unit) index => (r.resolve (.index index none)).run' s
      name appending 1 = .ok (.ofUnits [80, 97]) ∧ name returning 1 = .ok (.ofUnits [80, 97]) ∧
      name appending 2 = .ok .empty ∧ name returning 2 = .ok (.ofUnits (List.replicate 1024 97)) ∧
      name appending 3 = .ok .empty ∧ name returning 3 = .ok .empty := by
  intro appending returning history
  have happend : appending.invoker.AppendsText ⟨0x1000, .c⟩ twoTexts :=
    Invoker.appendsText_telling twoTexts (by decide)
  have hreturn : appending.invoker.ReturnsText ⟨0x2000, .c⟩ twoTexts := by
    apply Invoker.returnsText_telling twoTexts (by decide)
    intro name
    unfold twoTexts
    split
    · decide
    · rw [List.length_replicate]
      decide
    · decide
  have hh : ∀ call ∈ history, call.1.TellsText := by
    intro call hcall
    simp only [history, List.mem_cons, List.not_mem_nil, or_false] at hcall
    rcases hcall with rfl | rfl
    · exact ⟨_, happend⟩
    · exact ⟨_, hreturn⟩
  have hk : ∀ call ∈ history, call.1.strategy.kind ≠ .nameTable := by
    intro call hcall
    simp only [history, List.mem_cons, List.not_mem_nil, or_false] at hcall
    rcases hcall with rfl | rfl <;> decide
  have hspec := fun index t => callbacks_agree (p := appending) (q := returning) rfl rfl rfl rfl rfl
    happend hreturn () hh (.index index none) t
  obtain ⟨s, hs⟩ := (hspec 1 (Session.start ())).2 hk
  refine ⟨happend, hreturn, s, hs, ?_⟩
  obtain ⟨_, _, happended₁, hreturned₁, hspec₁⟩ := (hspec 1 s).1 s hs
  obtain ⟨_, _, happended₂, hreturned₂, hspec₂⟩ := (hspec 2 s).1 s hs
  obtain ⟨_, _, happended₃, hreturned₃, hspec₃⟩ := (hspec 3 s).1 s hs
  have hlong : (twoTexts (appending.nameArg (.index 2 none))).length = 1024 :=
    List.length_replicate
  obtain rfl := hspec₁.agree (by decide)
  obtain rfl := hspec₁.returned_eq rfl
  obtain rfl := hspec₂.too_long hlong.ge
  obtain rfl := hspec₂.returned_eq rfl
  obtain ⟨rfl, rfl⟩ := hspec₃.no_units rfl
  refine ⟨happended₁, hreturned₁, happended₂, ?_, happended₃, hreturned₃⟩
  refine hreturned₂.trans (congrArg (fun units => Except.ok (Name.ofUnits units)) ?_)
  exact List.takeWhile_replicate.trans (if_pos rfl)

end Resolver

end EngineNames
