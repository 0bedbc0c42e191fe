import EngineNames.Proofs.Resolver.Unspoilt

/-! # Functions that resolve names themselves

A name function may resolve further names while it is called, on the same thread and to any depth.
As long as all of these functions do no more to their buffers than append, none of the names depends
on what was resolved before or is resolved around it: the outermost call finds the scratch buffer
empty, the calls within get buffers of their own, and what earlier texts left in the storage is not
read. Nothing is ever written or read beyond a storage, so all of these runs end with a name.
-/

namespace EngineNames

variable {σ : Type}

/-! ## Scripts -/

/-- What an appending function does in one call, step by step. -/
inductive Script (σ : Type) where
  | finish (result : Except ProcessError Unit)
  /-- Units are appended, and the function is told whether there was room. -/
  | append (units : List UInt16) (next : Bool → Script σ)
  /-- The function looks at whatever it likes and changes what calls share, but for the scratch
  buffer. -/
  | access (change : Session σ → Registry × σ) (next : Session σ → NameBuffer → Script σ)
  /-- A name is resolved by a resolver whose own function does what `code` tells. -/
  | resolve (r : Resolver σ) (code : NameArg → Script σ) (h : Handle) (next : Name → Script σ)

/-- A name that is to be resolved, with what the function does that is called for it. -/
structure Lookup (σ : Type) where
  resolver : Resolver σ
  code : NameArg → Script σ
  handle : Handle

namespace Lookup

def run (l : Lookup σ) (s : Session σ) : Except Trap (Name × Session σ) :=
  (l.resolver.resolve l.handle).run s

def name (l : Lookup σ) (s : Session σ) : Except Trap Name :=
  (l.resolver.resolve l.handle).run' s

end Lookup

namespace Script

def accessed (change : Session σ → Registry × σ) (s : Session σ) : Session σ :=
  { s with registry := (change s).1, world := (change s).2 }

def run : Script σ → NameBuffer → Run σ (Except ProcessError Unit × NameBuffer)
  | finish result, b => return (result, b)
  | append units next, b => do
      let (taken, b) ← b.edit (.append units)
      (next taken).run b
  | access change next, b => do
      let s ← get
      set (accessed change s)
      (next s b).run b
  | resolve r _ h next, b => do
      let name ← r.resolve h
      (next name).run b

/-- The names that are resolved in a run, at whatever depth, each with the session that it is
resolved in. -/
def lookups : Script σ → NameBuffer → Session σ → Except Trap (List (Lookup σ × Session σ))
  | finish _, _, _ => return []
  | append units next, b, s => do
      let (taken, b) ← b.edit (.append units)
      (next taken).lookups b s
  | access change next, b, s => (next s b).lookups b (accessed change s)
  | resolve r code h next, b, s => do
      let l : Lookup σ := ⟨r, code, h⟩
      let within : Except Trap (List (Lookup σ × Session σ)) :=
        if r.accepts h then (code (r.nameArg h)).lookups s.nextBuffer { s with scratch := none }
        else .ok []
      let inner ← within
      let (name, t) ← l.run s
      let later ← (next name).lookups b t
      return (l, s) :: inner ++ later

end Script

/-- The names that are resolved within the call for a name. -/
def Lookup.within (l : Lookup σ) (s : Session σ) : Except Trap (List (Lookup σ × Session σ)) :=
  if l.resolver.accepts l.handle then
    (l.code (l.resolver.nameArg l.handle)).lookups s.nextBuffer { s with scratch := none }
  else .ok []

/-- The names that are resolved when these are, one after the other. -/
def Session.lookups (s : Session σ) :
    List (Lookup σ) → Except Trap (List (Lookup σ × Session σ))
  | [] => return []
  | l :: rest => do
      let inner ← l.within s
      let (_, t) ← l.run s
      let later ← t.lookups rest
      return (l, s) :: inner ++ later

section Rules

variable {b edited : NameBuffer} {units : List UInt16} {taken : Bool} {name : Name}
  {s t : Session σ} {l : Lookup σ} {inner later : List (Lookup σ × Session σ)}

theorem Script.run_append {next : Bool → Script σ}
    (hedit : b.edit (.append units) = .ok (taken, edited)) (s : Session σ) :
    ((Script.append units next).run b).run s = ((next taken).run edited).run s := by
  rw [Script.run, StateT.run_bind, Run.run_lift, hedit]
  rfl

theorem Script.run_resolve {next : Name → Script σ} (hrun : l.run s = .ok (name, t)) :
    ((Script.resolve l.resolver l.code l.handle next).run b).run s = ((next name).run b).run t := by
  rw [Script.run, StateT.run_bind]
  change l.run s >>= _ = _
  rw [hrun]
  rfl

theorem Script.lookups_append {next : Bool → Script σ}
    (hedit : b.edit (.append units) = .ok (taken, edited)) (s : Session σ) :
    (Script.append units next).lookups b s = (next taken).lookups edited s := by
  rw [Script.lookups, hedit]
  rfl

theorem Script.lookups_resolve {next : Name → Script σ} (hinner : l.within s = .ok inner)
    (hrun : l.run s = .ok (name, t)) (hlater : (next name).lookups b t = .ok later) :
    (Script.resolve l.resolver l.code l.handle next).lookups b s =
      .ok ((l, s) :: inner ++ later) := by
  rw [Script.lookups]
  change l.within s >>= _ = _
  rw [hinner, ok_bind, hrun]
  simp only [ok_bind, hlater]
  rfl

theorem Session.lookups_cons {rest : List (Lookup σ)} (hinner : l.within s = .ok inner)
    (hrun : l.run s = .ok (name, t)) (hlater : t.lookups rest = .ok later) :
    s.lookups (l :: rest) = .ok ((l, s) :: inner ++ later) := by
  rw [Session.lookups, hinner, ok_bind, hrun]
  simp only [ok_bind, hlater]
  rfl

end Rules

/-! ## Plans -/

/-- What a function appends and how its call ends, whatever else it does. -/
inductive Plan where
  | finish (result : Except ProcessError Unit)
  | append (units : List UInt16) (next : Bool → Plan)

namespace Plan

def carryOut : Plan → NameBuffer → Except Trap (Except ProcessError Unit × NameBuffer)
  | finish result, b => return (result, b)
  | append units next, b => do
      let (taken, b) ← b.edit (.append units)
      (next taken).carryOut b

/-- The same for a list that has room for `c` units. -/
def ofList (c : ℕ) : Plan → List UInt16 → Except ProcessError Unit × List UInt16
  | finish result, w => (result, w)
  | append units next, w =>
      let edited := (NameBuffer.Edit.append units).ofList c w
      (next edited.1).ofList c edited.2

theorem carryOut_of_lists (plan : Plan) {b : NameBuffer} {c : ℕ} {w : List UInt16}
    (hb : b.Lists c w) : ∃ left, plan.carryOut b = .ok ((plan.ofList c w).1, left) ∧
      left.Lists c (plan.ofList c w).2 := by
  induction plan generalizing b w with
  | finish result => exact ⟨b, rfl, hb⟩
  | append units next ih =>
      obtain ⟨edited, hedit, hlists, -⟩ := hb.edit (.append units)
      rw [carryOut, hedit]
      exact ih _ hlists

end Plan

/-- The function of a resolver does what the scripts tell. -/
def Resolver.Performs (r : Resolver σ) (code : NameArg → Script σ) : Prop :=
  ∃ f, r.strategy = .appendString f ∧
    ∀ name b, r.invoker.appendString f name b = (code name).run b

/-- What a script appends and how it ends are laid down in a plan. They do not depend on what it
looks at, and the names that it resolves on the way it takes for those that a new session has. The
scripts of the functions that are called for these names follow plans as well. -/
inductive Script.Follows (world : σ) : Script σ → Plan → Prop
  | finish (result : Except ProcessError Unit) : Follows world (.finish result) (.finish result)
  | append (units : List UInt16) {next : Bool → Script σ} {plan : Bool → Plan} :
      (∀ taken, Follows world (next taken) (plan taken)) →
      Follows world (.append units next) (.append units plan)
  | access (change : Session σ → Registry × σ) {next : Session σ → NameBuffer → Script σ}
      {plan : Plan} : (∀ s b, Follows world (next s b) plan) →
      Follows world (.access change next) plan
  | resolve {r : Resolver σ} {code : NameArg → Script σ} (h : Handle) {next : Name → Script σ}
      {planned : NameArg → Plan} {plan : Plan} : r.Performs code →
      (∀ name, Follows world (code name) (planned name)) →
      (∀ name, Lookup.name ⟨r, code, h⟩ (.start world) = .ok name →
        Follows world (next name) plan) →
      Follows world (.resolve r code h next) plan

namespace Lookup

/-- The function that is called appends by plan, for whatever name it is called. -/
structure Steady (world : σ) (l : Lookup σ) (plan : NameArg → Plan) : Prop where
  performs : l.resolver.Performs l.code
  follows : ∀ name, (l.code name).Follows world (plan name)

/-- The same resolver with a function that carries out a plan and does nothing else. -/
def alone (l : Lookup σ) (plan : NameArg → Plan) : Resolver σ :=
  { l.resolver with
    invoker := { l.resolver.invoker with
      appendString := fun _ name b => liftM ((plan name).carryOut b) } }

/-- The name that comes of a plan in a buffer with all its room. -/
def planned (l : Lookup σ) (plan : NameArg → Plan) : Name :=
  if l.resolver.accepts l.handle then
    match (plan (l.resolver.nameArg l.handle)).ofList scratchCapacity [] with
    | (.ok (), w) => .ofUnits w
    | (.error _, _) => .empty
  else .empty

end Lookup

/-! ## One run of a script -/

/-- Each of these names is resolved in a session that nobody has spoilt, by a function that appends
by plan. -/
def AllSteady (world : σ) (resolved : List (Lookup σ × Session σ)) : Prop :=
  ∀ q ∈ resolved, q.2.Unspoilt ∧ ∃ plan, q.1.Steady world plan

/-- In an unspoilt session the script ends, does to its buffer what is planned, and resolves names
by plan only. -/
def Script.Keeps (world : σ) (script : Script σ) (plan : Plan) : Prop :=
  ∀ b c w s, b.Lists c w → s.Unspoilt → ∃ call t resolved,
    (script.run b).run s = .ok (call, t) ∧ plan.carryOut b = .ok call ∧ t.Unspoilt ∧
    script.lookups b s = .ok resolved ∧ AllSteady world resolved

theorem AllSteady.append {world : σ} {earlier later : List (Lookup σ × Session σ)}
    (h : AllSteady world earlier) (hl : AllSteady world later) :
    AllSteady world (earlier ++ later) := by
  intro q hq
  exact (List.mem_append.mp hq).elim (h q) (hl q)

namespace Lookup

variable {world : σ} {l : Lookup σ} {plan : NameArg → Plan} {s : Session σ}

theorem exists_readAfter_carryOut (plan : Plan) {b : NameBuffer}
    (hb : b.Lists scratchCapacity []) : ∃ call units, plan.carryOut b = .ok call ∧
      call.2.Reusable ∧ Resolver.readAfter call = .ok units ∧
      Resolver.nameOf units = match plan.ofList scratchCapacity [] with
        | (.ok (), w) => .ofUnits w
        | (.error _, _) => .empty := by
  obtain ⟨left, hcall, hleft⟩ := plan.carryOut_of_lists hb
  cases hplan : plan.ofList scratchCapacity [] with
  | mk result w =>
      rw [hplan] at hcall hleft
      cases result with
      | error e => exact ⟨_, none, hcall, hleft.reusable, rfl, rfl⟩
      | ok done =>
          refine ⟨_, some w, hcall, hleft.reusable, ?_, rfl⟩
          rw [Resolver.readAfter, hleft.wide]
          rfl

/-- The name does not depend on the session as long as it is unspoilt, and it stays so. The name
itself is resolved in this session, and the names within its call in sessions that hold the scratch
buffer. -/
theorem exists_run (hl : l.resolver.Performs l.code)
    (hkeeps : ∀ name, (l.code name).Keeps world (plan name)) (hs : s.Unspoilt) :
    ∃ t resolved, l.run s = .ok (l.planned plan, t) ∧ t.Unspoilt ∧
      l.within s = .ok resolved ∧ AllSteady world resolved := by
  obtain ⟨f, hf, hcode⟩ := hl
  cases hh : l.resolver.accepts l.handle with
  | false =>
      obtain ⟨t, hrun, hscratch⟩ := Resolver.exists_resolve_run_of_refused hh s
      refine ⟨t, [], ?_, (Session.unspoilt_congr hscratch).mpr hs, ?_, fun q hq => by cases hq⟩
      · rw [run, hrun, planned, hh]
        rfl
      · rw [within, hh]
        rfl
  | true =>
      have hheld : Session.Unspoilt { s with scratch := none } := Session.unspoilt_of_held rfl
      obtain ⟨call, after, resolved, hrun, hplan, hafter, hlookups, hsteady⟩ :=
        hkeeps (l.resolver.nameArg l.handle) _ _ _ _ hs.lists hheld
      obtain ⟨call', units, hplan', hleft, hread, hname⟩ :=
        exists_readAfter_carryOut (plan (l.resolver.nameArg l.handle)) hs.lists
      obtain rfl : call = call' := Except.ok.inj (hplan.symm.trans hplan')
      rw [← hcode] at hrun
      obtain ⟨t, hresolve, hscratch⟩ := Resolver.exists_resolve_run_of_append hf hh hrun hread
      refine ⟨t, resolved, ?_, Session.unspoilt_of_left hscratch hleft hafter, ?_, hsteady⟩
      · rw [run, hresolve, hname, planned, if_pos hh]
      · rw [within, if_pos hh, hlookups]

theorem name_of_run {name : Name} {t : Session σ} (h : l.run s = .ok (name, t)) :
    l.name s = .ok name := by
  rw [Lookup.name, StateT.run'_eq]
  exact congrArg (Except.map Prod.fst) h

end Lookup

/-- By induction on how the script follows the plan, which goes into the functions that are called
from within. -/
theorem Script.Follows.keeps {world : σ} {script : Script σ} {plan : Plan}
    (h : script.Follows world plan) : script.Keeps world plan := by
  induction h with
  | finish result =>
      intro b c w s hb hs
      exact ⟨_, s, [], rfl, rfl, hs, rfl, fun q hq => by cases hq⟩
  | @append units next plan hnext ih =>
      intro b c w s hb hs
      obtain ⟨edited, hedit, hlists, -⟩ := hb.edit (.append units)
      obtain ⟨call, t, resolved, hrun, hspec⟩ := ih _ edited c _ s hlists hs
      refine ⟨call, t, resolved, ?_, ?_⟩
      · rw [Script.run_append hedit, hrun]
      · rw [Plan.carryOut, hedit, Script.lookups_append hedit]
        exact hspec
  | access change hnext ih =>
      intro b c w s hb hs
      have haccessed : (accessed change s).Unspoilt := hs
      exact ih s b b c w _ hb haccessed
  | @resolve r code h next planned plan hperforms hcode hnext ihcode ihnext =>
      intro b c w s hb hs
      let l : Lookup σ := ⟨r, code, h⟩
      have hl : l.Steady world planned := ⟨hperforms, hcode⟩
      obtain ⟨t, inner, hrun, ht, hinner, hsteady⟩ := l.exists_run hperforms ihcode hs
      -- The script goes on as with the name that a new session has.
      obtain ⟨_, _, hstart, -⟩ := l.exists_run hperforms ihcode (Session.unspoilt_start world)
      obtain ⟨call, last, later, hrest, hplan, hlast, hlater, hlaterSteady⟩ :=
        ihnext _ (Lookup.name_of_run hstart) b c w t hb ht
      refine ⟨call, last, _, (Script.run_resolve hrun).trans hrest, hplan, hlast,
        Script.lookups_resolve hinner hrun hlater, AllSteady.append ?_ hlaterSteady⟩
      exact List.forall_mem_cons.mpr ⟨⟨hs, planned, hl⟩, hsteady⟩

/-! ## Runs of a thread -/

namespace Lookup.Steady

variable {world : σ} {l : Lookup σ} {plan : NameArg → Plan} {s : Session σ}

theorem exists_run (hl : l.Steady world plan) (hs : s.Unspoilt) :
    ∃ t resolved, l.run s = .ok (l.planned plan, t) ∧ t.Unspoilt ∧
      l.within s = .ok resolved ∧ AllSteady world resolved :=
  Lookup.exists_run hl.performs (fun name => (hl.follows name).keeps) hs

theorem name_eq (hl : l.Steady world plan) (hs : s.Unspoilt) :
    l.name s = .ok (l.planned plan) := by
  obtain ⟨_, _, hrun, -⟩ := hl.exists_run hs
  exact name_of_run hrun

/-- A function that carries out the plan and resolves nothing leads to the planned name too. -/
theorem name_alone (hl : l.Steady world plan) (hs : s.Unspoilt) :
    ((l.alone plan).resolve l.handle).run' s = .ok (l.planned plan) := by
  obtain ⟨f, hstrategy, -⟩ := hl.performs
  have hf : (l.alone plan).strategy = .appendString f := hstrategy
  have haccepts : (l.alone plan).accepts l.handle = l.resolver.accepts l.handle :=
    Resolver.accepts_congr rfl _
  have hname : (l.alone plan).nameArg l.handle = l.resolver.nameArg l.handle :=
    Resolver.nameArg_congr rfl _
  rw [planned]
  by_cases hh : l.resolver.accepts l.handle = true
  · obtain ⟨call, units, hcall, -, hread, hunits⟩ :=
      exists_readAfter_carryOut (plan (l.resolver.nameArg l.handle)) hs.lists
    have hrun : (((l.alone plan).invoker.appendString f ((l.alone plan).nameArg l.handle)
        s.nextBuffer).run' { s with scratch := none }) = .ok call := by
      rw [hname, StateT.run'_eq]
      change (Prod.fst <$> (liftM ((plan _).carryOut s.nextBuffer) : Run σ _).run _) = _
      rw [Run.run_lift, hcall]
      rfl
    rw [if_pos hh, Resolver.resolve_of_append hf (haccepts.trans hh), hrun, ok_bind, hread,
      ← hunits]
    rfl
  · have hrefused := haccepts.trans (Bool.eq_false_iff.mpr hh)
    rw [if_neg hh, Resolver.resolve_of_refused hrefused]

end Lookup.Steady

/-- By induction on the names that the thread resolves. -/
theorem Session.exists_lookups {world : σ} {s : Session σ} {lookups : List (Lookup σ)}
    (hs : s.Unspoilt) (h : ∀ l ∈ lookups, ∃ plan, l.Steady world plan) :
    ∃ resolved, s.lookups lookups = .ok resolved ∧ AllSteady world resolved := by
  induction lookups generalizing s with
  | nil => exact ⟨[], rfl, fun q hq => by cases hq⟩
  | cons l rest ih =>
      obtain ⟨plan, hl⟩ := h l List.mem_cons_self
      obtain ⟨t, inner, hrun, ht, hinner, hsteady⟩ := hl.exists_run hs
      obtain ⟨later, hlater, hlaterSteady⟩ :=
        ih ht fun next hnext => h next (List.mem_cons_of_mem _ hnext)
      refine ⟨_, Session.lookups_cons hinner hrun hlater, AllSteady.append ?_ hlaterSteady⟩
      exact List.forall_mem_cons.mpr ⟨⟨hs, plan, hl⟩, hsteady⟩

/-- Whatever names a thread resolves and the functions that it calls resolve within, the thread gets
through, and each is the name that a new thread gets, and the one that comes of the units that its
own function appends. -/
theorem lookups_reentrant {world : σ} {lookups : List (Lookup σ)}
    (h : ∀ l ∈ lookups, ∃ plan, l.Steady world plan) :
    ∃ resolved, (Session.start world).lookups lookups = .ok resolved ∧
      ∀ q ∈ resolved, ∃ name, q.1.name q.2 = .ok name ∧
        (∀ other, q.1.name (.start other) = .ok name) ∧
        ∃ plan, q.1.Steady world plan ∧
          ∀ other, ((q.1.alone plan).resolve q.1.handle).run' (.start other) = .ok name := by
  obtain ⟨resolved, hresolved, hall⟩ := Session.exists_lookups (Session.unspoilt_start world) h
  refine ⟨resolved, hresolved, fun q hq => ?_⟩
  obtain ⟨hs, plan, hl⟩ := hall q hq
  refine ⟨q.1.planned plan, hl.name_eq hs, ?_, plan, hl, ?_⟩
  · exact fun other => hl.name_eq (Session.unspoilt_start other)
  · exact fun other => hl.name_alone (Session.unspoilt_start other)

/-! ## Three functions that call each other -/

/-- Calls a function that does what the scripts tell. -/
def Resolver.ofScripts (code : NameArg → Script Unit) : Resolver Unit :=
  .ofInvoker
    { appendString := fun _ name b => (code name).run b
      toString := fun _ _ => pure (.error (.other "no such function")) }
    (.appendString ⟨0x1000, .c⟩)

def Lookup.ofScripts (code : NameArg → Script Unit) (index : UInt32) : Lookup Unit :=
  ⟨.ofScripts code, code, .index index none⟩

theorem performs_ofScripts (code : NameArg → Script Unit) :
    (Resolver.ofScripts code).Performs code :=
  ⟨_, rfl, fun _ _ => rfl⟩

/-- Appends `C`, and fails. -/
def failingCode (_ : NameArg) : Script Unit :=
  .append [67] fun _ => .finish (.error (.other "gone"))

/-- Appends `B`, and resolves a name that fails. -/
def middleCode (_ : NameArg) : Script Unit :=
  .append [66] fun _ => .resolve (.ofScripts failingCode) failingCode (.index 3 none) fun _ =>
    .finish (.ok ())

/-- Appends `A`, and then a name that it resolves. -/
def outerCode (_ : NameArg) : Script Unit :=
  .append [65] fun _ => .resolve (.ofScripts middleCode) middleCode (.index 2 none) fun name =>
    .append name.raw fun _ => .finish (.ok ())

theorem steady_failing : (Lookup.ofScripts failingCode 3).Steady ()
    fun _ => .append [67] fun _ => .finish (.error (.other "gone")) :=
  ⟨performs_ofScripts _, fun _ => .append _ fun _ => .finish _⟩

theorem steady_middle : (Lookup.ofScripts middleCode 2).Steady ()
    fun _ => .append [66] fun _ => .finish (.ok ()) := by
  refine ⟨performs_ofScripts _, fun _ => .append _ fun _ => ?_⟩
  exact .resolve _ steady_failing.performs steady_failing.follows fun _ _ => .finish _

theorem steady_outer : (Lookup.ofScripts outerCode 1).Steady ()
    fun _ => .append [65] fun _ => .append [66] fun _ => .finish (.ok ()) := by
  refine ⟨performs_ofScripts _, fun _ => .append _ fun _ => ?_⟩
  refine .resolve _ steady_middle.performs steady_middle.follows fun name hname => ?_
  have hmiddle : (Lookup.ofScripts middleCode 2).name (.start ()) = .ok (.ofUnits [66]) :=
    (steady_middle.name_eq (Session.unspoilt_start ())).trans rfl
  obtain rfl : name = .ofUnits [66] := Except.ok.inj (hname.symm.trans hmiddle)
  exact .append _ fun _ => .finish _

section Within

variable {s : Session Unit}

/-- The scripts are for an index, which is always worth a call. -/
theorem within_ofScripts (code : NameArg → Script Unit) (index : UInt32) :
    (Lookup.ofScripts code index).within s =
      (code ((Resolver.ofScripts code).nameArg (.index index none))).lookups s.nextBuffer
        { s with scratch := none } :=
  if_pos rfl

theorem within_failing (hs : s.Unspoilt) : (Lookup.ofScripts failingCode 3).within s = .ok [] := by
  obtain ⟨_, hedit, -⟩ := hs.lists.edit (.append [67])
  rw [within_ofScripts, failingCode, Script.lookups_append hedit]
  rfl

theorem exists_within_middle (hs : s.Unspoilt) : ∃ resolved,
    (Lookup.ofScripts middleCode 2).within s = .ok resolved ∧
    resolved.map Prod.fst = [.ofScripts failingCode 3] := by
  have hheld : Session.Unspoilt { s with scratch := none } := Session.unspoilt_of_held rfl
  obtain ⟨b, hedit, -⟩ := hs.lists.edit (.append [66])
  obtain ⟨t, _, hrun, -⟩ := steady_failing.exists_run hheld
  have hlater : (Script.finish (.ok ())).lookups b t = .ok [] := rfl
  refine ⟨[(.ofScripts failingCode 3, { s with scratch := none })], ?_, rfl⟩
  rw [within_ofScripts, middleCode, Script.lookups_append hedit]
  exact Script.lookups_resolve (l := .ofScripts failingCode 3) (within_failing hheld) hrun hlater

theorem exists_within_outer (hs : s.Unspoilt) : ∃ resolved,
    (Lookup.ofScripts outerCode 1).within s = .ok resolved ∧
    resolved.map Prod.fst = [.ofScripts middleCode 2, .ofScripts failingCode 3] := by
  have hheld : Session.Unspoilt { s with scratch := none } := Session.unspoilt_of_held rfl
  obtain ⟨b, hedit, hb, -⟩ := hs.lists.edit (.append [65])
  obtain ⟨t, _, hrun, -⟩ := steady_middle.exists_run hheld
  obtain ⟨inner, hinner, hnames⟩ := exists_within_middle hheld
  have hlater : ∀ units : List UInt16,
      (Script.append units fun _ => .finish (.ok ())).lookups b t = .ok [] := by
    intro units
    obtain ⟨_, hlast, -⟩ := hb.edit (.append units)
    rw [Script.lookups_append hlast]
    rfl
  rw [within_ofScripts, outerCode, Script.lookups_append hedit]
  refine ⟨_, Script.lookups_resolve (l := .ofScripts middleCode 2) hinner hrun (hlater _), ?_⟩
  rw [List.append_nil, List.map_cons, hnames]

end Within

/-- The names of a thread and of all calls within, in the order in which they are begun. -/
theorem lookups_reentrant_of_three :
    let lookups := [Lookup.ofScripts failingCode 3, .ofScripts outerCode 1]
    (∀ l ∈ lookups, ∃ plan, l.Steady () plan) ∧
    ∃ resolved, (Session.start ()).lookups lookups = .ok resolved ∧
      resolved.map Prod.fst =
        [.ofScripts failingCode 3, .ofScripts outerCode 1, .ofScripts middleCode 2,
          .ofScripts failingCode 3] ∧
      (∀ q ∈ resolved, ∃ name, q.1.name q.2 = .ok name ∧ q.1.name (.start ()) = .ok name) ∧
      (Lookup.ofScripts outerCode 1).name (.start ()) = .ok (.ofUnits [65, 66]) := by
  intro lookups
  have h : ∀ l ∈ lookups, ∃ plan, l.Steady () plan := by
    intro l hl
    simp only [lookups, List.mem_cons, List.not_mem_nil, or_false] at hl
    rcases hl with rfl | rfl
    · exact ⟨_, steady_failing⟩
    · exact ⟨_, steady_outer⟩
  have hstart := Session.unspoilt_start ()
  obtain ⟨resolved, hresolved, hall⟩ := lookups_reentrant h
  refine ⟨h, resolved, hresolved, ?_, fun q hq => ?_, ?_⟩
  · obtain ⟨t, _, hfirst, ht, -⟩ := steady_failing.exists_run hstart
    obtain ⟨u, _, hsecond, -⟩ := steady_outer.exists_run ht
    have hnone : u.lookups ([] : List (Lookup Unit)) = .ok [] := rfl
    obtain ⟨inner, hinner, hnames⟩ := exists_within_outer ht
    have hrun := Session.lookups_cons (within_failing hstart) hfirst
      (Session.lookups_cons hinner hsecond hnone)
    obtain rfl := Except.ok.inj (hresolved.symm.trans hrun)
    simp only [List.append_nil, List.map_cons, List.nil_append, List.cons_append, hnames]
  · obtain ⟨name, hname, hnew, -⟩ := hall q hq
    exact ⟨name, hname, hnew ()⟩
  · exact (steady_outer.name_eq hstart).trans rfl

end EngineNames
