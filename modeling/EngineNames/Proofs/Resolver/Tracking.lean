import EngineNames.Proofs.Registry.Owners
import EngineNames.Proofs.Resolver.Callbacks
import EngineNames.Proofs.Resolver.Identity
import EngineNames.Proofs.Resolver.Queries
import EngineNames.Proofs.Resolver.Reentrancy

/-! # Tracked resolutions

A resolver that puts its names into the registry answers as one that does not, as long as the
functions that it calls go by the name alone, and it comes to no answer where that one does not. If
nobody else gets at the registry, it tells in the end which of the names came first with each
identifier.
-/

namespace EngineNames

variable {σ α β : Type}

/-- A buffer that is made ready for a call has storage. -/
theorem isUsable_prepare (b : NameBuffer) : (Resolver.prepare b).isUsable = true := by
  unfold Resolver.prepare
  split
  · rfl
  · rename_i h
    have husable : b.isUsable = true := by
      by_contra hno
      simp [hno] at h
    exact husable

/-- Carries out a plan for each name. -/
def Invoker.ofPlan (plan : NameArg → Plan) : Invoker σ where
  appendString _ name b := liftM ((plan name).carryOut b)
  toString _ _ := pure (.error (.other "no such function"))

theorem Invoker.ofPlan_append_run (plan : NameArg → Plan) (f : Callable) (name : NameArg)
    (b : NameBuffer) (s : Session σ) :
    ((ofPlan plan).appendString f name b).run s = ((plan name).carryOut b).map (·, s) :=
  Run.run_lift _ s

namespace Session

variable {s t : Session σ}

theorem isUsable_nextBuffer (s : Session σ) : s.nextBuffer.isUsable = true :=
  isUsable_prepare _

theorem nextBuffer_congr (hst : s.scratch = t.scratch) : s.nextBuffer = t.nextBuffer := by
  rw [nextBuffer, nextBuffer, hst]

end Session

/-! ## Runs that come to the same -/

/-- Two runs come to the same: both trap alike, or both end with the same answer, and then with
sessions of which `R` holds. -/
inductive Alike (R : Session σ → Session σ → Prop) :
    Except Trap (α × Session σ) → Except Trap (α × Session σ) → Prop
  | trapped (trap : Trap) : Alike R (.error trap) (.error trap)
  | ended (a : α) {s t : Session σ} : R s t → Alike R (.ok (a, s)) (.ok (a, t))

namespace Alike

variable {R Q : Session σ → Session σ → Prop} {x y : Except Trap (α × Session σ)}

theorem bind {f g : α × Session σ → Except Trap (β × Session σ)} (h : Alike R x y)
    (hnext : ∀ a s t, R s t → Alike Q (f (a, s)) (g (a, t))) : Alike Q (x >>= f) (y >>= g) := by
  cases h with
  | trapped trap => exact .trapped trap
  | ended a hR => exact hnext a _ _ hR

theorem map {f g : α × Session σ → β × Session σ} (h : Alike R x y)
    (hnext : ∀ a s t, R s t → (f (a, s)).1 = (g (a, t)).1 ∧ Q (f (a, s)).2 (g (a, t)).2) :
    Alike Q (x.map f) (y.map g) := by
  cases h with
  | trapped trap => exact .trapped trap
  | @ended a s t hR =>
      obtain ⟨hsame, hQ⟩ := hnext a s t hR
      simp only [Except.map]
      generalize f (a, s) = left, g (a, t) = right at hsame hQ ⊢
      obtain ⟨b, u⟩ := left
      obtain ⟨b', v⟩ := right
      obtain rfl : b = b' := hsame
      exact .ended b hQ

theorem mono (h : Alike R x y) (hRQ : ∀ s t, R s t → Q s t) : Alike Q x y := by
  cases h with
  | trapped trap => exact .trapped trap
  | ended a hR => exact .ended a (hRQ _ _ hR)

/-- What goes on alike without a session comes to the same. -/
theorem bind_eq {f g : α × Session σ → Except Trap β} (h : Alike R x y)
    (hnext : ∀ a s t, R s t → f (a, s) = g (a, t)) : x >>= f = y >>= g := by
  cases h with
  | trapped trap => rfl
  | ended a hR => exact hnext a _ _ hR

theorem outcome_eq (h : Alike R x y) : x.map Prod.fst = y.map Prod.fst := by
  cases h <;> rfl

/-- What needs no session comes to the same in any two. -/
theorem of_map (x : Except Trap α) {s t : Session σ} (hR : R s t) :
    Alike R (x.map (·, s)) (x.map (·, t)) := by
  cases x with
  | error trap => exact .trapped trap
  | ok a => exact .ended a hR

/-- Runs with the same outcome come to the same, if `R` holds wherever they end. -/
theorem of_run' {m n : Run σ α} {s t : Session σ} (h : m.run' s = n.run' t)
    (hR : ∀ a u v, m.run s = .ok (a, u) → n.run t = .ok (a, v) → R u v) :
    Alike R (m.run s) (n.run t) := by
  rw [StateT.run'_eq, StateT.run'_eq] at h
  cases hm : m.run s with
  | error trap =>
      cases hn : n.run t with
      | error other =>
          rw [hm, hn] at h
          obtain rfl : trap = other := Except.error.inj h
          exact .trapped trap
      | ok ended =>
          rw [hm, hn] at h
          cases h
  | ok left =>
      cases hn : n.run t with
      | error trap =>
          rw [hm, hn] at h
          cases h
      | ok right =>
          obtain ⟨a, u⟩ := left
          obtain ⟨a', v⟩ := right
          rw [hm, hn] at h
          obtain rfl : a = a' := Except.ok.inj h
          exact .ended a (hR a u v hm hn)

end Alike

namespace Resolver

/-! ## Functions that go by the name -/

/-- What the function answers for a name depends on nothing else. One that appends carries out a
plan for the name, and leaves a scratch buffer alone that another call holds; one that returns a
string returns the same for the same name. -/
def AnswersByName (r : Resolver σ) : Prop :=
  match r.strategy with
  | .nameTable _ => True
  | .appendString f =>
      (∃ plan : NameArg → Plan, ∀ name ≠ .address 0, ∀ (b : NameBuffer) s, b.isUsable = true →
        (r.invoker.appendString f name b).run' s = (plan name).carryOut b) ∧
      ∀ name b s call t, s.scratch = none →
        (r.invoker.appendString f name b).run s = .ok (call, t) → t.scratch = none
  | .toString f => ∃ answer : NameArg → Except Trap (Except ProcessError NameBuffer),
      ∀ name ≠ .address 0, ∀ s, (r.invoker.toString f name).run' s = answer name

/-- The function does not get at the registry. -/
def LeavesRegistry (r : Resolver σ) : Prop :=
  match r.strategy with
  | .nameTable _ => True
  | .appendString f => ∀ name b s call t,
      (r.invoker.appendString f name b).run s = .ok (call, t) → t.registry = s.registry
  | .toString f => ∀ name s answer t,
      (r.invoker.toString f name).run s = .ok (answer, t) → t.registry = s.registry

/-- The sessions have the same scratch buffer, if the resolver makes use of it. -/
def SameScratch (r : Resolver σ) (s t : Session σ) : Prop :=
  ∀ f, r.strategy = .appendString f → s.scratch = t.scratch

variable {r : Resolver σ} {h : Handle} {s t : Session σ} {f : Callable}

/-- Two calls with the same buffer read the same and leave the same buffer. What becomes of the
scratch buffer only matters while another call holds it. -/
theorem AnswersByName.append_alike (hr : r.AnswersByName) (hf : r.strategy = .appendString f)
    {name : NameArg} (hn : name ≠ .address 0) {b : NameBuffer} (hb : b.isUsable = true)
    (hs : s.scratch = none) (ht : t.scratch = none) :
    Alike (fun u v => u.scratch = v.scratch) ((r.invoker.appendString f name b).run s)
      ((r.invoker.appendString f name b).run t) := by
  rw [AnswersByName, hf] at hr
  obtain ⟨⟨plan, hplan⟩, hheld⟩ := hr
  refine .of_run' ((hplan name hn b s hb).trans (hplan name hn b t hb).symm) ?_
  intro call u v hu hv
  exact (hheld _ _ _ _ _ hs hu).trans (hheld _ _ _ _ _ ht hv).symm

theorem AnswersByName.appendName_alike (hr : r.AnswersByName) (hf : r.strategy = .appendString f)
    {name : NameArg} (hn : name ≠ .address 0) (hst : s.scratch = t.scratch) :
    Alike (fun u v => u.scratch = v.scratch) ((r.appendName f name).run s)
      ((r.appendName f name).run t) := by
  have hcall := hr.append_alike hf hn s.isUsable_nextBuffer
    (s := { s with scratch := none }) (t := { t with scratch := none }) rfl rfl
  rw [appendName_run, appendName_run, ← Session.nextBuffer_congr hst, ← hst]
  refine hcall.bind fun call u v huv => ?_
  cases readAfter call with
  | error trap => exact .trapped trap
  | ok units =>
      refine .ended units ?_
      cases s.scratch with
      | some b => rfl
      | none => exact huv

/-- Of the session, only the scratch buffer has a say in what is read for a handle. -/
theorem AnswersByName.units?_alike (hr : r.AnswersByName) (hst : r.SameScratch s t) (h : Handle) :
    Alike r.SameScratch ((r.units? h).run s) ((r.units? h).run t) := by
  rcases r.units?_cases h with ⟨-, hu⟩ | ⟨_, _, -, hu⟩ | ⟨f, hh, hf, hu⟩ | ⟨f, hh, hf, hu⟩
  · rw [hu]
    exact .ended none hst
  · rw [hu, Run.run_lift, Run.run_lift]
    exact .of_map _ hst
  · rw [hu]
    exact (hr.appendName_alike hf (nameArg_ne_null hh) (hst f hf)).mono fun _ _ huv _ _ => huv
  · rw [AnswersByName, hf] at hr
    obtain ⟨answer, hanswer⟩ := hr
    have hn := nameArg_ne_null hh
    have hunused : ∀ u v, r.SameScratch u v := fun u v g hg => by
      rw [hf] at hg
      cases hg
    have hcall : Alike r.SameScratch ((r.invoker.toString f (r.nameArg h)).run s)
        ((r.invoker.toString f (r.nameArg h)).run t) :=
      .of_run' ((hanswer _ hn s).trans (hanswer _ hn t).symm) fun _ u v _ _ => hunused u v
    rw [hu, returnName_run, returnName_run]
    refine hcall.bind fun call u v huv => ?_
    cases call.toOption.mapM NameBuffer.wide with
    | error trap => exact .trapped trap
    | ok units => exact .ended units huv

theorem units?_withTracking : r.withTracking.units? h = r.units? h := by
  have haccepts : r.withTracking.accepts h = r.accepts h := accepts_congr rfl h
  have hname : r.withTracking.nameArg h = r.nameArg h := nameArg_congr rfl h
  rw [units?, units?, haccepts, hname]
  rfl

/-! ## With tracking and without -/

theorem AnswersByName.resolve_alike (hr : r.AnswersByName) (hst : r.SameScratch s t)
    (h : Handle) :
    Alike r.SameScratch ((r.withTracking.resolve h).run s) ((r.resolve h).run t) := by
  rw [resolve_run, resolve_run, units?_withTracking]
  refine (hr.units?_alike hst h).map fun units u v huv => ⟨rfl, fun f hf => ?_⟩
  exact (scratch_track _ _ _).trans ((huv f hf).trans (scratch_track _ _ _).symm)

theorem AnswersByName.ask_alike (hr : r.AnswersByName) (hst : r.SameScratch s t) (q : Query) :
    Alike r.SameScratch ((r.withTracking.ask q).run s) ((r.ask q).run t) := by
  cases hq : q.resolved? with
  | some h =>
      rw [ask_run_of_resolved hq, ask_run_of_resolved hq]
      exact (hr.resolve_alike hst h).map fun _ _ _ huv => ⟨rfl, huv⟩
  | none =>
      obtain ⟨answer, htracked, huntracked⟩ :=
        exists_ask_run_of_identity r.withTracking r rfl rfl hq
      rw [htracked, huntracked]
      exact .of_map answer hst

/-- By induction on the queries: what one leaves to the next is the scratch buffer, and that is the
same with tracking and without. -/
theorem AnswersByName.askAll_alike (hr : r.AnswersByName) (hst : r.SameScratch s t)
    (queries : List Query) :
    Alike r.SameScratch ((r.withTracking.askAll queries).run s) ((r.askAll queries).run t) := by
  induction queries generalizing s t with
  | nil => exact .ended [] hst
  | cons q queries ih =>
      rw [askAll_run_cons, askAll_run_cons]
      refine (hr.ask_alike hst q).bind fun answer u v huv => ?_
      exact (ih huv).map fun _ _ _ hnext => ⟨rfl, hnext⟩

theorem AnswersByName.names_withTracking (hr : r.AnswersByName) (hst : r.SameScratch s t)
    (queries : List Query) : r.withTracking.names s queries = r.names t queries := by
  induction queries generalizing s t with
  | nil => rfl
  | cons q queries ih =>
      cases hq : q.resolved? with
      | some h =>
          rw [names_cons_of_resolved hq, names_cons_of_resolved hq]
          exact (hr.resolve_alike hst h).bind_eq fun name u v huv => by rw [ih huv]
      | none =>
          rw [names_cons_of_identity hq, names_cons_of_identity hq]
          exact (hr.ask_alike hst q).bind_eq fun answer u v huv => ih huv

/-! ## What the registry is told -/

theorem LeavesRegistry.units? (hr : r.LeavesRegistry) {units : Option (List UInt16)}
    (hrun : (r.units? h).run s = .ok (units, t)) : t.registry = s.registry := by
  rcases r.units?_cases h with ⟨-, hu⟩ | ⟨_, _, -, hu⟩ | ⟨f, -, hf, hu⟩ | ⟨f, -, hf, hu⟩
  · rw [hu] at hrun
    cases hrun
    rfl
  · rw [hu, Run.run_lift] at hrun
    obtain ⟨_, -, heq⟩ := map_eq_ok_iff.mp hrun
    cases heq
    rfl
  · rw [LeavesRegistry, hf] at hr
    rw [hu, appendName_run] at hrun
    obtain ⟨⟨call, after⟩, hcall, hrest⟩ := bind_eq_ok_iff.mp hrun
    obtain ⟨_, -, heq⟩ := bind_eq_ok_iff.mp hrest
    obtain ⟨-, rfl⟩ := Prod.mk.inj (Except.ok.inj heq)
    have hkept := hr _ _ _ _ _ hcall
    cases s.scratch <;> exact hkept
  · rw [LeavesRegistry, hf] at hr
    rw [hu] at hrun
    obtain ⟨answer, hcall⟩ := exists_of_returnName_run hrun
    exact hr _ _ _ _ hcall

theorem registry_track (name : Name) (s : Session σ) :
    (track name s).registry = (s.registry.step (.registerName name)).2 := by
  rw [track, Registry.step]
  cases s.registry.registerName name <;> rfl

theorem LeavesRegistry.resolve_withTracking (hr : r.LeavesRegistry) {name : Name}
    (hrun : (r.withTracking.resolve h).run s = .ok (name, t)) :
    t.registry = (s.registry.step (.registerName name)).2 := by
  rw [resolve_run, units?_withTracking] at hrun
  obtain ⟨⟨units, u⟩, hread, heq⟩ := map_eq_ok_iff.mp hrun
  obtain ⟨rfl, rfl⟩ := Prod.mk.inj heq
  change (track _ _).registry = _
  rw [registry_track, hr.units? hread]

/-- The registry is told each name that is resolved, and nothing else. -/
theorem LeavesRegistry.askAll_withTracking (hr : r.LeavesRegistry) {queries : List Query}
    {answers : List Answer} (hrun : (r.withTracking.askAll queries).run s = .ok (answers, t)) :
    ∃ names, r.withTracking.names s queries = .ok names ∧
      t.registry = s.registry.after (names.map .registerName) := by
  induction queries generalizing s answers with
  | nil =>
      cases hrun
      exact ⟨[], rfl, rfl⟩
  | cons q queries ih =>
      rw [askAll_run_cons] at hrun
      obtain ⟨⟨answer, u⟩, hask, hrest⟩ := bind_eq_ok_iff.mp hrun
      obtain ⟨⟨rest, _⟩, hlater, heq⟩ := map_eq_ok_iff.mp hrest
      obtain ⟨-, rfl⟩ := Prod.mk.inj heq
      obtain ⟨names, hnames, hregistry⟩ := ih hlater
      cases hq : q.resolved? with
      | some h =>
          rw [ask_run_of_resolved hq] at hask
          obtain ⟨⟨name, _⟩, hresolve, heq⟩ := map_eq_ok_iff.mp hask
          obtain ⟨-, rfl⟩ := Prod.mk.inj heq
          refine ⟨name :: names, ?_, ?_⟩
          · rw [names_cons_of_resolved hq, hresolve, ok_bind, hnames]
            rfl
          · rw [hregistry, hr.resolve_withTracking hresolve, List.map_cons, Registry.after_cons]
      | none =>
          obtain rfl := eq_of_ask_run_of_identity hq hask
          refine ⟨names, ?_, hregistry⟩
          rw [names_cons_of_identity hq, hask, ok_bind, hnames]

/-- What comes of a run of queries when the names are put into the registry. -/
structure TrackingSpec (r : Resolver σ) (queries : List Query) (s : Session σ) : Prop where
  /-- The answers are the same, and so is what keeps a run from coming to any. -/
  answers : (r.withTracking.askAll queries).run' s = (r.askAll queries).run' s
  /-- Queries on identity leave the session alone. -/
  identity : ∀ q, q.resolved? = none → ∀ t answer u,
    (r.withTracking.ask q).run t = .ok (answer, u) → u = t
  /-- A handle that leads nowhere counts as a name whose raw form is empty. -/
  unresolvable : ∀ h t, (r.units? h).run' t = .ok none →
    (r.withTracking.resolve h).run' t = .ok .empty ∧ Name.empty.rawText = ""
  /-- After a run that ends, the first name with an identifier owns it. -/
  registered : r.LeavesRegistry → s.registry = .empty → ∀ answers t,
    (r.withTracking.askAll queries).run s = .ok (answers, t) →
    ∃ names, r.names s queries = .ok names ∧
      (∀ identifier, t.registry.owner? identifier =
        (names.find? (·.identifier = identifier)).map Name.rawText) ∧
      t.registry.size = (names.map Name.identifier).dedup.length

/-- Tracking only watches. -/
theorem tracking_spec (hr : r.AnswersByName) (queries : List Query) (s : Session σ) :
    TrackingSpec r queries s := by
  have hst : r.SameScratch s s := fun _ _ => rfl
  refine ⟨?_, fun q hq _ _ _ hrun => eq_of_ask_run_of_identity hq hrun, ?_, ?_⟩
  · rw [StateT.run'_eq, StateT.run'_eq]
    exact (hr.askAll_alike hst queries).outcome_eq
  · intro h t hnone
    rw [resolve_run', units?_withTracking, hnone]
    exact ⟨rfl, rfl⟩
  · intro hleaves hempty answers t hrun
    obtain ⟨names, hnames, hregistry⟩ := hleaves.askAll_withTracking hrun
    rw [hr.names_withTracking hst] at hnames
    refine ⟨names, hnames, fun identifier => ?_, ?_⟩
    · rw [hregistry, hempty, Registry.owner?_after_registerName]
      exact Option.none_or
    · rw [hregistry, hempty, Registry.size_after_registerName]

/-! ## Two packages with one class -/

/-- The names of two classes `X`; no others have a name. -/
def packagePlan : NameArg → Plan
  | .image (1 :: _) => .append [47, 65, 47, 88] fun _ => .finish (.ok ())
  | .image (2 :: _) => .append [47, 66, 47, 88] fun _ => .finish (.ok ())
  | _ => .finish (.error (.other "no such name"))

/-- A resolver that was bound to a function which carries out this plan. -/
def packageResolver : Resolver Unit where
  process := namedProcess
  build := displayBuild
  layout := displayBuild.handleLayout
  invoker := .ofPlan packagePlan
  strategy := .appendString ⟨0x5000, .c⟩
  path := .detection
  attempts := [⟨.detection, .bound .appendString 0x5000⟩]
  tracked := false

theorem answersByName_packageResolver : packageResolver.AnswersByName := by
  refine ⟨⟨packagePlan, fun name _ b s _ => ?_⟩, fun name b s call t hheld hrun => ?_⟩
  · rw [StateT.run'_eq]
    change Prod.fst <$> ((Invoker.ofPlan packagePlan).appendString _ name b).run s = _
    rw [Invoker.ofPlan_append_run]
    cases (packagePlan name).carryOut b <;> rfl
  · change ((Invoker.ofPlan packagePlan).appendString _ name b).run s = _ at hrun
    rw [Invoker.ofPlan_append_run] at hrun
    obtain ⟨_, -, heq⟩ := map_eq_ok_iff.mp hrun
    cases heq
    exact hheld

theorem leavesRegistry_packageResolver : packageResolver.LeavesRegistry := by
  intro name b s call t hrun
  change ((Invoker.ofPlan packagePlan).appendString _ name b).run s = _ at hrun
  rw [Invoker.ofPlan_append_run] at hrun
  obtain ⟨_, -, heq⟩ := map_eq_ok_iff.mp hrun
  cases heq
  rfl

theorem tracking_spec_of_packages :
    let c : Candidates := { appendString := some 0x5000 }
    let queries := [.identifier (.index 2 none), .sameName (.index 1 none) (.index 2 none),
      .displayText (.index 1 none), .resolve (.address 0x1000), .number (.address 0x1000),
      .indexText 2]
    (Unbound.start namedProcess displayBuild (.ofPlan packagePlan)).answer
      (.detection c.scanner false) = .ok (.ok packageResolver) ∧
    packageResolver.AnswersByName ∧ packageResolver.LeavesRegistry ∧
    TrackingSpec packageResolver queries (Session.start ()) ∧
    ∃ answers t, (packageResolver.withTracking.askAll queries).run (Session.start ()) =
        .ok (answers, t) ∧
      t.registry.owner? "X" = some "/B/X" ∧ t.registry.owner? Name.empty.identifier = some "" ∧
      t.registry.owner? "Y" = none ∧ t.registry.size = 2 := by
  intro c queries
  have hspec := tracking_spec answersByName_packageResolver queries (Session.start ())
  have hnames : packageResolver.names (Session.start ()) queries =
      .ok [.ofUnits [47, 66, 47, 88], .ofUnits [47, 65, 47, 88], .empty,
        .ofUnits [47, 66, 47, 88]] := by
    decide +kernel
  have hends : ((packageResolver.withTracking.askAll queries).run (Session.start ())).isOk =
      true := by
    decide +kernel
  refine ⟨rfl, answersByName_packageResolver, leavesRegistry_packageResolver, hspec, ?_⟩
  cases hrun : (packageResolver.withTracking.askAll queries).run (Session.start ()) with
  | error trap =>
      rw [hrun] at hends
      cases hends
  | ok ended =>
      obtain ⟨answers, t⟩ := ended
      obtain ⟨names, hsame, howner, hsize⟩ :=
        hspec.registered leavesRegistry_packageResolver rfl answers t hrun
      obtain rfl := Except.ok.inj (hsame.symm.trans hnames)
      refine ⟨answers, t, rfl, (howner _).trans ?_, (howner _).trans ?_, (howner _).trans ?_,
        hsize.trans ?_⟩ <;> decide +kernel

end Resolver

end EngineNames
