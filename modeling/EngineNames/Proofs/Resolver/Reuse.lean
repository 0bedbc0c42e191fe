import EngineNames.Proofs.Resolver.Scratch

/-! # What a call sees of earlier calls

The buffer that a call is given is ready, whatever earlier calls did. What they can hand down is the
count of reserved units and the units in the storage, and nothing keeps them from handing down any.
So a name is the same after all of them only if the function that appends it counts no unit that it
did not write itself. If it counts more than there are, there is no name: the reading gets beyond
the storage.
-/

namespace EngineNames

variable {σ : Type}

/-- The header of a buffer of which all is reserved and nothing in use. -/
def Header.unused : Header :=
  ⟨.allocation, 0, Int32.ofNat scratchCapacity⟩

/-- What the resolution of a name by the function `f` may owe to earlier resolutions. -/
structure ReuseSpec (world : σ) (r : Resolver σ) (f : Callable) (h : Handle) : Prop where
  /-- A name is read from the buffer `nextBuffer` after the call that was given it. -/
  given : ∀ s, (r.resolve h).run' s = (do
    let call ← (r.invoker.appendString f (r.nameArg h) s.nextBuffer).run' { s with scratch := none }
    Resolver.readAfter call).map Resolver.nameOf
  ready : ∀ history, Confined history → ∀ s, (Session.start world).afterNames history = .ok s →
    s.nextBuffer.Ready
  /-- All is reserved exactly if the last call left the count so, or lost the storage. -/
  intact_iff : ∀ history, Confined history →
    ∀ s, (Session.start world).afterNames history = .ok s →
      (s.Intact ↔ ∃ b, s.scratch = some b ∧ (b.isDetached = true ∨ b.capacity = scratchCapacity))
  intact : ∀ history, Confined history → (∀ call ∈ history, call.1.invoker.KeepsReserved) →
    ∀ s, (Session.start world).afterNames history = .ok s → s.Intact
  /-- Any units and any count may be left over. -/
  leftovers : ∀ storage max, storage.length = scratchCapacity →
    ∃ history s, Confined history ∧ (Session.start world).afterNames history = .ok s ∧
      s.nextBuffer = ⟨.tool, some storage, .allocation, 0, max⟩
  /-- If the function goes by the name and the header alone, there is one name after all histories
  exactly if none of it is left over. -/
  name_iff : ∀ behaviour, r.invoker.RespondsBy behaviour →
    ((∃ name, ∀ history, Confined history →
      ∀ s, (Session.start world).afterNames history = .ok s → s.Intact →
        (r.resolve h).run' s = .ok name) ↔
      (behaviour f (r.nameArg h) .unused).SelfContained scratchCapacity)
  /-- Such a function leads to no name exactly if it counts more units than there are. -/
  beyond_iff : ∀ behaviour, r.invoker.RespondsBy behaviour → ∀ history, Confined history →
    ∀ s, (Session.start world).afterNames history = .ok s → s.Intact →
      ∀ t, (r.resolve h).run' s = .error t ↔ t = .outOfBounds ∧
        (behaviour f (r.nameArg h) .unused).result = .ok () ∧
        ¬(behaviour f (r.nameArg h) .unused).InStorage scratchCapacity

namespace Session

theorem intact_start (world : σ) : (start world).Intact :=
  (ours_start world).intact_iff.mpr
    ⟨_, rfl, .inr (NameBuffer.capacity_withCapacity (by decide) (by decide))⟩

theorem owns_nextBuffer_start (world : σ) :
    (start world).nextBuffer.Owns (List.replicate scratchCapacity 0) := by
  have h : (NameBuffer.withCapacity scratchCapacity).Owns (List.replicate scratchCapacity 0) :=
    NameBuffer.owns_withCapacity (by decide) (by decide)
  rw [nextBuffer, start, Option.getD_some, prepare_of_owns h]
  exact h.reset

theorem header_nextBuffer {s : Session σ} (hs : s.Ours) (hi : s.Intact) :
    s.nextBuffer.header = .unused := by
  obtain ⟨storage, howns, -⟩ := hs.ready.storage
  have hmax : s.nextBuffer.max = Int32.ofNat scratchCapacity := by
    have hpos : s.nextBuffer.max.toInt.toNat = 1024 := hi
    refine Int32.toInt_inj.mp ?_
    rw [show (Int32.ofNat scratchCapacity).toInt = 1024 by decide]
    omega
  rw [NameBuffer.header, howns.data, hmax]
  rfl

end Session

/-- Of one reaction the name tells what was read. -/
theorem Reaction.eq_of_nameOf {ρ : Reaction} {b b' : NameBuffer}
    {units units' : Option (List UInt16)}
    (hread : ρ.read? b = .ok units) (hread' : ρ.read? b' = .ok units')
    (hname : Resolver.nameOf units = Resolver.nameOf units') : units = units' := by
  unfold read? at hread hread'
  cases hr : ρ.result with
  | ok _ =>
      rw [hr] at hread hread'
      obtain ⟨w, -, rfl⟩ := map_eq_ok_iff.mp hread
      obtain ⟨w', -, rfl⟩ := map_eq_ok_iff.mp hread'
      exact congrArg some (congrArg Name.raw hname)
  | error _ =>
      rw [hr] at hread hread'
      cases hread
      cases hread'
      rfl

namespace Resolver

variable {r : Resolver σ} {f : Callable} {h : Handle} {s : Session σ}
  {behaviour : Callable → NameArg → Header → Reaction}

/-- The name is read after what the function does, which goes by the header that it sees. -/
theorem resolve_of_respondsBy (hf : r.strategy = .appendString f) (hh : r.accepts h = true)
    (hb : r.invoker.RespondsBy behaviour) (s : Session σ) : (r.resolve h).run' s =
      ((behaviour f (r.nameArg h) s.nextBuffer.header).read? s.nextBuffer).map nameOf := by
  obtain ⟨t, hcall⟩ := hb f (r.nameArg h) s.nextBuffer { s with scratch := none }
  rw [resolve_of_append hf hh, StateT.run'_eq, hcall]
  rfl

theorem resolve_of_intact (hf : r.strategy = .appendString f) (hh : r.accepts h = true)
    (hb : r.invoker.RespondsBy behaviour) (hs : s.Ours) (hi : s.Intact) :
    (r.resolve h).run' s =
      ((behaviour f (r.nameArg h) .unused).read? s.nextBuffer).map nameOf := by
  rw [resolve_of_respondsBy hf hh hb, s.header_nextBuffer hs hi]

theorem exists_leftovers (world : σ) (r : Resolver σ) {storage : List UInt16} (max : Int32)
    (hlength : storage.length = scratchCapacity) :
    ∃ history s, Confined history ∧ (Session.start world).afterNames history = .ok s ∧
      s.nextBuffer = ⟨.tool, some storage, .allocation, 0, max⟩ := by
  -- One call is enough, of a function that writes all units and assigns the count.
  let f : Callable := ⟨0, .c⟩
  let ρ : Reaction := ⟨(storage[·]?), ⟨.allocation, 0, max⟩, .ok ()⟩
  let q : Resolver σ :=
    { r with invoker := .ofBehaviour fun _ _ _ => ρ, strategy := .appendString f }
  let left : NameBuffer := ⟨.tool, some storage, .allocation, 0, max⟩
  have hleft : ρ.applyTo (Session.start world).nextBuffer = left := by
    obtain ⟨old, howns, hold⟩ := (Session.ours_start world).ready.storage
    rw [Reaction.applyTo, NameBuffer.scribble, howns.owner, howns.allocation, Option.map_some,
      overlay_getElem? (hold.trans hlength.symm)]
  have hread : readAfter (ρ.result, left) = .ok (some []) := by
    have hwide : left.wide = .ok [] := NameBuffer.wide_reset left
    rw [readAfter, hwide]
    rfl
  have hcall : (q.invoker.appendString f (q.nameArg (.index 0 none))
      (Session.start world).nextBuffer).run { Session.start world with scratch := none } =
        .ok ((ρ.result, left), { Session.start world with scratch := none }) := by
    rw [← hleft]
    rfl
  obtain ⟨s, hrun, hscratch⟩ :=
    exists_resolve_run_of_append (r := q) (h := .index 0 none) rfl rfl hcall hread
  refine ⟨[(q, .index 0 none)], s, ?_, ?_, ?_⟩
  · exact Session.confined_singleton (Invoker.confined_ofBehaviour fun _ _ _ => ρ)
  · rw [Session.afterNames_singleton, hrun]
    rfl
  · rw [Session.nextBuffer, hscratch]
    exact prepare_of_owns ⟨rfl, rfl, rfl⟩

theorem exists_name_iff (world : σ) (hf : r.strategy = .appendString f)
    (hh : r.accepts h = true) (hb : r.invoker.RespondsBy behaviour) :
    (∃ name, ∀ history, Confined history →
      ∀ s, (Session.start world).afterNames history = .ok s → s.Intact →
        (r.resolve h).run' s = .ok name) ↔
      (behaviour f (r.nameArg h) .unused).SelfContained scratchCapacity := by
  have hours := Session.ours_start world
  have hfresh := Session.owns_nextBuffer_start world
  constructor
  · rintro ⟨name, hname⟩
    -- Between zeros and ones every unit that is left over shows.
    have hstart := hname [] (fun call hcall => absurd hcall List.not_mem_nil) _ rfl
      (Session.intact_start world)
    obtain ⟨ones, s, hc, hrun, hones⟩ := exists_leftovers world r (Int32.ofNat scratchCapacity)
      (List.length_replicate : (List.replicate scratchCapacity (1 : UInt16)).length = _)
    have hi : s.Intact := by
      rw [Session.Intact, hones]
      decide
    have hlater := hname ones hc s hrun hi
    rw [resolve_of_intact hf hh hb hours (Session.intact_start world)] at hstart
    rw [resolve_of_intact hf hh hb (hours.afterNames hc hrun) hi, hones] at hlater
    obtain ⟨units, hread, hunits⟩ := map_eq_ok_iff.mp hstart
    obtain ⟨units', hread', hunits'⟩ := map_eq_ok_iff.mp hlater
    obtain rfl := Reaction.eq_of_nameOf hread hread' (hunits.trans hunits'.symm)
    exact Reaction.selfContained_of_read?_eq hfresh ⟨rfl, rfl, rfl⟩ hread hread'
  · intro hρ
    have hin : (behaviour f (r.nameArg h) .unused).result = .ok () →
        (behaviour f (r.nameArg h) .unused).InStorage
          (List.replicate scratchCapacity (0 : UInt16)).length := by
      rw [List.length_replicate]
      exact fun hok => (hρ hok).1
    obtain ⟨units, hread⟩ := (Reaction.exists_read?_iff hfresh).mpr hin
    refine ⟨nameOf units, fun history hc s hrun hi => ?_⟩
    obtain ⟨storage, howns, hlength⟩ := (hours.afterNames hc hrun).ready.storage
    have hsame := Reaction.read?_eq howns hfresh (hlength.trans List.length_replicate.symm)
      (hlength.symm ▸ hρ)
    rw [resolve_of_intact hf hh hb (hours.afterNames hc hrun) hi, hsame, hread]
    rfl

/-- Nothing but the count of reserved units and the storage can pass from one call to another. -/
theorem reuse_spec (world : σ) (hf : r.strategy = .appendString f) (hh : r.accepts h = true) :
    ReuseSpec world r f h := by
  have hours := Session.ours_start world
  refine ⟨resolve_of_append hf hh, ?_, ?_, ?_, ?_, ?_, ?_⟩
  · intro history hc s hrun
    exact (hours.afterNames hc hrun).ready
  · intro history hc s hrun
    exact (hours.afterNames hc hrun).intact_iff
  · intro history hc hk s hrun
    exact (Session.intact_start world).afterNames hours hc hk hrun
  · intro storage max hlength
    exact exists_leftovers world r max hlength
  · intro behaviour hb
    exact exists_name_iff world hf hh hb
  · intro behaviour hb history hc s hrun hi t
    obtain ⟨storage, howns, hlength⟩ := (hours.afterNames hc hrun).ready.storage
    rw [resolve_of_intact hf hh hb (hours.afterNames hc hrun) hi, map_eq_error_iff,
      Reaction.read?_eq_error_iff howns, hlength]

/-- A function that writes `Pawn` for every name, if there is room for it. -/
def appendPawn (_ : Callable) (_ : NameArg) (header : Header) : Reaction :=
  if 5 ≤ header.max then ⟨([80, 97, 119, 110, 0][·]?), { header with num := 5 }, .ok ()⟩
  else .refusal header (.other "no room")

/-- The same function, but for the name of index 1 it takes units away from the buffer instead. -/
def shrinkOrAppendPawn (f : Callable) (name : NameArg) (header : Header) : Reaction :=
  match name with
  | .image (1 :: _) => ⟨fun _ => none, { header with max := 2 }, .ok ()⟩
  | _ => appendPawn f name header

def pawnResolver (behaviour : Callable → NameArg → Header → Reaction) : Resolver Unit where
  process :=
    { readBytes := fun a size => .error (.readFailed a size "unmapped")
      isReadable := fun _ => false
      modules := .ok []
      regions := .ok []
      findPattern := fun _ _ _ => .ok [] }
  build := {}
  layout := ({} : Build).handleLayout
  invoker := .ofBehaviour behaviour
  strategy := .appendString ⟨0x1000, .c⟩
  path := .detection
  attempts := []
  tracked := false

/-- A function that only appends can be called for any names before. -/
theorem reuse_spec_of_pawn :
    ReuseSpec () (pawnResolver appendPawn) ⟨0x1000, .c⟩ (.index 2 none) ∧
    ∃ name, ∀ (handles : List Handle) s,
      (Session.start ()).afterNames (handles.map (pawnResolver appendPawn, ·)) = .ok s →
        s.Intact ∧ ((pawnResolver appendPawn).resolve (.index 2 none)).run' s = .ok name := by
  have hspec : ReuseSpec () (pawnResolver appendPawn) ⟨0x1000, .c⟩ (.index 2 none) :=
    reuse_spec () rfl rfl
  have hself : (appendPawn ⟨0x1000, .c⟩ ((pawnResolver appendPawn).nameArg (.index 2 none))
      .unused).SelfContained scratchCapacity := by
    have hin : min 5 1024 ≤ 1024 := by decide
    refine fun _ => ⟨hin, fun _ i hi _ => ?_⟩
    have hlt : i < 5 := Nat.lt_of_lt_of_le hi (by decide)
    change ([80, 97, 119, 110, 0] : List UInt16)[i]?.isSome = true
    rw [List.getElem?_eq_getElem hlt, Option.isSome_some]
  obtain ⟨name, hname⟩ := (hspec.name_iff appendPawn
    (Invoker.respondsBy_ofBehaviour appendPawn)).mpr hself
  refine ⟨hspec, name, fun handles s hrun => ?_⟩
  have hcalls : ∀ call ∈ handles.map (pawnResolver appendPawn, ·),
      call.1 = pawnResolver appendPawn := by
    simp
  have hc : Confined (handles.map (pawnResolver appendPawn, ·)) := by
    intro call hcall
    rw [hcalls call hcall]
    exact Invoker.confined_ofBehaviour appendPawn
  have hk : ∀ call ∈ handles.map (pawnResolver appendPawn, ·), call.1.invoker.KeepsReserved := by
    intro call hcall
    rw [hcalls call hcall]
    refine Invoker.keepsReserved_ofBehaviour fun f name header => ?_
    unfold appendPawn
    split <;> rfl
  have hi := hspec.intact _ hc hk s hrun
  exact ⟨hi, hname _ hc s hrun hi⟩

/-- The name that takes units away leaves two of them to the next call. -/
theorem exists_shrunk : ∃ s, (Session.start ()).afterNames
    [(pawnResolver shrinkOrAppendPawn, .index 1 none)] = .ok s ∧ s.nextBuffer.max = 2 := by
  let r := pawnResolver shrinkOrAppendPawn
  let given : NameBuffer := (Session.start ()).nextBuffer
  let ρ : Reaction := ⟨fun _ => none, { given.header with max := 2 }, .ok ()⟩
  have hfresh := Session.owns_nextBuffer_start ()
  have hcall : (r.invoker.appendString ⟨0x1000, .c⟩ (r.nameArg (.index 1 none)) given).run
        { Session.start () with scratch := none } =
      .ok ((ρ.result, ρ.applyTo given), { Session.start () with scratch := none }) :=
    rfl
  have hin : ρ.InStorage (List.replicate scratchCapacity (0 : UInt16)).length := by
    rw [List.length_replicate]
    exact Nat.le_trans (Nat.min_le_right _ _) (by decide)
  obtain ⟨units, hread⟩ : ∃ units, readAfter (ρ.result, ρ.applyTo given) = .ok units :=
    (Reaction.exists_read?_iff hfresh).mpr fun _ => hin
  obtain ⟨s, hrun, hscratch⟩ := exists_resolve_run_of_append rfl rfl hcall hread
  refine ⟨s, ?_, ?_⟩
  · rw [Session.afterNames_singleton, hrun]
    rfl
  · have howns : (ρ.applyTo given).Owns _ := Reaction.owns_applyTo hfresh hfresh.data
    rw [Session.nextBuffer, hscratch, if_pos (Session.ours_start ()).isSome, Option.getD_some,
      prepare_of_owns howns]
    rfl

/-- After the name that takes units away there is no room for `Pawn`. -/
theorem not_intact_of_shrunk :
    (¬∀ history : List (Resolver Unit × Handle), Confined history →
      ∀ s, (Session.start ()).afterNames history = .ok s →
        s.nextBuffer.capacity = scratchCapacity) ∧
    ¬∀ (r : Resolver Unit) (behaviour : Callable → NameArg → Header → Reaction),
      r.invoker.RespondsBy behaviour → ∀ h, ∃ name, ∀ history, Confined history →
        ∀ s, (Session.start ()).afterNames history = .ok s → (r.resolve h).run' s = .ok name := by
  let r := pawnResolver shrinkOrAppendPawn
  let given : NameBuffer := (Session.start ()).nextBuffer
  have hfresh := Session.owns_nextBuffer_start ()
  have hc : Confined [(r, .index 1 none)] :=
    Session.confined_singleton (Invoker.confined_ofBehaviour shrinkOrAppendPawn)
  obtain ⟨s, hafter, hmax⟩ := exists_shrunk
  constructor
  · intro h
    have hcapacity := h _ hc s hafter
    rw [NameBuffer.capacity, hmax] at hcapacity
    exact absurd hcapacity (by decide)
  · intro h
    have hb : r.invoker.RespondsBy shrinkOrAppendPawn :=
      Invoker.respondsBy_ofBehaviour shrinkOrAppendPawn
    obtain ⟨name, hname⟩ := h r shrinkOrAppendPawn hb (.index 2 none)
    have hstart := hname [] (fun call hcall => absurd hcall List.not_mem_nil) _ rfl
    have hshrunk := hname _ hc s hafter
    have hpawn (header : Header) : shrinkOrAppendPawn ⟨0x1000, .c⟩ (r.nameArg (.index 2 none))
        header = appendPawn ⟨0x1000, .c⟩ (r.nameArg (.index 2 none)) header :=
      rfl
    rw [resolve_of_respondsBy rfl rfl hb, hpawn] at hstart hshrunk
    -- With all its units the buffer takes the name, and with two of them it does not.
    obtain ⟨rest, htaken⟩ : ∃ rest,
        (appendPawn ⟨0x1000, .c⟩ (r.nameArg (.index 2 none)) given.header).read? given =
          .ok (some (80 :: rest)) :=
      Reaction.exists_read?_eq_cons hfresh rfl rfl
        (by rw [List.length_replicate]; decide) (by decide) rfl (by decide)
    have hroom : ¬ 5 ≤ s.nextBuffer.header.max := by
      have hheader : s.nextBuffer.header.max = 2 := hmax
      rw [hheader]
      decide
    have hrefused : appendPawn ⟨0x1000, .c⟩ (r.nameArg (.index 2 none)) s.nextBuffer.header =
        .refusal s.nextBuffer.header (.other "no room") :=
      if_neg hroom
    rw [htaken] at hstart
    rw [hrefused] at hshrunk
    have hunits := congrArg Name.raw (Except.ok.inj (hstart.trans hshrunk.symm))
    cases hunits

end Resolver

end EngineNames
