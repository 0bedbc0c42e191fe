import EngineNames.Proofs.NameBuffer.Reactions
import EngineNames.Proofs.Resolver.Runs

/-! # The scratch buffer

All calls of a session share one scratch buffer, and each leaves it as it likes. The next call gets
it emptied, and a new one if its storage is lost. The count of reserved units that a call leaves
is not made good, nor are the units that it leaves in the storage.
-/

namespace EngineNames

variable {σ : Type}

/-! ## Buffers that are ready for a call -/

/-- A buffer of ours, empty and with the storage of a scratch buffer. -/
structure NameBuffer.Ready (b : NameBuffer) : Prop where
  owner : b.owner = .tool
  usable : b.isUsable = true
  attached : b.isDetached = false
  len : b.len = 0
  storage : ∃ storage, b.Owns storage ∧ storage.length = scratchCapacity

section Prepare

variable {b : NameBuffer} {storage : List UInt16}

theorem owns_of_attached (howner : b.owner = .tool) (hstorage : b.allocation = some storage)
    (h : b.isDetached = false) : b.Owns storage := by
  refine ⟨howner, ?_, hstorage⟩
  simpa [NameBuffer.isDetached, hstorage] using h

theorem prepare_of_detached (h : b.isDetached = true) :
    Resolver.prepare b = (NameBuffer.withCapacity scratchCapacity).reset := by
  rw [Resolver.prepare, h, Bool.true_or, if_pos rfl]

theorem prepare_of_owns (h : b.Owns storage) : Resolver.prepare b = b.reset := by
  rw [Resolver.prepare, h.isDetached, h.isUsable]
  rfl

theorem ready_prepare (howner : b.owner = .tool) (hstorage : b.allocation = some storage)
    (hlength : storage.length = scratchCapacity) : (Resolver.prepare b).Ready := by
  have howns : ∃ storage', (Resolver.prepare b).Owns storage' ∧
      storage'.length = scratchCapacity := by
    cases hd : b.isDetached with
    | true =>
        rw [prepare_of_detached hd]
        refine ⟨_, (NameBuffer.owns_withCapacity ?_ ?_).reset, List.length_replicate⟩ <;> decide
    | false =>
        have h := owns_of_attached howner hstorage hd
        rw [prepare_of_owns h]
        exact ⟨storage, h.reset, hlength⟩
  obtain ⟨storage', h, hl⟩ := howns
  exact ⟨h.owner, h.isUsable, h.isDetached, NameBuffer.len_reset _, storage', h, hl⟩

/-- The count of reserved units stays as it was left, unless the storage is lost. -/
theorem capacity_prepare_iff (howner : b.owner = .tool) (hstorage : b.allocation = some storage) :
    (Resolver.prepare b).capacity = scratchCapacity ↔
      b.isDetached = true ∨ b.capacity = scratchCapacity := by
  cases hd : b.isDetached with
  | true =>
      rw [prepare_of_detached hd, NameBuffer.capacity_reset,
        NameBuffer.capacity_withCapacity (by decide) (by decide)]
      simp
  | false =>
      rw [prepare_of_owns (owns_of_attached howner hstorage hd), NameBuffer.capacity_reset]
      simp

end Prepare

namespace Session

/-- The scratch buffer is there, and was made by us with all its units. -/
def Ours (s : Session σ) : Prop :=
  ∃ b storage, s.scratch = some b ∧ b.owner = .tool ∧ b.allocation = some storage ∧
    storage.length = scratchCapacity

/-- The next call sees all units of the storage as reserved. -/
def Intact (s : Session σ) : Prop :=
  s.nextBuffer.capacity = scratchCapacity

variable {s t : Session σ}

theorem ours_start (world : σ) : (start world).Ours :=
  ⟨_, _, rfl, rfl, rfl, List.length_replicate⟩

theorem ours_congr (h : s.scratch = t.scratch) : s.Ours ↔ t.Ours := by
  rw [Ours, Ours, h]

theorem intact_congr (h : s.scratch = t.scratch) : s.Intact ↔ t.Intact := by
  rw [Intact, Intact, nextBuffer, nextBuffer, h]

theorem Ours.isSome (h : s.Ours) : s.scratch.isSome = true := by
  obtain ⟨b, _, hb, _⟩ := h
  rw [hb, Option.isSome_some]

theorem Ours.ready (h : s.Ours) : s.nextBuffer.Ready := by
  obtain ⟨b, storage, hb, howner, hstorage, hlength⟩ := h
  rw [nextBuffer, hb, Option.getD_some]
  exact ready_prepare howner hstorage hlength

theorem Ours.intact_iff (h : s.Ours) : s.Intact ↔
    ∃ b, s.scratch = some b ∧ (b.isDetached = true ∨ b.capacity = scratchCapacity) := by
  obtain ⟨b, storage, hb, howner, hstorage, -⟩ := h
  rw [Intact, nextBuffer, hb, Option.getD_some, capacity_prepare_iff howner hstorage]
  simp

/-- The session after names were resolved, each by a resolver of its own. -/
def afterNames (s : Session σ) (history : List (Resolver σ × Handle)) : Except Trap (Session σ) :=
  history.foldlM (fun s call => ((call.1.resolve call.2).run s).map Prod.snd) s

end Session

/-! ## What functions may do -/

namespace Invoker

/-- An appending function does no more than react to the buffer, and one that returns a string gets
at the scratch buffer only by calls of its own. -/
structure Confined (i : Invoker σ) : Prop where
  append : ∀ f name b s call t, (i.appendString f name b).run s = .ok (call, t) →
    ∃ ρ : Reaction, call = (ρ.result, ρ.applyTo b)
  string : ∀ f name (s : Session σ) answer t, s.Ours →
    (i.toString f name).run s = .ok (answer, t) → t.Ours

/-- A function that leaves the storage to the buffer does not change how much is reserved. -/
structure KeepsReserved (i : Invoker σ) : Prop where
  append : ∀ f name b s call t, (i.appendString f name b).run s = .ok (call, t) →
    call.2.isDetached = true ∨ call.2.capacity = b.capacity
  string : ∀ f name (s : Session σ) answer t, s.Ours → s.Intact →
    (i.toString f name).run s = .ok (answer, t) → t.Intact

/-- What an appending function does depends on nothing but the name and the header. -/
def RespondsBy (i : Invoker σ) (behaviour : Callable → NameArg → Header → Reaction) : Prop :=
  ∀ f name b s, ∃ t, (i.appendString f name b).run s =
    .ok (((behaviour f name b.header).result, (behaviour f name b.header).applyTo b), t)

/-- Calls functions with this behaviour. -/
def ofBehaviour (behaviour : Callable → NameArg → Header → Reaction) : Invoker σ where
  appendString f name b :=
    pure ((behaviour f name b.header).result, (behaviour f name b.header).applyTo b)
  toString _ _ := pure (.error (.other "no such function"))

section OfBehaviour

variable {behaviour : Callable → NameArg → Header → Reaction}

theorem respondsBy_ofBehaviour (behaviour : Callable → NameArg → Header → Reaction) :
    (ofBehaviour behaviour : Invoker σ).RespondsBy behaviour :=
  fun _ _ _ s => ⟨s, rfl⟩

theorem confined_ofBehaviour (behaviour : Callable → NameArg → Header → Reaction) :
    (ofBehaviour behaviour : Invoker σ).Confined := by
  refine ⟨fun f name b s call t hrun => ?_, fun f name s answer t hs hrun => ?_⟩
  · cases hrun
    exact ⟨behaviour f name b.header, rfl⟩
  · cases hrun
    exact hs

theorem keepsReserved_ofBehaviour
    (h : ∀ f name header, (behaviour f name header).header.max = header.max) :
    (ofBehaviour behaviour : Invoker σ).KeepsReserved := by
  refine ⟨fun f name b s call t hrun => ?_, fun f name s answer t _ hi hrun => ?_⟩
  · cases hrun
    exact .inr (congrArg (·.toInt.toNat) (h f name b.header))
  · cases hrun
    exact hi

end OfBehaviour

end Invoker

/-- A history of resolutions in which no function does more than it can. -/
def Confined (history : List (Resolver σ × Handle)) : Prop :=
  ∀ call ∈ history, call.1.invoker.Confined

/-! ## One resolution -/

namespace Session

variable {s t : Session σ} {r : Resolver σ} {h : Handle} {name : Name}

theorem Ours.resolve (hs : s.Ours) (hr : r.invoker.Confined)
    (hrun : (r.resolve h).run s = .ok (name, t)) : t.Ours := by
  rcases Resolver.scratch_resolve_cases hrun with hsame | ⟨f, answer, u, -, -, hcall, ht⟩ |
    ⟨f, call, after, -, -, hcall, ht⟩
  · exact (ours_congr hsame).mpr hs
  · exact (ours_congr ht).mpr (hr.string f _ s answer u hs hcall)
  · obtain ⟨storage, howns, hlength⟩ := hs.ready.storage
    obtain ⟨ρ, rfl⟩ := hr.append f _ _ _ _ _ hcall
    rw [if_pos hs.isSome] at ht
    exact ⟨_, _, ht, howns.owner, Reaction.allocation_applyTo howns,
      (length_overlay ρ.writes storage).trans hlength⟩

theorem Intact.resolve (hi : s.Intact) (hs : s.Ours) (hr : r.invoker.Confined)
    (hk : r.invoker.KeepsReserved) (hrun : (r.resolve h).run s = .ok (name, t)) : t.Intact := by
  have hnext := hs.resolve hr hrun
  rcases Resolver.scratch_resolve_cases hrun with hsame | ⟨f, answer, u, -, -, hcall, ht⟩ |
    ⟨f, call, after, -, -, hcall, ht⟩
  · exact (intact_congr hsame).mpr hi
  · exact (intact_congr ht).mpr (hk.string f _ s answer u hs hi hcall)
  · rw [if_pos hs.isSome] at ht
    refine hnext.intact_iff.mpr ⟨_, ht, ?_⟩
    refine (hk.append f _ _ _ _ _ hcall).imp_right ?_
    intro hkept
    rw [hkept]
    exact hi

/-! ## Histories -/

theorem confined_singleton (hr : r.invoker.Confined) : Confined [(r, h)] := by
  intro call hcall
  rw [List.mem_singleton.mp hcall]
  exact hr

theorem afterNames_singleton (s : Session σ) (r : Resolver σ) (h : Handle) :
    s.afterNames [(r, h)] = ((r.resolve h).run s).map Prod.snd := by
  rw [afterNames, List.foldlM_cons]
  cases (r.resolve h).run s <;> rfl

/-- What each resolution of a history keeps, the history keeps. -/
theorem afterNames_of_step {P : Session σ → Prop} {history : List (Resolver σ × Handle)}
    (hstep : ∀ call ∈ history, ∀ s name t, P s →
      (call.1.resolve call.2).run s = .ok (name, t) → P t)
    (hs : P s) (hrun : s.afterNames history = .ok t) : P t := by
  induction history generalizing s with
  | nil =>
      cases hrun
      exact hs
  | cons call history ih =>
      obtain ⟨next, hnext, hrest⟩ := bind_eq_ok_iff.mp hrun
      obtain ⟨⟨name, _⟩, hresolve, rfl⟩ := map_eq_ok_iff.mp hnext
      refine ih (fun later hl => hstep later (List.mem_cons_of_mem _ hl)) ?_ hrest
      exact hstep call List.mem_cons_self s name _ hs hresolve

theorem Ours.afterNames {history : List (Resolver σ × Handle)} (hs : s.Ours)
    (hc : Confined history) (hrun : s.afterNames history = .ok t) : t.Ours :=
  afterNames_of_step (fun call hcall _ _ _ hs hnext => hs.resolve (hc call hcall) hnext) hs hrun

theorem Intact.afterNames {history : List (Resolver σ × Handle)} (hi : s.Intact) (hs : s.Ours)
    (hc : Confined history) (hk : ∀ call ∈ history, call.1.invoker.KeepsReserved)
    (hrun : s.afterNames history = .ok t) : t.Intact := by
  have hboth : t.Ours ∧ t.Intact := by
    refine afterNames_of_step (P := fun s => s.Ours ∧ s.Intact) ?_ ⟨hs, hi⟩ hrun
    rintro call hcall s name t ⟨hours, hintact⟩ hnext
    exact ⟨hours.resolve (hc call hcall) hnext,
      hintact.resolve hours (hc call hcall) (hk call hcall) hnext⟩
  exact hboth.2

end Session

end EngineNames
