import EngineNames.Proofs.NameBuffer.AsList
import EngineNames.Proofs.Resolver.Scratch

/-! # Unspoilt sessions

A session is unspoilt as long as the next call gets what it would get in a new one: an empty buffer
with all its units reserved. What the storage holds behind the null does not matter to a function
that only appends. While a call holds the scratch buffer the session is unspoilt in any case, since
calls from within it get buffers of their own.
-/

namespace EngineNames

variable {σ : Type}

/-- Made ready for a call, the buffer is empty and has all its room. -/
def NameBuffer.Reusable (b : NameBuffer) : Prop :=
  (Resolver.prepare b).Lists scratchCapacity []

namespace NameBuffer

variable {b : NameBuffer} {w : List UInt16}

theorem Lists.reusable (h : b.Lists scratchCapacity w) : b.Reusable := by
  obtain ⟨storage, howns, -⟩ := h.storage
  rw [Reusable, prepare_of_owns howns]
  exact h.reset

theorem reusable_withCapacity : (withCapacity scratchCapacity).Reusable :=
  (Lists.withCapacity (by decide) (by decide)).reusable

/-- A reaction that leaves the count of reserved units alone, or takes the storage away, does not
spoil a buffer for later calls. -/
theorem Lists.reusable_applyTo {ρ : Reaction} (h : b.Lists scratchCapacity w)
    (hmax : ρ.header.data = .allocation → ρ.header.max = b.max) : (ρ.applyTo b).Reusable := by
  obtain ⟨storage, howns, hlength⟩ := h.storage
  have howner : (ρ.applyTo b).owner = .tool := howns.owner
  have hstorage := Reaction.allocation_applyTo (ρ := ρ) howns
  have hready := ready_prepare howner hstorage ((length_overlay ρ.writes storage).trans hlength)
  refine ⟨hready.storage, ?_, ?_⟩
  · apply (capacity_prepare_iff howner hstorage).mpr
    by_cases hdata : ρ.header.data = .allocation
    · right
      rw [← h.capacity]
      exact congrArg (·.toInt.toNat) (hmax hdata)
    · left
      have hlost : (ρ.applyTo b).data ≠ .allocation := hdata
      simpa [isDetached, hstorage] using hlost
  · exact wide_reset _

end NameBuffer

namespace Session

variable {s t : Session σ}

def Unspoilt (s : Session σ) : Prop :=
  (s.scratch.getD (.withCapacity scratchCapacity)).Reusable

theorem Unspoilt.lists (h : s.Unspoilt) : s.nextBuffer.Lists scratchCapacity [] :=
  h

theorem unspoilt_congr (h : s.scratch = t.scratch) : s.Unspoilt ↔ t.Unspoilt := by
  rw [Unspoilt, Unspoilt, h]

theorem unspoilt_of_held (h : s.scratch = none) : s.Unspoilt := by
  rw [Unspoilt, h]
  exact NameBuffer.reusable_withCapacity

theorem unspoilt_of_scratch {b : NameBuffer} (h : s.scratch = some b) (hb : b.Reusable) :
    s.Unspoilt := by
  rwa [Unspoilt, h]

theorem unspoilt_start (world : σ) : (start world).Unspoilt :=
  unspoilt_of_scratch rfl NameBuffer.reusable_withCapacity

/-- What a call leaves behind is its buffer, or what it did itself if it was given another one. -/
theorem unspoilt_of_left {b : NameBuffer} {held : Bool}
    (h : t.scratch = if held then some b else s.scratch) (hb : b.Reusable) (hs : s.Unspoilt) :
    t.Unspoilt := by
  cases held with
  | true => exact unspoilt_of_scratch h hb
  | false => exact (unspoilt_congr h).mpr hs

variable {r : Resolver σ} {h : Handle} {name : Name}

/-- A resolution makes one call at most, so all depends on what that call leaves behind. -/
theorem Unspoilt.resolve (hs : s.Unspoilt)
    (happend : ∀ f call after, r.strategy = .appendString f → r.accepts h = true →
      (r.invoker.appendString f (r.nameArg h) s.nextBuffer).run { s with scratch := none } =
        .ok (call, after) → call.2.Reusable ∧ after.Unspoilt)
    (hstring : ∀ f answer after, r.strategy = .toString f → r.accepts h = true →
      (r.invoker.toString f (r.nameArg h)).run s = .ok (answer, after) → after.Unspoilt)
    (hrun : (r.resolve h).run s = .ok (name, t)) : t.Unspoilt := by
  rcases Resolver.scratch_resolve_cases hrun with hsame | ⟨f, answer, after, hf, hh, hcall, ht⟩ |
    ⟨f, call, after, hf, hh, hcall, ht⟩
  · exact (unspoilt_congr hsame).mpr hs
  · exact (unspoilt_congr ht).mpr (hstring f answer after hf hh hcall)
  · obtain ⟨hleft, hafter⟩ := happend f call after hf hh hcall
    exact unspoilt_of_left ht hleft hafter

end Session

/-- A resolver for a process of which nothing can be read, so that only indices lead to names. -/
def Resolver.ofInvoker (invoker : Invoker Unit) (strategy : Strategy) : Resolver Unit where
  process :=
    { readBytes := fun a size => .error (.readFailed a size "unmapped")
      isReadable := fun _ => false
      modules := .ok []
      regions := .ok []
      findPattern := fun _ _ _ => .ok [] }
  build := {}
  layout := ({} : Build).handleLayout
  invoker := invoker
  strategy := strategy
  path := .detection
  attempts := []
  tracked := true

end EngineNames
