import EngineNames.Proofs.Binding.Retries
import EngineNames.Proofs.Handle.Image

/-! # Stored name values

What a resolver makes of an index and a number is what it reads: where the bytes are stored in the
process, their address is a handle of the same name.
-/

namespace EngineNames

namespace Memory

variable {m : Memory} {location : ℕ} {bytes : List UInt8}

/-- All parts of these bytes can be read from a location on. -/
def Stores (m : Memory) (location : ℕ) (bytes : List UInt8) : Prop :=
  ∀ (a : Address) skip size, a.toNat = location + skip → skip + size ≤ bytes.length →
    m.readBytes a size = .ok ((bytes.drop skip).take size)

/-- Words among these bytes have addresses, and are read there. -/
theorem Stores.readUInt32 {a : Address} {offset : ℕ} {word : UInt32}
    (h : m.Stores a.toNat bytes) (hfit : a.toNat + bytes.length ≤ UInt64.size)
    (hin : offset + 4 ≤ bytes.length) (hword : wordAt bytes offset = wordBytes word) :
    ∃ place, a.advance offset = .ok place ∧ m.readUInt32 place = .ok word := by
  have hlt : a.toNat + offset < UInt64.size := by omega
  obtain ⟨place, hplace⟩ : ∃ place, a.advance offset = .ok place :=
    ⟨_, Address.advance_of_lt hlt⟩
  have hsum := Address.advance_eq_ok_iff.mp hplace
  have hread := h place offset 4 hsum.symm hin
  rw [← wordAt, hword, wordBytes_eq] at hread
  exact ⟨place, hplace, Holds.readUInt32 ⟨_, rfl, hread⟩⟩

theorem stores_ofMapping (start : ℕ) (bytes : List UInt8) :
    (ofMapping start bytes).Stores start bytes := by
  intro a skip size ha hin
  have hpart : start ≤ start + skip ∧ start + skip + size ≤ start + bytes.length := by omega
  simp only [ofMapping, ha, if_pos hpart, Nat.add_sub_cancel_left]

end Memory

namespace HandleLayout

variable {layout : HandleLayout} {m : Memory} {a : Address} {index : UInt32}
  {number : Option UInt32}

/-- The word of a field is read back from a stored image. -/
theorem Sound.readUInt32 (hs : layout.Sound) (h : m.Stores a.toNat (layout.image index number))
    (hfit : a.toNat + (layout.image index number).length ≤ UInt64.size) :
    ∀ f ∈ layout.fields index number,
      ∃ place, a.advance f.1 = .ok place ∧ m.readUInt32 place = .ok f.2 := by
  intro f hf
  refine h.readUInt32 hfit ?_ (hs.wordAt_image f hf)
  have hin := hs.field_inside f hf
  rwa [List.length_replicate, ← hs.length_image index number] at hin

/-- A stored image is read as the index and the number that it was made of. -/
theorem Sound.read?_of_stores (hs : layout.Sound) (h0 : a ≠ 0)
    (h : m.Stores a.toNat (layout.image index number))
    (hfit : a.toNat + (layout.image index number).length ≤ UInt64.size) :
    layout.read? m (.address a) = layout.read? m (.index index number) := by
  have hfields := hs.readUInt32 h hfit
  obtain ⟨place, hplace, hindex⟩ := hfields (layout.comparisonIndex, index) List.mem_cons_self
  simp only [read?, h0, if_false, hplace, ok_bind, hindex]
  cases hn : layout.number with
  | none => rfl
  | some offset =>
      have hin : (offset, number.getD 0) ∈ layout.fields index number := by simp [fields, hn]
      obtain ⟨other, hother, hnumber⟩ := hfields _ hin
      simp only [hother, ok_bind, hnumber]
      rfl

end HandleLayout

namespace Resolver

open Unbound

variable {σ : Type}

theorem layout_of_answer {u : Unbound σ} {q : BindRequest} {r : Resolver σ}
    (h : u.answer q = .ok (.ok r)) : r.layout = r.build.handleLayout := by
  obtain ⟨_, hg⟩ := granted_of_answer h
  exact hg.layout

theorem isSome_number_handleLayout (b : Build) :
    b.handleLayout.number.isSome = !b.outlineNumbers := by
  unfold Build.handleLayout
  split <;> simp_all

/-- The index of a handle is taken as it is, and the number if name values have one. -/
theorem read?_index (b : Build) (m : Memory) (index : UInt32) (number : Option UInt32) :
    b.handleLayout.read? m (.index index number) =
      .ok (some (index, if b.outlineNumbers then 0 else number.getD 0)) := by
  rw [HandleLayout.read?, isSome_number_handleLayout]
  cases b.outlineNumbers <;> rfl

/-- The bytes that a name function is given for an index and a number. -/
structure ImageSpec (b : Build) (index : UInt32) (number : Option UInt32)
    (image : List UInt8) : Prop where
  length : image.length = Address.roundUp b.handleLayout.size 8
  aligned : 8 ∣ image.length ∧ b.handleLayout.size ≤ image.length ∧
    image.length < b.handleLayout.size + 8
  written : image = putWords (List.replicate image.length 0) (b.handleLayout.fields index number)
  inside : ∀ f ∈ b.handleLayout.fields index number, f.1 + 4 ≤ image.length
  apart : (b.handleLayout.fields index number).Pairwise fun f g => Apart f.1 g.1
  kept : ∀ f ∈ b.handleLayout.fields index number, wordAt image f.1 = wordBytes f.2

/-- An address and an index are handles of one name. -/
structure OneName (r : Resolver σ) (a : Address) (index : UInt32) (number : Option UInt32) :
    Prop where
  same_index : r.comparisonIndex? (.address a) = r.comparisonIndex? (.index index number)
  index_eq : r.comparisonIndex? (.index index number) = .ok (some index)
  same_number : r.number (.address a) = r.number (.index index number)
  /-- Where numbers are stored elsewhere, a name value has none. -/
  number_eq : r.number (.index index number) =
    .ok (if r.build.outlineNumbers then 0 else number.getD 0)
  same_name : r.sameName (.address a) (.index index number) = .ok true

theorem image_spec (b : Build) (index : UInt32) (number : Option UInt32) :
    ImageSpec b index number (b.handleLayout.image index number) := by
  have hs := HandleLayout.sound_handleLayout b
  have hlen := hs.length_image index number
  refine ⟨hlen, ?_, ?_, ?_, hs.fields_apart, hs.wordAt_image⟩
  · rw [hlen]
    exact HandleLayout.imageSize_handleLayout b
  · rw [hlen]
    exact HandleLayout.image_eq_putWords
  · intro f hf
    have hin := hs.field_inside f hf
    rwa [List.length_replicate, ← hlen] at hin

theorem oneName_of_read? {r : Resolver σ} {a : Address} {index : UInt32} {number : Option UInt32}
    (hread : r.layout.read? r.process.toMemory (.address a) =
      r.layout.read? r.process.toMemory (.index index number))
    (hindex : r.layout.read? r.process.toMemory (.index index number) =
      .ok (some (index, if r.build.outlineNumbers then 0 else number.getD 0))) :
    OneName r a index number := by
  refine ⟨?_, ?_, ?_, ?_, ?_⟩
  · rw [comparisonIndex?, hread, ← comparisonIndex?]
  · rw [comparisonIndex?, hindex, Except.map, Option.map_some]
  · rw [Resolver.number, hread, ← Resolver.number]
  · rw [Resolver.number, hindex, Except.map, Option.map_some, Option.getD_some]
  · simp only [sameName, hread, hindex, ok_bind, beq_self_eq_true]
    rfl

/-- However a resolver was bound, it reads a stored image as the name that it was made for. -/
theorem stored_image_spec {u : Unbound σ} {q : BindRequest} {r : Resolver σ}
    (hr : u.answer q = .ok (.ok r)) (index : UInt32) (number : Option UInt32) :
    ∃ image, r.nameArg (.index index number) = .image image ∧
      ImageSpec r.build index number image ∧
      ∀ a : Address, a ≠ 0 → a.toNat + image.length ≤ UInt64.size →
        r.process.toMemory.Stores a.toNat image → OneName r a index number := by
  have hl := layout_of_answer hr
  refine ⟨r.layout.image index number, rfl, ?_, fun a h0 hfit hstored => ?_⟩
  · rw [hl]
    exact image_spec r.build index number
  · have hs : r.layout.Sound := by
      rw [hl]
      exact HandleLayout.sound_handleLayout r.build
    have hread := hs.read?_of_stores h0 hstored hfit
    refine oneName_of_read? hread ?_
    rw [hl]
    exact read?_index r.build r.process.toMemory index number

/-- A build whose name values have all three fields, the number last. -/
def displayBuild : Build :=
  { casePreserving := true, numberPlacement := .afterDisplayIndex }

/-- A process with a name value at `0x1000` and with code at `0x5000`. -/
def namedProcess : TargetProcess where
  toMemory := .ofMapping 0x1000 (displayBuild.handleLayout.image 0x12345678 (some 7))
  modules := .ok []
  regions := .ok [⟨0x5000, 0x6000, true, true⟩]
  findPattern _ _ _ := .ok []

theorem stored_image_spec_of_namedProcess :
    let c : Candidates := { appendString := some 0x5000 }
    let q := BindRequest.detection c.scanner false
    ∃ r, (start namedProcess displayBuild idleInvoker).answer q = .ok (.ok r) ∧
      ImageSpec displayBuild 0x12345678 (some 7)
        [0x78, 0x56, 0x34, 0x12, 0x78, 0x56, 0x34, 0x12, 7, 0, 0, 0, 0, 0, 0, 0] ∧
      OneName r 0x1000 0x12345678 (some 7) ∧ r.number (.address 0x1000) = .ok 7 := by
  intro c q
  have hr : (start namedProcess displayBuild idleInvoker).answer q = .ok (.ok _) := rfl
  obtain ⟨image, himage, hspec, hstored⟩ := stored_image_spec hr 0x12345678 (some 7)
  obtain rfl := NameArg.image.inj himage
  have hname := hstored 0x1000 (by decide) (by decide) (Memory.stores_ofMapping 0x1000 _)
  have himage : displayBuild.handleLayout.image 0x12345678 (some 7) =
      [0x78, 0x56, 0x34, 0x12, 0x78, 0x56, 0x34, 0x12, 7, 0, 0, 0, 0, 0, 0, 0] := by
    decide
  rw [← himage]
  refine ⟨_, hr, hspec, hname, ?_⟩
  rw [hname.same_number, hname.number_eq]
  rfl

end Resolver

end EngineNames
