import EngineNames.Resolver
import EngineNames.Proofs.Memory.Mapping

/-! # Images of name values

A name value that is made here has a word for each field of the layout. No field overlaps another,
so each of them is read back where the image is stored.
-/

namespace EngineNames

/-! ## Words among bytes -/

/-- The four bytes from an offset on. -/
def wordAt (bytes : List UInt8) (offset : ℕ) : List UInt8 :=
  (bytes.drop offset).take 4

/-- The words at two offsets have no byte in common. -/
def Apart (p q : ℕ) : Prop :=
  p + 4 ≤ q ∨ q + 4 ≤ p

instance (p q : ℕ) : Decidable (Apart p q) :=
  inferInstanceAs (Decidable (_ ∨ _))

/-- Words written one after the other. -/
def putWords (bytes : List UInt8) (fields : List (ℕ × UInt32)) : List UInt8 :=
  fields.foldl (fun bytes f => putWord bytes f.1 f.2) bytes

section Words

variable {bytes : List UInt8} {offset p : ℕ} {word : UInt32} {fields : List (ℕ × UInt32)}

theorem wordBytes_eq (word : UInt32) : wordBytes word = littleEndianBytes 4 word.toNat := by
  simp [wordBytes, littleEndianBytes, Nat.shiftRight_eq_div_pow, Nat.div_div_eq_div_mul,
    ← UInt8.toNat_inj]

@[simp] theorem length_wordBytes (word : UInt32) : (wordBytes word).length = 4 :=
  rfl

theorem wordAt_putWord_self (h : offset + 4 ≤ bytes.length) :
    wordAt (putWord bytes offset word) offset = wordBytes word := by
  have hlen : (bytes.take offset).length = offset := by
    rw [List.length_take]
    omega
  rw [wordAt, putWord, List.append_assoc, List.drop_left' hlen,
    List.take_left' (length_wordBytes word)]

theorem getElem?_putWord_of_outside {i : ℕ} (h : offset + 4 ≤ bytes.length)
    (hi : i < offset ∨ offset + 4 ≤ i) : (putWord bytes offset word)[i]? = bytes[i]? := by
  have hlen : (bytes.take offset).length = offset := by
    rw [List.length_take]
    omega
  rcases hi with hi | hi
  · rw [putWord, List.append_assoc, List.getElem?_append_left (by omega),
      List.getElem?_take_of_lt hi]
  · rw [putWord, List.getElem?_append_right (by simp; omega), List.getElem?_drop]
    congr 1
    simp
    omega

theorem wordAt_congr {xs ys : List UInt8} (h : ∀ i < 4, xs[p + i]? = ys[p + i]?) :
    wordAt xs p = wordAt ys p := by
  apply List.ext_getElem?
  intro i
  by_cases hi : i < 4
  · rw [wordAt, wordAt, List.getElem?_take_of_lt hi, List.getElem?_take_of_lt hi,
      List.getElem?_drop, List.getElem?_drop]
    exact h i hi
  · rw [wordAt, wordAt, List.getElem?_eq_none (by simp; omega),
      List.getElem?_eq_none (by simp; omega)]

theorem length_putWords (h : ∀ f ∈ fields, f.1 + 4 ≤ bytes.length) :
    (putWords bytes fields).length = bytes.length := by
  induction fields generalizing bytes with
  | nil => rfl
  | cons f rest ih =>
      have hf := length_putWord f.2 (h f List.mem_cons_self)
      rw [putWords, List.foldl_cons, ← putWords, ih, hf]
      intro g hg
      rw [hf]
      exact h g (List.mem_cons_of_mem f hg)

/-- Writing words changes no byte outside of them. -/
theorem getElem?_putWords_of_outside {i : ℕ} (h : ∀ f ∈ fields, f.1 + 4 ≤ bytes.length)
    (hi : ∀ f ∈ fields, i < f.1 ∨ f.1 + 4 ≤ i) : (putWords bytes fields)[i]? = bytes[i]? := by
  induction fields generalizing bytes with
  | nil => rfl
  | cons f rest ih =>
      have hf := length_putWord f.2 (h f List.mem_cons_self)
      rw [putWords, List.foldl_cons, ← putWords, ih]
      · exact getElem?_putWord_of_outside (h f List.mem_cons_self) (hi f List.mem_cons_self)
      · intro g hg
        rw [hf]
        exact h g (List.mem_cons_of_mem f hg)
      · exact fun g hg => hi g (List.mem_cons_of_mem f hg)

theorem wordAt_putWords_of_apart (h : ∀ f ∈ fields, f.1 + 4 ≤ bytes.length)
    (hp : ∀ f ∈ fields, Apart f.1 p) : wordAt (putWords bytes fields) p = wordAt bytes p := by
  apply wordAt_congr
  intro i hi
  apply getElem?_putWords_of_outside h
  intro f hf
  have hapart := hp f hf
  unfold Apart at hapart
  omega

/-- Words that are written apart are all there in the end. -/
theorem wordAt_putWords (h : ∀ f ∈ fields, f.1 + 4 ≤ bytes.length)
    (hp : fields.Pairwise fun f g => Apart f.1 g.1) :
    ∀ f ∈ fields, wordAt (putWords bytes fields) f.1 = wordBytes f.2 := by
  induction fields generalizing bytes with
  | nil => simp
  | cons f rest ih =>
      have hf := length_putWord f.2 (h f List.mem_cons_self)
      obtain ⟨hfirst, hrest⟩ := List.pairwise_cons.mp hp
      have hinside : ∀ g ∈ rest, g.1 + 4 ≤ (putWord bytes f.1 f.2).length := by
        intro g hg
        rw [hf]
        exact h g (List.mem_cons_of_mem f hg)
      intro g hg
      rw [putWords, List.foldl_cons, ← putWords]
      rcases List.mem_cons.mp hg with rfl | hg
      · rw [wordAt_putWords_of_apart hinside fun k hk => (hfirst k hk).symm]
        exact wordAt_putWord_self (h g List.mem_cons_self)
      · exact ih hinside hrest g hg

end Words

/-! ## Layouts -/

namespace HandleLayout

variable {layout : HandleLayout} {index : UInt32} {number : Option UInt32}

def offsets (layout : HandleLayout) : List ℕ :=
  layout.comparisonIndex :: (layout.displayIndex.toList ++ layout.number.toList)

/-- The word for each field, in the order in which they are written. -/
def fields (layout : HandleLayout) (index : UInt32) (number : Option UInt32) :
    List (ℕ × UInt32) :=
  (layout.comparisonIndex, index) :: (layout.displayIndex.toList.map (·, index) ++
    layout.number.toList.map (·, number.getD 0))

/-- Each field lies in the image, and apart from the others. -/
structure Sound (layout : HandleLayout) : Prop where
  inside : ∀ offset ∈ layout.offsets, offset + 4 ≤ layout.imageSize
  apart : layout.offsets.Pairwise Apart

theorem map_fst_fields : (layout.fields index number).map Prod.fst = layout.offsets := by
  simp [fields, offsets, Function.comp_def]

theorem image_eq_putWords : layout.image index number =
    putWords (List.replicate layout.imageSize 0) (layout.fields index number) := by
  obtain ⟨_, display, numberAt, _⟩ := layout
  cases display <;> cases numberAt <;> rfl

namespace Sound

variable (h : layout.Sound)
include h

theorem field_inside : ∀ f ∈ layout.fields index number,
    f.1 + 4 ≤ (List.replicate layout.imageSize (0 : UInt8)).length := by
  intro f hf
  rw [List.length_replicate]
  apply h.inside
  rw [← map_fst_fields]
  exact List.mem_map_of_mem hf

theorem fields_apart :
    (layout.fields index number).Pairwise fun f g => Apart f.1 g.1 := by
  rw [← List.pairwise_map, map_fst_fields]
  exact h.apart

theorem length_image (index : UInt32) (number : Option UInt32) :
    (layout.image index number).length = layout.imageSize := by
  rw [image_eq_putWords, length_putWords h.field_inside, List.length_replicate]

theorem wordAt_image : ∀ f ∈ layout.fields index number,
    wordAt (layout.image index number) f.1 = wordBytes f.2 := by
  rw [image_eq_putWords]
  exact wordAt_putWords h.field_inside h.fields_apart

end Sound

/-- Whatever is known about a build, its name values are laid out soundly. -/
theorem sound_handleLayout (b : Build) : b.handleLayout.Sound := by
  unfold Build.handleLayout
  split <;> exact ⟨by decide, by decide⟩

/-- The image is the name value, filled up to the next multiple of eight bytes. -/
theorem imageSize_handleLayout (b : Build) : 8 ∣ b.handleLayout.imageSize ∧
    b.handleLayout.size ≤ b.handleLayout.imageSize ∧
    b.handleLayout.imageSize < b.handleLayout.size + 8 := by
  unfold Build.handleLayout
  split <;> decide

end HandleLayout

end EngineNames
