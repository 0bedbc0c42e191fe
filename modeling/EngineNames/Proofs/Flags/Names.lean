import EngineNames.Proofs.Flags.Words
import EngineNames.Proofs.Text.Pieces

/-! # Texts of flag words

The text of a mask is the names of its flags with a separator between any two. Names are letters and
digits, so a separator with any other character leaves the names apart: the text is cut into them
again, and masks with the same text have the same named bits.
-/

namespace EngineNames

open Separator

/-! ## Names

The bytes of a name are looked at rather than its characters, for decoding them takes much longer.
-/

/-- The byte of an ASCII letter or digit. -/
def isPlainByte (b : UInt8) : Bool :=
  b.toNat < 128 && (Char.ofNat b.toNat).isAlphanum

theorem toList_toByteArray (s : String) :
    s.toByteArray.data.toList = s.toList.flatMap String.utf8EncodeChar := by
  rw [← String.utf8Encode_toList, List.utf8Encode, List.toList_data_toByteArray]

theorem not_plain_of_le {n : ℕ} {bytes : List UInt8} (hle : 128 ≤ n) (hlt : n < 256) :
    ¬ ∀ b ∈ UInt8.ofNat n :: bytes, isPlainByte b = true := by
  intro h
  have hplain := h _ List.mem_cons_self
  rw [isPlainByte, UInt8.toNat_ofNat_of_lt' hlt, decide_eq_false (by omega)] at hplain
  cases hplain

/-- A character below 128 is its only byte, and the bytes of any other begin with a larger one. -/
theorem isAlphanum_of_plain {c : Char} (h : ∀ b ∈ String.utf8EncodeChar c, isPlainByte b = true) :
    c.isAlphanum = true := by
  rw [String.utf8EncodeChar.eq_def] at h
  dsimp only at h
  split_ifs at h with hone htwo hthree
  · have hlt : c.val.toNat < UInt8.size := Nat.lt_of_le_of_lt hone (by decide)
    have hplain := h _ List.mem_cons_self
    rw [isPlainByte, UInt8.toNat_ofNat_of_lt' hlt, Bool.and_eq_true] at hplain
    exact Char.ofNat_toNat c ▸ hplain.2
  · exact absurd h (not_plain_of_le (by omega) (by omega))
  · exact absurd h (not_plain_of_le (by omega) (by omega))
  · exact absurd h (not_plain_of_le (by omega) (by omega))

theorem isAlphanum_of_plain_bytes {s : String}
    (h : ∀ b ∈ s.toByteArray.data.toList, isPlainByte b = true) :
    ∀ c ∈ s.toList, c.isAlphanum = true := by
  intro c hc
  refine isAlphanum_of_plain fun b hb => h b ?_
  rw [toList_toByteArray]
  exact List.mem_flatMap.mpr ⟨c, hc, hb⟩

namespace FlagDomain

theorem plain_bytes_of_engine : ∀ d ∈ engine, ∀ flag ∈ d.flags,
    flag.name.toByteArray.data.toList ≠ [] ∧
      flag.name.toByteArray.data.toList.all isPlainByte = true := by
  decide +kernel

/-- In the domains of the engine, names are letters and digits, and at least one of them. -/
theorem plain_names_of_engine (d : FlagDomain) (hd : d ∈ engine) (flag : Flag)
    (hflag : flag ∈ d.flags) :
    flag.name.toList ≠ [] ∧ ∀ c ∈ flag.name.toList, c.isAlphanum = true := by
  obtain ⟨hne, hplain⟩ := plain_bytes_of_engine d hd flag hflag
  refine ⟨fun hnil => hne ?_, isAlphanum_of_plain_bytes (List.all_eq_true.mp hplain)⟩
  rw [toList_toByteArray, hnil]
  rfl

end FlagDomain

namespace Mask

variable {d : FlagDomain} {a b : Mask d} {separator : String}

theorem names_sublist (a : Mask d) : a.names.Sublist (d.flags.map Flag.name) :=
  List.filter_sublist.map Flag.name

theorem mem_names_iff (h : (d.flags.map Flag.name).Nodup) {flag : Flag} (hmem : flag ∈ d.flags) :
    flag.name ∈ a.names ↔ a.Has flag.bit := by
  have hfilter : flag ∈ d.flags.filter (fun flag => flag.name ∈ a.names) ↔ flag ∈ a.flags := by
    rw [filter_mem_names h]
  rw [List.mem_filter, mem_flags_iff, decide_eq_true_eq] at hfilter
  simpa only [and_iff_right hmem] using hfilter

/-- Masks with the same names have the same named bits. -/
theorem names_eq_iff (h : (d.flags.map Flag.name).Nodup) :
    a.names = b.names ↔ ∀ flag ∈ d.flags, (a.Has flag.bit ↔ b.Has flag.bit) := by
  constructor
  · intro heq flag hmem
    rw [← mem_names_iff h hmem, heq, mem_names_iff h hmem]
  · intro hbits
    have hflags : a.flags = b.flags := List.filter_congr fun flag hmem => by
      rw [Bool.eq_iff_iff, test_mask_iff hmem, test_mask_iff hmem, hbits flag hmem]
    rw [names, hflags, names]

theorem toList_text (separator : String) (a : Mask d) :
    (a.text separator).toList = separator.toList.intercalate (a.names.map String.toList) :=
  String.toList_intercalate

/-- The names of a mask are not empty, and they have none of the marks of a separator. -/
theorem plain_names (h : d ∈ FlagDomain.engine) (a : Mask d) {name : List Char}
    (hname : name ∈ a.names.map String.toList) :
    name ≠ [] ∧ ∀ c ∈ name, c.isAlphanum = true := by
  obtain ⟨_, hin, rfl⟩ := List.mem_map.mp hname
  obtain ⟨flag, hflag, rfl⟩ := List.mem_map.mp hin
  exact FlagDomain.plain_names_of_engine d h flag (mem_flags_iff.mp hflag).1

theorem text_eq_empty_iff (h : d ∈ FlagDomain.engine) : a.text separator = "" ↔ a.names = [] := by
  rw [← String.toList_eq_nil_iff, toList_text]
  constructor
  · intro hempty
    by_contra hne
    obtain ⟨name, hname, hend⟩ := exists_last_piece separator.toList
      (fun hnil => hne (List.map_eq_nil_iff.mp hnil))
    rw [hempty] at hend
    have hnil : name = [] := by
      rcases hend with hnil | hsuffix
      · exact hnil.symm
      · exact (List.append_eq_nil_iff.mp (List.suffix_nil.mp hsuffix)).2
    exact (plain_names h a hname).1 hnil
  · intro hnil
    rw [hnil]
    rfl

theorem splits_text (h : d ∈ FlagDomain.engine)
    (hsep : ∃ c ∈ separator.toList, c.isAlphanum = false) (hne : a.names ≠ []) :
    Splits separator.toList (a.text separator).toList (a.names.map String.toList) := by
  rw [toList_text]
  exact splits_intercalate hsep (fun _ hname => (plain_names h a hname).2) (by simpa using hne)

/-- The names can be read off the text, so no two lists of names have the same text. -/
theorem text_eq_iff (h : d ∈ FlagDomain.engine)
    (hsep : ∃ c ∈ separator.toList, c.isAlphanum = false) :
    a.text separator = b.text separator ↔ a.names = b.names := by
  constructor
  · intro htext
    by_cases hnil : a.names = []
    · rw [hnil, text_eq_empty_iff h |>.mp (htext ▸ (text_eq_empty_iff h).mpr hnil)]
    · have hnil' : b.names ≠ [] := fun hb =>
        hnil ((text_eq_empty_iff h).mp (htext.trans ((text_eq_empty_iff h).mpr hb)))
      have hnames := (splits_text h hsep hnil).unique (htext ▸ splits_text h hsep hnil')
      exact List.map_injective_iff.mpr (fun _ _ => String.toList_injective) hnames
  · intro hnames
    rw [text, hnames, text]

/-- The text of a mask and the names that it is made of. -/
structure TextSpec (separator : String) (a : Mask d) : Prop where
  splits_iff : a.text separator ≠ "" → ∀ pieces,
    Splits separator.toList (a.text separator).toList pieces ↔ pieces = a.names.map String.toList
  ordered : a.names.Sublist (d.flags.map Flag.name)
  nodup : a.names.Nodup
  not_leading : ¬ separator.toList <+: (a.text separator).toList
  not_trailing : ¬ separator.toList <:+ (a.text separator).toList
  eq_empty_iff : a.text separator = "" ↔ ∀ flag ∈ d.flags, ¬ a.Has flag.bit
  eq_iff : ∀ b : Mask d, a.text separator = b.text separator ↔
    ∀ flag ∈ d.flags, (a.Has flag.bit ↔ b.Has flag.bit)

/-- With a separator that is not all letters and digits, texts lose nothing but unknown bits. -/
theorem text_spec (h : d ∈ FlagDomain.engine)
    (hsep : ∃ c ∈ separator.toList, c.isAlphanum = false) (a : Mask d) : TextSpec separator a := by
  have hnames := FlagDomain.nodup_names_of_engine d h
  have hplain : ∀ name ∈ a.names.map String.toList, ∀ c ∈ name, c.isAlphanum = true :=
    fun _ hname => (plain_names h a hname).2
  have hne : ∀ name ∈ a.names.map String.toList, name ≠ [] :=
    fun _ hname => (plain_names h a hname).1
  refine ⟨fun htext pieces => ?_, names_sublist a, hnames.sublist (names_sublist a), ?_, ?_, ?_, ?_⟩
  · have hsplits := splits_text h hsep (a := a) (fun hnil => htext ((text_eq_empty_iff h).mpr hnil))
    exact ⟨fun h' => h'.unique hsplits, fun heq => heq ▸ hsplits⟩
  · rw [toList_text]
    exact not_isPrefix_intercalate hsep hplain hne
  · rw [toList_text]
    exact not_isSuffix_intercalate hsep hplain hne
  · rw [text_eq_empty_iff h, names, List.map_eq_nil_iff, List.eq_nil_iff_forall_not_mem]
    simp only [mem_flags_iff, not_and]
  · intro b
    rw [text_eq_iff h hsep, names_eq_iff hnames]

theorem text_spec_of_property_flags : propertyFlags ∈ FlagDomain.engine ∧
    (∃ c ∈ " | ".toList, c.isAlphanum = false) ∧
    TextSpec " | " (ofWord 0x80000000009001 : Mask propertyFlags) ∧
    (ofWord 0x80000000009001 : Mask propertyFlags).text " | " = "Edit | SkipSerialization" := by
  have h : propertyFlags ∈ FlagDomain.engine := by simp [FlagDomain.engine]
  have hsep : ∃ c ∈ " | ".toList, c.isAlphanum = false := ⟨'|', by decide, rfl⟩
  exact ⟨h, hsep, text_spec h hsep _, by decide +kernel⟩

end Mask

end EngineNames
