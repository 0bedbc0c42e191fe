import EngineNames.Proofs.Memory.Mapping
import EngineNames.Proofs.Signature.Targets
import EngineNames.Settings.SignatureSet

/-! # The search for signatures

The signatures are gone through in their order, for each of them the executable regions in theirs,
and in each region the occurrences as they are reported. A signature without a readable pattern and
a region that cannot be searched are passed over, and so is an occurrence that leads nowhere. The
search gives the first hit by exact sums, unless it takes a sum that is no address before it comes
to one.
-/

namespace EngineNames

namespace TargetProcess

/-- The regions that are searched. -/
def searchedRegions (p : TargetProcess) : List Region :=
  match p.regions with
  | .ok regions => regions.filter Region.executable
  | .error _ => []

/-- Where a pattern is reported to occur in a region. -/
def reported (p : TargetProcess) (pattern : Pattern) (r : Region) : List Address :=
  match p.findPattern pattern r.start r.stop with
  | .ok occurrences => occurrences.map Occurrence.address
  | .error _ => []

end TargetProcess

namespace Signature

/-- Where a signature occurs, in the order in which its occurrences are looked at. -/
def places (s : Signature) (p : TargetProcess) : List Address :=
  match Pattern.ofString s.pattern with
  | .ok pattern => p.searchedRegions.flatMap (p.reported pattern)
  | .error _ => []

variable {s : Signature} {p : TargetProcess}

theorem reported_eq (p : TargetProcess) (pattern : Pattern) (r : Region) :
    p.reported pattern r = (p.occurrencesIn pattern r).map Occurrence.address := by
  unfold TargetProcess.reported TargetProcess.occurrencesIn
  cases p.findPattern pattern r.start r.stop <;> rfl

/-- A search goes through the places up to the first that leads somewhere. -/
theorem locate?_eq (s : Signature) (p : TargetProcess) :
    s.locate? p = (s.places p).findSomeM? (s.target? p.toMemory) := by
  unfold locate? places
  cases Pattern.ofString s.pattern with
  | error e => rfl
  | ok pattern =>
      have hreported : p.reported pattern =
          fun r => (p.occurrencesIn pattern r).map Occurrence.address :=
        funext (reported_eq p pattern)
      simp only [hreported, ← List.map_flatMap, findSomeM?_map]
      unfold TargetProcess.scan TargetProcess.executableRegions TargetProcess.searchedRegions
      cases p.regions <;> rfl

/-- Whether the pattern can be read. -/
def hasPattern (s : Signature) : Bool :=
  (Pattern.ofString s.pattern).isOk

theorem hasPattern_iff :
    s.hasPattern = true ↔ ∃ pattern, Pattern.ofString s.pattern = .ok pattern := by
  unfold hasPattern
  cases Pattern.ofString s.pattern <;> simp [Except.isOk, Except.toBool]

theorem places_of_unreadable (h : s.hasPattern = false) : s.places p = [] := by
  unfold places
  cases hpattern : Pattern.ofString s.pattern with
  | error e => rfl
  | ok pattern =>
      rw [hasPattern_iff.mpr ⟨pattern, hpattern⟩] at h
      cases h

end Signature

/-! ## Hits -/

namespace TargetProcess

/-- The signatures with the places where they occur, in the order in which they are looked at. -/
def visits (p : TargetProcess) (signatures : List Signature) : List (Signature × Address) :=
  signatures.flatMap fun s => (s.places p).map (s, ·)

/-- All addresses that the signatures lead to by exact sums, in the same order. -/
def exactHits (p : TargetProcess) (signatures : List Signature) : List Address :=
  signatures.flatMap fun s => (s.places p).filterMap (s.exactTarget? p.toMemory)

/-- A place comes to a sum that is no address, and no place before it leads anywhere. -/
def SearchOverflows (p : TargetProcess) (signatures : List Signature) : Prop :=
  OverflowsFirst (fun v : Signature × Address => v.1.exactTarget? p.toMemory v.2)
    (fun v => v.1.Overflows p.toMemory v.2) (p.visits signatures)

variable {p : TargetProcess} {signatures : List Signature}

theorem firstOf_eq (p : TargetProcess) (signatures : List Signature) :
    SignatureSet.firstOf p signatures =
      (p.visits signatures).findSomeM? fun v => v.1.target? p.toMemory v.2 := by
  rw [SignatureSet.firstOf, visits, findSomeM?_flatMap]
  congr 1
  funext s
  rw [s.locate?_eq, findSomeM?_map]
  rfl

theorem head?_exactHits (p : TargetProcess) (signatures : List Signature) :
    (p.exactHits signatures).head? =
      (p.visits signatures).findSome? fun v => v.1.exactTarget? p.toMemory v.2 := by
  rw [← List.head?_filterMap]
  simp only [exactHits, visits, List.filterMap_flatMap, List.filterMap_map, Function.comp_def]

/-- The search comes to the first hit by exact sums, unless it stops before. -/
theorem agrees_firstOf (p : TargetProcess) (signatures : List Signature) :
    Agrees (SignatureSet.firstOf p signatures) (p.exactHits signatures).head?
      (p.SearchOverflows signatures) := by
  rw [firstOf_eq, head?_exactHits]
  exact agrees_findSomeM? (fun v => v.1.agrees_target? p.toMemory v.2) _

theorem visits_filter_hasPattern (p : TargetProcess) (signatures : List Signature) :
    p.visits (signatures.filter Signature.hasPattern) = p.visits signatures := by
  induction signatures with
  | nil => rfl
  | cons s signatures ih =>
      rw [List.filter_cons]
      have hcons : p.visits (s :: signatures) =
          (s.places p).map (s, ·) ++ p.visits signatures :=
        List.flatMap_cons
      split
      · rw [hcons, ← ih]
        rfl
      · rename_i hnot
        rw [hcons, Signature.places_of_unreadable ((Bool.not_eq_true _).mp hnot), ih]
        rfl

/-- Behind a signature with a hit, or with a sum that is no address, nothing is looked at. -/
theorem firstOf_append_cons {s : Signature} (h : s.locate? p ≠ .ok none)
    (earlier later : List Signature) : SignatureSet.firstOf p (earlier ++ s :: later) =
      SignatureSet.firstOf p (earlier ++ [s]) := by
  have hrest : SignatureSet.firstOf p (s :: later) = SignatureSet.firstOf p [s] := by
    simp only [SignatureSet.firstOf, List.findSomeM?]
    cases hlocate : s.locate? p with
    | error t => rfl
    | ok found =>
        cases found with
        | none => exact absurd hlocate h
        | some a => rfl
  rw [SignatureSet.firstOf, SignatureSet.firstOf, findSomeM?_append, findSomeM?_append]
  congr 1
  funext found
  cases found with
  | none => exact hrest
  | some a => rfl

end TargetProcess

/-! ## Sets that were checked -/

theorem forM_eq_ok_iff {ε α : Type} {f : α → Except ε Unit} {l : List α} :
    l.forM f = .ok () ↔ ∀ x ∈ l, f x = .ok () := by
  induction l with
  | nil => exact iff_of_true rfl fun x hx => absurd hx List.not_mem_nil
  | cons x l ih =>
      have hcons : (x :: l).forM f = f x >>= fun _ => l.forM f := rfl
      rw [List.forall_mem_cons, ← ih, hcons]
      cases f x with
      | error e => simp
      | ok u => simp

namespace SignatureSet

theorem check_eq_ok_iff {s : SignatureSet} :
    s.check = .ok () ↔ ∀ signature ∈ s.all, signature.hasPattern = true := by
  rw [check, forM_eq_ok_iff]
  refine forall₂_congr fun signature _ => ?_
  rw [Signature.hasPattern_iff]
  cases Pattern.ofString signature.pattern with
  | error e =>
      constructor
      · intro h
        cases h
      · rintro ⟨pattern, h⟩
        cases h
  | ok pattern => exact iff_of_true rfl ⟨pattern, rfl⟩

theorem hasPattern_of_ofJson {text : String} {s : SignatureSet} (h : ofJson text = .ok s) :
    ∀ signature ∈ s.all, signature.hasPattern = true := by
  obtain ⟨found, _, h⟩ := bind_eq_ok_iff.mp h
  obtain ⟨_, hcheck, h⟩ := bind_eq_ok_iff.mp h
  obtain rfl := Except.ok.inj h
  cases hc : found.check with
  | error e =>
      rw [hc] at hcheck
      cases hcheck
  | ok u => exact check_eq_ok_iff.mp hc

end SignatureSet

/-! ## All together -/

namespace TargetProcess

/-- What comes of looking for signatures in a process, whatever it reports. -/
structure SearchSpec (p : TargetProcess) : Prop where
  appendString : ∀ s : SignatureSet, Agrees (s.scanner p).appendString
    (p.exactHits s.appendString).head? (p.SearchOverflows s.appendString)
  toString : ∀ s : SignatureSet, Agrees (s.scanner p).toString
    (p.exactHits s.toString).head? (p.SearchOverflows s.toString)
  nameTable : ∀ s : SignatureSet, Agrees (s.scanner p).nameTable
    (p.exactHits s.nameTable).head? (p.SearchOverflows s.nameTable)
  conversionThunk : ∀ s : SignatureSet, Agrees (s.scanner p).conversionThunk
    (p.exactHits s.conversionThunk).head? (p.SearchOverflows s.conversionThunk)
  exact_target : ∀ (s : Signature) (a t : Address),
    s.exactTarget? p.toMemory a = some t ↔ s.LeadsTo p.toMemory a t
  /-- What stops the search would be passed over by exact sums. -/
  overflowing_target : ∀ (s : Signature) (a : Address), s.Overflows p.toMemory a →
    s.exactTarget? p.toMemory a = none
  /-- Signatures that cannot be read may be put in or left out anywhere. -/
  unreadable : ∀ xs ys : List Signature,
    xs.filter Signature.hasPattern = ys.filter Signature.hasPattern →
    SignatureSet.firstOf p xs = SignatureSet.firstOf p ys
  /-- Behind a signature with a hit it does not matter what comes. -/
  later : ∀ (earlier : List Signature) (s : Signature) (later : List Signature),
    s.locate? p ≠ .ok none →
    SignatureSet.firstOf p (earlier ++ s :: later) = SignatureSet.firstOf p (earlier ++ [s])
  accepted : ∀ text s, SignatureSet.ofJson text = .ok s →
    ∀ signature ∈ s.all, ∃ pattern, Pattern.ofString signature.pattern = .ok pattern

/-- The candidates are the first hits in a fixed order, up to a sum that is no address. -/
theorem search_spec (p : TargetProcess) : SearchSpec p where
  appendString s := agrees_firstOf p s.appendString
  toString s := agrees_firstOf p s.toString
  nameTable s := agrees_firstOf p s.nameTable
  conversionThunk s := agrees_firstOf p s.conversionThunk
  exact_target _ _ _ := Signature.exactTarget?_eq_some_iff
  overflowing_target _ _ h := h.exactTarget?_eq_none
  unreadable xs ys h := by
    rw [firstOf_eq, firstOf_eq, ← visits_filter_hasPattern p xs, h, visits_filter_hasPattern]
  later earlier _ later h := firstOf_append_cons h earlier later
  accepted _ _ h signature hs :=
    Signature.hasPattern_iff.mp (SignatureSet.hasPattern_of_ofJson h signature hs)

/-- The last five bytes of the address space are a call over 4096 bytes, and they are reported. -/
def callAtTheTop : TargetProcess where
  toMemory := .ofMapping 0xFFFFFFFFFFFFFFF0 (List.replicate 11 0x90 ++ [0xE8, 0, 0x10, 0, 0])
  modules := .ok []
  regions := .ok [⟨0xFFFFFFFFFFFFFFF0, 0xFFFFFFFFFFFFFFFF, true, true⟩]
  findPattern _ _ _ := .ok [⟨0xFFFFFFFFFFFFFFFB, 11⟩]

/-- The target of a call, and the call itself. -/
def callSignatures : SignatureSet where
  appendString := [⟨"E8 ? ? ? ?", some 1, some 5⟩, ⟨"E8 ? ? ? ?", none, none⟩]

/-- The end of the call is no address, so by exact sums the first signature has no hit. The search
does not pass the occurrence over, and so it never comes to the second signature. -/
theorem not_scanner_eq_exactHits :
    ¬ ∀ (text : String) (s : SignatureSet) (p : TargetProcess), SignatureSet.ofJson text = .ok s →
      (s.scanner p).appendString = .ok (p.exactHits s.appendString).head? := by
  intro h
  have hread : SignatureSet.ofJson "[[[\"E8 ? ? ? ?\", 1, 5], [\"E8 ? ? ? ?\"]]]" =
      .ok callSignatures := by
    decide +kernel
  have hfound : (callSignatures.scanner callAtTheTop).appendString = .error .overflow := by
    decide +kernel
  have hsame := h _ _ callAtTheTop hread
  rw [hfound] at hsame
  cases hsame

end TargetProcess

end EngineNames
