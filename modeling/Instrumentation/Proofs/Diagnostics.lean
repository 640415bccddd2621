import Instrumentation.Proofs.InsertOnly

/-!
The way back from a place that the compiler names in an instrumented file. Places are counted past
a byte order mark, which is the first character of the instrumented text exactly if it is that of
the source, and every such place leads to where its character comes from.
-/
namespace Instrumentation

namespace Text

open Source (withoutMark markOf byteOrderMark)

/-- The line and column by which the compiler names the place after some text. It does not count
a byte order mark. -/
def compilerPlace (before : List Char) : Nat × Nat := place (withoutMark before).2

theorem one_le_column (cs : List Char) : 1 ≤ (place cs).2 := by
  simp [place]

/-- The part of a text up to a place behind its mark has the same mark. -/
theorem markOf_before {before rest : List Char}
    (h : byteLength (markOf (before ++ rest)) ≤ byteLength before) :
    markOf before = markOf (before ++ rest) := by
  cases before with
  | nil =>
    cases rest with
    | nil => rfl
    | cons c rest =>
      by_cases hc : c = byteOrderMark
      · have hpos := c.utf8Size_pos
        simp only [markOf, List.nil_append, hc, ↓reduceIte, byteLength_cons, byteLength_nil] at h
        rw [hc] at hpos
        omega
      · simp [markOf, hc]
  | cons c before => rfl

theorem markOf_self_append {text : List Char} (h : markOf text ≠ []) (rest : List Char) :
    markOf (markOf text ++ rest) = markOf text := by
  cases text with
  | nil => exact absurd rfl h
  | cons c cs =>
    by_cases hc : c = byteOrderMark
    · simp [markOf, hc]
    · simp [markOf, hc] at h

theorem oneMark_of_unmarked {text : List Char} (h : markOf text = []) : Source.OneMark text := by
  rintro ⟨rest, rfl⟩
  simp [markOf] at h

/-- A mark takes a column of the first line. -/
theorem place_eq_compilerPlace (before : List Char) :
    place before = ((compilerPlace before).1, (compilerPlace before).2 +
      if markOf before ≠ [] ∧ (compilerPlace before).1 = 1 then 1 else 0) := by
  cases before with
  | nil => simp [compilerPlace, withoutMark, markOf]
  | cons c before =>
    by_cases hc : c = byteOrderMark
    · have hn : c ≠ '\n' := by
        rw [hc]
        decide
      have hmark : markOf (c :: before) ≠ [] := by simp [markOf, hc]
      have hplace : compilerPlace (c :: before) = place before := by
        simp [compilerPlace, withoutMark, hc]
      rw [place_cons, if_neg hn, hplace]
      by_cases hline : '\n' ∈ before
      · have hone := mt (line_eq_one_iff before).mp (not_not_intro hline)
        simp [hline, hone]
      · have hone := (line_eq_one_iff before).mpr hline
        simp [hline, hone, hmark]
    · simp [compilerPlace, withoutMark, markOf, hc]

end Text

namespace InstrumentedFile

open Source (Scan markOf byteOrderMark)

variable {f : InstrumentedFile}

/-- What the compiler names in the rendered text is found there. -/
theorem locate_compilerPlace {before rest : List Char} (htext : f.rendering.text = before ++ rest)
    (hmark : markOf before ≠ [] ↔ 0 < f.source.scan.bom) :
    f.locate (Text.compilerPlace before).1 (Text.compilerPlace before).2 =
      f.rendering.origin (Text.byteLength before) := by
  have hplace := Text.place_eq_compilerPlace before
  have hcolumn : 1 ≤ (Text.compilerPlace before).2 := Text.one_le_column _
  have hoffset := Text.offsetAt_place htext
  rw [hplace] at hoffset
  simp only [locate]
  rw [← hoffset]
  simp only [hmark, Bool.and_eq_true, decide_eq_true_eq, beq_iff_eq]
  congr 2
  split <;> omega

/-- What is found is named in the source as the compiler names it. -/
theorem toSource_of_offset {line column : Nat} {before rest : List Char}
    (htext : f.source.scan.text = before ++ rest)
    (hmark : markOf before ≠ [] ↔ 0 < f.source.scan.bom)
    (hlocate : (f.locate line column).offset = Text.byteLength before) :
    f.toSource line column = ⟨f.path, (Text.compilerPlace before).1, (Text.compilerPlace before).2,
      (f.locate line column).generated⟩ := by
  have hplace := Text.place_eq_compilerPlace before
  have hcolumn : 1 ≤ (Text.compilerPlace before).2 := Text.one_le_column _
  simp only [toSource, hlocate, Text.lineCol_eq htext, hplace, hmark, Bool.and_eq_true,
    decide_eq_true_eq, beq_iff_eq, SourcePosition.mk.injEq, true_and, and_true]
  by_cases hfirst : (Text.compilerPlace before).1 = 1 ∧ 0 < f.source.scan.bom
  · rw [if_pos hfirst, if_pos hfirst.symm]
    omega
  · rw [if_neg hfirst, if_neg (mt And.symm hfirst)]
    omega

/-! ### The mark of the instrumented text -/

theorem externCrateLine_cons (c : String) (cs : List String) :
    ∃ rest, (Splice.externCrateLine (c :: cs)).toList = 'e' :: rest := by
  cases cs with
  | nil => simp [Splice.externCrateLine, Text.joined]
  | cons d cs => simp [Splice.externCrateLine, Text.joined]

/-- What is inserted before all of an unmarked text is not a mark. -/
theorem insertedAt_zero (hp : f.source.scan.Placed)
    (hmem : ∀ d ∈ f.decls, d.decl ∈ f.source.scan.declarations) (hbom : f.source.scan.bom = 0) :
    Rendering.insertedAt f.insertions 0 = [] ∨
      ∃ rest, (Rendering.insertedAt f.insertions 0).map Prod.fst = 'e' :: rest := by
  rw [insertedAt_of_le hp hmem (Nat.zero_le _), externInsertions]
  cases hexterns : f.externs with
  | nil => exact .inl rfl
  | cons c cs =>
    by_cases hinner : f.source.scan.innerAttrsEnd = 0
    · obtain ⟨rest, hrest⟩ := externCrateLine_cons c cs
      right
      simp [Rendering.insertedAt_cons, hinner, hbom, hrest]
    · left
      simp [Rendering.insertedAt_cons, hinner]

/-- Where a character of the rendered text comes from: it is copied from an offset of the source,
or inserted for the end of the inner attributes or for the opening brace of a body. -/
inductive ComesFrom (f : InstrumentedFile) (text : List Char) (c : Char) : Mapped → Prop
  | copied {offset : Nat} {rest : List Char} (h : Text.At text offset (c :: rest)) :
    ComesFrom f text c ⟨offset, false⟩
  | externs {i : Rendering.Insertion} (hi : i ∈ f.externInsertions) (hc : c ∈ i.text) :
    ComesFrom f text c ⟨f.source.scan.innerAttrsEnd, true⟩
  | splice {d : InstrumentedDecl} {i : Rendering.Insertion} (hd : d ∈ f.activeDecls)
    (hi : i ∈ d.insertions) (hc : c ∈ i.text) : ComesFrom f text c ⟨d.decl.bodyOpen, true⟩

theorem comesFrom_insertion {i : Rendering.Insertion} (hi : i ∈ f.insertions) {c : Char}
    (hc : c ∈ i.text) (text : List Char) : f.ComesFrom text c ⟨i.anchor, true⟩ := by
  rcases mem_insertions.mp hi with hi | ⟨d, hd, hi⟩
  · rw [(mem_externInsertions hi).2]
    exact .externs hi hc
  · rw [(mem_declInsertions hi).1]
    exact .splice hd hi hc

/-- Text comes from between two characters of the source. -/
theorem ComesFrom.boundary (hr : f.Renders) {c : Char} {m : Mapped}
    (h : f.ComesFrom f.source.scan.text c m) : Text.Boundary f.source.scan.text m.offset := by
  cases h with
  | copied h => exact ⟨_, h⟩
  | externs hi hc =>
    exact (mem_externInsertions hi).1 ▸ hr _ (mem_insertions.mpr (.inl hi))
  | @splice d i hd hi hc =>
    exact hr ⟨d.decl.bodyOpen, d.decl.bodyOpen, d.splice.before.toList⟩
      (mem_insertions.mpr (.inr ⟨d, hd, List.mem_cons_self⟩))

section

variable {text : List Char} (hread : Scan.read text = .ok f.source.scan)
  (hmem : ∀ d ∈ f.decls, d.decl ∈ f.source.scan.declarations)

include hread hmem

theorem bom_le_offset {i : Rendering.Insertion} (hi : i ∈ f.insertions) :
    f.source.scan.bom ≤ i.offset := by
  obtain ⟨-, hinner, hdecls⟩ := Scan.behind_mark hread
  rcases mem_insertions.mp hi with hi | ⟨d, hd, hi⟩
  · have := (mem_externInsertions hi).1
    omega
  · have hd := hdecls _ (hmem d (activeDecls_subset hd))
    have ho := (mem_declInsertions hi).2
    omega

/-- The mark stays where it is, and everything is inserted behind it. -/
theorem woven_mark : Rendering.woven f.insertions 0 text =
    Segment.copiedFrom 0 (markOf text) ++
      Rendering.woven f.insertions f.source.scan.bom (Source.withoutMark text).2 := by
  have hbom := (Scan.behind_mark hread).1
  have hwoven : Rendering.woven f.insertions 0 (markOf text ++ (Source.withoutMark text).2) = _ :=
    Rendering.woven_append (markOf text) (Source.withoutMark text).2 fun i hi => by
      have := bom_le_offset hread hmem hi
      omega
  rw [Source.markOf_append, Nat.zero_add, ← hbom] at hwoven
  exact hwoven

theorem markOf_rendering (hr : f.Renders) : markOf f.rendering.text = markOf text := by
  have hbom := (Scan.behind_mark hread).1
  rw [hr.text_rendering, Scan.text_of_read hread]
  by_cases hmark : markOf text = []
  · have hp := Scan.placed_of_read hread (Text.oneMark_of_unmarked hmark)
    rw [hmark] at hbom
    rcases insertedAt_zero hp hmem hbom with hnone | ⟨rest, hrest⟩
    · cases text with
      | nil => simp [Rendering.woven, hnone]
      | cons c cs => simp [Rendering.woven, hnone, markOf]
    · have he : 'e' ≠ byteOrderMark := by decide
      rw [hmark]
      cases text with
      | nil => simp [Rendering.woven, hrest, markOf, he]
      | cons c cs => simp [Rendering.woven, hrest, markOf, he]
  · rw [woven_mark hread hmem, List.map_append, Segment.map_fst_copiedFrom]
    exact Text.markOf_self_append hmark _

/-- A character behind the mark comes from behind the mark. -/
theorem comesFrom_of_split {pre post : List (Char × Mapped)} {c : Char} {m : Mapped}
    (hsplit : Rendering.woven f.insertions 0 text = pre ++ (c, m) :: post)
    (hpast : f.source.scan.bom ≤ Text.byteLength (pre.map Prod.fst)) :
    f.ComesFrom text c m ∧ f.source.scan.bom ≤ m.offset := by
  obtain ⟨hbom, hinner, hdecls⟩ := Scan.behind_mark hread
  rw [woven_mark hread hmem] at hsplit
  rcases split_append hsplit with ⟨mid, rfl, hmid⟩ | ⟨mid, hmark⟩
  · obtain ⟨rest, hrest, ⟨rfl, hhead⟩ | ⟨i, hi, -, hc, rfl⟩⟩ := Rendering.woven_split hmid
    · obtain ⟨rest, rfl⟩ := List.head?_eq_some_iff.mp hhead
      have hat : Text.At text (f.source.scan.bom + Text.byteLength (Rendering.copiedOf mid))
          (c :: rest) := by
        refine ⟨markOf text ++ Rendering.copiedOf mid, ?_, ?_⟩
        · rw [List.append_assoc, ← hrest, Source.markOf_append]
        · rw [Text.byteLength_append, hbom]
      exact ⟨.copied hat, Nat.le_add_right _ _⟩
    · refine ⟨comesFrom_insertion hi hc text, ?_⟩
      rcases mem_insertions.mp hi with hi | ⟨d, hd, hi⟩
      · rw [(mem_externInsertions hi).2]
        exact hinner
      · rw [(mem_declInsertions hi).1]
        exact (hdecls _ (hmem d (activeDecls_subset hd))).1
  · have htext : markOf text = pre.map Prod.fst ++ c :: mid.map Prod.fst := by
      rw [← Segment.map_fst_copiedFrom 0 (markOf text), hmark]
      simp
    have hc := c.utf8Size_pos
    rw [hbom, htext, Text.byteLength_append, Text.byteLength_cons] at hpast
    omega

omit hmem in
theorem markOf_ne_nil_iff : markOf text ≠ [] ↔ 0 < f.source.scan.bom := by
  rw [(Scan.behind_mark hread).1]
  refine ⟨Text.byteLength_pos, fun hpos hnil => ?_⟩
  simp [hnil] at hpos

/-- By its place, a character is found where it comes from. -/
theorem locate_of_split (hr : f.Renders) {pre post : List (Char × Mapped)} {c : Char} {m : Mapped}
    (hsplit : Rendering.woven f.insertions 0 text = pre ++ (c, m) :: post)
    (hpast : f.source.scan.bom ≤ Text.byteLength (pre.map Prod.fst)) :
    f.locate (Text.compilerPlace (pre.map Prod.fst)).1
      (Text.compilerPlace (pre.map Prod.fst)).2 = m := by
  have htagged : f.rendering.tagged = pre ++ (c, m) :: post := by
    rw [hr.tagged_rendering, Scan.text_of_read hread, hsplit]
  have htext : f.rendering.text = pre.map Prod.fst ++ c :: post.map Prod.fst := by
    rw [← Rendering.map_fst_tagged, htagged]
    simp
  have hrendered := markOf_rendering hread hmem hr
  have hmark : markOf (pre.map Prod.fst) = markOf text := by
    rw [← hrendered, htext]
    refine Text.markOf_before ?_
    rwa [← htext, hrendered, ← (Scan.behind_mark hread).1]
  rw [locate_compilerPlace htext (hmark ▸ markOf_ne_nil_iff hread), Rendering.origin_eq htagged]

omit hmem in
/-- What comes from a place of the source is named by it. -/
theorem ComesFrom.toSource_eq (hr : f.Renders) {c : Char} {m : Mapped}
    (hfrom : f.ComesFrom text c m) (hbehind : f.source.scan.bom ≤ m.offset) {line column : Nat}
    (hlocate : f.locate line column = m) :
    f.toSource line column = ⟨f.path, (Text.compilerPlace (Text.slice text 0 m.offset)).1,
      (Text.compilerPlace (Text.slice text 0 m.offset)).2, m.generated⟩ := by
  obtain rfl := Scan.text_of_read hread
  obtain ⟨rest, before, htext, hoffset⟩ := hfrom.boundary hr
  have hslice : Text.slice f.source.scan.text 0 m.offset = before := by
    rw [← hoffset, ← Nat.zero_add (Text.byteLength before), htext]
    exact Text.slice_eq (Text.At.zero _)
  have hmark : markOf before = markOf f.source.scan.text := by
    rw [htext]
    refine Text.markOf_before ?_
    rwa [← htext, ← (Scan.behind_mark hread).1, hoffset]
  have hfound : (f.locate line column).offset = Text.byteLength before := by
    rw [hlocate, hoffset]
  rw [hslice, toSource_of_offset htext (hmark ▸ markOf_ne_nil_iff hread) hfound, hlocate]

end

/-- A place is a site if it is inserted, or the copied brace of an active declaration. -/
theorem isInstrumentationSite_iff {line column : Nat} {m : Mapped}
    (h : f.locate line column = m) : f.isInstrumentationSite line column = true ↔
      m.generated = true ∨ ∃ d ∈ f.activeDecls, m = ⟨d.decl.bodyOpen, false⟩ := by
  obtain ⟨offset, generated⟩ := m
  cases generated with
  | true => simp [isInstrumentationSite, h]
  | false => simp [isInstrumentationSite, h, eq_comm (a := offset)]

/-- What the compiler says of a character of the instrumented text is said of where the character
comes from, and names it as the compiler would name it in the source. -/
theorem toSource_compilerPlace {text : List Char} (hread : Scan.read text = .ok f.source.scan)
    (hmem : ∀ d ∈ f.decls, d.decl ∈ f.source.scan.declarations)
    (hrenders : Source.OneMark text ∨ f.Renders) :
    f.rendering.text = (Rendering.woven f.insertions 0 text).map Prod.fst ∧
    (Source.OneMark text → ∀ d ∈ f.activeDecls, ∃ rest, Text.At text d.decl.bodyOpen ('{' :: rest)) ∧
    ∀ pre c m post, Rendering.woven f.insertions 0 text = pre ++ (c, m) :: post →
      f.source.scan.bom ≤ Text.byteLength (pre.map Prod.fst) →
      let here := Text.compilerPlace (pre.map Prod.fst)
      let there := Text.compilerPlace (Text.slice text 0 m.offset)
      f.ComesFrom text c m ∧
      f.toSource here.1 here.2 = ⟨f.path, there.1, there.2, m.generated⟩ ∧
      (f.isInstrumentationSite here.1 here.2 = true ↔
        m.generated = true ∨ ∃ d ∈ f.activeDecls, m = ⟨d.decl.bodyOpen, false⟩) := by
  have hr : f.Renders := by
    rcases hrenders with hone | hr
    · exact renders_of_placed (Scan.placed_of_read hread hone) hmem
    · exact hr
  have htext := Scan.text_of_read hread
  refine ⟨?_, fun hone d hd => ?_, fun pre c m post hsplit hpast => ?_⟩
  · rw [hr.text_rendering, htext]
  · rw [← htext]
    exact ((Scan.placed_of_read hread hone).braces _ (hmem d (activeDecls_subset hd))).opens
  · have hlocate := locate_of_split hread hmem hr hsplit hpast
    obtain ⟨hfrom, hbehind⟩ := comesFrom_of_split hread hmem hsplit hpast
    exact ⟨hfrom, hfrom.toSource_eq hread hr hbehind hlocate, isInstrumentationSite_iff hlocate⟩

/-- What is inserted behind an inner attribute stands for the place behind it, which is the sixth of
its line although the mark comes first. -/
theorem staged_toSource :
    ∃ scan, Scan.read "\uFEFF#![a]\nfn f() {}".toList = .ok scan ∧
      (staged scan).toSource 1 6 = ⟨⟨"/lib.rs"⟩, 1, 6, true⟩ ∧
      (staged scan).isInstrumentationSite 1 6 = true := by
  let text := "\uFEFF#![a]\nfn f() {}".toList
  let pre := Segment.copiedFrom 0 "\uFEFF#![a]".toList
  have hsample : (Scan.read text).toOption.any (fun scan =>
      decide ((∀ d ∈ (staged scan).decls, d.decl ∈ scan.declarations) ∧
        (Rendering.woven (staged scan).insertions 0 text).take 7 = pre ++ [(' ', ⟨8, true⟩)] ∧
        scan.bom ≤ Text.byteLength (pre.map Prod.fst))) = true := by decide +kernel
  obtain ⟨scan, hread, hsample⟩ := exists_ok_of_any hsample
  obtain ⟨hmem, htake, hpast⟩ := of_decide_eq_true hsample
  have hsplit := (List.take_append_drop 7 (Rendering.woven (staged scan).insertions 0 text)).symm
  rw [htake, List.append_assoc] at hsplit
  obtain ⟨-, -, hplaces⟩ :=
    toSource_compilerPlace (f := staged scan) hread hmem (.inl (by decide +kernel))
  obtain ⟨-, hsource, hsite⟩ := hplaces pre ' ' ⟨8, true⟩ _ hsplit hpast
  have hhere : Text.compilerPlace (pre.map Prod.fst) = (1, 6) := by decide +kernel
  have hthere : Text.compilerPlace (Text.slice text 0 8) = (1, 6) := by decide +kernel
  rw [hhere] at hsource hsite
  rw [hthere] at hsource
  exact ⟨scan, hread, hsource, hsite.mpr (.inl rfl)⟩

end InstrumentedFile
end Instrumentation
