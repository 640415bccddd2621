import Instrumentation.Proofs.InsertOnly
import Instrumentation.Proofs.PutText
import Instrumentation.Proofs.ShiftedScan

/-!
Files that make crates known. Unless the lines that do are put in before a line for the loader or
into a comment, the rendered file is scanned as the source is, with the offsets of its bodies
shifted, and has one more item for each crate.
-/
namespace Instrumentation

namespace Text

theorem withInserted_nothing {put : Nat → List Char} {pos : Nat} {cs : List Char}
    (h : ∀ n, pos ≤ n → put n = []) : withInserted put pos cs = cs := by
  induction cs generalizing pos with
  | nil => exact h pos (Nat.le_refl pos)
  | cons c cs ih =>
    rw [withInserted, h pos (Nat.le_refl pos), ih fun n hn => h n (by omega)]
    rfl

/-- Something put in at one place of a text. -/
theorem withInserted_once {put : Nat → List Char} {pos : Nat} (before after : List Char)
    (h : ∀ n, n ≠ pos + byteLength before → put n = []) : withInserted put pos (before ++ after) =
      before ++ (put (pos + byteLength before) ++ after) := by
  induction before generalizing pos with
  | nil =>
    cases after with
    | nil => simp [withInserted]
    | cons c after =>
      have hc := c.utf8Size_pos
      have hafter : withInserted put (pos + c.utf8Size) after = after :=
        withInserted_nothing fun n hn => h n (by simp; omega)
      simp [withInserted, hafter]
  | cons c before ih =>
    have hc := c.utf8Size_pos
    rw [byteLength_cons, ← Nat.add_assoc] at h ⊢
    rw [List.cons_append, withInserted, h pos (by omega), ih h]
    rfl

end Text

namespace Source

open Text (Boundary byteLength)

/-! ### Scans -/

@[simp] theorem Found.empty_append (x : Found) : ({} : Found) ++ x = x := rfl

theorem scanItems_others (places : Places) (scope : List String) (names : List String)
    (items : List Item) : scanItems places scope (names.map (fun _ => .other) ++ items) =
      scanItems places scope items := by
  induction names with
  | nil => rfl
  | cons name names ih =>
    rw [List.map_cons, List.cons_append, scanItems, ih, scanItem, Found.empty_append]

/-- The scan of a text in which `d` bytes are put in behind the inner attributes. -/
def Scan.shifted (d : Nat) (text : List Char) (scan : Scan) : Scan :=
  { scan with
    text
    declarations := scan.declarations.map (Declaration.shifted d)
    functions := scan.functions.map (FunctionSummary.shifted d) }

/-- Behind the inner attributes of a scanned file there is room for items: the place is neither
before a line for the loader nor in a comment. -/
def Scan.admitsItems (scan : Scan) : Bool :=
  let code := (withoutMark scan.text).2
  if scan.innerAttrsEnd = scan.bom then !Grammar.hasLoaderLine code
  else !File.endsInLine code (scan.innerAttrsEnd - scan.bom)

/-- What a scan makes of a file that has been read. -/
theorem Scan.read_of_file {text code : List Char} {bom : Nat} {file : File}
    (htext : withoutMark text = (bom, code)) (hcode : withoutMark code = (0, code))
    (hfile : File.read code = .ok file) : Scan.read text = .ok {
      text
      bom
      innerAttrsEnd := bom + file.innerEnd
      declarations := sortedBy (fun a b => a.bodyOpen ≤ b.bodyOpen)
        (scanItems (Places.after bom code) [] file.items).declarations
      modules := (scanItems (Places.after bom code) [] file.items).modules
      functions := (scanItems (Places.after bom code) [] file.items).functions
      itemMentions := Text.sortedSet (scanItems (Places.after bom code) [] file.items).itemNames } := by
  have hend : (file.innerAttrs.getLast?.map fun a => (Places.after bom code).offset a.stop).getD bom =
      bom + file.innerEnd := by
    unfold File.innerEnd
    cases hlast : file.innerAttrs.getLast? with
    | none => rfl
    | some a =>
      obtain ⟨_, -, hattrs, -⟩ := File.stands_of_read hfile
      exact Places.offset_after hcode bom (hattrs a (List.mem_of_getLast? hlast)).isSeen
  rw [Scan.read_eq_ok_iff, htext, hcode]
  exact ⟨file, hfile, by simp only [File.scan, htext, hend]⟩

theorem Scan.exists_file {text : List Char} {scan : Scan} (h : Scan.read text = .ok scan)
    (hmark : OneMark text) : ∃ file, File.read (Source.withoutMark text).2 = .ok file := by
  obtain ⟨file, hfile, -⟩ := Scan.read_eq_ok_iff.mp h
  rw [hmark.withoutMark] at hfile
  exact ⟨file, hfile⟩

section

variable {names : List String} {before w after : List Char} {bom start : Nat} {f f' : File}

/-- The reader names the lines behind what is put in as it did before. -/
theorem line_readerPlace_put (hw : '\n' ∉ w) (hlead : loaderLine (before ++ after) <+: before)
    (hline : loaderLine (before ++ (w ++ after)) = loaderLine (before ++ after)) {n : Nat}
    (hn : byteLength before ≤ n) :
    (readerPlace (before ++ (w ++ after)) (n + byteLength w)).1 =
      (readerPlace (before ++ after) n).1 := by
  rw [readerPlace, readerPlace, hline]
  generalize loaderLine (before ++ after) = line at hlead
  obtain ⟨seen, rfl⟩ := hlead
  rw [Text.byteLength_append] at hn
  have hoffset : n + byteLength w - byteLength line = n - byteLength line + byteLength w := by omega
  rw [List.append_assoc, List.append_assoc, List.drop_left, List.drop_left, hoffset]
  exact Text.line_put hw seen after (by omega)

/-- Places behind what is put in are on the lines that they were on, and as much further on. -/
theorem places_shifted (hcode : withoutMark (before ++ after) = (0, before ++ after))
    (hcode' : withoutMark (before ++ (w ++ after)) = (0, before ++ (w ++ after)))
    (hw : '\n' ∉ w) (hlead : loaderLine (before ++ after) <+: before)
    (hline : loaderLine (before ++ (w ++ after)) = loaderLine (before ++ after)) (bom : Nat) :
    (Places.after bom (before ++ after)).Shifted (Shifted (byteLength before) (byteLength w))
      (IsSeen (before ++ after)) (byteLength w) (Places.after bom (before ++ (w ++ after))) where
  line := by
    rintro n _ ⟨hn, rfl⟩
    simp only [Places.after, hcode, hcode']
    exact line_readerPlace_put hw hlead hline hn
  offset := by
    rintro n _ hn ⟨hle, rfl⟩
    have hput : IsSeen (before ++ (w ++ after)) (n + byteLength w) :=
      ⟨hn.boundary.put hle w, hline ▸ Nat.lt_of_lt_of_le hn.behind (Nat.le_add_right _ _)⟩
    rw [Places.offset_after hcode bom hn, Places.offset_after hcode' bom hput, Nat.add_assoc]

theorem sortedBy_shifted (d : Nat) (found : List Declaration) :
    sortedBy (fun a b => a.bodyOpen ≤ b.bodyOpen) (found.map (Declaration.shifted d)) =
      (sortedBy (fun a b => a.bodyOpen ≤ b.bodyOpen) found).map (Declaration.shifted d) := by
  refine sortedBy_map (fun a b => ?_) found
  simp [Declaration.shifted]

/-- The scan of a file that makes crates known is the scan of the file, with its offsets shifted. -/
theorem Scan.read_knows {text text' : List Char} {scan : Scan} (hread : Scan.read text = .ok scan)
    (htext : withoutMark text = (bom, before ++ after))
    (hcode : withoutMark (before ++ after) = (0, before ++ after))
    (hfile : File.read (before ++ after) = .ok f)
    (htext' : withoutMark text' = (bom, before ++ (w ++ after)))
    (hcode' : withoutMark (before ++ (w ++ after)) = (0, before ++ (w ++ after)))
    (hfile' : File.read (before ++ (w ++ after)) = .ok f')
    (hstart : byteLength before = f.innerEnd) (hw : w = crateText names f.innerEnd)
    (hnewline : '\n' ∉ w) (hlead : loaderLine (before ++ after) <+: before)
    (hknows : f.Knows names (before ++ after) (before ++ (w ++ after)) f') :
    Scan.read text' = .ok (scan.shifted (byteLength w) text') := by
  have hscan := Scan.read_of_file htext hcode hfile
  rw [hread] at hscan
  cases hscan
  obtain ⟨items, hitems, hforall⟩ := hknows.items
  have hplaces := places_shifted hcode hcode' hnewline hlead hknows.line bom
  rw [← hw, ← hstart] at hforall
  have hfound : scanItems (Places.after bom (before ++ (w ++ after))) [] f'.items =
      (scanItems (Places.after bom (before ++ after)) [] f.items).shifted (byteLength w) := by
    rw [hitems, scanItems_others]
    obtain ⟨_, hmid, -, hstand⟩ := File.stands_of_read hfile
    refine scanItems_shifted hplaces hforall (fun x hx => ?_) []
    obtain ⟨hopens, hcloses⟩ := (hstand.inOrder.mem hx).isSeen hmid
    exact ⟨hopens, hcloses⟩
  have hend : f'.innerEnd = f.innerEnd := by rw [File.innerEnd, hknows.attrs, ← File.innerEnd]
  rw [Scan.read_of_file htext' hcode' hfile', hfound, hend]
  simp only [Found.shifted, Scan.shifted, sortedBy_shifted]

end

/-- The text in which a place is looked for behind the mark. -/
theorem withoutMark_markOf_append (text : List Char) {code : List Char}
    (h : withoutMark code = (0, code)) :
    withoutMark (markOf text ++ code) = (byteLength (markOf text), code) := by
  cases text with
  | nil => exact h
  | cons c text =>
    by_cases hc : c = byteOrderMark
    · simp [markOf, withoutMark, hc]
    · simp [markOf, h, hc]

theorem newline_notMem_crateText {names : List String} (hnames : ∀ c ∈ names, isCrateName c)
    (start : Nat) : '\n' ∉ crateText names start := by
  have hline := neutral_externCrateLine hnames
  have hblank : Neutral [' '] := neutral_of_all (by decide)
  intro h
  by_cases hstart : start = 0
  · rw [hstart, crateText_start] at h
    exact ((hline.append hblank) _ h).2.2 rfl
  · rw [crateText_behind names hstart] at h
    exact ((hblank.append hline) _ h).2.2 rfl

/-- Wherever a file admits items, lines that make crates known are put in so that they are read. -/
theorem Scan.read_put {text : List Char} {scan : Scan} {names : List String}
    (hread : Scan.read text = .ok scan) (hmark : OneMark text) (hadmits : scan.admitsItems)
    (hnames : ∀ c ∈ names, isCrateName c) (hne : names ≠ []) :
    ∃ before after f f', (Source.withoutMark text).2 = before ++ after ∧
      scan.innerAttrsEnd = scan.bom + byteLength before ∧ f.innerEnd = byteLength before ∧
      loaderLine (before ++ after) <+: before ∧
      Source.withoutMark (before ++ (crateText names f.innerEnd ++ after)) =
        (0, before ++ (crateText names f.innerEnd ++ after)) ∧
      File.read (before ++ after) = .ok f ∧
      File.read (before ++ (crateText names f.innerEnd ++ after)) = .ok f' ∧
      f.Knows names (before ++ after) (before ++ (crateText names f.innerEnd ++ after)) f' := by
  obtain ⟨f, hfile⟩ := Scan.exists_file hread hmark
  have hcode := hmark.withoutMark
  have hscan := Scan.read_of_file (Prod.eta _).symm hcode hfile
  rw [hread] at hscan
  cases hscan
  simp only [Scan.admitsItems] at hadmits
  by_cases hinner : f.innerAttrs = []
  · have hend : f.innerEnd = 0 := by simp [File.innerEnd, hinner]
    have hloader : Grammar.hasLoaderLine (Source.withoutMark text).2 = false := by
      simpa [hend] using hadmits
    obtain ⟨hcode', f', hfile', hknows⟩ :=
      File.read_put_start hfile hcode hnames hne hinner hloader
    refine ⟨[], _, f, f', rfl, by rw [hend]; rfl, hend, ?_, ?_⟩
    · simp [loaderLine, hloader]
    · rw [hend]
      exact ⟨hcode', hfile, hfile', hknows⟩
  · have hpos := File.innerEnd_ne_zero hfile hcode hinner
    have hline : File.endsInLine (Source.withoutMark text).2 f.innerEnd = false := by
      simpa [hpos] using hadmits
    obtain ⟨before, after, heq, hplace, hlead, hcode', f', hfile', hknows⟩ :=
      File.read_put_behind hfile hcode hnames hne hinner hline
    rw [heq] at hfile hlead hknows
    exact ⟨before, after, f, f', heq, by rw [hplace], hplace.symm, hlead, hcode', hfile, hfile',
      hknows⟩

end Source

namespace InstrumentedFile

open Source (Scan)
open Text (Boundary byteLength)

variable {f : InstrumentedFile}

/-- A file in which only crates are made known. -/
theorem text_rendering_externs {text before after : List Char}
    (hread : Scan.read text = .ok f.source.scan) (hmark : Source.OneMark text)
    (hne : f.externs ≠ []) (hactive : f.activeDecls = []) (htext : text = before ++ after)
    {n : Nat} (hstart : f.source.scan.innerAttrsEnd = f.source.scan.bom + n)
    (hplace : f.source.scan.innerAttrsEnd = byteLength before) :
    f.rendering.text = before ++ (Source.crateText f.externs n ++ after) := by
  have hinsert : f.insertions = [⟨byteLength before, byteLength before,
      Source.crateText f.externs n⟩] := by
    have hempty : f.externs.isEmpty = false := List.isEmpty_eq_false_iff.mpr hne
    rw [insertions, hactive, externInsertions, hempty]
    simp [Source.crateText, hstart, ← hplace]
  have hrenders : f.Renders := by
    intro i hi
    rw [hinsert, List.mem_singleton] at hi
    rw [hi, ← hplace]
    exact (Scan.placed_of_read hread hmark).inner
  have hput (n : Nat) (hn : n ≠ 0 + byteLength before) :
      (Rendering.insertedAt f.insertions n).map Prod.fst = [] := by
    have hnone : Rendering.insertedAt f.insertions n = [] := by
      rw [hinsert]
      refine Rendering.insertedAt_eq_nil fun i hi => ?_
      rw [List.mem_singleton.mp hi]
      dsimp only
      omega
    rw [hnone, List.map_nil]
  rw [hrenders.text_rendering, Rendering.map_fst_woven, Scan.text_of_read hread, htext,
    Text.withInserted_once before after hput, hinsert]
  simp [Rendering.insertedAt_cons]

/-- A file that admits items makes its crates known: the text is the source with one line put in,
behind a line for the loader; it is scanned as the source, with offsets shifted by that line; and
the line is read as an item for each crate. -/
theorem crates_known {text : List Char} (hread : Scan.read text = .ok f.source.scan)
    (hmark : Source.OneMark text) (hadmits : f.source.scan.admitsItems)
    (hactive : f.activeDecls = []) (hne : f.externs ≠ [])
    (hnames : ∀ c ∈ f.externs, Source.isCrateName c) :
    ∃ before line after, text = before ++ after ∧
      byteLength before = f.source.scan.innerAttrsEnd ∧
      f.rendering.text = before ++ (line ++ after) ∧
      Source.markOf text ++ Source.loaderLine (Source.withoutMark text).2 <+: before ∧
      Scan.read f.rendering.text =
        .ok (f.source.scan.shifted (byteLength line) f.rendering.text) ∧
      ∃ file file', Source.File.read (Source.withoutMark text).2 = .ok file ∧
        Source.File.read (Source.withoutMark f.rendering.text).2 = .ok file' ∧
        line = Source.crateText f.externs file.innerEnd ∧
        file.Knows f.externs (Source.withoutMark text).2
          (Source.withoutMark f.rendering.text).2 file' := by
  obtain ⟨before, after, file, file', hcode, hend, hinner, hlead, hcode', hfile, hfile', hknows⟩ :=
    Scan.read_put hread hmark hadmits hnames hne
  obtain ⟨hbom, -⟩ := Scan.behind_mark hread
  have htext : text = (Source.markOf text ++ before) ++ after := by
    rw [List.append_assoc, ← hcode, Source.markOf_append]
  have hplace : f.source.scan.innerAttrsEnd = byteLength (Source.markOf text ++ before) := by
    rw [hend, hbom, Text.byteLength_append]
  rw [hinner] at hcode' hfile' hknows
  have hnew := text_rendering_externs hread hmark hne hactive htext hend hplace
  have hbody : Source.withoutMark text = (f.source.scan.bom, before ++ after) := by
    rw [← hcode, hbom, Source.byteLength_markOf]
  have hbody' : Source.withoutMark f.rendering.text = (f.source.scan.bom,
      before ++ (Source.crateText f.externs (byteLength before) ++ after)) := by
    rw [hnew, List.append_assoc, Source.withoutMark_markOf_append text hcode', hbom]
  have hmark' := hmark.withoutMark
  rw [hbody] at hmark'
  refine ⟨_, _, after, htext, hplace.symm, hnew, ?_, ?_, file, file', ?_, ?_, ?_, ?_⟩
  · rw [hcode]
    exact (List.prefix_append_right_inj _).mpr hlead
  · exact Scan.read_knows hread hbody hmark' hfile hbody' hcode' hfile' hinner.symm (by rw [hinner])
      (Source.newline_notMem_crateText hnames _) hlead hknows
  · rw [hcode]
    exact hfile
  · rw [hbody']
    exact hfile'
  · rw [hinner]
  · rw [hcode, hbody']
    exact hknows

/-- A file that has two crates to make known. -/
def rooted (scan : Scan) : InstrumentedFile where
  package := 0
  source := ⟨⟨"/lib.rs"⟩, scan⟩
  externs := ["hooks", "r#async"]

/-- A file with a mark, a line for the loader, and two inner attributes. -/
theorem rooted_crates_known :
    ∃ scan, Scan.read "\uFEFF#!/bin/sh\n#![a]\n/*! b */ fn f() {}".toList = .ok scan ∧
      ∃ before line after, "\uFEFF#!/bin/sh\n#![a]\n/*! b */ fn f() {}".toList = before ++ after ∧
        (rooted scan).rendering.text = before ++ (line ++ after) ∧
        Scan.read (rooted scan).rendering.text =
          .ok (scan.shifted (byteLength line) (rooted scan).rendering.text) := by
  have hsample : (Scan.read "\uFEFF#!/bin/sh\n#![a]\n/*! b */ fn f() {}".toList).toOption.any
      Scan.admitsItems = true := by decide +kernel
  obtain ⟨scan, hread, hadmits⟩ := exists_ok_of_any hsample
  obtain ⟨before, line, after, htext, -, hnew, -, hagain, -⟩ :=
    crates_known (f := rooted scan) hread (by decide +kernel) hadmits rfl (by simp [rooted])
      (List.all_eq_true.mp (by decide : ["hooks", "r#async"].all Source.isCrateName = true))
  exact ⟨scan, hread, before, line, after, htext, hnew, hagain⟩

/-- Behind a comment that documents the file up to the end of its line, crates are not made known:
the line is read as a part of the comment, and the file has no item more. Before a line for the
loader, what is rendered cannot be read at all. -/
theorem rooted_crates_unknown :
    (Scan.read "//! Doc\nfn f() {}\n".toList).toOption.any (fun scan =>
      (rooted scan).rendering.text = "//! Doc extern crate hooks; extern crate r#async;\nfn f() {}\n".toList &&
      (Source.File.read (rooted scan).rendering.text).toOption.any fun file => file.items.length = 1) = true ∧
    (Scan.read "#!/bin/sh\nfn f() {}\n".toList).toOption.any (fun scan =>
      (Scan.read (rooted scan).rendering.text).toOption.isNone) = true := by
  constructor <;> decide +kernel

end InstrumentedFile

end Instrumentation
