import Instrumentation.Proofs.Runs
import Instrumentation.Proofs.Visibility
import Mathlib.Data.List.Forall2

/-!
The blocks of a text. The body of a function is a pair of braces that belong to each other, and
what a scan says of the function names these braces.
-/
namespace Instrumentation.Source

open Text (At byteLength)

theorem IsBlock.prepend {text : List Char} {opening closing : Nat}
    (h : IsBlock text opening closing) (lead : List Char) :
    IsBlock (lead ++ text) (byteLength lead + opening) (byteLength lead + closing) := by
  have hlt := h.lt
  obtain ⟨mid, after, inside, hat, hclosing, hlexes⟩ := h
  obtain ⟨ts, hts, halike⟩ := hlexes.shift (d := byteLength lead) (Nat.zero_le _)
  cases halike with
  | cons hgroup hnil =>
    cases hnil
    cases hgroup with
    | @group _ _ _ _ stop _ inside' hstart hclose _ =>
      obtain ⟨-, rfl⟩ := hstart
      obtain ⟨-, hclose⟩ := hclose
      have hopening : opening + byteLength lead = byteLength lead + opening := Nat.add_comm _ _
      have hstop : stop = byteLength lead + closing + 1 := by omega
      have hend : closing + 1 + byteLength lead = byteLength lead + closing + 1 := by omega
      rw [hopening, hstop, hend] at hts
      exact ⟨mid, after, inside', hat.prepend lead, by omega, hts⟩

/-- A declaration of a function, whose places in the file are given. -/
def Declaration.IsOf (places : Places) (d : Declaration) (f : Function) : Prop :=
  ∃ scope receiver traitName, d = declaration places scope f receiver traitName

/-- A declaration of a function that is implemented for a type, or for none. -/
def Declaration.IsAt (places : Places) (d : Declaration) (site : Option WrittenType × Function) :
    Prop :=
  ∃ scope traitName,
    d = declaration places scope site.2 (site.1.map WrittenType.receiver) traitName

theorem Declaration.IsAt.isOf {places : Places} {d : Declaration}
    {site : Option WrittenType × Function} (h : d.IsAt places site) : d.IsOf places site.2 := by
  obtain ⟨scope, traitName, rfl⟩ := h
  exact ⟨scope, _, traitName, rfl⟩

/-- A summary of a function, whose places in the file are given. -/
def FunctionSummary.IsOf (places : Places) (s : FunctionSummary) (f : Function) : Prop :=
  ∃ scope receiver isPub alwaysLive, s = summary places scope f receiver isPub alwaysLive

section

variable {places : Places} {f : Function}

theorem Declaration.IsOf.bodyOpen_eq {d : Declaration} (h : d.IsOf places f) :
    d.bodyOpen = places.offset f.body.start := by
  obtain ⟨scope, receiver, traitName, rfl⟩ := h
  rfl

theorem Declaration.IsOf.bodyClose_eq {d : Declaration} (h : d.IsOf places f) :
    d.bodyClose = places.offset (f.body.stop - 1) := by
  obtain ⟨scope, receiver, traitName, rfl⟩ := h
  rfl

theorem FunctionSummary.IsOf.bodyOpen_eq {s : FunctionSummary} (h : s.IsOf places f) :
    s.bodyOpen = places.offset f.body.start := by
  obtain ⟨scope, receiver, isPub, alwaysLive, rfl⟩ := h
  rfl

end

section

variable (places : Places)

theorem isOf_scanMethods (scope : List String) (receiver : Receiver) (traitName : Option String)
    (methods : List Function) :
    List.Forall₂ (FunctionSummary.IsOf places)
      ((methods.map (scanMethod places scope receiver traitName)).flatMap Found.functions)
      methods := by
  induction methods with
  | nil => exact .nil
  | cons f methods ih => exact .cons ⟨scope, _, _, _, rfl⟩ ih

mutual
/-- A scan has one summary for each function of an item, in their order. -/
theorem isOf_scanItem (scope : List String) (item : Item) :
    List.Forall₂ (FunctionSummary.IsOf places) (scanItem places scope item).functions
      item.functions := by
  cases item with
  | function f => exact .cons ⟨scope, _, _, _, rfl⟩ .nil
  | implementation target traitName methods =>
    simp only [scanItem, Found.foldl_append Found.functions_append, List.nil_append, Item.functions]
    exact isOf_scanMethods places scope target.receiver traitName methods
  | trait name methods =>
    simp only [scanItem, Item.functions, List.forall₂_map_left_iff]
    exact List.forall₂_same.mpr fun f _ => ⟨scope, _, _, _, rfl⟩
  | outline attrs isPub name => exact .nil
  | inline isPub name items => exact isOf_scanItems (scope ++ [name]) items
  | evaluated trees => exact .nil
  | other => exact .nil

theorem isOf_scanItems (scope : List String) (items : List Item) :
    List.Forall₂ (FunctionSummary.IsOf places) (scanItems places scope items).functions
      (functionsIn items) := by
  cases items with
  | nil => exact .nil
  | cons item items =>
    simp only [scanItems, Found.functions_append, functionsIn]
    exact List.rel_append (isOf_scanItem scope item) (isOf_scanItems scope items)
end

mutual
/-- A declaration is one of a function of the item that is scanned. -/
theorem exists_site_scanItem {scope : List String} {item : Item} {d : Declaration}
    (hd : d ∈ (scanItem places scope item).declarations) :
    ∃ site ∈ item.sites, d.IsAt places site := by
  cases item with
  | function f =>
    simp only [scanItem, scanFunction] at hd
    split at hd
    · cases hd
    · exact ⟨_, List.mem_singleton_self _, scope, none, List.mem_singleton.mp hd⟩
  | implementation target traitName methods =>
    simp only [scanItem, Found.declarations_foldl, List.nil_append] at hd
    obtain ⟨found, hfound, hd⟩ := List.mem_flatMap.mp hd
    obtain ⟨f, hf, rfl⟩ := List.mem_map.mp hfound
    simp only [scanMethod] at hd
    split at hd
    · cases hd
    · exact ⟨_, List.mem_map_of_mem hf, scope, traitName, List.mem_singleton.mp hd⟩
  | trait | outline | evaluated | other => cases hd
  | inline isPub name items => exact exists_site_scanItems hd

theorem exists_site_scanItems {scope : List String} {items : List Item} {d : Declaration}
    (hd : d ∈ (scanItems places scope items).declarations) :
    ∃ site ∈ sitesIn items, d.IsAt places site := by
  cases items with
  | nil => cases hd
  | cons item items =>
    simp only [scanItems, Found.declarations_append, List.mem_append] at hd
    rcases hd with hd | hd
    · obtain ⟨site, hsite, hat⟩ := exists_site_scanItem hd
      exact ⟨site, List.mem_append_left _ hsite, hat⟩
    · obtain ⟨site, hsite, hat⟩ := exists_site_scanItems hd
      exact ⟨site, List.mem_append_right _ hsite, hat⟩
end

end

/-- The places of a text that is scanned. -/
def placesIn (text : List Char) : Places := Places.after (withoutMark text).1 (withoutMark text).2

/-- Each declaration of a text is one of a function in it. -/
theorem Scan.exists_site {text : List Char} {scan : Scan} (h : Scan.read text = .ok scan)
    {d : Declaration} (hd : d ∈ scan.declarations) :
    ∃ site ∈ sitesIn (itemsOf text), d.IsAt (placesIn text) site := by
  obtain ⟨file, hfile, rfl⟩ := Scan.read_eq_ok_iff.mp h
  rw [itemsOf_of_read hfile]
  exact exists_site_scanItems _ (mem_sortedBy.mp hd)

theorem Scan.exists_isOf {text : List Char} {scan : Scan} (h : Scan.read text = .ok scan) :
    List.Forall₂ (FunctionSummary.IsOf (placesIn text)) scan.functions
        (functionsIn (itemsOf text)) ∧
      ∀ d ∈ scan.declarations, ∃ f ∈ functionsIn (itemsOf text), d.IsOf (placesIn text) f := by
  refine ⟨?_, fun d hd => ?_⟩
  · obtain ⟨file, hfile, rfl⟩ := Scan.read_eq_ok_iff.mp h
    rw [itemsOf_of_read hfile]
    exact isOf_scanItems _ [] file.items
  · obtain ⟨site, hsite, hat⟩ := Scan.exists_site h hd
    exact ⟨site.2, snd_mem_functionsIn hsite, hat.isOf⟩

/-- The body of a function of a text is the block between two places. -/
theorem isBlock_of_mem {text : List Char} (hm : OneMark text) {f : Function}
    (hf : f ∈ functionsIn (itemsOf text)) :
    IsBlock text ((placesIn text).offset f.body.start)
      ((placesIn text).offset (f.body.stop - 1)) := by
  rw [itemsOf, hm.withoutMark] at hf
  split at hf
  · next file hfile =>
    obtain ⟨_, hmid, -, hstand⟩ := File.stands_of_read hfile
    have hbody := hstand.inOrder.mem hf
    obtain ⟨hopens, hcloses⟩ := hbody.isSeen hmid
    rw [placesIn, Places.offset_after hm.withoutMark _ hopens,
      Places.offset_after hm.withoutMark _ hcloses, ← byteLength_markOf]
    conv => arg 1; rw [← markOf_append text]
    exact hbody.block.prepend (markOf text)
  · cases hf

/-- The offsets that a scan gives for functions are those of the braces of their bodies. The
declarations come in the order of the text, behind its inner attributes, and their bodies are
apart; every function has a summary, in the order of the text. -/
theorem Scan.blocks_of_read {text : List Char} {scan : Scan} (h : Scan.read text = .ok scan)
    (hm : OneMark text) :
    byteLength (markOf text) ≤ scan.innerAttrsEnd ∧
      (∀ d ∈ scan.declarations, scan.innerAttrsEnd < d.bodyOpen) ∧
      (scan.declarations.Pairwise fun a b =>
        a.bodyOpen < b.bodyOpen ∧ a.bodyClose < b.bodyOpen) ∧
      (∀ d ∈ scan.declarations, d.bodyOpen < d.bodyClose ∧ IsBlock text d.bodyOpen d.bodyClose ∧
        ∃ f ∈ functionsIn (itemsOf text), d.IsOf (placesIn text) f ∧
          ∃ s ∈ scan.functions, s.IsOf (placesIn text) f ∧ s.bodyOpen = d.bodyOpen) ∧
      List.Forall₂ (fun s f => s.IsOf (placesIn text) f ∧
          IsBlock text s.bodyOpen ((placesIn text).offset (f.body.stop - 1)))
        scan.functions (functionsIn (itemsOf text)) := by
  obtain ⟨hbom, hbehind, -⟩ := Scan.behind_mark h
  have hplaced := Scan.placed_of_read h hm
  obtain ⟨hsummaries, hdeclared⟩ := Scan.exists_isOf h
  refine ⟨hbom ▸ hbehind, hplaced.behind, ?_, ?_, ?_⟩
  · refine (Scan.increasing_of_read h).and hplaced.apart |>.imp fun {a b} hab => ?_
    exact ⟨hab.1, by omega⟩
  · intro d hd
    obtain ⟨f, hf, hof⟩ := hdeclared d hd
    have hblock := isBlock_of_mem hm hf
    obtain ⟨k, hk, rfl⟩ := List.getElem_of_mem hf
    obtain ⟨hlength, hsummary⟩ := List.forall₂_iff_get.mp hsummaries
    have hsof := hsummary k (hlength ▸ hk) hk
    have hopen := hof.bodyOpen_eq
    have hclose := hof.bodyClose_eq
    rw [← hopen, ← hclose] at hblock
    refine ⟨hblock.lt, hblock, _, hf, hof, _, List.get_mem _ _, hsof, ?_⟩
    rw [hopen, hsof.bodyOpen_eq]
    rfl
  · refine List.forall₂_iff_zip.mpr ⟨hsummaries.length_eq, fun {s f} hzip => ?_⟩
    have hof := List.forall₂_zip hsummaries hzip
    have hblock := isBlock_of_mem hm (List.of_mem_zip hzip).2
    rw [← hof.bodyOpen_eq] at hblock
    exact ⟨hof, hblock⟩

/-- Where the braces of the declarations in a text are. -/
def spansOf (text : List Char) : List (Nat × Nat) :=
  match Scan.read text with
  | .ok scan => scan.declarations.map Declaration.span
  | .error _ => []

/-- A mark, a line for the loader, an attribute, and two functions on one line. The first has braces
in a comment and in a text, with a character of several bytes before the second one. -/
def bracedText : List Char :=
  byteOrderMark ::
    "#!/bin/sh \x7b\r\n#![a]\r\nfn f() \x7b /*\x7d*/ \"\x7dé\" \x7d fn g() \x7b \x7b\x7d \x7d\r\n".toList

theorem blocks_of_bracedText : ∃ scan, Scan.read bracedText = .ok scan ∧ OneMark bracedText ∧
    scan.declarations.map Declaration.span = [(30, 44), (53, 58)] ∧
    IsBlock bracedText 30 44 ∧ IsBlock bracedText 53 58 ∧
    (∃ s ∈ scan.functions, s.bodyOpen = 30) ∧ (∃ s ∈ scan.functions, s.bodyOpen = 53) ∧
    3 ≤ scan.innerAttrsEnd ∧ scan.innerAttrsEnd < 30 := by
  have hmark : OneMark bracedText := by decide
  have hspans : spansOf bracedText = [(30, 44), (53, 58)] := by decide +kernel
  cases hread : Scan.read bracedText with
  | error e => simp [spansOf, hread] at hspans
  | ok scan =>
    simp only [spansOf, hread] at hspans
    obtain ⟨hbom, hbehind, -, hblocks, -⟩ := Scan.blocks_of_read hread hmark
    have hfound (x y : Nat) (hmem : (x, y) ∈ scan.declarations.map Declaration.span) :
        scan.innerAttrsEnd < x ∧ IsBlock bracedText x y ∧ ∃ s ∈ scan.functions, s.bodyOpen = x := by
      obtain ⟨d, hd, hspan⟩ := List.mem_map.mp hmem
      obtain ⟨rfl, rfl⟩ := Prod.mk.inj hspan
      obtain ⟨-, hblock, _, -, -, s, hs, -, hopen⟩ := hblocks d hd
      exact ⟨hbehind d hd, hblock, s, hs, hopen⟩
    rw [hspans] at hfound
    obtain ⟨hinner, hfirst, hsummary⟩ := hfound 30 44 (by simp)
    obtain ⟨-, hsecond, hsummary'⟩ := hfound 53 58 (by simp)
    exact ⟨scan, rfl, hmark, hspans, hfirst, hsecond, hsummary, hsummary', hbom, hinner⟩

end Instrumentation.Source
