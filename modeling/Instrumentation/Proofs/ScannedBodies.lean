import Instrumentation.Proofs.Bodies
import Instrumentation.Source.Scan
import Mathlib.Data.List.Pairwise

/-!
Where the declarations of a scanned file stand. Their bodies are the bodies of the functions that
the grammar has read, in the same order, so that each stands between its braces and behind the
inner attributes, and no two of them meet.
-/
namespace Instrumentation.Source

open Text (At Boundary byteLength)

/-- The offsets of a declaration's braces. -/
def Declaration.span (d : Declaration) : Nat × Nat := (d.bodyOpen, d.bodyClose)

/-- The offsets of a body's braces, as places of the file. -/
def Body.span (places : Places) (b : Body) : Nat × Nat :=
  (places.offset b.start, places.offset (b.stop - 1))

@[simp] theorem Found.declarations_append (a b : Found) :
    (a ++ b).declarations = a.declarations ++ b.declarations := rfl

theorem Found.declarations_foldl (found : List Found) (a : Found) :
    (found.foldl (· ++ ·) a).declarations = a.declarations ++ found.flatMap Found.declarations := by
  induction found generalizing a with
  | nil => simp
  | cons f found ih => simp [ih]

section

variable (places : Places)

theorem sublist_scanFunction (scope : List String) (f : Function) :
    ((scanFunction places scope f).declarations.map Declaration.span).Sublist
      [f.body.span places] := by
  simp only [scanFunction]
  split
  · exact List.nil_sublist _
  · exact List.Sublist.refl _

theorem sublist_scanMethods (scope : List String) (receiver : Receiver) (traitName : Option String)
    (methods : List Function) :
    (((methods.map (scanMethod places scope receiver traitName)).flatMap Found.declarations).map
        Declaration.span).Sublist (methods.map fun f => f.body.span places) := by
  induction methods with
  | nil => exact List.nil_sublist _
  | cons f methods ih =>
    have hone : ((scanMethod places scope receiver traitName f).declarations.map
        Declaration.span).Sublist [f.body.span places] := by
      simp only [scanMethod]
      split
      · exact List.nil_sublist _
      · exact List.Sublist.refl _
    simpa using hone.append ih

mutual
/-- The declarations of an item are some of its functions, in order. -/
theorem sublist_scanItem (scope : List String) (item : Item) :
    ((scanItem places scope item).declarations.map Declaration.span).Sublist
      (item.functions.map fun f => f.body.span places) := by
  cases item with
  | function f => exact sublist_scanFunction places scope f
  | implementation target traitName methods =>
    simp only [scanItem, Found.declarations_foldl, List.nil_append]
    exact sublist_scanMethods places scope target.receiver traitName methods
  | trait name methods => exact List.nil_sublist _
  | outline attrs isPub name => exact List.nil_sublist _
  | inline isPub name items => exact sublist_scanItems (scope ++ [name]) items
  | evaluated trees => exact List.nil_sublist _
  | other => exact List.nil_sublist _

theorem sublist_scanItems (scope : List String) (items : List Item) :
    ((scanItems places scope items).declarations.map Declaration.span).Sublist
      ((functionsIn items).map fun f => f.body.span places) := by
  cases items with
  | nil => exact List.nil_sublist _
  | cons item items =>
    simp only [scanItems, functionsIn, Found.declarations_append, List.map_append]
    exact (sublist_scanItem scope item).append (sublist_scanItems scope items)
end

end

/-- The text does not start with two byte order marks. -/
def OneMark (text : List Char) : Prop := ¬[byteOrderMark, byteOrderMark] <+: text

instance (text : List Char) : Decidable (OneMark text) := inferInstanceAs (Decidable (¬_))

/-- The mark at the start of a text, if there is one. -/
def markOf : List Char → List Char
  | c :: _ => if c = byteOrderMark then [c] else []
  | [] => []

theorem markOf_append (text : List Char) : markOf text ++ (withoutMark text).2 = text := by
  cases text with
  | nil => rfl
  | cons c cs => by_cases h : c = byteOrderMark <;> simp [markOf, withoutMark, h]

theorem byteLength_markOf (text : List Char) : byteLength (markOf text) = (withoutMark text).1 := by
  cases text with
  | nil => rfl
  | cons c cs => by_cases h : c = byteOrderMark <;> simp [markOf, withoutMark, h]

theorem OneMark.withoutMark {text : List Char} (h : OneMark text) :
    withoutMark (withoutMark text).2 = (0, (Source.withoutMark text).2) := by
  cases text with
  | nil => rfl
  | cons c cs =>
    by_cases hc : c = byteOrderMark
    · cases cs with
      | nil => simp [Source.withoutMark, hc]
      | cons d cs =>
        have hd : d ≠ byteOrderMark := by
          rintro rfl
          exact h ⟨cs, by simp [hc]⟩
        simp [Source.withoutMark, hc, hd]
    · simp [Source.withoutMark, hc]

/-- Where the inner attributes and the bodies of a scanned file stand. -/
structure Scan.Placed (scan : Scan) : Prop where
  inner : Boundary scan.text scan.innerAttrsEnd
  braces : ∀ d ∈ scan.declarations, Braces scan.text d.bodyOpen (d.bodyClose + 1)
  behind : ∀ d ∈ scan.declarations, scan.innerAttrsEnd < d.bodyOpen
  apart : scan.declarations.Pairwise fun a b => a.bodyClose + 1 < b.bodyOpen

/-- The bodies of two declarations do not meet. -/
theorem Scan.Placed.apart_of_ne {scan : Scan} (h : scan.Placed) {a b : Declaration}
    (ha : a ∈ scan.declarations) (hb : b ∈ scan.declarations) (hne : a ≠ b) :
    a.bodyClose + 1 < b.bodyOpen ∨ b.bodyClose + 1 < a.bodyOpen := by
  let R (x y : Declaration) : Prop := x.bodyClose + 1 < y.bodyOpen ∨ y.bodyClose + 1 < x.bodyOpen
  have hsymm : Std.Symm R := ⟨fun _ _ h => h.symm⟩
  have hpairs : scan.declarations.Pairwise R := h.apart.imp Or.inl
  exact hpairs.forall ha hb hne

theorem Braces.prepend {text : List Char} {start stop : Nat} (h : Braces text start stop)
    (lead : List Char) : Braces (lead ++ text) (byteLength lead + start) (byteLength lead + stop) := by
  obtain ⟨⟨rest, hopens⟩, ⟨rest', hcloses⟩, hlt⟩ := h
  refine ⟨⟨rest, hopens.prepend lead⟩, ⟨rest', ?_⟩, by omega⟩
  have heq : byteLength lead + stop - 1 = byteLength lead + (stop - 1) := by omega
  rw [heq]
  exact hcloses.prepend lead

theorem newline_notMem_loaderLine (code : List Char) : '\n' ∉ loaderLine code := by
  unfold loaderLine
  split
  · exact fun h => absurd (List.mem_takeWhile_imp h) (by decide)
  · exact List.not_mem_nil

/-- A line for the loader goes up to the end of its line. -/
theorem head?_behind_loaderLine {code : List Char} (h : loaderLine code ≠ []) :
    ∀ c ∈ (code.drop (loaderLine code).length).head?, c = '\n' := by
  unfold loaderLine at h ⊢
  split at h
  · have hdrop : code.drop (code.takeWhile (· != '\n')).length = code.dropWhile (· != '\n') :=
      List.append_cancel_left ((List.prefix_iff_eq_append.mp (List.takeWhile_prefix _)).trans
        List.takeWhile_append_dropWhile.symm)
    rw [if_pos ‹_›, hdrop]
    intro c hc
    have hstop := List.head?_dropWhile_not (· != '\n') code
    rw [hc] at hstop
    simpa using hstop
  · exact absurd rfl h

/-- A place of the code that the reader sees: it is behind a line for the loader. -/
structure IsSeen (code : List Char) (n : Nat) : Prop where
  boundary : Boundary code n
  behind : byteLength (loaderLine code) < n

/-- What the reader counts from the end of the line for the loader is the line and the column in the
whole code. -/
theorem readerPlace_eq {code : List Char} {n : Nat} (h : IsSeen code n) :
    readerPlace code n = Text.lineCol code n := by
  obtain ⟨⟨rest, hn⟩, hlt⟩ := h
  have hline : At code (byteLength (loaderLine code)) (code.drop (loaderLine code).length) :=
    ⟨loaderLine code, (loaderLine_append code).symm, rfl⟩
  obtain ⟨mid, hdrop, hmid⟩ := hline.between hn (Nat.le_of_lt hlt)
  have hcode : code = (loaderLine code ++ mid) ++ rest := by
    rw [List.append_assoc, ← hdrop, loaderLine_append]
  have hoffset : n - byteLength (loaderLine code) = byteLength mid := by omega
  have hwhole : n = byteLength (loaderLine code ++ mid) := by rw [Text.byteLength_append, hmid]
  rw [readerPlace, hoffset, Text.lineCol_eq hdrop]
  conv => rhs; arg 2; rw [hwhole]
  rw [Text.lineCol_eq hcode]
  by_cases hnone : loaderLine code = []
  · rw [hnone, List.nil_append]
  · have hne : mid ≠ [] := by
      rintro rfl
      simp only [Text.byteLength_nil] at hmid
      omega
    obtain ⟨c, mid, rfl⟩ := List.exists_cons_of_ne_nil hne
    have hfirst := head?_behind_loaderLine hnone
    rw [hdrop] at hfirst
    obtain rfl : c = '\n' := hfirst c rfl
    exact (Text.place_behind (newline_notMem_loaderLine code) List.mem_cons_self).symm

theorem Grammar.AttributeEnds.isSeen {code : List Char} {a : Attribute} {hi : Nat}
    (h : AttributeEnds code (byteLength (loaderLine code)) a hi) : IsSeen code a.stop :=
  ⟨h.boundary, h.behind⟩

/-- The braces of a function behind the line for the loader. -/
theorem Function.Stands.isSeen {code : List Char} {lo hi : Nat} {f : Function}
    (h : f.Stands code lo hi) (hlo : byteLength (loaderLine code) ≤ lo) :
    IsSeen code f.body.start ∧ IsSeen code (f.body.stop - 1) := by
  have hbehind := h.behind
  have hlt := h.block.lt
  exact ⟨⟨h.braces.boundary_open, by omega⟩, h.braces.boundary_close, by omega⟩

/-- Without a second mark, the offset that a line and a column are looked up to is the one that they
were made of. -/
theorem Places.offset_after {body : List Char} (h : withoutMark body = (0, body)) (bom : Nat)
    {n : Nat} (hn : IsSeen body n) : (Places.after bom body).offset n = bom + n := by
  have hplace := readerPlace_eq hn
  obtain ⟨rest, before, hbody, rfl⟩ := hn.boundary
  simp only [Places.after, h, hplace, Text.lineCol_eq hbody, Text.offsetAt_place hbody]

section

variable {code : List Char} {lo hi : Nat} {items : List Item} {places : Places} {bom : Nat}

/-- A declaration has the body of a function that was read. -/
theorem exists_body {scope : List String} {d : Declaration}
    (hd : d ∈ (scanItems places scope items).declarations) :
    ∃ f ∈ functionsIn items, d.span = f.body.span places := by
  have hmem := (sublist_scanItems places scope items).subset (List.mem_map_of_mem hd)
  obtain ⟨f, hf, hspan⟩ := List.mem_map.mp hmem
  exact ⟨f, hf, hspan.symm⟩

/-- The bodies of declarations stand apart, in the order of the scan. -/
theorem pairwise_scanItems (hplaces : ∀ n, IsSeen code n → places.offset n = bom + n)
    (hs : StandIn code lo items hi) (hlo : byteLength (loaderLine code) ≤ lo)
    (scope : List String) :
    (scanItems places scope items).declarations.Pairwise fun a b =>
      a.bodyClose + 1 < b.bodyOpen := by
  have hbodies : ((functionsIn items).map fun f => f.body.span places).Pairwise
      fun x y => x.2 + 1 < y.1 := by
    rw [List.pairwise_map]
    refine hs.inOrder.pairwise.imp ?_
    rintro f f' ⟨mid, hmid, hf, hf'⟩
    have hlt := hf.braces.lt
    have hstop := hf.within
    have hbehind := hf'.behind
    simp only [Body.span, hplaces _ (hf.isSeen hlo).2,
      hplaces _ (hf'.isSeen (Nat.le_trans hlo hmid)).1]
    omega
  have hspans := hbodies.sublist (sublist_scanItems places scope items)
  exact List.pairwise_map.mp hspans

/-- The inner attributes end at a place of the text, or at its start if there are none. -/
theorem exists_innerAttrsEnd {mid : Nat} {attrs : List Attribute}
    (hplaces : ∀ n, IsSeen code n → places.offset n = bom + n)
    (hattrs : ∀ a ∈ attrs, Grammar.AttributeEnds code (byteLength (loaderLine code)) a mid) :
    ∃ n, n ≤ mid ∧ Boundary code n ∧
      (attrs.getLast?.map fun a => places.offset a.stop).getD bom = bom + n := by
  cases hlast : attrs.getLast? with
  | none => exact ⟨0, Nat.zero_le _, Boundary.zero code, rfl⟩
  | some a =>
    have ha := hattrs a (List.mem_of_getLast? hlast)
    exact ⟨a.stop, ha.within, ha.boundary, by simp [hplaces _ ha.isSeen]⟩

end

/-- What a scan tells of a text, once its code has been read as a file. -/
def File.scan (text : List Char) (file : File) : Scan :=
  let places := Places.after (withoutMark text).1 (withoutMark text).2
  let found := scanItems places [] file.items
  { text
    bom := (withoutMark text).1
    innerAttrsEnd := (file.innerAttrs.getLast?.map fun a => places.offset a.stop).getD
      (withoutMark text).1
    declarations := sortedBy (fun a b => a.bodyOpen ≤ b.bodyOpen) found.declarations
    modules := found.modules
    functions := found.functions
    itemMentions := Text.sortedSet found.itemNames }

/-- A scan succeeds on the texts that are read as files, and tells what is in the file. -/
theorem Scan.read_eq_ok_iff {text : List Char} {scan : Scan} :
    Scan.read text = .ok scan ↔
      ∃ file, File.read (withoutMark (withoutMark text).2).2 = .ok file ∧ file.scan text = scan := by
  simp only [Scan.read]
  split
  · next hfile => simp [hfile]
  · next hfile => simp [hfile]
  · next file hfile => simp [hfile, File.scan]

theorem Scan.text_of_read {text : List Char} {scan : Scan} (h : Scan.read text = .ok scan) :
    scan.text = text := by
  obtain ⟨file, -, rfl⟩ := Scan.read_eq_ok_iff.mp h
  rfl

theorem Places.le_offset_after (bom : Nat) (body : List Char) (n : Nat) :
    bom ≤ (Places.after bom body).offset n :=
  Nat.le_add_right bom _

/-- Whatever the text, what a scan names stands behind the mark. -/
theorem Scan.behind_mark {text : List Char} {scan : Scan} (h : Scan.read text = .ok scan) :
    scan.bom = byteLength (markOf text) ∧ scan.bom ≤ scan.innerAttrsEnd ∧
      ∀ d ∈ scan.declarations, scan.bom ≤ d.bodyOpen ∧ scan.bom ≤ d.bodyClose := by
  have hlead := byteLength_markOf text
  obtain ⟨file, -, rfl⟩ := Scan.read_eq_ok_iff.mp h
  have hplaces := Places.le_offset_after (withoutMark text).1 (withoutMark text).2
  refine ⟨hlead.symm, ?_, fun d hd => ?_⟩
  · simp only [File.scan]
    cases file.innerAttrs.getLast? with
    | none => exact Nat.le_refl _
    | some a => exact hplaces a.stop
  · obtain ⟨b, -, hspan⟩ := exists_body (mem_sortedBy.mp hd)
    simp only [Declaration.span, Body.span, Prod.mk.injEq] at hspan
    rw [hspan.1, hspan.2]
    exact ⟨hplaces _, hplaces _⟩

/-- Declarations that come in the order of their bodies stay in that order. -/
theorem sortedBy_of_increasing {found : List Declaration}
    (h : found.Pairwise fun a b => a.bodyOpen < b.bodyOpen) :
    sortedBy (fun a b => a.bodyOpen ≤ b.bodyOpen) found = found :=
  sortedBy_of_pairwise (h.imp fun hlt => decide_eq_true (Nat.le_of_lt hlt))

/-- The declarations of a text with at most one mark stand where their offsets say. -/
theorem Scan.placed_of_read {text : List Char} {scan : Scan} (h : Scan.read text = .ok scan)
    (hm : OneMark text) : scan.Placed := by
  obtain ⟨file, hfile, rfl⟩ := Scan.read_eq_ok_iff.mp h
  rw [hm.withoutMark] at hfile
  obtain ⟨mid, hmid, hattrs, hstand⟩ := File.stands_of_read hfile
  have hplaces (n : Nat) (hn : IsSeen (withoutMark text).2 n) :=
    Places.offset_after hm.withoutMark (withoutMark text).1 hn
  have htext := markOf_append text
  have hlead := byteLength_markOf text
  simp only [File.scan]
  generalize withoutMark text = s at hplaces htext hlead hmid hattrs hstand ⊢
  obtain ⟨bom, code⟩ := s
  simp only at hplaces htext hlead hmid hattrs hstand ⊢
  have hbraces (d : Declaration)
      (hd : d ∈ (scanItems (Places.after bom code) [] file.items).declarations) :
      bom + mid < d.bodyOpen ∧ Braces text d.bodyOpen (d.bodyClose + 1) := by
    obtain ⟨f, hf, hspan⟩ := exists_body hd
    have hbody := hstand.inOrder.mem hf
    have hlo := hbody.behind
    have hbraces := hbody.braces
    have hlt := hbraces.lt
    obtain ⟨hopens, hcloses⟩ := hbody.isSeen hmid
    simp only [Declaration.span, Body.span, hplaces _ hopens, hplaces _ hcloses,
      Prod.mk.injEq] at hspan
    have hstop : d.bodyClose + 1 = bom + f.body.stop := by omega
    refine ⟨by omega, ?_⟩
    rw [hspan.1, hstop, ← htext, ← hlead]
    exact hbraces.prepend (markOf text)
  have hapart := pairwise_scanItems hplaces hstand hmid []
  have hsorted := sortedBy_of_increasing <| hapart.imp_of_mem fun {a b} ha _ hlt => by
    have := (hbraces a ha).2.lt
    omega
  obtain ⟨n, hn, hboundary, hinner⟩ := exists_innerAttrsEnd hplaces hattrs
  rw [hsorted, hinner]
  refine ⟨?_, fun d hd => (hbraces d hd).2, fun d hd => ?_, hapart⟩
  · rw [← htext, ← hlead]
    exact hboundary.prepend (markOf text)
  · have := (hbraces d hd).1
    exact (show bom + n < d.bodyOpen by omega)

/-! ### Any number of marks

A second mark moves what stands on the first line by one character, so the bodies need not stand
where their offsets say; but they still come one after the other.
-/

theorem byteLength_dropLast_lt {cs : List Char} (h : cs ≠ []) :
    byteLength cs.dropLast < byteLength cs := by
  have hlast := Text.byteLength_pos (List.cons_ne_nil (cs.getLast h) [])
  have hsplit := congrArg byteLength (List.dropLast_concat_getLast h)
  rw [Text.byteLength_append] at hsplit
  omega

/-- What stands before a place, after a second mark. -/
def behindMark (before : List Char) : List Char :=
  if '\n' ∈ before then byteOrderMark :: before else (byteOrderMark :: before).dropLast

theorem Places.offset_after_mark (bom : Nat) {before rest : List Char}
    (h : IsSeen (before ++ rest) (byteLength before)) :
    (Places.after bom (byteOrderMark :: (before ++ rest))).offset (byteLength before) =
      bom + byteLength (behindMark before) := by
  simp only [Places.after, Source.withoutMark, ↓reduceIte, readerPlace_eq h, Text.lineCol_eq rfl]
  by_cases hn : '\n' ∈ before
  · have hplace : Text.place (byteOrderMark :: before) = Text.place before := by
      rw [Text.place_cons, if_neg (by decide), if_pos hn]
    have htext : byteOrderMark :: (before ++ rest) = (byteOrderMark :: before) ++ rest := rfl
    have hoffset := Text.offsetAt_place htext
    rw [hplace] at hoffset
    rw [hoffset, behindMark, if_pos hn]
  · have hfree : '\n' ∉ (byteOrderMark :: before).dropLast := by
      intro hmem
      rcases List.mem_cons.mp ((List.dropLast_sublist _).subset hmem) with h | h
      · cases h
      · exact hn h
    have hplace : Text.place (byteOrderMark :: before).dropLast = Text.place before := by
      rw [Text.place_eq_of_not_mem hfree, Text.place_eq_of_not_mem hn, List.length_dropLast]
      rfl
    have hsplit := List.dropLast_concat_getLast (List.cons_ne_nil byteOrderMark before)
    have htext : byteOrderMark :: (before ++ rest) = (byteOrderMark :: before).dropLast ++
        ([(byteOrderMark :: before).getLast (List.cons_ne_nil _ _)] ++ rest) := by
      rw [← List.append_assoc, hsplit, List.cons_append]
    have hoffset := Text.offsetAt_place htext
    rw [hplace] at hoffset
    rw [hoffset, behindMark, if_neg hn]

theorem byteLength_behindMark_lt (before : List Char) {mid : List Char} (h : mid ≠ []) :
    byteLength (behindMark before) < byteLength (behindMark (before ++ mid)) := by
  have hmid := Text.byteLength_pos h
  have hlast := byteLength_dropLast_lt (List.cons_ne_nil byteOrderMark before)
  have hwhole : byteLength (byteOrderMark :: (before ++ mid)) =
      byteLength (byteOrderMark :: before) + byteLength mid :=
    Text.byteLength_append (byteOrderMark :: before) mid
  by_cases hn : '\n' ∈ before
  · have hn' : '\n' ∈ before ++ mid := List.mem_append_left mid hn
    rw [behindMark, if_pos hn, behindMark, if_pos hn', hwhole]
    omega
  · rw [behindMark, if_neg hn, behindMark]
    split
    · omega
    · have hdrop : (byteOrderMark :: (before ++ mid)).dropLast =
          (byteOrderMark :: before) ++ mid.dropLast := by
        rw [← List.cons_append, List.dropLast_append_of_ne_nil h]
      rw [hdrop, Text.byteLength_append]
      omega

/-- Of two places, the later one has the higher offset. -/
theorem Places.offset_lt (bom : Nat) {body : List Char} {n m : Nat}
    (hn : IsSeen (withoutMark body).2 n) (hm : IsSeen (withoutMark body).2 m) (hlt : n < m) :
    (Places.after bom body).offset n < (Places.after bom body).offset m := by
  cases body with
  | nil =>
    have hmark : Source.withoutMark [] = (0, []) := rfl
    rw [hmark] at hn hm
    rw [offset_after hmark bom hn, offset_after hmark bom hm]
    omega
  | cons c code =>
    by_cases hc : c = byteOrderMark
    · subst hc
      simp only [Source.withoutMark, ↓reduceIte] at hn hm
      obtain ⟨r, hr⟩ := hn.boundary
      obtain ⟨s, hs⟩ := hm.boundary
      obtain ⟨mid, rfl, rfl⟩ := hr.between hs (Nat.le_of_lt hlt)
      obtain ⟨before, rfl, rfl⟩ := hr
      have hne : mid ≠ [] := by
        rintro rfl
        exact absurd hlt (Nat.lt_irrefl _)
      have hmore := byteLength_behindMark_lt before hne
      rw [← List.append_assoc, ← Text.byteLength_append] at hm
      have hlater := offset_after_mark bom hm
      rw [List.append_assoc, Text.byteLength_append] at hlater
      rw [offset_after_mark bom hn, hlater]
      omega
    · have hmark : Source.withoutMark (c :: code) = (0, c :: code) := by
        simp [Source.withoutMark, hc]
      rw [hmark] at hn hm
      rw [offset_after hmark bom hn, offset_after hmark bom hm]
      omega

/-- The declarations of a scan come one after the other. -/
theorem Scan.increasing_of_read {text : List Char} {scan : Scan} (h : Scan.read text = .ok scan) :
    scan.declarations.Pairwise fun a b => a.bodyOpen < b.bodyOpen := by
  obtain ⟨file, hfile, rfl⟩ := Scan.read_eq_ok_iff.mp h
  obtain ⟨mid, hmid, -, hstand⟩ := File.stands_of_read hfile
  let places := Places.after (withoutMark text).1 (withoutMark text).2
  have hbodies : ((functionsIn file.items).map fun f => f.body.span places).Pairwise
      fun x y => x.1 < y.1 := by
    rw [List.pairwise_map]
    refine hstand.inOrder.pairwise.imp ?_
    rintro f f' ⟨mid', hmid', hf, hf'⟩
    have horder := hf.braces.lt
    have hstop := hf.within
    have hbehind := hf'.behind
    exact Places.offset_lt _ (hf.isSeen hmid).1 (hf'.isSeen (Nat.le_trans hmid hmid')).1 (by omega)
  have hfound : (scanItems places [] file.items).declarations.Pairwise
      fun a b => a.bodyOpen < b.bodyOpen := by
    have hspans := hbodies.sublist (sublist_scanItems places [] file.items)
    rw [List.pairwise_map] at hspans
    exact hspans
  rw [File.scan, sortedBy_of_increasing hfound]
  exact hfound

end Instrumentation.Source
