import Instrumentation.InstrumentedFile
import Instrumentation.Proofs.Outcome
import Instrumentation.Proofs.ScannedBodies
import Instrumentation.Proofs.Weaving
import Mathlib.Data.List.Nodup

/-!
Instrumented texts are the source with insertions. The offsets of a scan keep the insertions
apart, so that the text is the same in whatever order declarations are instrumented, and lines
stay where they are as long as no line end is inserted.
-/
namespace Instrumentation

namespace Text

/-- A text from an offset on, with something put before each character and at the end. -/
def withInserted (put : Nat → List Char) : (pos : Nat) → List Char → List Char
  | pos, [] => put pos
  | pos, c :: cs => put pos ++ c :: withInserted put (pos + c.utf8Size) cs

theorem linesWithEnds_append {a : List Char} (h : '\n' ∉ a) (b : List Char) :
    linesWithEnds (a ++ '\n' :: b) = (a ++ ['\n']) :: linesWithEnds b := by
  induction a with
  | nil => simp [linesWithEnds]
  | cons c a ih =>
    simp only [List.mem_cons, not_or] at h
    simp [linesWithEnds, Ne.symm h.1, ih h.2]

theorem linesWithEnds_eq_singleton {a : List Char} (h : '\n' ∉ a) (hne : a ≠ []) :
    linesWithEnds a = [a] := by
  induction a with
  | nil => exact absurd rfl hne
  | cons c a ih =>
    simp only [List.mem_cons, not_or] at h
    cases a with
    | nil => simp [linesWithEnds, Ne.symm h.1]
    | cons d a => rw [linesWithEnds, if_neg (Ne.symm h.1), ih h.2 (List.cons_ne_nil d a)]

/-- A line starts after some text: at the beginning, or after a line end. -/
structure LineStart (text before : List Char) : Prop where
  within : ∃ c rest, text = before ++ c :: rest
  starts : before = [] ∨ before.getLast? = some '\n'

end Text

namespace Rendering

theorem map_fst_woven (is : List Insertion) (pos : Nat) (cs : List Char) :
    (woven is pos cs).map Prod.fst =
      Text.withInserted (fun n => (insertedAt is n).map Prod.fst) pos cs := by
  induction cs generalizing pos with
  | nil => rfl
  | cons c cs ih => simp [woven, Text.withInserted, ih]

/-- Lines start after as many line ends as there are lines before them. -/
theorem lineStart_of_mem {text before : List Char} (rest : List Char) {start i : Nat}
    (htext : text = before ++ rest) (hb : before = [] ∨ before.getLast? = some '\n')
    (h : (start, i) ∈ (lineStarts (Text.byteLength before) (Text.linesWithEnds rest)).zipIdx
      (before.count '\n')) :
    ∃ b, Text.LineStart text b ∧ start = Text.byteLength b ∧ i = b.count '\n' := by
  have hfirst {r : List Char} (hr : rest = r) (hne : r ≠ []) : Text.LineStart text before := by
    obtain ⟨c, r', rfl⟩ := List.exists_cons_of_ne_nil hne
    exact ⟨⟨c, r', by rw [htext, hr]⟩, hb⟩
  by_cases hn : '\n' ∈ rest
  · obtain ⟨a, r, hr, ha⟩ := List.eq_append_cons_of_mem hn
    rw [hr, Text.linesWithEnds_append ha r, lineStarts, List.zipIdx_cons] at h
    rcases List.mem_cons.mp h with h | h
    · cases h
      exact ⟨before, hfirst hr (by simp), rfl, rfl⟩
    · have hlen : Text.byteLength before + Text.byteLength (a ++ ['\n']) =
          Text.byteLength (before ++ (a ++ ['\n'])) := by simp
      have hcount : before.count '\n' + 1 = (before ++ (a ++ ['\n'])).count '\n' := by
        simp [List.count_eq_zero_of_not_mem ha]
      rw [hlen, hcount] at h
      exact lineStart_of_mem r (by simp [htext, hr]) (.inr (by simp)) h
  · cases rest with
    | nil => simp [Text.linesWithEnds, lineStarts] at h
    | cons c r =>
      rw [Text.linesWithEnds_eq_singleton hn (List.cons_ne_nil c r)] at h
      simp only [lineStarts, List.zipIdx_cons, List.zipIdx_nil, List.mem_singleton,
        Prod.mk.injEq] at h
      exact ⟨before, hfirst rfl (List.cons_ne_nil c r), h⟩
termination_by rest.length
decreasing_by simp [hr]; omega

theorem length_lineStarts (offset : Nat) (ls : List (List Char)) :
    (lineStarts offset ls).length = ls.length := by
  induction ls generalizing offset with
  | nil => rfl
  | cons l ls ih => simp [lineStarts, ih]

/-- If every line starts with a place of the same line of the source, lines map to themselves. -/
theorem lineTable_eq {r : Rendering} {source : List Char}
    (h : ∀ b, Text.LineStart r.text b →
      (Text.lineCol source (r.origin (Text.byteLength b)).offset).1 = b.count '\n' + 1) :
    r.lineTable source =
      (List.range (Text.linesWithEnds r.text).length).map fun i => (i + 1, i + 1) := by
  have hrow (x : Nat × Nat) (hx : x ∈ (lineStarts 0 (Text.linesWithEnds r.text)).zipIdx) :
      (x.2 + 1, (Text.lineCol source (r.origin x.1).offset).1) = (x.2 + 1, x.2 + 1) := by
    obtain ⟨start, i⟩ := x
    obtain ⟨b, hb, rfl, rfl⟩ := lineStart_of_mem r.text (List.nil_append _).symm (.inl rfl) hx
    simp [h b hb]
  have hsnd : (fun x : Nat × Nat => (x.2 + 1, x.2 + 1)) =
      (fun i => (i + 1, i + 1)) ∘ Prod.snd := rfl
  rw [lineTable, List.map_congr_left hrow, hsnd, ← List.map_map, List.zipIdx_map_snd,
    length_lineStarts, List.range_eq_range']

end Rendering

namespace InstrumentedFile

open Source (Scan Braces)

variable {f : InstrumentedFile}

theorem mem_externInsertions {i : Rendering.Insertion} (h : i ∈ f.externInsertions) :
    i.offset = f.source.scan.innerAttrsEnd ∧ i.anchor = f.source.scan.innerAttrsEnd := by
  unfold externInsertions at h
  split at h
  · cases h
  · rw [List.mem_singleton.mp h]
    exact ⟨rfl, rfl⟩

theorem mem_insertions {i : Rendering.Insertion} :
    i ∈ f.insertions ↔ i ∈ f.externInsertions ∨ ∃ d ∈ f.activeDecls, i ∈ d.insertions := by
  simp [insertions, List.mem_append, List.mem_flatMap]

/-- The insertions of a declaration stand around its body, for its opening brace. -/
theorem mem_declInsertions {d : InstrumentedDecl} {i : Rendering.Insertion}
    (h : i ∈ d.insertions) : i.anchor = d.decl.bodyOpen ∧
      (i.offset = d.decl.bodyOpen ∨ i.offset = d.decl.bodyClose + 1) := by
  simp only [InstrumentedDecl.insertions, List.mem_cons, List.not_mem_nil, or_false] at h
  rcases h with rfl | rfl
  · exact ⟨rfl, .inl rfl⟩
  · exact ⟨rfl, .inr rfl⟩

theorem activeDecls_subset {d : InstrumentedDecl} (h : d ∈ f.activeDecls) : d ∈ f.decls :=
  (List.mem_filter.mp h).1

/-- A file can be rendered if text is only inserted between two characters. -/
def Renders (f : InstrumentedFile) : Prop :=
  ∀ i ∈ f.insertions, Text.Boundary f.source.scan.text i.offset

theorem Renders.tagged_rendering (h : f.Renders) :
    f.rendering.tagged = Rendering.woven f.insertions 0 f.source.scan.text :=
  Rendering.tagged_ofInsertions h

theorem Renders.text_rendering (h : f.Renders) : f.rendering.text =
    (Rendering.woven f.insertions 0 f.source.scan.text).map Prod.fst := by
  rw [← h.tagged_rendering, Rendering.map_fst_tagged]

section

variable (hp : f.source.scan.Placed) (hmem : ∀ d ∈ f.decls, d.decl ∈ f.source.scan.declarations)

include hp hmem

theorem renders_of_placed : f.Renders := by
  intro i hi
  rcases mem_insertions.mp hi with hi | ⟨d, hd, hi⟩
  · rw [(mem_externInsertions hi).1]
    exact hp.inner
  · have hbraces := hp.braces _ (hmem d (activeDecls_subset hd))
    rcases (mem_declInsertions hi).2 with ho | ho <;> rw [ho]
    · exact hbraces.boundary_open
    · exact hbraces.boundary_stop

/-- The insertions of a declaration are behind the inner attributes, and its two offsets differ. -/
theorem offset_of_mem_decl {d : InstrumentedDecl} (hd : d ∈ f.activeDecls) :
    f.source.scan.innerAttrsEnd < d.decl.bodyOpen ∧ d.decl.bodyOpen < d.decl.bodyClose := by
  have hd := hmem d (activeDecls_subset hd)
  have hlt := (hp.braces _ hd).lt
  exact ⟨hp.behind _ hd, by omega⟩

/-- Up to the end of the inner attributes, no declaration has an insertion. -/
theorem insertedAt_of_le {n : Nat} (h : n ≤ f.source.scan.innerAttrsEnd) :
    Rendering.insertedAt f.insertions n = Rendering.insertedAt f.externInsertions n := by
  have hdecls :
      Rendering.insertedAt (f.activeDecls.flatMap InstrumentedDecl.insertions) n = [] := by
    refine Rendering.insertedAt_eq_nil fun i hi => ?_
    obtain ⟨d, hd, hi⟩ := List.mem_flatMap.mp hi
    have hplace := (mem_declInsertions hi).2
    have := offset_of_mem_decl hp hmem hd
    omega
  rw [insertions, Rendering.insertedAt_append, hdecls, List.append_nil]

/-- No two insertions go to one offset. -/
theorem nodup_offsets (hdistinct : (f.decls.map InstrumentedDecl.decl).Nodup) :
    (f.insertions.map Rendering.Insertion.offset).Nodup := by
  have hdecls : (f.activeDecls.flatMap fun d => [d.decl.bodyOpen, d.decl.bodyClose + 1]).Nodup := by
    have hactive : f.activeDecls.Pairwise fun a b => a.decl ≠ b.decl :=
      (List.pairwise_map.mp hdistinct).filter _
    refine List.nodup_flatMap.mpr ⟨fun d hd => ?_, hactive.imp_of_mem fun {a b} ha hb hne => ?_⟩
    · have := offset_of_mem_decl hp hmem hd
      have hne : d.decl.bodyOpen ≠ d.decl.bodyClose + 1 := by omega
      simpa using hne
    · have hapart := hp.apart_of_ne (hmem a (activeDecls_subset ha))
        (hmem b (activeDecls_subset hb)) hne
      have ha := offset_of_mem_decl hp hmem ha
      have hb := offset_of_mem_decl hp hmem hb
      intro n hna hnb
      simp only [List.mem_cons, List.not_mem_nil, or_false] at hna hnb
      omega
  have hmap : f.insertions.map Rendering.Insertion.offset =
      f.externInsertions.map Rendering.Insertion.offset ++
        f.activeDecls.flatMap fun d => [d.decl.bodyOpen, d.decl.bodyClose + 1] := by
    simp [insertions, List.map_flatMap, InstrumentedDecl.insertions]
  have hcrates : f.externInsertions.map Rendering.Insertion.offset = [] ∨
      f.externInsertions.map Rendering.Insertion.offset = [f.source.scan.innerAttrsEnd] := by
    unfold externInsertions
    split
    · exact .inl rfl
    · exact .inr rfl
  rw [hmap]
  rcases hcrates with hcrates | hcrates <;> rw [hcrates]
  · exact hdecls
  · refine List.nodup_cons.mpr ⟨fun hin => ?_, hdecls⟩
    obtain ⟨d, hd, hin⟩ := List.mem_flatMap.mp hin
    have := offset_of_mem_decl hp hmem hd
    simp only [List.mem_cons, List.not_mem_nil, or_false] at hin
    omega

/-- If no line end is inserted, a line starts with a place of the same line of the source: with
copied text, or with an insertion that stands for its own offset. -/
theorem line_origin (hlines : ∀ i ∈ f.insertions, '\n' ∉ i.text) {b : List Char}
    (hb : Text.LineStart f.rendering.text b) :
    (Text.lineCol f.source.scan.text (f.rendering.origin (Text.byteLength b)).offset).1 =
      b.count '\n' + 1 := by
  obtain ⟨⟨c, rest, htext⟩, hstart⟩ := hb
  have htagged := (renders_of_placed hp hmem).tagged_rendering
  rw [← Rendering.map_fst_tagged] at htext
  obtain ⟨pre, l, hsplit, rfl, hl⟩ := List.map_eq_append_iff.mp htext
  obtain ⟨⟨c', m⟩, post, rfl, rfl, -⟩ := List.map_eq_cons_iff.mp hl
  rw [Rendering.origin_eq hsplit]
  rw [htagged] at hsplit
  have hcopied (x : Char × Mapped) (hx : x ∈ pre) (hg : x.2.generated = true) : x.1 ≠ '\n' := by
    have hx : x ∈ Rendering.woven f.insertions 0 f.source.scan.text := by
      rw [hsplit]
      exact List.mem_append_left _ hx
    obtain ⟨i, hi, hin⟩ := Rendering.mem_woven hx hg
    exact ne_of_mem_of_not_mem hin (hlines i hi)
  rw [Rendering.count_newlines hcopied]
  obtain ⟨rest, hsource, horigin⟩ := Rendering.woven_split hsplit
  have hline := Text.lineCol_eq hsource
  rw [Nat.zero_add] at horigin
  have hanchor : m.offset = Text.byteLength (Rendering.copiedOf pre) := by
    rcases horigin with ⟨rfl, -⟩ | ⟨i, hi, hoffset, -, rfl⟩
    · rfl
    rcases mem_insertions.mp hi with hi | ⟨d, hd, hi⟩
    · obtain ⟨hend, hanchor⟩ := mem_externInsertions hi
      exact hanchor.trans (hend.symm.trans hoffset)
    obtain ⟨hanchor, hplace | hplace⟩ := mem_declInsertions hi
    · exact hanchor.trans (hplace.symm.trans hoffset)
    -- What is inserted behind a body comes after a brace, and no line starts there.
    have hbraces := hp.braces _ (hmem d (activeDecls_subset hd))
    rw [hsource, ← hplace, hoffset] at hbraces
    have hbrace := hbraces.getLast?
    rcases hstart with hnil | hlast
    · rw [List.map_eq_nil_iff.mp hnil] at hbrace
      cases hbrace
    · rw [List.getLast?_map] at hlast
      obtain ⟨⟨c, m⟩, hpre, rfl⟩ := Option.map_eq_some_iff.mp hlast
      have hm : m.generated = false :=
        Bool.eq_false_iff.mpr fun hg => hcopied _ (List.mem_of_getLast? hpre) hg rfl
      rw [Rendering.getLast?_copiedOf hpre hm] at hbrace
      cases hbrace
  rw [hanchor, hline]
  rfl

end

/-- What goes into the source at each offset: around the body of each active declaration its
splice, behind the inner attributes the crates that have to be made known, and nothing elsewhere. -/
structure Puts (f : InstrumentedFile) (put : Nat → List Char) : Prop where
  before : ∀ d ∈ f.activeDecls, put d.decl.bodyOpen = d.splice.before.toList
  after : ∀ d ∈ f.activeDecls, put (d.decl.bodyClose + 1) = d.splice.after.toList
  externs : put f.source.scan.innerAttrsEnd =
    f.externInsertions.flatMap Rendering.Insertion.text
  nothing : ∀ n, n ≠ f.source.scan.innerAttrsEnd →
    (∀ d ∈ f.activeDecls, n ≠ d.decl.bodyOpen ∧ n ≠ d.decl.bodyClose + 1) → put n = []

theorem puts_insertedAt (hp : f.source.scan.Placed)
    (hmem : ∀ d ∈ f.decls, d.decl ∈ f.source.scan.declarations)
    (hdistinct : (f.decls.map InstrumentedDecl.decl).Nodup) :
    f.Puts fun n => (Rendering.insertedAt f.insertions n).map Prod.fst := by
  have hone (i : Rendering.Insertion) (hi : i ∈ f.insertions) :
      (Rendering.insertedAt f.insertions i.offset).map Prod.fst = i.text := by
    rw [Rendering.insertedAt_offset (nodup_offsets hp hmem hdistinct) hi]
    simp
  refine ⟨fun d hd => ?_, fun d hd => ?_, ?_, fun n hn hd => ?_⟩
  · exact hone ⟨d.decl.bodyOpen, d.decl.bodyOpen, d.splice.before.toList⟩
      (mem_insertions.mpr (.inr ⟨d, hd, List.mem_cons_self⟩))
  · exact hone ⟨d.decl.bodyClose + 1, d.decl.bodyOpen, d.splice.after.toList⟩
      (mem_insertions.mpr (.inr ⟨d, hd, List.mem_cons_of_mem _ List.mem_cons_self⟩))
  · rw [insertedAt_of_le hp hmem (Nat.le_refl _), externInsertions]
    split
    · rfl
    · simp [Rendering.insertedAt_cons]
  · have hnone : Rendering.insertedAt f.insertions n = [] := by
      refine Rendering.insertedAt_eq_nil fun i hi he => ?_
      rcases mem_insertions.mp hi with hi | ⟨d, hd', hi⟩
      · exact hn (he ▸ (mem_externInsertions hi).1)
      · have hplace := (mem_declInsertions hi).2
        have := hd d hd'
        omega
    simp [hnone]

theorem insertions_perm {g : InstrumentedFile} (hsource : g.source = f.source)
    (hexterns : g.externs = f.externs) (hdecls : g.decls.Perm f.decls) :
    g.insertions.Perm f.insertions := by
  have hcrates : g.externInsertions = f.externInsertions := by
    simp [externInsertions, hsource, hexterns]
  rw [insertions, insertions, hcrates]
  exact ((hdecls.filter _).flatMap_right _).append_left _

/-- Instrumentation only inserts: a file is its source with the splices of its declarations, in
whatever order these come, and stays the same line by line if no line end is inserted. -/
theorem insertOnly {text : List Char} (hread : Scan.read text = .ok f.source.scan)
    (hmark : Source.OneMark text) (hmem : ∀ d ∈ f.decls, d.decl ∈ f.source.scan.declarations)
    (hdistinct : (f.decls.map InstrumentedDecl.decl).Nodup) :
    (∃ put, f.Puts put ∧ f.text = String.ofList (Text.withInserted put 0 text)) ∧
    f.rendering.withoutInserted.text = text ∧
    (∀ g : InstrumentedFile, g.source = f.source → g.externs = f.externs →
      g.decls.Perm f.decls → g.rendering = f.rendering) ∧
    (f.externs = [] → f.activeDecls = [] → f.text = String.ofList text) ∧
    ((∀ i ∈ f.insertions, '\n' ∉ i.text) →
      f.rendering.text.count '\n' = text.count '\n' ∧
      f.lineTable = (List.range (Text.linesWithEnds f.rendering.text).length).map
        fun i => (i + 1, i + 1)) := by
  have hp := Scan.placed_of_read hread hmark
  obtain rfl := Scan.text_of_read hread
  have hrenders := renders_of_placed hp hmem
  have htagged := hrenders.tagged_rendering
  have hcopied : Rendering.copiedOf f.rendering.tagged = f.source.scan.text := by
    rw [htagged, Rendering.copiedOf_woven]
  refine ⟨⟨_, puts_insertedAt hp hmem hdistinct, ?_⟩, ?_, ?_, ?_, ?_⟩
  · rw [text, hrenders.text_rendering, Rendering.map_fst_woven]
  · rw [Rendering.text_withoutInserted, hcopied]
  · intro g hsource hexterns hdecls
    have hunique := List.inj_on_of_nodup_map (nodup_offsets hp hmem hdistinct)
    rw [rendering, rendering, hsource]
    refine (Rendering.ofInsertions_perm (insertions_perm hsource hexterns hdecls).symm ?_ _).symm
    exact fun i hi j hj => hunique hi hj
  · intro hexterns hactive
    have hnone : f.insertions = [] := by
      simp [insertions, externInsertions, hexterns, hactive]
    rw [text, hrenders.text_rendering, hnone, Rendering.woven_nil, Segment.map_fst_copiedFrom]
  · intro hlines
    refine ⟨?_, Rendering.lineTable_eq fun b hb => line_origin hp hmem hlines hb⟩
    rw [← hcopied, ← Rendering.count_newlines fun x hx hg => ?_, Rendering.map_fst_tagged]
    rw [htagged] at hx
    obtain ⟨i, hi, hin⟩ := Rendering.mem_woven hx hg
    exact ne_of_mem_of_not_mem hin (hlines i hi)

/-- A file whose functions all have one stage. -/
def staged (scan : Scan) : InstrumentedFile where
  package := 0
  source := ⟨⟨"/lib.rs"⟩, scan⟩
  externs := ["hooks"]
  decls := scan.declarations.map fun d => .ofStages "store" d [{ rule := {
    id := "mark"
    order := 0
    source := "rules.toml"
    importPath := "store"
    receiver := .any
    function := d.name
    params := .any
    results := .any
    onEnter := some ⟨"hooks", "enter"⟩
    onExit := none
    version := {}
    rustc := none
    requires := []
    fusible := true
    captures := []
    hookCrate := ⟨"hooks", ⟨"hooks"⟩⟩ } }]

/-- A file with a mark, an inner attribute and a function, with insertions behind both. -/
theorem staged_insertOnly :
    ∃ scan, Scan.read "\uFEFF#![a]\nfn f() {}".toList = .ok scan ∧
      (staged scan).activeDecls.length = 1 ∧
      (∃ put, (staged scan).Puts put ∧ (staged scan).text =
        String.ofList (Text.withInserted put 0 "\uFEFF#![a]\nfn f() {}".toList)) ∧
      (staged scan).rendering.withoutInserted.text = "\uFEFF#![a]\nfn f() {}".toList := by
  have hsample : (Scan.read "\uFEFF#![a]\nfn f() {}".toList).toOption.any (fun scan =>
      decide ((staged scan).activeDecls.length = 1 ∧
        (∀ d ∈ (staged scan).decls, d.decl ∈ scan.declarations) ∧
        ((staged scan).decls.map InstrumentedDecl.decl).Nodup)) = true := by decide +kernel
  obtain ⟨scan, hread, hsample⟩ := exists_ok_of_any hsample
  obtain ⟨hactive, hmem, hdistinct⟩ := of_decide_eq_true hsample
  obtain ⟨hputs, hback, -⟩ :=
    insertOnly (f := staged scan) hread (by decide +kernel) hmem hdistinct
  exact ⟨scan, hread, hactive, hputs, hback⟩

end InstrumentedFile
end Instrumentation
