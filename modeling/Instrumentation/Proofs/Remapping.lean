import Instrumentation.Compiler.Remapping
import Instrumentation.Proofs.Isolation
import Instrumentation.Proofs.NormalPaths

/-!
The way back from the working copy. Copies lie apart from each other, so a file in one of them comes
from one place; what the compiler says of it is told of that place, through the text that was
inserted if a modified file is written there.
-/
namespace Instrumentation

namespace WorkingCopy

variable {w : WorkingCopy} {spot : Place} {p : Path}

/-- The copies of a working copy lie in its directory, apart from each other, and their sources are
named from the root. -/
structure IsLaid (w : WorkingCopy) (spot : Place) : Prop extends IsPlaced w spot where
  apart : w.CopiesApart
  absolute : ∀ r ∈ w.relocations, r.source.isAbsolute = true

theorem IsSpot.ne_nil {names : Place} (h : IsSpot names) : names ≠ [] := by cases h <;> simp

theorem IsLaid.source_ne_nil (h : w.IsLaid spot) {r : Relocation} (hr : r ∈ w.relocations) :
    r.source.components ≠ [] := by
  simp [Path.components_of_isAbsolute (h.absolute r hr)]

/-- A place lies in one copy only. -/
theorem IsLaid.eq_of_prefix (h : w.IsLaid spot) {r r' : Relocation} (hr : r ∈ w.relocations)
    (hr' : r' ∈ w.relocations) {place place' xs ys : Place} (hat : r.copy.IsAt place)
    (hat' : r'.copy.IsAt place') (heq : place ++ xs = place' ++ ys) : r = r' := by
  refine h.apart r hr r' hr' (xs.map .name) (ys.map .name) ?_
  rw [hat.components_eq, hat'.components_eq, List.cons_append, List.cons_append, ← List.map_append,
    ← List.map_append, heq]

/-- What is in a copy comes from the directory that was copied. -/
theorem exists_sourcePath? (hapart : w.CopiesApart) {r : Relocation} (hr : r ∈ w.relocations)
    (hcopy : r.copy.components ≠ []) (hsource : r.source.components ≠ [])
    {cs : List PathComponent} (hp : p.components = r.copy.components ++ cs) :
    ∃ source, w.sourcePath? p = some source ∧ source.components = r.source.components ++ cs := by
  have hstarts : p.startsWith r.copy = true := by
    rw [Path.startsWith, List.isPrefixOf_iff_prefix, hp]
    exact List.prefix_append _ _
  have hreversed : r.reversed ∈ w.relocations.map Relocation.reversed := List.mem_map_of_mem hr
  obtain ⟨s, hs⟩ := Relocation.exists_covering hreversed hstarts
  obtain ⟨hmem, hcovers, -⟩ := Relocation.covering?_eq_some hs
  obtain ⟨r', hr', rfl⟩ := List.mem_map.mp hmem
  obtain ⟨rest', hrest'⟩ := List.isPrefixOf_iff_prefix.mp hcovers
  obtain rfl : r' = r := hapart r' hr' r hr rest' cs (hrest'.trans hp)
  obtain ⟨rest, hrest⟩ := Path.exists_strip hstarts
  refine ⟨r'.source.join rest.text, ?_, ?_⟩
  · simp [sourcePath?, Relocation.move?, hs, Relocation.reversed, hrest]
  · rw [Path.components_join_strip hrest hcopy hsource, hp, List.drop_left]

/-- A file in a copy comes from the directory that was copied. -/
theorem IsLaid.sourcePath?_eq (h : w.IsLaid spot) {r : Relocation} (hr : r ∈ w.relocations)
    {place names : Place} (hat : r.copy.IsAt place) (hp : p.IsAt (place ++ names)) :
    ∃ source, w.sourcePath? p = some source ∧
      source.components = r.source.components ++ names.map .name := by
  refine exists_sourcePath? h.apart hr hat.components_ne_nil (h.source_ne_nil hr) ?_
  rw [hp.components_eq, hat.components_eq, List.map_append, List.cons_append]

/-- A file outside the copies comes from nowhere. -/
theorem sourcePath?_eq_none (h : ∀ r ∈ w.relocations, ¬ p.startsWith r.copy = true) :
    w.sourcePath? p = none := by
  by_contra hsome
  obtain ⟨source, hsource⟩ := Option.ne_none_iff_exists'.mp hsome
  obtain ⟨r, rest, hr, -, -⟩ := Relocation.move?_eq_some hsource
  obtain ⟨hmem, hstarts, -⟩ := Relocation.covering?_eq_some hr
  obtain ⟨r', hr', rfl⟩ := List.mem_map.mp hmem
  exact h r' hr' hstarts

/-- A path and its copy go on alike from the directory that is copied and from its copy. -/
theorem exists_of_copyPath? {target : Path}
    (hsources : ∀ r ∈ w.relocations, r.source.components ≠ [])
    (hcopies : ∀ r ∈ w.relocations, r.copy.components ≠ []) (h : w.copyPath? p = some target) :
    ∃ r cs, Relocation.covering? w.relocations p = some r ∧
      p.components = r.source.components ++ cs ∧ target.components = r.copy.components ++ cs := by
  obtain ⟨r, rest, hr, hrest, rfl⟩ := Relocation.move?_eq_some h
  obtain ⟨hmem, hstarts, -⟩ := Relocation.covering?_eq_some hr
  obtain ⟨cs, hcs⟩ := List.isPrefixOf_iff_prefix.mp hstarts
  refine ⟨r, cs, hr, hcs.symm, ?_⟩
  rw [Path.components_join_strip hrest (hsources r hmem) (hcopies r hmem), ← hcs, List.drop_left]

/-- A path without steps up is copied by names only. -/
theorem IsLaid.copyPath?_eq_some (h : w.IsLaid spot) {target : Path} (hup : .up ∉ p.components)
    (hp : w.copyPath? p = some target) :
    ∃ r place names, Relocation.covering? w.relocations p = some r ∧ r.copy.IsAt place ∧
      target.IsAt (place ++ names) ∧ p.components = r.source.components ++ names.map .name := by
  have hcopies : ∀ r ∈ w.relocations, r.copy.components ≠ [] := fun r hr => by
    obtain ⟨names, -, hat⟩ := h.spots r hr
    exact hat.components_ne_nil
  obtain ⟨r, cs, hr, hsource, htarget⟩ := exists_of_copyPath? (fun _ => h.source_ne_nil) hcopies hp
  have hmem := (Relocation.covering?_eq_some hr).1
  obtain ⟨spotNames, -, hat⟩ := h.spots r hmem
  have hpos := List.length_pos_iff.mpr (h.source_ne_nil hmem)
  obtain ⟨names, hnames⟩ := Path.exists_names_of_drop hpos fun hdrop =>
    hup (List.mem_of_mem_drop hdrop)
  rw [hsource, List.drop_left] at hnames
  subst hnames
  refine ⟨r, _, names, hr, hat, ?_, hsource⟩
  rw [Path.IsAt, htarget, hat.components_eq, List.cons_append, ← List.map_append]

end WorkingCopy

/-- The directories of a program are named from the root. -/
structure PackageGraph.IsRooted (g : PackageGraph) : Prop where
  workspace : g.workspaceRoot.isAbsolute = true
  dirs : ∀ p ∈ g.packages, p.rootDir.isAbsolute = true

instance (g : PackageGraph) : Decidable g.IsRooted :=
  decidable_of_iff
    (g.workspaceRoot.isAbsolute = true ∧ ∀ p ∈ g.packages, p.rootDir.isAbsolute = true)
    ⟨fun ⟨hworkspace, hdirs⟩ => ⟨hworkspace, hdirs⟩, fun h => ⟨h.workspace, h.dirs⟩⟩

theorem WorkingCopy.Made.isLaid {which : Place → Prop} {t₀ t : FileTree} {spot : Place}
    {base : Path} {g : PackageGraph} {plan : Plan} {d : Draft} (hrooted : g.IsRooted)
    (h : Made which t₀ spot base g (copiedPackages g plan) d t) : d.copy.IsLaid spot where
  toIsPlaced := h.isPlaced
  apart := h.spread.copiesApart
  absolute := by
    intro r hr
    have hmem : r.source ∈ d.copy.relocations.map Relocation.source := List.mem_map_of_mem hr
    rw [h.sources] at hmem
    rcases List.mem_cons.mp hmem with he | hmem
    · exact he ▸ hrooted.workspace
    · obtain ⟨p, hp, he⟩ := List.mem_map.mp hmem
      exact he ▸ hrooted.dirs p (mem_packages_of_copied hp)

namespace Remapping

variable {w : WorkingCopy} {spot : Place} {files : List InstrumentedFile} {s : Span} {source : Path}

/-- The path of a span's file, seen from the root. -/
def named (w : WorkingCopy) (s : Span) : Path :=
  if s.file.isAbsolute then s.file else w.root.join s.file.text

theorem fileInCopy_eq : fileInCopy w s = (named w s).normalize := rfl

theorem isAbsolute_named (hbase : w.base.IsAt spot) (s : Span) :
    (named w s).isAbsolute = true := by
  unfold named
  split
  · assumption
  · next hrelative =>
    have hroot : w.root.IsAt (spot ++ ["ws"]) := hbase.div (by decide)
    have hslash : s.file.text.toList.head? ≠ some '/' := by
      simpa [Path.isAbsolute] using hrelative
    rw [Path.isAbsolute_iff, Path.components_join hroot.components_ne_nil hslash,
      hroot.components_eq]
    simp

/-- Of the modified files that name a path, the last one counts. -/
theorem modifiedAt?_eq_some {before after : List InstrumentedFile} {f : InstrumentedFile}
    (hmodified : f.isModified = true) (hsame : f.path.normalize.same source = true)
    (hlast : ∀ f' ∈ after, f'.isModified = true → ¬ f'.path.normalize.same source = true) :
    modifiedAt? (before ++ f :: after) source = some f := by
  have hnone : (after.filter fun f' => f'.isModified && f'.path.normalize.same source) = [] := by
    simpa [List.filter_eq_nil_iff] using hlast
  simp [modifiedAt?, List.filter_append, hmodified, hsame, hnone]

theorem modifiedAt?_eq_none
    (h : ∀ f ∈ files, f.isModified = true → ¬ f.path.normalize.same source = true) :
    modifiedAt? files source = none := by
  have hnone : (files.filter fun f => f.isModified && f.path.normalize.same source) = [] := by
    simpa [List.filter_eq_nil_iff] using h
  rw [modifiedAt?, hnone, List.getLast?_nil]

/-- A span outside the copies stays what it was. -/
theorem position_outside (hlaid : w.IsLaid spot)
    (hout : ∀ r ∈ w.relocations, ∀ place, r.copy.IsAt place → ¬ place <+: (named w s).lead []) :
    position w files s = ⟨s.file, s.line, s.column, false⟩ := by
  obtain ⟨ups, hups, hcomponents, -⟩ :=
    Path.components_normalize (isAbsolute_named hlaid.base s) []
  have hnone : w.sourcePath? (fileInCopy w s) = none := by
    refine WorkingCopy.sourcePath?_eq_none fun r hr hstarts => ?_
    obtain ⟨names, hspot, hat⟩ := hlaid.spots r hr
    rcases hups with rfl | rfl
    · exact hout r hr _ hat ((Path.IsAt.startsWith_iff hcomponents hat).mp hstarts)
    · -- a copy is not reached by a step up
      obtain ⟨name, rest, hcons⟩ := List.exists_cons_of_ne_nil
        (List.append_ne_nil_of_right_ne_nil spot hspot.ne_nil)
      rw [Path.startsWith, List.isPrefixOf_iff_prefix, fileInCopy_eq, hcomponents,
        hat.components_eq, hcons] at hstarts
      simp at hstarts
  rw [position, hnone]

/-- A span in a copy leads back to the path that the copy was made from. -/
theorem sourcePath?_fileInCopy (hlaid : w.IsLaid spot) {r : Relocation} (hr : r ∈ w.relocations)
    {place names : Place} (hat : r.copy.IsAt place) (hstays : (named w s).StaysBelowRoot)
    (hlead : (named w s).lead [] = place ++ names) :
    ∃ source, w.sourcePath? (fileInCopy w s) = some source ∧
      source.components = r.source.components ++ names.map .name := by
  have hfile := Path.isAt_normalize (isAbsolute_named hlaid.base s) hstays []
  rw [hlead] at hfile
  exact hlaid.sourcePath?_eq hr hat hfile

/-- A span of the file that a modified file is copied to is told of by what was inserted there. -/
theorem position_of_copyPath (hlaid : w.IsLaid spot) {before after : List InstrumentedFile}
    {f : InstrumentedFile} (hmodified : f.isModified = true) (hup : .up ∉ f.path.components)
    (hlast : ∀ f' ∈ after, f'.isModified = true →
      ¬ f'.path.normalize.same f.path.normalize = true)
    {target : Path} (htarget : w.copyPath? f.path = some target)
    (hstays : (named w s).StaysBelowRoot) (hlead : (named w s).lead [] = target.lead []) :
    position w (before ++ f :: after) s = f.toSource s.line s.column := by
  obtain ⟨r, place, names, hcovers, hat, hcopy, hpath⟩ := hlaid.copyPath?_eq_some hup htarget
  have hr := (Relocation.covering?_eq_some hcovers).1
  rw [hcopy.lead] at hlead
  obtain ⟨source, hback, hsource⟩ := sourcePath?_fileInCopy hlaid hr hat hstays hlead
  have habs : f.path.isAbsolute = true := by
    rw [Path.isAbsolute_iff, hpath, Path.components_of_isAbsolute (hlaid.absolute r hr)]
    simp
  obtain ⟨there, hthere⟩ := Path.exists_isAt habs hup
  have hnormal : f.path.normalize.components = source.components := by
    rw [hthere.normalize.components_eq, ← hthere.components_eq, hpath, hsource]
  have hsame : f.path.normalize.same source = true := by rw [Path.same, hnormal, beq_self_eq_true]
  have hfound : modifiedAt? (before ++ f :: after) source = some f := by
    refine modifiedAt?_eq_some hmodified hsame fun f' hf' hmodified' hsame' => ?_
    refine hlast f' hf' hmodified' ?_
    rw [Path.same, beq_iff_eq] at hsame' ⊢
    exact hsame'.trans hnormal.symm
  simp only [position, hback, hfound]

/-- A span of another file of a copy is told of the file that this one was copied from. -/
theorem position_of_unmodified (hlaid : w.IsLaid spot) {r : Relocation} (hr : r ∈ w.relocations)
    {place names : Place} (hat : r.copy.IsAt place) (hstays : (named w s).StaysBelowRoot)
    (hlead : (named w s).lead [] = place ++ names)
    (hother : ∀ f ∈ files, f.isModified = true →
      f.path.normalize.components ≠ r.source.components ++ names.map .name) :
    ∃ source : Path, source.components = r.source.components ++ names.map .name ∧
      position w files s = ⟨source, s.line, s.column, false⟩ := by
  obtain ⟨source, hback, hsource⟩ := sourcePath?_fileInCopy hlaid hr hat hstays hlead
  refine ⟨source, hsource, ?_⟩
  have hnone : modifiedAt? files source = none :=
    modifiedAt?_eq_none fun f hf hmodified hsame => by
      rw [Path.same, beq_iff_eq, hsource] at hsame
      exact hother f hf hmodified hsame
  simp only [position, hback, hnone]

/-- The first primary span is taken out of the others, which keep their order. -/
theorem splitPrimary_eq (spans : List Span) :
    (splitPrimary spans = (none, spans) ∧ ∀ s ∈ spans, s.isPrimary = false) ∨
    ∃ before s after, spans = before ++ s :: after ∧ (∀ u ∈ before, u.isPrimary = false) ∧
      s.isPrimary = true ∧ splitPrimary spans = (some s, before ++ after) := by
  induction spans with
  | nil => exact .inl ⟨rfl, by simp⟩
  | cons u rest ih =>
    cases hu : u.isPrimary with
    | true => exact .inr ⟨[], u, rest, rfl, by simp, hu, by simp [splitPrimary, hu]⟩
    | false =>
      rcases ih with ⟨hsplit, hnone⟩ | ⟨before, s, after, rfl, hbefore, hs, hsplit⟩
      · exact .inl ⟨by simp [splitPrimary, hu, hsplit], by simpa [hu] using hnone⟩
      · exact .inr ⟨u :: before, s, after, rfl, by simpa [hu] using hbefore, hs,
          by simp [splitPrimary, hu, hsplit]⟩

/-- What the compiler says of a working copy is told of the program: only places change, each span
has one, and the first primary one goes in front. A span in the copy of a modified file is told of
as the file says, one in a copy of a file that no modified file has the path of keeps its line and
column, and one outside the copies is left alone. -/
theorem diagnostic_faithful {t₀ t : FileTree} {base : Path} {g : PackageGraph}
    {plan : WorkingCopy.Plan} (hbase : base.IsAt spot) (hproper : t₀.IsProper)
    (hlabels : ∀ p ∈ g.packages, '/' ∉ p.label.toList) (hrooted : g.IsRooted)
    (hw : WorkingCopy.materialize t₀ base g plan = .ok (t, w)) (files : List InstrumentedFile) :
    (∀ d : RawDiagnostic,
      (diagnostic w files d).level = d.level ∧ (diagnostic w files d).code = d.code ∧
      (diagnostic w files d).message = d.message ∧
      (((∀ s ∈ d.spans, s.isPrimary = false) ∧ (diagnostic w files d).primary = none ∧
          (diagnostic w files d).secondary = d.spans.map (position w files)) ∨
        ∃ before s after, d.spans = before ++ s :: after ∧ (∀ u ∈ before, u.isPrimary = false) ∧
          s.isPrimary = true ∧ (diagnostic w files d).primary = some (position w files s) ∧
          (diagnostic w files d).secondary = (before ++ after).map (position w files))) ∧
    (∀ before f after, files = before ++ f :: after → f.isModified = true →
      .up ∉ f.path.components →
      (∀ f' ∈ after, f'.isModified = true → ¬ f'.path.normalize.same f.path.normalize = true) →
      ∀ target, w.copyPath? f.path = some target →
      ∀ s, (named w s).StaysBelowRoot → (named w s).lead [] = target.lead [] →
        position w files s = f.toSource s.line s.column) ∧
    (∀ r ∈ w.relocations, ∀ place names : Place, r.copy.IsAt place →
      (∀ f ∈ files, f.isModified = true →
        f.path.normalize.components ≠ r.source.components ++ names.map .name) →
      ∀ s, (named w s).StaysBelowRoot → (named w s).lead [] = place ++ names →
        ∃ source : Path, source.components = r.source.components ++ names.map .name ∧
          position w files s = ⟨source, s.line, s.column, false⟩) ∧
    ∀ s, (∀ r ∈ w.relocations, ∀ place, r.copy.IsAt place → ¬ place <+: (named w s).lead []) →
      position w files s = ⟨s.file, s.line, s.column, false⟩ := by
  obtain ⟨draft, rfl, hmade⟩ :=
    (WorkingCopy.made_copyProgram hbase hproper hlabels).of_result rfl hw
  have hlaid := hmade.isLaid hrooted
  refine ⟨fun d => ⟨rfl, rfl, rfl, ?_⟩, ?_, ?_, fun s => position_outside hlaid⟩
  · rcases splitPrimary_eq d.spans with
      ⟨hsplit, hnone⟩ | ⟨before, s, after, hspans, hbefore, hs, hsplit⟩
    · exact .inl ⟨hnone, by simp [diagnostic, hsplit], by simp [diagnostic, hsplit]⟩
    · exact .inr ⟨before, s, after, hspans, hbefore, hs, by simp [diagnostic, hsplit],
        by simp [diagnostic, hsplit]⟩
  · rintro before f after rfl hmodified hup hlast target htarget s hstays hlead
    exact position_of_copyPath hlaid hmodified hup hlast htarget hstays hlead
  · intro r hr place names hat hother s hstays hlead
    exact position_of_unmodified hlaid hr hat hstays hlead hother

/-- A program whose workspace lies in the directory of a package that it depends on. -/
def nestedTree : FileTree where
  files := [(["q", "Cargo.toml"], .text ""), (["q", "ws", "Cargo.toml"], .text ""),
    (["q", "ws", "src", "lib.rs"], .text "fn f() {}")]
  dirs := [["t"]]

def pathPackage (name : String) (manifest : Path) (isMember : Bool) : Package where
  id := name
  name := name
  crateName := name
  version := { major := 0, minor := 1, patch := 0 }
  manifestPath := manifest
  libRoot := none
  binRoots := []
  edition := "2021"
  source := .path
  isMember := isMember

def nestedGraph : PackageGraph where
  workspaceRoot := ⟨"/q/ws"⟩
  packages := [pathPackage "app" ⟨"/q/ws/Cargo.toml"⟩ true, pathPackage "q" ⟨"/q/Cargo.toml"⟩ false]
  deps := [[1], []]
  rustc := none

/-- The file of the workspace with a crate to make known. -/
def nestedFile (scan : Source.Scan) : InstrumentedFile where
  package := 0
  source := ⟨⟨"/q/ws/src/lib.rs"⟩, scan⟩
  externs := ["a"]

/-- Dots in a path of the workspace are followed, a file that is not modified keeps its places, and
so does a file of the language itself. -/
theorem nestedFile_faithful : ∃ t w scan,
    WorkingCopy.materialize nestedTree ⟨"/t"⟩ nestedGraph WorkingCopy.barePlan = .ok (t, w) ∧
    Source.Scan.read "fn f() {}".toList = .ok scan ∧
    position w [nestedFile scan] ⟨⟨"src/./../src/lib.rs"⟩, 1, 20, true⟩ =
      (nestedFile scan).toSource 1 20 ∧
    (∃ source : Path, source.components = (⟨"/q/Cargo.toml"⟩ : Path).components ∧
      position w [nestedFile scan] ⟨⟨"/t/deps/q-0.1.0/Cargo.toml"⟩, 2, 3, true⟩ =
        ⟨source, 2, 3, false⟩) ∧
    position w [nestedFile scan] ⟨⟨"/rust/core.rs"⟩, 4, 5, false⟩ =
      ⟨⟨"/rust/core.rs"⟩, 4, 5, false⟩ := by
  let dotted : Span := ⟨⟨"src/./../src/lib.rs"⟩, 1, 20, true⟩
  let manifest : Span := ⟨⟨"/t/deps/q-0.1.0/Cargo.toml"⟩, 2, 3, true⟩
  let core : Span := ⟨⟨"/rust/core.rs"⟩, 4, 5, false⟩
  let inner : Relocation := ⟨⟨"/q/ws"⟩, ⟨"/t/ws"⟩⟩
  let outer : Relocation := ⟨⟨"/q"⟩, ⟨"/t/deps/q-0.1.0"⟩⟩
  have hmade : (WorkingCopy.materialize nestedTree ⟨"/t"⟩ nestedGraph
      WorkingCopy.barePlan).toOption.any (fun r => decide (r.2.relocations = [inner, outer] ∧
        r.2.copyPath? ⟨"/q/ws/src/lib.rs"⟩ = some ⟨"/t/ws/src/lib.rs"⟩ ∧
        (named r.2 dotted).StaysBelowRoot ∧
        (named r.2 dotted).lead [] = ["t", "ws", "src", "lib.rs"])) = true := by decide +kernel
  obtain ⟨⟨t, w⟩, hw, hfacts⟩ := exists_ok_of_any hmade
  obtain ⟨hrelocations, htarget, hstays, hlead⟩ := of_decide_eq_true hfacts
  have hscan : (Source.Scan.read "fn f() {}".toList).toOption.any (fun _ => true) = true := by
    decide +kernel
  obtain ⟨scan, hread, -⟩ := exists_ok_of_any hscan
  have hbase : (⟨"/t"⟩ : Path).IsAt ["t"] := by decide
  obtain ⟨-, hcopied, hother, houtside⟩ :=
    diagnostic_faithful hbase (by decide) (by decide) (by decide) hw [nestedFile scan]
  refine ⟨t, w, scan, hw, hread, ?_, ?_, ?_⟩
  · have hup : .up ∉ (⟨"/q/ws/src/lib.rs"⟩ : Path).components := by decide
    refine hcopied [] (nestedFile scan) [] rfl rfl hup (by simp) _ htarget dotted hstays ?_
    rw [hlead]
    decide
  · have hnamed : named w manifest = manifest.file := if_pos (by decide)
    have hstraight : manifest.file.IsAt (["t", "deps", "q-0.1.0"] ++ ["Cargo.toml"]) := by decide
    have hunmodified : ∀ f ∈ [nestedFile scan], f.isModified = true → f.path.normalize.components ≠
        outer.source.components ++ ["Cargo.toml"].map .name := by
      intro f hf _
      obtain rfl := List.mem_singleton.mp hf
      change (⟨"/q/ws/src/lib.rs"⟩ : Path).normalize.components ≠ _
      decide +kernel
    have houter : outer ∈ w.relocations := by
      rw [hrelocations]
      simp
    obtain ⟨source, hsource, hposition⟩ := hother outer houter _ _ (by decide) hunmodified
      manifest (hnamed ▸ hstraight.staysBelowRoot) (hnamed ▸ hstraight.lead [])
    exact ⟨source, hsource.trans (by decide), hposition⟩
  · have hnamed : named w core = core.file := if_pos (by decide)
    refine houtside core fun r hr place hat => ?_
    rw [hrelocations] at hr
    rcases List.mem_cons.mp hr with rfl | hr
    · obtain rfl := hat.eq (by decide : inner.copy.IsAt ["t", "ws"])
      rw [hnamed]
      decide
    · obtain rfl := List.mem_singleton.mp hr
      obtain rfl := hat.eq (by decide : outer.copy.IsAt ["t", "deps", "q-0.1.0"])
      rw [hnamed]
      decide

/-- A file of the workspace is copied twice, and written once. A place in the other copy, which
holds what the source holds, is told of as if instrumentation stood there. -/
theorem second_copy_misread : ∃ t w scan,
    WorkingCopy.materialize nestedTree ⟨"/t"⟩ nestedGraph WorkingCopy.barePlan = .ok (t, w) ∧
    Source.Scan.read "fn f() {}".toList = .ok scan ∧
    w.copyPath? (nestedFile scan).path = some ⟨"/t/ws/src/lib.rs"⟩ ∧
    ((w.writeFiles [nestedFile scan]).on t).2.fileAt?
      ["t", "deps", "q-0.1.0", "ws", "src", "lib.rs"] = some (.text "fn f() {}") ∧
    position w [nestedFile scan] ⟨⟨"/t/deps/q-0.1.0/ws/src/lib.rs"⟩, 1, 4, true⟩ =
      ⟨⟨"/q/ws/src/lib.rs"⟩, 1, 1, true⟩ := by
  have hsample : (Source.Scan.read "fn f() {}".toList).toOption.any (fun scan =>
      (WorkingCopy.materialize nestedTree ⟨"/t"⟩ nestedGraph WorkingCopy.barePlan).toOption.any
        fun r => decide (r.2.copyPath? (nestedFile scan).path = some ⟨"/t/ws/src/lib.rs"⟩ ∧
          ((r.2.writeFiles [nestedFile scan]).on r.1).2.fileAt?
            ["t", "deps", "q-0.1.0", "ws", "src", "lib.rs"] = some (.text "fn f() {}") ∧
          position r.2 [nestedFile scan] ⟨⟨"/t/deps/q-0.1.0/ws/src/lib.rs"⟩, 1, 4, true⟩ =
            ⟨⟨"/q/ws/src/lib.rs"⟩, 1, 1, true⟩)) = true := by decide +kernel
  obtain ⟨scan, hread, hmade⟩ := exists_ok_of_any hsample
  obtain ⟨⟨t, w⟩, hw, hfacts⟩ := exists_ok_of_any hmade
  exact ⟨t, w, scan, hw, hread, of_decide_eq_true hfacts⟩

end Remapping
end Instrumentation
