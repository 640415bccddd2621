import Instrumentation.ModuleFile
import Instrumentation.Proofs.WorkingCopy
import Instrumentation.WorkingCopy.Files

/-!
What is written for a working copy stays in its directory: the copies themselves, the report, and
every instrumented file whose path does not lead out of the working copy by its own dots.
-/
namespace Instrumentation

namespace Relocation

variable {rs : List Relocation} {r : Relocation} {p target : Path}

theorem foldl_deeper (rs : List Relocation) (r : Relocation) :
    rs.foldl deeper r ∈ r :: rs ∧ ∀ r' ∈ r :: rs, r'.depth ≤ (rs.foldl deeper r).depth := by
  induction rs generalizing r with
  | nil => simp
  | cons s rs ih =>
    obtain ⟨hmem, hdeep⟩ := ih (deeper r s)
    rw [List.foldl_cons]
    have hfirst : deeper r s = r ∨ deeper r s = s := by
      unfold deeper
      split <;> simp
    have hle : r.depth ≤ (deeper r s).depth ∧ s.depth ≤ (deeper r s).depth := by
      unfold deeper
      split <;> omega
    have hhead := hdeep (deeper r s) (by simp)
    constructor
    · rcases List.mem_cons.mp hmem with he | hmem
      · rw [he]
        rcases hfirst with he | he <;> simp [he]
      · simp [hmem]
    · intro r' hr'
      rcases List.mem_cons.mp hr' with rfl | hr'
      · omega
      · rcases List.mem_cons.mp hr' with rfl | hr'
        · omega
        · exact hdeep r' (List.mem_cons_of_mem _ hr')

/-- The deepest of the relocations whose directory holds a path. -/
theorem covering?_eq_some (h : covering? rs p = some r) :
    r ∈ rs ∧ p.startsWith r.source = true ∧
      ∀ r' ∈ rs, p.startsWith r'.source = true → r'.depth ≤ r.depth := by
  unfold covering? at h
  split at h
  · cases h
  · next s rest hfilter =>
    obtain rfl := Option.some.inj h
    obtain ⟨hmem, hdeep⟩ := foldl_deeper rest s
    rw [← hfilter] at hmem hdeep
    obtain ⟨hmem, hstarts⟩ := List.mem_filter.mp hmem
    exact ⟨hmem, hstarts, fun r' hr' hs => hdeep r' (List.mem_filter.mpr ⟨hr', hs⟩)⟩

theorem exists_covering (hr : r ∈ rs) (hp : p.startsWith r.source = true) :
    ∃ r', covering? rs p = some r' := by
  have hmem : r ∈ rs.filter fun r => p.startsWith r.source := List.mem_filter.mpr ⟨hr, hp⟩
  unfold covering?
  split
  · next hnil => simp [hnil] at hmem
  · exact ⟨_, rfl⟩

theorem move?_eq_some (h : move? rs p = some target) :
    ∃ r rest, covering? rs p = some r ∧ p.strip? r.source = some rest ∧
      target = r.copy.join rest.text := by
  obtain ⟨r, hr, h⟩ := Option.bind_eq_some_iff.mp h
  obtain ⟨rest, hrest, h⟩ := Option.bind_eq_some_iff.mp h
  exact ⟨r, rest, hr, hrest, (Option.some.inj h).symm⟩

end Relocation

namespace WorkingCopy

open FileTree (SameOutside IsProper)
open Writing (Leaves)

variable {t₀ t : FileTree} {spot : Place} {base : Path} {w : WorkingCopy}
  {files : List InstrumentedFile}

/-- The copies of a working copy lie in its directory. -/
structure IsPlaced (w : WorkingCopy) (spot : Place) : Prop where
  base : w.base.IsAt spot
  spots : ∀ r ∈ w.relocations, ∃ names, IsSpot names ∧ r.copy.IsAt (spot ++ names)

/-- From the directory that is copied, a path does not lead out of the working copy. -/
def StaysInside (w : WorkingCopy) (p : Path) : Prop :=
  ∀ r, Relocation.covering? w.relocations p = some r →
    (Path.descend (r.copy.components.length - w.base.components.length)
      (p.components.drop r.depth)).isSome

instance (w : WorkingCopy) (p : Path) : Decidable (w.StaysInside p) :=
  match h : Relocation.covering? w.relocations p with
  | none => isTrue fun r hr => by rw [h] at hr; cases hr
  | some r => decidable_of_iff (Path.descend (r.copy.components.length - w.base.components.length)
      (p.components.drop r.depth)).isSome
      ⟨fun hin r' hr' => Option.some.inj (h.symm.trans hr') ▸ hin, fun hin => hin r h⟩

/-- The path of a file in the copy: first the names of the copied directory, then steps that do not
lead out. -/
theorem components_of_copyPath? (hplaced : w.IsPlaced spot) {p target : Path}
    (hp : w.StaysInside p) (h : w.copyPath? p = some target) :
    ∃ (names : Place) (steps : List PathComponent) (below : Nat),
      target.components = w.base.components ++ (names.map .name ++ steps) ∧
      .root ∉ steps ∧ Path.descend names.length steps = some below := by
  obtain ⟨r, rest, hr, hstrip, rfl⟩ := Relocation.move?_eq_some h
  obtain ⟨names, -, hat⟩ := hplaced.spots r (Relocation.covering?_eq_some hr).1
  obtain ⟨below, hbelow⟩ := Option.isSome_iff_exists.mp (hp r hr)
  have hlen : r.copy.components.length - w.base.components.length = names.length := by
    rw [hat.components_eq, hplaced.base.components_eq]
    simp
  rw [hlen, Relocation.depth] at hbelow
  have hroot := Path.root_not_mem_of_descend hbelow
  rw [← Path.components_strip hstrip hroot] at hbelow hroot
  refine ⟨names, Path.stepsIn rest.text.toList, below, ?_, Path.root_not_mem_stepsIn _,
    (Path.descend_stepsIn hroot).trans hbelow⟩
  rw [Path.components_join hat.components_ne_nil (Path.head?_ne_slash_iff.mpr hroot),
    hat.components_eq, hplaced.base.components_eq]
  simp

/-- An instrumented file is written into the working copy. -/
theorem prefix_lead_copyPath (hplaced : w.IsPlaced spot) {p target : Path} (hp : w.StaysInside p)
    (h : w.copyPath? p = some target) (start : Place) : spot <+: target.lead start := by
  obtain ⟨names, steps, below, hcomponents, -, hbelow⟩ := components_of_copyPath? hplaced hp h
  have hlead : target.lead start = steps.foldl Path.enter (spot ++ names) := by
    rw [Path.lead, hcomponents, List.foldl_append, List.foldl_append, ← Path.lead,
      hplaced.base.lead, Path.foldl_enter_names]
  rw [hlead]
  exact Path.foldl_enter_of_descend hbelow spot rfl

/-- A copy for reading is written into the working copy, too, one directory further down. -/
theorem prefix_lead_debugPath (hplaced : w.IsPlaced spot) {f : InstrumentedFile} {target : Path}
    (hf : w.StaysInside f.path) (h : w.debugPath? f = some target) (start : Place) :
    spot <+: target.lead start := by
  obtain ⟨copy, hcopy, rfl⟩ := Option.map_eq_some_iff.mp h
  obtain ⟨names, steps, below, hcomponents, hroot, hbelow⟩ :=
    components_of_copyPath? hplaced hf hcopy
  have hstarts : copy.startsWith w.base = true := by
    rw [Path.startsWith, List.isPrefixOf_iff_prefix, hcomponents]
    exact List.prefix_append _ _
  obtain ⟨rest, hrest⟩ := Path.exists_strip hstarts
  have hdrop : copy.components.drop w.base.components.length = names.map .name ++ steps := by
    rw [hcomponents, List.drop_left]
  have hroot' : .root ∉ copy.components.drop w.base.components.length := by
    simpa [hdrop] using hroot
  have hsteps := Path.components_strip hrest hroot'
  have hdebug : w.debugRoot.IsAt (spot ++ ["hookweave-debug"]) := hplaced.base.div (by decide)
  have hlead : (w.debugRoot.join rest.text).lead start =
      steps.foldl Path.enter (spot ++ ("hookweave-debug" :: names)) := by
    rw [Path.lead_join hdebug.components_ne_nil (hsteps ▸ hroot'), hdebug.lead, Path.lead, hsteps,
      hdrop, List.foldl_append, Path.foldl_enter_names]
    simp
  rw [hrest, Option.getD_some, hlead]
  exact Path.foldl_enter_of_descend (Path.descend_of_deeper hbelow) spot (by simp)

theorem leaves_writeFiles (hplaced : w.IsPlaced spot)
    (hinside : ∀ f ∈ files, f.isModified → w.StaysInside f.path) :
    Leaves (SameOutside spot t₀) (w.writeFiles files) (fun _ => SameOutside spot t₀)
      (SameOutside spot t₀) := by
  refine Leaves.forM fun f hf => ?_
  obtain ⟨hf, hmodified⟩ := List.mem_filter.mp hf
  split
  · exact Leaves.throw fun _ => id
  · next target htarget =>
    exact Leaves.file (fun t ht =>
      ht.put (prefix_lead_copyPath hplaced (hinside f hf hmodified) htarget _) _) fun _ => id

theorem leaves_writeReport (hplaced : w.IsPlaced spot) {name : String} (hname : Path.IsName name)
    (text : String) :
    Leaves (SameOutside spot t₀) (w.writeReport name text) (fun _ => SameOutside spot t₀)
      (SameOutside spot t₀) := by
  refine Leaves.file (fun t ht => ht.put ?_ _) fun _ => id
  rw [(hplaced.base.div hname).lead]
  exact List.prefix_append spot [name]

theorem leaves_writeDebugCopies (hplaced : w.IsPlaced spot)
    (hinside : ∀ f ∈ files, f.isModified → w.StaysInside f.path) (print : String → String) :
    Leaves (SameOutside spot t₀) (w.writeDebugCopies print files) (fun _ => SameOutside spot t₀)
      (SameOutside spot t₀) := by
  refine Leaves.forM fun f hf => ?_
  obtain ⟨hf, hmodified⟩ := List.mem_filter.mp hf
  split
  · exact Leaves.pure fun _ => id
  · next target htarget =>
    refine (Leaves.dirs (fun _ _ _ ht => ⟨ht.cwd, ht.fileAt?⟩) fun _ => id).bind fun _ => ?_
    split
    · exact Leaves.pure fun _ => id
    · exact Leaves.file (fun t ht =>
        ht.put (prefix_lead_debugPath hplaced (hinside f hf hmodified) htarget _) _) fun _ => id

theorem Made.isPlaced {which : Place → Prop} {g : PackageGraph} {done : List Package} {d : Draft}
    (h : Made which t₀ spot base g done d t) : d.copy.IsPlaced spot :=
  ⟨h.base ▸ h.place, h.spots⟩

/-- The paths that files, copies of them for reading, and a report are written to. -/
def Writes (w : WorkingCopy) (files : List InstrumentedFile) (report : String) (target : Path) :
    Prop :=
  target = w.base / report ∨ ∃ f ∈ files, f.isModified ∧
    (w.copyPath? f.path = some target ∨ w.debugPath? f = some target)

/-- As long as the paths of instrumented files do not lead out of the working copy, all that is
written into it lies below its directory: no file outside is changed by its making or by what is
written later, whether a run succeeds or fails. -/
theorem outside_unchanged {g : PackageGraph} {plan : Plan} (hbase : base.IsAt spot)
    (hproper : t₀.IsProper) (hlabels : ∀ p ∈ g.packages, '/' ∉ p.label.toList) :
    (∀ q, ¬ spot <+: q → ((copyProgram base g plan).on t₀).2.fileAt? q = t₀.fileAt? q) ∧
    ∀ t' w, materialize t₀ base g plan = .ok (t', w) →
      ∀ files : List InstrumentedFile, (∀ f ∈ files, f.isModified → w.StaysInside f.path) →
        ∀ name text, Path.IsName name →
          (∀ target, w.Writes files name target → ∀ start, spot <+: target.lead start) ∧
          ∀ t q, ¬ spot <+: q →
            ((w.writeFiles files).on t).2.fileAt? q = t.fileAt? q ∧
            ((w.writeReport name text).on t).2.fileAt? q = t.fileAt? q ∧
            ∀ print, ((w.writeDebugCopies print files).on t).2.fileAt? q = t.fileAt? q := by
  have hmake := @made_copyProgram t₀ spot base g plan hbase hproper hlabels
  constructor
  · exact (hmake.always (fun _ _ ⟨_, _, h⟩ => h.outside) rfl).fileAt?
  · intro t' w hw files hinside name text hname
    obtain ⟨d, rfl, hmade⟩ := hmake.of_result rfl hw
    have hplaced := hmade.isPlaced
    constructor
    · rintro target (rfl | ⟨f, hf, hmodified, hcopy | hdebug⟩) start
      · rw [(hplaced.base.div hname).lead]
        exact List.prefix_append spot [name]
      · exact prefix_lead_copyPath hplaced (hinside f hf hmodified) hcopy start
      · exact prefix_lead_debugPath hplaced (hinside f hf hmodified) hdebug start
    · intro t q hq
      have hstart := SameOutside.refl spot t
      exact ⟨((leaves_writeFiles hplaced hinside).always (fun _ _ => id) hstart).fileAt? q hq,
        ((leaves_writeReport hplaced hname text).always (fun _ _ => id) hstart).fileAt? q hq,
        fun print => ((leaves_writeDebugCopies hplaced hinside print).always (fun _ _ => id)
          hstart).fileAt? q hq⟩

/-- A workspace whose root file names the file of a module by a path. -/
def workspaceNaming (path : String) : FileTree where
  files := [(["w", "Cargo.toml"], .text ""), (["w", "x.rs"], .text ""), (["shared", "x.rs"], .text ""),
    (["w", "src", "lib.rs"], .text ("#[path = \"" ++ path ++ "\"]\nmod x;\n"))]
  dirs := [["t"]]

/-- A workspace without packages to copy. -/
def bareGraph : PackageGraph := { workspaceRoot := ⟨"/w"⟩, packages := [], deps := [], rustc := none }

def barePlan : Plan := { runtimeDir := ⟨"/rt"⟩ }

/-- The files of the workspace, each with a crate to make known. -/
def instrumentedFiles (t : FileTree) : List InstrumentedFile :=
  match ModuleFile.walk t "app" ⟨"/w/src/lib.rs"⟩ with
  | .ok files => files.map fun m => { package := 0, source := m.file, externs := ["a"] }
  | .error _ => []

theorem workspaceNaming_outside_unchanged :
    ∃ t w, materialize (workspaceNaming "../x.rs") ⟨"/t"⟩ bareGraph barePlan = .ok (t, w) ∧
      (instrumentedFiles (workspaceNaming "../x.rs")).map InstrumentedFile.path =
        [⟨"/w/src/lib.rs"⟩, ⟨"/w/src/../x.rs"⟩] ∧
      ((w.writeFiles (instrumentedFiles (workspaceNaming "../x.rs"))).on t).2.fileAt? ["w", "x.rs"] =
        t.fileAt? ["w", "x.rs"] := by
  have hmade : (materialize (workspaceNaming "../x.rs") ⟨"/t"⟩ bareGraph barePlan).toOption.any
      (fun r => decide (∀ f ∈ instrumentedFiles (workspaceNaming "../x.rs"),
        f.isModified → r.2.StaysInside f.path)) = true := by decide +kernel
  obtain ⟨⟨t, w⟩, hw, hmade⟩ := exists_ok_of_any hmade
  have hbase : (⟨"/t"⟩ : Path).IsAt ["t"] := by decide
  have hproper : (workspaceNaming "../x.rs").IsProper := by decide
  have hlabels : ∀ p ∈ bareGraph.packages, '/' ∉ p.label.toList := by decide
  obtain ⟨-, hout⟩ := (outside_unchanged hbase hproper hlabels).2 t w hw _
    (of_decide_eq_true hmade) "report" "" (by decide)
  exact ⟨t, w, hw, by decide +kernel, (hout t ["w", "x.rs"] (by decide)).1⟩

/-- A module that is named by dots which lead out of the workspace far enough leads out of the
working copy, too: its own file is overwritten. -/
theorem escaping_module_overwritten :
    ∃ t w,
      materialize (workspaceNaming "../../../shared/x.rs") ⟨"/t"⟩ bareGraph barePlan = .ok (t, w) ∧
      ((w.writeFiles (instrumentedFiles (workspaceNaming "../../../shared/x.rs"))).on t).2.fileAt?
        ["shared", "x.rs"] = some (.text "extern crate a; ") ∧
      t.fileAt? ["shared", "x.rs"] = some (.text "") := by
  have hwritten : (materialize (workspaceNaming "../../../shared/x.rs") ⟨"/t"⟩ bareGraph
      barePlan).toOption.any (fun r => decide (((r.2.writeFiles (instrumentedFiles
        (workspaceNaming "../../../shared/x.rs"))).on r.1).2.fileAt? ["shared", "x.rs"] =
          some (.text "extern crate a; ") ∧
        r.1.fileAt? ["shared", "x.rs"] = some (.text ""))) = true := by decide +kernel
  obtain ⟨⟨t, w⟩, hw, hwritten⟩ := exists_ok_of_any hwritten
  exact ⟨t, w, hw, of_decide_eq_true hwritten⟩

end WorkingCopy
end Instrumentation
