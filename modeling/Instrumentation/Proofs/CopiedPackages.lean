import Instrumentation.Proofs.Replacements
import Instrumentation.Proofs.Wiring
import Mathlib.Data.List.Induction

/-!
Packages that are replaced by their copies. Every package that is copied beside the workspace has a
directory of its own, and the manifest of the workspace replaces those of registries and
repositories by their copies, as long as no package has a name that is made up for another one.
-/
namespace Instrumentation

namespace WorkingCopy

variable {t₀ t₁ t : FileTree} {spot : Place} {base : Path} {g : PackageGraph} {plan : Plan}
  {d : Draft} {w : WorkingCopy} {extra : Table} {i : Nat} {p : Package} {copy : Path}
  {copies : List (Package × Path)} {source : String}

/-- A package of a program that is copied beside the workspace: it lies outside, and it is named by
a path or instrumented. -/
structure IsBeside (g : PackageGraph) (plan : Plan) (i : Nat) (p : Package) : Prop where
  package : g.packages[i]? = some p
  outside : ¬ p.rootDir.startsWith g.workspaceRoot = true
  wanted : p.source = .path ∨ i ∈ plan.instrumented

theorem IsBeside.rootDir_ne (h : IsBeside g plan i p) : p.rootDir ≠ g.workspaceRoot := by
  intro hsame
  exact h.outside (List.isPrefixOf_iff_prefix.mpr (hsame ▸ List.prefix_rfl))

theorem isBeside_iff :
    IsBeside g plan i p ↔ g.packages[i]? = some p ∧ isCopied g plan i p = true := by
  rw [isCopied, Bool.and_eq_true, Bool.not_eq_true', ← Bool.not_eq_true, Bool.or_eq_true,
    beq_iff_eq, List.contains_iff_mem]
  constructor
  · intro h
    exact ⟨h.package, h.outside, h.wanted⟩
  · rintro ⟨hp, hout, hwanted⟩
    exact ⟨hp, hout, hwanted⟩

theorem mem_copiedPackages_iff : p ∈ copiedPackages g plan ↔ ∃ i, IsBeside g plan i p := by
  simp only [copiedPackages, List.mem_map, List.mem_filter, isBeside_iff, Prod.exists,
    List.mem_zipIdx_iff_getElem?]
  constructor
  · rintro ⟨q, i, ⟨hq, hcopied⟩, rfl⟩
    exact ⟨i, hq, hcopied⟩
  · rintro ⟨i, hp, hcopied⟩
    exact ⟨p, i, ⟨hp, hcopied⟩, rfl⟩

/-- The packages of a source that are replaced, by their names, with the copies. -/
def replacing (copies : List (Package × Path)) (source : String) : List (String × Path) :=
  (copies.filter fun c => c.1.source.patchKey? == some source).map fun c => (c.1.name, c.2)

theorem mem_replacing_iff {x : String × Path} : x ∈ replacing copies source ↔
    ∃ c ∈ copies, c.1.source.patchKey? = some source ∧ (c.1.name, c.2) = x := by
  simp [replacing, and_assoc]

theorem patchesOf_concat (copies : List (Package × Path)) (c : Package × Path) :
    patchesOf (copies ++ [c]) = c.1.source.patchKey?.elim (patchesOf copies) fun key =>
      (patchesOf copies).add key c.1.name c.2 := by
  rw [patchesOf, List.foldl_append]
  rfl

theorem nodup_patchesOf (copies : List (Package × Path)) :
    ((patchesOf copies).map Prod.fst).Nodup := by
  induction copies using List.reverseRecOn with
  | nil => exact List.nodup_nil
  | append_singleton copies c ih =>
    rw [patchesOf_concat]
    cases c.1.source.patchKey? with
    | none => exact ih
    | some key => exact Manifest.Patches.nodup_add ih

theorem replacing_concat (copies : List (Package × Path)) (c : Package × Path) (source : String) :
    replacing (copies ++ [c]) source = replacing copies source ++
      if c.1.source.patchKey? = some source then [(c.1.name, c.2)] else [] := by
  rw [replacing, List.filter_append, List.map_append, ← replacing]
  split
  · next hkey => simp [hkey]
  · next hkey => simp [hkey]

theorem entriesOf_patchesOf_concat (copies : List (Package × Path)) (c : Package × Path)
    (source : String) : (patchesOf (copies ++ [c])).entriesOf source =
      if c.1.source.patchKey? = some source then
        Manifest.addEntry ((patchesOf copies).entriesOf source) c.1.name c.2
      else (patchesOf copies).entriesOf source := by
  rw [patchesOf_concat]
  cases hkey : c.1.source.patchKey? with
  | none => rfl
  | some key =>
    rw [Option.elim_some, Manifest.Patches.entriesOf_add]
    by_cases hsame : source = key
    · simp [hsame]
    · simp [hsame, Ne.symm hsame]

/-- What replaces the packages of a source is a table of entries for them. -/
theorem entries_patchesOf {all : List String} (hall : ∀ x ∈ replacing copies source, x.1 ∈ all) :
    Manifest.Entries all (replacing copies source) ((patchesOf copies).entriesOf source) := by
  induction copies using List.reverseRecOn with
  | nil => exact .nil all
  | append_singleton copies c ih =>
    rw [replacing_concat] at hall ⊢
    rw [entriesOf_patchesOf_concat]
    have hbefore := ih fun x hx => hall x (List.mem_append_left _ hx)
    split
    · next hkey =>
      rw [if_pos hkey] at hall
      exact hbefore.add (hall _ (List.mem_append_right _ (List.mem_singleton_self _)))
    · rwa [List.append_nil]

/-- The manifest of the workspace has the replacements, and those that it had under other keys, with
their paths sent elsewhere. -/
theorem replacement?_wired {instrumented : List Path} {patches : Manifest.Patches}
    {m : ManifestCopy} {table : Table} (hroot : m.copy.same w.manifestPath = true)
    (htables : table.HasPatchTables) (hsingle : (patches.map Prod.fst).Nodup)
    (hkeys : ((patches.entriesOf source).map Prod.fst).Nodup) (key : String) :
    (wired w instrumented extra patches m table).replacement? source key =
      ((patches.entriesOf source).get? key).or ((table.replacement? source key).map
        (Manifest.redirectEntry w.locate ((m.source.parent?).getD ⟨""⟩))) := by
  obtain ⟨hredirected, hmoved⟩ :=
    Manifest.replacement?_redirect w.locate ((m.source.parent?).getD ⟨""⟩) htables
  unfold wired
  dsimp only
  rw [if_pos hroot]
  -- more dependencies leave the replacements alone
  split
  · have hpatch (manifest : Table) :
        (Manifest.addDependencies manifest extra).get? "patch" = manifest.get? "patch" := by
      rw [Manifest.addDependencies]
      exact Table.get?_mapTable_of_ne manifest _ (by decide)
    rw [Manifest.replacement?_addPatches (hredirected.congr (hpatch _).symm) hsingle hkeys,
      Table.replacement?_congr (hpatch _), hmoved]
  · rw [Manifest.replacement?_addPatches hredirected hsingle hkeys, hmoved]

theorem Tells.relocated (h : Tells g copies d) {c : Package × Path} (hc : c ∈ copies) :
    ⟨c.1.rootDir, c.2⟩ ∈ d.copy.relocations := by
  rw [h.relocations]
  exact List.mem_cons_of_mem _ (List.mem_map_of_mem hc)

section

variable (h : Tells g copies d) (hcopies : copies.map Prod.fst = copiedPackages g plan)
include hcopies

theorem exists_copy_iff : (∃ c ∈ copies, c.1 = p) ↔ ∃ i, IsBeside g plan i p := by
  rw [← mem_copiedPackages_iff, ← hcopies, List.mem_map]

/-- The names of the packages of a source that are replaced. -/
theorem mem_names_iff {name : String} : name ∈ (replacing copies source).map Prod.fst ↔
    ∃ i p, IsBeside g plan i p ∧ p.source.patchKey? = some source ∧ p.name = name := by
  constructor
  · intro hname
    obtain ⟨x, hx, rfl⟩ := List.mem_map.mp hname
    obtain ⟨c, hc, hkey, rfl⟩ := mem_replacing_iff.mp hx
    obtain ⟨i, hp⟩ := (exists_copy_iff hcopies).mp ⟨c, hc, rfl⟩
    exact ⟨i, c.1, hp, hkey, rfl⟩
  · rintro ⟨i, p, hp, hkey, rfl⟩
    obtain ⟨c, hc, rfl⟩ := (exists_copy_iff hcopies).mpr ⟨i, hp⟩
    exact List.mem_map_of_mem (mem_replacing_iff.mpr ⟨c, hc, hkey, rfl⟩)

include h

/-- The workspace has one copy. -/
theorem Tells.eq_root {r : Relocation} (hr : r ∈ d.copy.relocations)
    (hsource : r.source = g.workspaceRoot) : r = ⟨g.workspaceRoot, d.copy.root⟩ := by
  rw [h.relocations] at hr
  rcases List.mem_cons.mp hr with hr | hr
  · exact hr
  · obtain ⟨c, hc, rfl⟩ := List.mem_map.mp hr
    obtain ⟨i, hp⟩ := (exists_copy_iff hcopies).mp ⟨c, hc, rfl⟩
    exact absurd hsource hp.rootDir_ne

theorem Tells.mem_copies (hmanifests : g.HasManifests) (hp : IsBeside g plan i p)
    (hr : ⟨p.rootDir, copy⟩ ∈ d.copy.relocations) : (p, copy) ∈ copies := by
  rw [h.relocations] at hr
  rcases List.mem_cons.mp hr with hroot | hr
  · exact absurd (Relocation.mk.inj hroot).1 hp.rootDir_ne
  · obtain ⟨⟨q, copy'⟩, hc, he⟩ := List.mem_map.mp hr
    obtain ⟨hdir, rfl⟩ := Relocation.mk.inj he
    obtain ⟨j, hq⟩ := (exists_copy_iff hcopies).mp ⟨_, hc, rfl⟩
    obtain rfl := hmanifests.eq_of_rootDir hp.package hq.package hdir.symm
    obtain rfl : p = q := Option.some.inj (hp.package.symm.trans hq.package)
    exact hc

end

/-- The manifest of the workspace is in the copy that is made of the workspace. -/
theorem Finished.exists_root (h : Finished t₀ spot base g plan d extra t₁ t)
    (hcopies : copies.map Prod.fst = copiedPackages g plan) (htells : Tells g copies d)
    (hlaid : d.copy.IsLaid spot) (hempty : ∀ f ∈ t₀.files, ¬ spot <+: f.1)
    (hthere : t₀.hasFile ((g.workspaceRoot / Manifest.fileName).lead t₀.cwd) = true) :
    ∃ m old, Manifest.at? t₀ (g.workspaceRoot / Manifest.fileName) = some old ∧
      m.source.components = (g.workspaceRoot / Manifest.fileName).components ∧
      m.copy.same d.copy.manifestPath = true ∧
      t.fileAt? (d.copy.manifestPath.lead t.cwd) = some (.text (Toml.document
        (wired d.copy (instrumentedManifests g plan d.copy) extra d.patches m old))) := by
  obtain ⟨c, hc⟩ := Option.isSome_iff_exists.mp hthere
  have hcomponents : (g.workspaceRoot / Manifest.fileName).components =
      g.workspaceRoot.components ++ [Manifest.fileName].map .name :=
    Path.components_div _ (by decide)
  have hbelow : (g.workspaceRoot / Manifest.fileName).startsWith g.workspaceRoot = true := by
    rw [Path.startsWith, List.isPrefixOf_iff_prefix, hcomponents]
    exact List.prefix_append _ _
  obtain ⟨r, hr⟩ := Relocation.exists_covering h.made.workspace hbelow
  have hmem := (Relocation.covering?_eq_some hr).1
  obtain rfl := htells.eq_root hcopies hmem (source_of_covering h.made hbelow hr)
  have hat : d.copy.root.IsAt (spot ++ ["ws"]) := h.made.isAt .workspace
  have htarget : d.copy.manifestPath.IsAt (spot ++ ["ws"] ++ [Manifest.fileName]) :=
    hat.div (by decide)
  have hfile := hc
  rw [lead_append hcomponents] at hfile
  have hreaches : Reaches t₀ d.copy (g.workspaceRoot / Manifest.fileName) d.copy.manifestPath
      ⟨g.workspaceRoot, d.copy.root⟩ (spot ++ ["ws"]) [Manifest.fileName] c :=
    ⟨hr, hat, htarget, hcomponents, by simp, by simp, hfile⟩
  obtain ⟨m, hm, hcopy⟩ := h.listed.listed _ hmem _ [Manifest.fileName] c hat hfile rfl (by simp)
    (.inl rfl)
  obtain ⟨old, hold, hfrom, -, hwritten⟩ :=
    h.exists_written hlaid hempty hreaches hm (hcopy.lead _)
  refine ⟨m, old, hold, hfrom, ?_, hwritten⟩
  rw [Path.same, hcopy.components_eq, htarget.components_eq, beq_self_eq_true]

/-- The copy of a package is a directory, in which its manifest is. -/
theorem Finished.isDir (h : Finished t₀ spot base g plan d extra t₁ t) (htells : Tells g copies d)
    {c : Package × Path} (hc : c ∈ copies) (hthere : t.exists? c.2 = true) :
    t.isDir c.2 = true := by
  obtain ⟨names, -, hat⟩ := h.made.spots _ (htells.relocated hc)
  obtain ⟨table, -, hwritten⟩ := h.wiring.written _ (htells.manifests c hc)
  have hmanifest : (c.2 / Manifest.fileName).IsAt (spot ++ names ++ [Manifest.fileName]) :=
    hat.div (by decide)
  rw [hmanifest.lead] at hwritten
  obtain ⟨place, hplace⟩ := FileTree.exists?_iff.mp hthere
  rw [FileTree.isDir, hplace]
  rw [FileTree.place_eq hplace, hat.lead]
  exact FileTree.hasDir_of_fileAt? hwritten (by simp)

/-- What a manifest that is written anew says of replacements: packages are replaced by their
copies if none of those that are replaced has a name that could be made up from that of another one,
and what the manifest said of others is kept, with paths sent elsewhere. -/
structure ReplacesAll (t : FileTree) (w : WorkingCopy) (g : PackageGraph) (plan : Plan)
    (old new : Table) : Prop where
  written : t.fileAt? (w.manifestPath.lead t.cwd) = some (.text (Toml.document new))
  replaced : ∀ i p copy source, IsBeside g plan i p → ⟨p.rootDir, copy⟩ ∈ w.relocations →
    p.source.patchKey? = some source →
    (∀ j q, IsBeside g plan j q → q.source.patchKey? = some source →
      ¬ Manifest.Clash p.name q.name) →
    ∃ key entry, new.replacement? source key = some entry ∧
      Manifest.Replaces key entry p.name copy
  kept : ∀ source key entry, old.replacement? source key = some entry →
    (∀ j q, IsBeside g plan j q → q.source.patchKey? = some source →
      key ≠ q.name ∧ ∀ n, key ≠ Manifest.madeUp q.name n) →
    new.replacement? source key = some (Manifest.redirectEntry w.locate g.workspaceRoot entry)

theorem Tells.replacesAll (h : Tells g copies d)
    (hcopies : copies.map Prod.fst = copiedPackages g plan) (hmanifests : g.HasManifests)
    {instrumented : List Path} {m : ManifestCopy} {old : Table}
    (hfrom : m.source.components = (g.workspaceRoot / Manifest.fileName).components)
    (hne : g.workspaceRoot.components ≠ []) (hroot : m.copy.same d.copy.manifestPath = true)
    (htables : old.HasPatchTables)
    (hwritten : t.fileAt? (d.copy.manifestPath.lead t.cwd) = some (.text (Toml.document
      (wired d.copy instrumented extra d.patches m old)))) :
    ReplacesAll t d.copy g plan old (wired d.copy instrumented extra d.patches m old) := by
  have hdir : Manifest.redirectEntry d.copy.locate ((m.source.parent?).getD ⟨""⟩) =
      Manifest.redirectEntry d.copy.locate g.workspaceRoot := by
    have hparent : ((m.source.parent?).getD ⟨""⟩).components = g.workspaceRoot.components :=
      Path.components_parent (hfrom.trans (Path.components_div _ (by decide)))
    refine Manifest.redirectEntry_congr hparent ?_
    rw [hparent]
    exact hne
  have hentries (source : String) : Manifest.Entries ((replacing copies source).map Prod.fst)
      (replacing copies source) (d.patches.entriesOf source) := by
    rw [h.patches]
    exact entries_patchesOf fun _ => List.mem_map_of_mem
  have hsingle : (d.patches.map Prod.fst).Nodup := h.patches ▸ nodup_patchesOf copies
  have hget (source key : String) :
      (wired d.copy instrumented extra d.patches m old).replacement? source key =
        ((d.patches.entriesOf source).get? key).or ((old.replacement? source key).map
          (Manifest.redirectEntry d.copy.locate g.workspaceRoot)) := by
    rw [replacement?_wired hroot htables hsingle (hentries source).single, hdir]
  constructor
  case written => exact hwritten
  case replaced =>
    intro i p copy source hp hr hkey hclash
    have hmem : (p.name, copy) ∈ replacing copies source :=
      mem_replacing_iff.mpr ⟨_, h.mem_copies hcopies hmanifests hp hr, hkey, rfl⟩
    have hfree : ∀ name ∈ (replacing copies source).map Prod.fst,
        ¬ Manifest.Clash p.name name := by
      intro name hname
      obtain ⟨j, q, hq, hother, rfl⟩ := (mem_names_iff hcopies).mp hname
      exact hclash j q hq hother
    obtain ⟨key, entry, hentry, hreplaces, -⟩ := (hentries source).entry _ hmem hfree
    exact ⟨key, entry, by rw [hget, hentry, Option.some_or], hreplaces⟩
  case kept =>
    intro source key entry hold hother
    have hnone : (d.patches.entriesOf source).get? key = none := by
      refine Table.get?_eq_none_of_not_has fun hhas => ?_
      rcases (hentries source).keys key hhas with hname | ⟨name, hname, n, -, rfl⟩
      · obtain ⟨j, q, hq, hsource, rfl⟩ := (mem_names_iff hcopies).mp hname
        exact (hother j q hq hsource).1 rfl
      · obtain ⟨j, q, hq, hsource, rfl⟩ := (mem_names_iff hcopies).mp hname
        exact (hother j q hq hsource).2 n rfl
    rw [hget, hnone, hold]
    rfl

/-- No package is lost: each that is copied beside the workspace has a directory of its own, and
the manifest of the workspace replaces those of registries and repositories. -/
theorem packages_replaced (hbase : base.IsAt spot) (hproper : t₀.IsProper)
    (hempty : ∀ f ∈ t₀.files, ¬ spot <+: f.1) (hg : LiesIn g t₀) (hrooted : g.IsRooted)
    (hmanifests : g.HasManifests) (hw : materialize t₀ base g plan = .ok (t, w)) :
    (∀ i p, IsBeside g plan i p → ∃ copy, ⟨p.rootDir, copy⟩ ∈ w.relocations ∧
      t.isDir copy = true ∧ ∀ j q copy', IsBeside g plan j q →
        ⟨q.rootDir, copy'⟩ ∈ w.relocations → copy'.startsWith copy = true → j = i) ∧
    (t₀.hasFile ((g.workspaceRoot / Manifest.fileName).lead t₀.cwd) = true →
      ∃ old, Manifest.at? t₀ (g.workspaceRoot / Manifest.fileName) = some old ∧
        (old.HasPatchTables → ∃ new, ReplacesAll t w g plan old new)) := by
  obtain ⟨d', hsame, hmade⟩ := (made_copyProgram hbase hproper hg.labels).of_result rfl hw
  obtain ⟨d, extra, t₁, rfl, hfinished⟩ :=
    (finished_copyProgram hbase hproper hg hmanifests).of_result rfl hw
  obtain ⟨copies, hcopies, htells⟩ := hfinished.told
  have hspread : d.copy.IsSpread t := hsame ▸ hmade.spread
  constructor
  · intro i p hp
    obtain ⟨c, hc, rfl⟩ := (exists_copy_iff hcopies).mpr ⟨i, hp⟩
    have hr := htells.relocated hc
    refine ⟨c.2, hr, hfinished.isDir htells hc (hspread.present _ hr), ?_⟩
    intro j q copy' hq hr' hstarts
    obtain ⟨rest, hrest⟩ := List.isPrefixOf_iff_prefix.mp hstarts
    have hone := hspread.copiesApart _ hr _ hr' rest [] (by rw [hrest, List.append_nil])
    exact hmanifests.eq_of_rootDir hq.package hp.package (Relocation.mk.inj hone).1.symm
  · intro hthere
    obtain ⟨m, old, hold, hfrom, hroot, hwritten⟩ :=
      hfinished.exists_root hcopies htells (hfinished.made.isLaid hrooted) hempty hthere
    exact ⟨old, hold, fun htables =>
      ⟨_, htells.replacesAll hcopies hmanifests hfrom hg.workspace hroot htables hwritten⟩⟩

/-- Packages of a registry beside a workspace with a manifest. -/
def registryTree (manifest : String) : FileTree where
  files := [(["w", "Cargo.toml"], .text manifest), (["a1", "Cargo.toml"], .text ""),
    (["hw", "Cargo.toml"], .text ""), (["a2", "Cargo.toml"], .text "")]
  dirs := [["t"], ["rt"]]

def registryPackage (name : String) (major : Nat) (manifest : Path) : Package :=
  { Remapping.pathPackage name manifest false with
    version := { major, minor := 0, patch := 0 }
    source := .registry "registry+https://github.com/rust-lang/crates.io-index" }

/-- A package in two versions, with others in between. -/
def registryGraph (between : List Package) : PackageGraph where
  workspaceRoot := ⟨"/w"⟩
  packages := registryPackage "a" 1 ⟨"/a1/Cargo.toml"⟩ :: between ++
    [registryPackage "a" 2 ⟨"/a2/Cargo.toml"⟩]
  deps := [] :: [] :: between.map fun _ => []
  rustc := none

/-- A manifest that replaces a package by a directory of the workspace. -/
def ownManifest : String := "patch.crates-io.b.path=\"b\""

def registryPlan : Plan := { instrumented := [0, 1, 2], runtimeDir := ⟨"/rt"⟩ }

theorem exists_ownReplacement : ∃ old,
    Manifest.at? (registryTree ownManifest)
      ((registryGraph []).workspaceRoot / Manifest.fileName) = some old ∧ old.HasPatchTables ∧
    old.replacement? "crates-io" "b" = some (.obj [("path", .str "b")]) := by
  have hread : (Manifest.at? (registryTree ownManifest)
      ((registryGraph []).workspaceRoot / Manifest.fileName)).any (fun old =>
        (old.tableAt? "patch").any fun patch =>
          decide (∀ m ∈ patch, (Table.ofJson? m.2).isSome = true) &&
            (old.replacement? "crates-io" "b").any fun j => decide
              ((j.obj?.map fun ms => ms.map fun m => (m.1, m.2.str?)) =
                some [("path", some "b")])) = true := by
    decide +kernel
  obtain ⟨old, hold, hread⟩ := (Option.any_eq_true _ _).mp hread
  obtain ⟨patch, hpatch, hread⟩ := (Option.any_eq_true _ _).mp hread
  obtain ⟨htables, hread⟩ := Bool.and_eq_true_iff.mp hread
  obtain ⟨j, hj, hread⟩ := (Option.any_eq_true _ _).mp hread
  obtain rfl := Json.eq_obj_of_texts (of_decide_eq_true hread)
  exact ⟨old, hold, Table.hasPatchTables_of_all hpatch (of_decide_eq_true htables), hj⟩

/-- Both versions are replaced, and so is the package that the workspace replaces itself. -/
theorem twoVersions_replaced : ∃ t w, materialize (registryTree ownManifest)
      ⟨"/t"⟩ (registryGraph []) registryPlan = .ok (t, w) ∧
    (∃ copy, ⟨⟨"/a2"⟩, copy⟩ ∈ w.relocations ∧ t.isDir copy = true) ∧
    ∃ new : Table, t.fileAt? ["t", "ws", "Cargo.toml"] = some (.text (Toml.document new)) ∧
      (∃ key entry, new.replacement? "crates-io" key = some entry ∧
        Manifest.Replaces key entry "a" ⟨"/t/deps/a-1.0.0"⟩) ∧
      (∃ key entry, new.replacement? "crates-io" key = some entry ∧
        Manifest.Replaces key entry "a" ⟨"/t/deps/a-2.0.0"⟩) ∧
      new.replacement? "crates-io" "b" = some (.obj [("path", .str "/t/ws/b")]) := by
  have hmade : (materialize (registryTree ownManifest) ⟨"/t"⟩ (registryGraph [])
      registryPlan).toOption.any (fun r => decide (r.2.relocations = [⟨⟨"/w"⟩, ⟨"/t/ws"⟩⟩,
        ⟨⟨"/a1"⟩, ⟨"/t/deps/a-1.0.0"⟩⟩, ⟨⟨"/a2"⟩, ⟨"/t/deps/a-2.0.0"⟩⟩] ∧
        r.2.manifestPath = ⟨"/t/ws/Cargo.toml"⟩ ∧ r.2.locate ⟨"/w/b"⟩ = ⟨"/t/ws/b"⟩)) = true := by
    decide +kernel
  obtain ⟨⟨t, w⟩, hw, hmade⟩ := exists_ok_of_any hmade
  obtain ⟨hrelocations, hmanifest, hlocate⟩ := of_decide_eq_true hmade
  have hbase : (⟨"/t"⟩ : Path).IsAt ["t"] := by decide
  have hg : LiesIn (registryGraph []) (registryTree ownManifest) :=
    ⟨by decide +kernel, by decide +kernel, by decide +kernel, by decide +kernel⟩
  have hfirst : IsBeside (registryGraph []) registryPlan 0
      (registryPackage "a" 1 ⟨"/a1/Cargo.toml"⟩) := ⟨rfl, by decide +kernel, .inr (by decide)⟩
  have hsecond : IsBeside (registryGraph []) registryPlan 1
      (registryPackage "a" 2 ⟨"/a2/Cargo.toml"⟩) := ⟨rfl, by decide +kernel, .inr (by decide)⟩
  have hdirs : (registryPackage "a" 1 ⟨"/a1/Cargo.toml"⟩).rootDir = ⟨"/a1"⟩ ∧
      (registryPackage "a" 2 ⟨"/a2/Cargo.toml"⟩).rootDir = ⟨"/a2"⟩ := by decide +kernel
  obtain ⟨hcopies, hroot⟩ := packages_replaced hbase (by decide) (by decide) hg (by decide)
    (by decide) hw
  obtain ⟨copy, hcopy, hdir, -⟩ := hcopies 1 _ hsecond
  obtain ⟨old, hold, hreplaces⟩ := hroot (by decide +kernel)
  obtain ⟨own, hown, htables, hentry⟩ := exists_ownReplacement
  obtain rfl := Option.some.inj (hold.symm.trans hown)
  obtain ⟨new, hwritten, hreplaced, hkept⟩ := hreplaces htables
  have hnames : ∀ j q, IsBeside (registryGraph []) registryPlan j q → q.name = "a" := by
    intro j q hq
    have hall : ∀ q ∈ (registryGraph []).packages, q.name = "a" := by decide
    exact hall q (List.mem_of_getElem? hq.package)
  have hclash : ∀ j q, IsBeside (registryGraph []) registryPlan j q →
      q.source.patchKey? = some "crates-io" → ¬ Manifest.Clash "a" q.name := by
    intro j q hq _
    rw [hnames j q hq]
    exact Manifest.not_clash_self "a"
  refine ⟨t, w, hw, ⟨copy, hdirs.2 ▸ hcopy, hdir⟩, new, ?_, ?_, ?_, ?_⟩
  · have hlead : (⟨"/t/ws/Cargo.toml"⟩ : Path).IsAt ["t", "ws", "Cargo.toml"] := by decide
    rw [hmanifest, hlead.lead] at hwritten
    exact hwritten
  · refine hreplaced 0 _ _ _ hfirst ?_ (by decide +kernel) hclash
    rw [hrelocations, hdirs.1]
    decide
  · refine hreplaced 1 _ _ _ hsecond ?_ (by decide +kernel) hclash
    rw [hrelocations, hdirs.2]
    decide
  · have hkeep := hkept "crates-io" "b" _ hentry fun j q hq _ => ?_
    · have hmoved (dir : Path) : Manifest.redirectEntry w.locate dir (.obj [("path", .str "b")]) =
          .obj [("path", .str (w.locate (dir.join "b").normalize).text)] := rfl
      have hpath : ((registryGraph []).workspaceRoot.join "b").normalize = ⟨"/w/b"⟩ := by
        decide +kernel
      rw [hmoved, hpath, hlocate] at hkeep
      exact hkeep
    · rw [hnames j q hq]
      refine ⟨by decide, fun n h => ?_⟩
      have hhead := congrArg (fun s : String => s.toList.head?) h
      simp [Manifest.madeUp] at hhead

/-- A key that is made up may be the name of another package, or a key of the manifest itself: then
what was there is lost. -/
theorem made_up_key_overwrites :
    (∃ t w, materialize (registryTree "") ⟨"/t"⟩
        (registryGraph [registryPackage "a-hw2" 1 ⟨"/hw/Cargo.toml"⟩]) registryPlan = .ok (t, w) ∧
      ⟨⟨"/hw"⟩, ⟨"/t/deps/a-hw2-1.0.0"⟩⟩ ∈ w.relocations ∧
      ∃ new, Manifest.at? t w.manifestPath = some new ∧
        ∀ key entry, new.replacement? "crates-io" key = some entry →
          ¬ Manifest.Replaces key entry "a-hw2" ⟨"/t/deps/a-hw2-1.0.0"⟩) ∧
    ∃ t w, materialize (registryTree
        "patch.crates-io.a-hw1.path=\"b\"\npatch.crates-io.a-hw1.package=\"b\"") ⟨"/t"⟩
        (registryGraph []) registryPlan = .ok (t, w) ∧
      ∃ new entry, Manifest.at? t w.manifestPath = some new ∧
        new.replacement? "crates-io" "a-hw1" = some entry ∧
        Manifest.Replaces "a-hw1" entry "a" ⟨"/t/deps/a-2.0.0"⟩ := by
  constructor
  · have hlost : (materialize (registryTree "") ⟨"/t"⟩
        (registryGraph [registryPackage "a-hw2" 1 ⟨"/hw/Cargo.toml"⟩]) registryPlan).toOption.any
        (fun r => decide (⟨⟨"/hw"⟩, ⟨"/t/deps/a-hw2-1.0.0"⟩⟩ ∈ r.2.relocations) &&
          (Manifest.at? r.1 r.2.manifestPath).any fun new =>
            (new.tableAt? "patch").any fun patch =>
              (patch.tableAt? "crates-io").any fun entries => decide (∀ m ∈ entries,
                (m.2.member? "path").bind Json.str? ≠ some "/t/deps/a-hw2-1.0.0")) = true := by
      decide +kernel
    obtain ⟨⟨t, w⟩, hw, hlost⟩ := exists_ok_of_any hlost
    obtain ⟨hcopy, hlost⟩ := Bool.and_eq_true_iff.mp hlost
    obtain ⟨new, hnew, hlost⟩ := (Option.any_eq_true _ _).mp hlost
    obtain ⟨patch, hpatch, hlost⟩ := (Option.any_eq_true _ _).mp hlost
    obtain ⟨entries, hentries, hlost⟩ := (Option.any_eq_true _ _).mp hlost
    refine ⟨t, w, hw, of_decide_eq_true hcopy, new, hnew, fun key entry hentry hreplaces => ?_⟩
    rw [Table.replacement?_eq hpatch hentries] at hentry
    obtain ⟨m, hm, rfl⟩ := Option.map_eq_some_iff.mp hentry
    exact of_decide_eq_true hlost m (List.mem_of_find?_eq_some hm) hreplaces.path
  · have hlost : (materialize (registryTree
        "patch.crates-io.a-hw1.path=\"b\"\npatch.crates-io.a-hw1.package=\"b\"") ⟨"/t"⟩
        (registryGraph []) registryPlan).toOption.any (fun r =>
          (Manifest.at? r.1 r.2.manifestPath).any fun new =>
            (new.replacement? "crates-io" "a-hw1").any fun entry => decide (
              ((entry.member? "package").bind Json.str?).getD "a-hw1" = "a" ∧
              (entry.member? "path").bind Json.str? = some "/t/deps/a-2.0.0")) = true := by
      decide +kernel
    obtain ⟨⟨t, w⟩, hw, hlost⟩ := exists_ok_of_any hlost
    obtain ⟨new, hnew, hlost⟩ := (Option.any_eq_true _ _).mp hlost
    obtain ⟨entry, hentry, hlost⟩ := (Option.any_eq_true _ _).mp hlost
    obtain ⟨hname, hpath⟩ := of_decide_eq_true hlost
    exact ⟨t, w, hw, new, entry, hnew, hentry, hname, hpath⟩

end WorkingCopy
end Instrumentation
