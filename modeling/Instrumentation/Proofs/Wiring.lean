import Instrumentation.Proofs.Completeness
import Instrumentation.Proofs.Manifests
import Instrumentation.Proofs.Remapping

/-!
The wiring of a working copy. When everything is copied, each copy holds what its source holds, and
the draft lists the manifests in the copies with the places they come from. Each of these is written
once, from what it holds then, and no other file is written.
-/
namespace Instrumentation

namespace Writing.Leaves

variable {α : Type} {pre fail fail' : FileTree → Prop} {m : Writing α}

theorem and {post post' : α → FileTree → Prop} (h : Leaves pre m post fail)
    (h' : Leaves pre m post' fail') :
    Leaves pre m (fun a t => post a t ∧ post' a t) (fun t => fail t ∧ fail' t) := by
  refine ⟨fun t ht => ?_⟩
  have hm := h.run t ht
  have hm' := h'.run t ht
  split at hm
  · next heq => simpa [heq] using ⟨hm, by simpa [heq] using hm'⟩
  · next heq => simpa [heq] using ⟨hm, by simpa [heq] using hm'⟩

/-- Trees may be looked at one by one. -/
theorem each {post : α → FileTree → Prop} (h : ∀ t, pre t → Leaves (· = t) m post fail) :
    Leaves pre m post fail := ⟨fun t ht => (h t ht).run t rfl⟩

/-- What holds after some steps, holds after all of them in the end. -/
theorem forM_done {inv : List α → FileTree → Prop} {f : α → Writing PUnit} {xs : List α}
    (h : ∀ done a rest, xs = done ++ a :: rest →
      Leaves (inv done) (f a) (fun _ => inv (done ++ [a])) fail) :
    Leaves (inv []) (xs.forM f) (fun _ => inv xs) fail := by
  suffices hrest : ∀ rest done, xs = done ++ rest →
      Leaves (inv done) (rest.forM f) (fun _ => inv xs) fail from hrest xs [] rfl
  intro rest
  induction rest with
  | nil =>
    rintro done rfl
    rw [List.append_nil] at *
    exact pure fun _ ht => ht
  | cons a rest ih =>
    intro done hxs
    exact (h done a rest hxs).bind fun _ => ih (done ++ [a]) (by rw [hxs, List.append_assoc]; rfl)

end Writing.Leaves

/-- Every package has a manifest of its own, of the usual name. -/
structure PackageGraph.HasManifests (g : PackageGraph) : Prop where
  named : ∀ p ∈ g.packages, p.manifestPath.fileName? = some Manifest.fileName
  apart : (g.packages.map fun p => p.manifestPath.components).Nodup

instance (g : PackageGraph) : Decidable g.HasManifests :=
  decidable_of_iff ((∀ p ∈ g.packages, p.manifestPath.fileName? = some Manifest.fileName) ∧
      (g.packages.map fun p => p.manifestPath.components).Nodup)
    ⟨fun ⟨hnamed, hapart⟩ => ⟨hnamed, hapart⟩, fun h => ⟨h.named, h.apart⟩⟩

theorem PackageGraph.HasManifests.eq_of_same {g : PackageGraph} (h : g.HasManifests) {i j : Nat}
    {p q : Package} (hp : g.packages[i]? = some p) (hq : g.packages[j]? = some q)
    (hsame : p.manifestPath.components = q.manifestPath.components) : i = j := by
  have hlt := (List.getElem?_eq_some_iff.mp hp).1
  refine (List.getElem?_inj (by simpa using hlt) h.apart).mp ?_
  simp [hp, hq, hsame]

/-- A manifest lies in the directory of its package. -/
theorem Package.components_manifestPath {p : Package}
    (h : p.manifestPath.fileName? = some Manifest.fileName) :
    p.manifestPath.components = p.rootDir.components ++ [.name Manifest.fileName] := by
  unfold Path.fileName? at h
  split at h
  case h_2 => cases h
  next s hlast =>
  cases h
  obtain ⟨init, hinit⟩ := List.getLast?_eq_some_iff.mp hlast
  rw [rootDir, Path.components_parent hinit, hinit]

theorem PackageGraph.HasManifests.eq_of_rootDir {g : PackageGraph} (h : g.HasManifests) {i j : Nat}
    {p q : Package} (hp : g.packages[i]? = some p) (hq : g.packages[j]? = some q)
    (hdir : p.rootDir = q.rootDir) : i = j := by
  refine h.eq_of_same hp hq ?_
  rw [Package.components_manifestPath (h.named p (List.mem_of_getElem? hp)), hdir,
    ← Package.components_manifestPath (h.named q (List.mem_of_getElem? hq))]

namespace WorkingCopy

open FileTree (SameOutside IsProper)
open Writing (Leaves)

variable {which : Place → Prop} {t₀ t₁ t : FileTree} {spot : Place} {base : Path}
  {g : PackageGraph} {plan : Plan} {d : Draft}

/-- The manifests of a draft are listed once each, with the places they were copied from, and all
manifests in the copy of the workspace and those of all copied packages are listed. -/
structure Listed (t₀ : FileTree) (g : PackageGraph) (d : Draft) : Prop where
  single : (d.manifests.map fun m => m.copy.lead t₀.cwd).Nodup
  origin : ∀ m ∈ d.manifests, ∃ r ∈ d.copy.relocations, ∃ place names, r.copy.IsAt place ∧
    m.copy.IsAt (place ++ names) ∧ m.source.components = r.source.components ++ names.map .name
  listed : ∀ r ∈ d.copy.relocations, ∀ place names c, r.copy.IsAt place →
    t₀.fileAt? (r.source.lead t₀.cwd ++ names) = some c →
    names.getLast? = some Manifest.fileName → (∀ s ∈ names.dropLast, s ∉ skippedDirs) →
    (r.source = g.workspaceRoot ∨ names = [Manifest.fileName]) →
    ∃ m ∈ d.manifests, m.copy.IsAt (place ++ names)

theorem listed_workspace (hbase : base.IsAt spot) (hproper : t₀.IsProper)
    (hworkspace : g.workspaceRoot.components ≠ []) (hfiles : t.files = t₀.files)
    (hcwd : t.cwd = t₀.cwd) : Listed t₀ g (Draft.workspace base g t) := by
  have hroot : ({ base : WorkingCopy }.root).IsAt (spot ++ ["ws"]) := hbase.div (by decide)
  have ht : t.IsProper := hproper.of_files hfiles
  have hnames : ∀ f ∈ (t.filesBelow skippedDirs (g.workspaceRoot.lead t.cwd)).map Prod.fst,
      ∀ s ∈ f, Path.IsName s := by
    intro f hf
    obtain ⟨⟨f, c⟩, hbelow, rfl⟩ := List.mem_map.mp hf
    exact ht.isName_of_mem_filesBelow hbelow
  constructor
  case single =>
    have hleads : (Draft.workspace base g t).manifests.map (fun m => m.copy.lead t₀.cwd) =
        (((t.filesBelow skippedDirs (g.workspaceRoot.lead t.cwd)).map Prod.fst).filter
          fun f => f.getLast? == some Manifest.fileName).map (spot ++ ["ws"] ++ ·) := by
      rw [Draft.workspace, List.map_map]
      refine List.map_congr_left fun f hf => ?_
      exact (hroot.join (hnames f (List.mem_filter.mp hf).1)).lead _
    rw [hleads]
    exact ((FileTree.nodup_filesBelow t _ _).filter _).map fun _ _ => List.append_cancel_left
  case origin =>
    intro m hm
    obtain ⟨f, hf, rfl⟩ := List.mem_map.mp hm
    have hf := hnames f (List.mem_filter.mp hf).1
    exact ⟨_, List.mem_singleton_self _, spot ++ ["ws"], f, hroot, hroot.join hf,
      Path.components_join_joined hworkspace hf⟩
  case listed =>
    intro r hr place names c hat hfile hlast hskip _
    obtain rfl := List.mem_singleton.mp hr
    obtain rfl := hroot.eq hat
    have hne : names ≠ [] := by
      rintro rfl
      cases hlast
    have hbelow : (names, c) ∈ t.filesBelow skippedDirs (g.workspaceRoot.lead t.cwd) := by
      refine FileTree.mem_filesBelow.mpr ⟨?_, hne, hskip⟩
      rw [FileTree.fileAt?, hfiles, hcwd]
      exact hfile
    have hmem := List.mem_map_of_mem (f := Prod.fst) hbelow
    exact ⟨_, List.mem_map_of_mem (List.mem_filter.mpr ⟨hmem, by simp [hlast]⟩),
      hroot.join (hnames names hmem)⟩

theorem Listed.withPackage {done : List Package} {p : Package} {copy : Path} {s : FileTree}
    (h : Listed t₀ g d) (hmade : Made which t₀ spot base g done d s)
    (hlabel : '/' ∉ p.label.toList)
    (hmanifest : p.manifestPath.fileName? = some Manifest.fileName)
    (hout : ¬ p.rootDir.startsWith g.workspaceRoot = true) (hcopied : CopiesTo d p copy s t) :
    Listed t₀ g (d.withPackage p copy) := by
  obtain ⟨name, hat, hapart⟩ := hmade.exists_newSpot hlabel hcopied
  have hcopy := hat.div (s := Manifest.fileName) (by decide)
  constructor
  case single =>
    rw [Draft.withPackage, List.map_append, List.nodup_append]
    refine ⟨h.single, by simp, ?_⟩
    intro lead hold lead' hnewest hsame
    obtain ⟨m, hm, rfl⟩ := List.mem_map.mp hold
    obtain rfl := List.mem_singleton.mp hnewest
    obtain ⟨r, hr, place, names, hplace, hmat, -⟩ := h.origin m hm
    obtain ⟨spotNames, hspot, hplace'⟩ := hmade.spots r hr
    obtain rfl := hplace.eq hplace'
    have hlead : m.copy.lead t₀.cwd = (copy / Manifest.fileName).lead t₀.cwd := hsame
    rw [hmat.lead, hcopy.lead, List.append_assoc, List.append_assoc,
      List.append_cancel_left_eq] at hlead
    exact hapart r hr _ hspot hplace (hspot.eq_of_append (.package name) hlead)
  case origin =>
    intro m hm
    rcases List.mem_append.mp hm with hm | hm
    · obtain ⟨r, hr, hrest⟩ := h.origin m hm
      exact ⟨r, List.mem_append_left _ hr, hrest⟩
    · obtain rfl := List.mem_singleton.mp hm
      exact ⟨_, List.mem_append_right _ (List.mem_singleton_self _), _, [Manifest.fileName], hat,
        hcopy, Package.components_manifestPath hmanifest⟩
  case listed =>
    intro r hr place names c hplace hfile hlast hskip hwhere
    rcases List.mem_append.mp hr with hr | hr
    · obtain ⟨m, hm, hmat⟩ := h.listed r hr place names c hplace hfile hlast hskip hwhere
      exact ⟨m, List.mem_append_left _ hm, hmat⟩
    · obtain rfl := List.mem_singleton.mp hr
      obtain rfl := hat.eq hplace
      rcases hwhere with hsource | rfl
      · refine absurd (List.isPrefixOf_iff_prefix.mpr ?_) hout
        exact hsource ▸ List.prefix_rfl
      · exact ⟨_, List.mem_append_right _ (List.mem_singleton_self _), hcopy⟩

/-- Copied packages lie outside the workspace. -/
theorem not_startsWith_of_copied {p : Package} (h : p ∈ copiedPackages g plan) :
    ¬ p.rootDir.startsWith g.workspaceRoot = true := by
  obtain ⟨⟨q, i⟩, hq, rfl⟩ := List.mem_map.mp h
  have hcopied : isCopied g plan i q = true := (List.mem_filter.mp hq).2
  rw [isCopied, Bool.and_eq_true, Bool.not_eq_true'] at hcopied
  simpa using hcopied.1

theorem listed_draft (hbase : base.IsAt spot) (hproper : t₀.IsProper) (hg : LiesIn g t₀)
    (hmanifests : g.HasManifests) :
    Leaves (· = t₀) (draft base g plan)
      (fun d t => Made (fun _ => True) t₀ spot base g (copiedPackages g plan) d t ∧ Listed t₀ g d)
      (fun _ => True) := by
  have hworkspace : Leaves (· = t₀) (Draft.ofWorkspace base g) (fun d _ => Listed t₀ g d)
      (fun _ => True) := by
    refine (leaves_ofWorkspace (fun t => t.files = t₀.files ∧ t.cwd = t₀.cwd)
      fun _ _ _ ht => ht).imp ?_ ?_ fun _ _ => trivial
    · rintro _ rfl
      exact ⟨rfl, rfl⟩
    · rintro _ _ ⟨t, ⟨hfiles, hcwd⟩, -, -, rfl, -⟩
      exact listed_workspace hbase hproper hg.workspace hfiles hcwd
  have hpackage (done : List Package) (p : Package) (hp : p ∈ copiedPackages g plan) (d : Draft) :
      Leaves (fun t => Made (fun _ => True) t₀ spot base g done d t ∧ Listed t₀ g d)
        (Draft.addPackage d p) (fun d' _ => Listed t₀ g d') (fun _ => True) := by
    refine (leaves_addPackage _ (fun _ _ hdirs h => ⟨h.1.withDirs hdirs, h.2⟩) d p).imp
      (fun _ => id) ?_ fun _ _ => trivial
    rintro _ _ ⟨s, t, copy, ⟨hmade, hlisted⟩, -, hcopied, rfl, -⟩
    have hgraph := mem_packages_of_copied hp
    exact hlisted.withPackage hmade (hg.labels p hgraph) (hmanifests.named p hgraph)
      (not_startsWith_of_copied hp) hcopied
  have hpackages : ∀ done, ∀ p ∈ copiedPackages g plan, ∀ d,
      Leaves (fun t => Made (fun _ => True) t₀ spot base g done d t ∧ Listed t₀ g d)
        (Draft.addPackage d p)
        (fun d' t => Made (fun _ => True) t₀ spot base g (done ++ [p]) d' t ∧ Listed t₀ g d')
        (fun _ => True) := by
    intro done p hp d
    have hmade : Leaves (Made (fun _ => True) t₀ spot base g done d) (Draft.addPackage d p)
        (Made (fun _ => True) t₀ spot base g (done ++ [p])) (SameOutside spot t₀) :=
      made_addPackage (hg.labels p (mem_packages_of_copied hp)) d
    exact ((hmade.imp (fun _ ht => ht.1) (fun _ _ => id) fun _ => id).and
      (hpackage done p hp d)).imp (fun _ => id) (fun _ _ => id) fun _ _ => trivial
  have hstart := ((made_ofWorkspace (g := g) (fun _ => True) hbase hproper).and hworkspace).imp
    (fun _ => id) (fun _ _ => id) (fun _ _ => trivial)
  exact hstart.bind fun d => Leaves.foldlM hpackages []

/-- The replacements of packages by their copies. -/
def patchesOf (copies : List (Package × Path)) : Manifest.Patches :=
  copies.foldl (fun patches c =>
    c.1.source.patchKey?.elim patches fun key => patches.add key c.1.name c.2) []

/-- What a draft tells of the packages that are copied beside the workspace, each with its copy. -/
structure Tells (g : PackageGraph) (copies : List (Package × Path)) (d : Draft) : Prop where
  relocations : d.copy.relocations =
    ⟨g.workspaceRoot, d.copy.root⟩ :: copies.map fun c => ⟨c.1.rootDir, c.2⟩
  manifests : ∀ c ∈ copies, ⟨c.2 / Manifest.fileName, c.1.manifestPath⟩ ∈ d.manifests
  patches : d.patches = patchesOf copies

theorem Tells.withPackage {copies : List (Package × Path)} (h : Tells g copies d) (p : Package)
    (copy : Path) : Tells g (copies ++ [(p, copy)]) (d.withPackage p copy) where
  relocations := by
    change d.copy.relocations ++ [_] = _
    rw [h.relocations, List.map_append, List.cons_append]
    rfl
  manifests c hc := by
    rcases List.mem_append.mp hc with hc | hc
    · exact List.mem_append_left _ (h.manifests c hc)
    · obtain rfl := List.mem_singleton.mp hc
      exact List.mem_append_right _ List.mem_cons_self
  patches := by
    rw [patchesOf, List.foldl_append, ← patchesOf, ← h.patches]
    rfl

/-- A draft tells of every package that is copied. -/
theorem tells_draft (pre : FileTree → Prop) : Leaves pre (draft base g plan)
    (fun d _ => ∃ copies, copies.map Prod.fst = copiedPackages g plan ∧ Tells g copies d)
    (fun _ => True) := by
  let inv (done : List Package) (d : Draft) (_ : FileTree) : Prop :=
    ∃ copies, copies.map Prod.fst = done ∧ Tells g copies d
  have hworkspace : Leaves (fun _ => True) (Draft.ofWorkspace base g) (inv []) (fun _ => True) := by
    refine (leaves_ofWorkspace _ fun _ _ _ => id).imp (fun _ => id) ?_ fun _ => id
    rintro _ _ ⟨t, -, -, -, rfl, -⟩
    exact ⟨[], rfl, rfl, by simp, rfl⟩
  have hpackages : ∀ done, ∀ p ∈ copiedPackages g plan, ∀ d,
      Leaves (inv done d) (Draft.addPackage d p) (inv (done ++ [p])) (fun _ => True) := by
    intro done p _ d
    refine (leaves_addPackage _ (fun _ _ _ => id) d p).imp (fun _ => id) ?_ fun _ _ => trivial
    rintro _ _ ⟨_, _, copy, ⟨copies, rfl, htells⟩, -, -, rfl, -⟩
    exact ⟨copies ++ [(p, copy)], by simp, htells.withPackage p copy⟩
  exact (hworkspace.bind fun d => Leaves.foldlM hpackages []).imp (fun _ _ => trivial)
    (fun _ _ => id) fun _ => id

/-- While manifests are wired, those that are done hold what they are wired to, and every other file
is as it was. -/
structure Wired (w : WorkingCopy) (instrumented : List Path) (extra : Table)
    (patches : Manifest.Patches) (t₁ : FileTree) (done : List ManifestCopy) (t : FileTree) :
    Prop where
  cwd : t.cwd = t₁.cwd
  written : ∀ m ∈ done, ∃ table, Manifest.at? t₁ m.copy = some table ∧
    t.fileAt? (m.copy.lead t₁.cwd) =
      some (.text (Toml.document (wired w instrumented extra patches m table)))
  kept : ∀ q, q ∉ done.map (fun m => m.copy.lead t₁.cwd) → t.fileAt? q = t₁.fileAt? q

theorem Wired.nil {w : WorkingCopy} {instrumented : List Path} {extra : Table}
    {patches : Manifest.Patches} : Wired w instrumented extra patches t₁ [] t₁ where
  cwd := rfl
  written _ hm := absurd hm List.not_mem_nil
  kept _ _ := rfl

theorem wired_wire {w : WorkingCopy} {instrumented : List Path} {extra : Table}
    {patches : Manifest.Patches} {done : List ManifestCopy} {m : ManifestCopy}
    (hnew : m.copy.lead t₁.cwd ∉ done.map fun m => m.copy.lead t₁.cwd) :
    Leaves (Wired w instrumented extra patches t₁ done) (wire w instrumented extra patches m)
      (fun _ => Wired w instrumented extra patches t₁ (done ++ [m])) (fun _ => True) := by
  refine Leaves.get.bind fun s => (Leaves.orFail fun _ _ => trivial).bind fun table => ?_
  refine Leaves.file ?_ fun _ _ => trivial
  rintro t ⟨hread, rfl, ht⟩
  have htable := Manifest.at?_of_read hread
  rw [Manifest.at?, ht.cwd, ht.kept _ hnew, ← Manifest.at?] at htable
  rw [ht.cwd]
  constructor
  case cwd => rw [FileTree.cwd_put, ht.cwd]
  case written =>
    intro m' hm'
    rcases List.mem_append.mp hm' with hm' | hm'
    · obtain ⟨table', htable', hwritten⟩ := ht.written m' hm'
      refine ⟨table', htable', ?_⟩
      rw [FileTree.fileAt?_put_of_ne, hwritten]
      exact fun he => hnew (he ▸ List.mem_map_of_mem hm')
    · obtain rfl := List.mem_singleton.mp hm'
      exact ⟨table, htable, by rw [FileTree.fileAt?_put, if_pos rfl]⟩
  case kept =>
    intro q hq
    rw [List.map_append, List.mem_append, not_or] at hq
    rw [FileTree.fileAt?_put_of_ne, ht.kept q hq.1]
    rintro rfl
    exact hq.2 (List.mem_singleton_self _)

/-- A finished working copy: how it was made, and what was wired into its manifests. -/
structure Finished (t₀ : FileTree) (spot : Place) (base : Path) (g : PackageGraph) (plan : Plan)
    (d : Draft) (extra : Table) (t₁ t : FileTree) : Prop where
  made : Made (fun _ => True) t₀ spot base g (copiedPackages g plan) d t₁
  listed : Listed t₀ g d
  told : ∃ copies, copies.map Prod.fst = copiedPackages g plan ∧ Tells g copies d
  added : extraDependencies t₁ g plan d.copy = .ok extra
  wiring : Wired d.copy (instrumentedManifests g plan d.copy) extra d.patches t₁ d.manifests t

theorem finished_copyProgram (hbase : base.IsAt spot) (hproper : t₀.IsProper) (hg : LiesIn g t₀)
    (hmanifests : g.HasManifests) :
    Leaves (· = t₀) (copyProgram base g plan)
      (fun w t => ∃ d extra t₁, d.copy = w ∧ Finished t₀ spot base g plan d extra t₁ t)
      (fun _ => True) := by
  have hdraft : Leaves (· = t₀) (draft base g plan) (fun d t =>
      (Made (fun _ => True) t₀ spot base g (copiedPackages g plan) d t ∧ Listed t₀ g d) ∧
        ∃ copies, copies.map Prod.fst = copiedPackages g plan ∧ Tells g copies d)
      (fun _ => True) :=
    ((listed_draft hbase hproper hg hmanifests).and (tells_draft _)).imp (fun _ => id)
      (fun _ _ => id) fun _ _ => trivial
  rw [copyProgram_eq]
  refine hdraft.bind fun d => Leaves.get.bind fun t₁ => ?_
  refine (Leaves.orFail fun _ _ => trivial).bind fun extra => ?_
  refine Leaves.each ?_
  rintro t ⟨hextra, rfl, ⟨hmade, hlisted⟩, htold⟩
  have hwire : Leaves (Wired d.copy (instrumentedManifests g plan d.copy) extra d.patches t₁ [])
      (d.manifests.forM (wire d.copy (instrumentedManifests g plan d.copy) extra d.patches))
      (fun _ => Wired d.copy (instrumentedManifests g plan d.copy) extra d.patches t₁ d.manifests)
      (fun _ => True) := by
    refine Leaves.forM_done fun done m rest hsplit => wired_wire ?_
    have hsingle := hlisted.single
    rw [hsplit, List.map_append, List.nodup_append, List.map_cons] at hsingle
    intro hmem
    rw [hmade.outside.cwd] at hmem
    exact hsingle.2.2 _ hmem _ List.mem_cons_self rfl
  refine (hwire.imp ?_ (fun _ _ => id) fun _ => id).bind fun _ => Leaves.pure fun t ht =>
    ⟨d, extra, t₁, rfl, hmade, hlisted, htold, hextra, ht⟩
  rintro _ rfl
  exact Wired.nil

/-- A file is copied: its path has a place in the copy, and no directory on the way to it has a
name that is skipped. -/
structure IsCopied (t₀ : FileTree) (w : WorkingCopy) (p target : Path) : Prop where
  file : t₀.hasFile (p.lead t₀.cwd) = true
  copy : w.copyPath? p = some target
  unskipped : ∀ r, Relocation.covering? w.relocations p = some r →
    ∀ s ∈ skippedDirs, .name s ∉ (p.components.drop r.depth).dropLast

instance (t₀ : FileTree) (w : WorkingCopy) (p target : Path) : Decidable (IsCopied t₀ w p target) :=
  decidable_of_iff (t₀.hasFile (p.lead t₀.cwd) = true ∧ w.copyPath? p = some target ∧
      ∀ r ∈ Relocation.covering? w.relocations p, ∀ s ∈ skippedDirs,
        .name s ∉ (p.components.drop r.depth).dropLast)
    ⟨fun ⟨hfile, hcopy, hunskipped⟩ => ⟨hfile, hcopy, hunskipped⟩,
      fun h => ⟨h.file, h.copy, h.unskipped⟩⟩

/-- The way to a copied file: the directory that is copied, and the names from there. -/
structure Reaches (t₀ : FileTree) (w : WorkingCopy) (p target : Path) (r : Relocation)
    (place names : Place) (c : Content) : Prop where
  covers : Relocation.covering? w.relocations p = some r
  copy : r.copy.IsAt place
  target : target.IsAt (place ++ names)
  source : p.components = r.source.components ++ names.map .name
  ne_nil : names ≠ []
  unskipped : ∀ s ∈ names.dropLast, s ∉ skippedDirs
  file : t₀.fileAt? (r.source.lead t₀.cwd ++ names) = some c

theorem lead_append {p q : Path} {names : Place}
    (h : p.components = q.components ++ names.map .name) (start : Place) :
    p.lead start = q.lead start ++ names := by
  rw [Path.lead, h, List.foldl_append, Path.foldl_enter_names, Path.lead]

theorem exists_reaches {p target : Path}
    (hmade : Made which t₀ spot base g (copiedPackages g plan) d t) (hlaid : d.copy.IsLaid spot)
    (hg : LiesIn g t₀) (hup : .up ∉ p.components) (h : IsCopied t₀ d.copy p target) :
    ∃ r place names c, t₀.fileAt? (p.lead t₀.cwd) = some c ∧
      Reaches t₀ d.copy p target r place names c := by
  obtain ⟨r, place, names, hr, hat, htarget, hsource⟩ := hlaid.copyPath?_eq_some hup h.copy
  obtain ⟨c, hc⟩ := Option.isSome_iff_exists.mp h.file
  have hlead := lead_append hsource t₀.cwd
  refine ⟨r, place, names, c, hc, hr, hat, htarget, hsource, ?_, ?_, hlead ▸ hc⟩
  · rintro rfl
    rw [hlead, List.append_nil, fileAt?_source hmade hg (Relocation.covering?_eq_some hr).1] at hc
    cases hc
  · intro s hs hskipped
    refine h.unskipped r hr s hskipped ?_
    rw [hsource, Relocation.depth, List.drop_left, ← List.map_dropLast]
    exact List.mem_map_of_mem hs

/-- What lies in the workspace is copied with it. -/
theorem source_of_covering {p : Path} {r : Relocation}
    (hmade : Made which t₀ spot base g (copiedPackages g plan) d t)
    (hbelow : p.startsWith g.workspaceRoot = true)
    (hr : Relocation.covering? d.copy.relocations p = some r) : r.source = g.workspaceRoot := by
  obtain ⟨hmem, hstarts, hdeepest⟩ := Relocation.covering?_eq_some hr
  have hsource : r.source ∈ d.copy.relocations.map Relocation.source := List.mem_map_of_mem hmem
  rw [hmade.sources] at hsource
  rcases List.mem_cons.mp hsource with hroot | hpackage
  · exact hroot
  · -- a deeper directory that is copied would lie in the workspace, too
    obtain ⟨q, hq, hsource⟩ := List.mem_map.mp hpackage
    have hdepth := hdeepest _ hmade.workspace hbelow
    rw [Path.startsWith, List.isPrefixOf_iff_prefix] at hbelow hstarts
    refine absurd ?_ (not_startsWith_of_copied hq)
    rw [Path.startsWith, List.isPrefixOf_iff_prefix, hsource]
    exact List.prefix_of_prefix_length_le hbelow hstarts hdepth

/-- The directory that a manifest was in, as far as paths are seen from it. -/
theorem redirectEntry_source {p q : Path} {cs : List PathComponent} {s : String} (hne : cs ≠ [])
    (hp : p.components = cs ++ [.name s]) (hq : q.components = cs ++ [.name s])
    (move : Path → Path) :
    Manifest.redirectEntry move ((q.parent?).getD ⟨""⟩) =
      Manifest.redirectEntry move ((p.parent?).getD ⟨""⟩) := by
  have hcomponents := Path.components_parent hq
  refine Manifest.redirectEntry_congr (hcomponents.trans (Path.components_parent hp).symm) ?_
  rw [hcomponents]
  exact hne

section Wired

variable {w : WorkingCopy} {instrumented : List Path} {extra : Table} {patches : Manifest.Patches}
  {m : ManifestCopy} {table : Table}

/-- Replacements of packages are all that the workspace adds. -/
theorem get?_wired {key : String} (hkey : key ≠ "patch") :
    (wired w instrumented extra patches m table).get? key =
      (if instrumented.any m.copy.same then Manifest.addDependencies
          (Manifest.redirect w.locate ((m.source.parent?).getD ⟨""⟩) table) extra
        else Manifest.redirect w.locate ((m.source.parent?).getD ⟨""⟩) table).get? key := by
  unfold wired
  dsimp only
  split
  · exact Manifest.get?_addPatches _ _ hkey
  · rfl

/-- A manifest of a package that is not instrumented keeps its dependencies, with their paths sent
elsewhere. -/
theorem get?_wired_dependencies {kind : String} (h : instrumented.any m.copy.same = false)
    (hkind : kind ∈ Manifest.dependencyTables) :
    (wired w instrumented extra patches m table).get? kind = (table.get? kind).map
      (Manifest.redirectEntries w.locate ((m.source.parent?).getD ⟨""⟩)) := by
  have hpatch : kind ≠ "patch" := by
    rintro rfl
    exact absurd hkind (by decide)
  rw [get?_wired hpatch, h]
  exact Manifest.get?_redirect w.locate ((m.source.parent?).getD ⟨""⟩) table hkind

/-- A manifest of an instrumented package has more dependencies, and those it has are kept. -/
theorem exists_wired_dependencies {orig : Table} (h : instrumented.any m.copy.same = true)
    (horig : table.tableAt? "dependencies" = some orig) :
    ∃ deps : Table, (wired w instrumented extra patches m table).get? "dependencies" =
        some (.obj deps) ∧
      (∀ entry ∈ extra, Manifest.Links deps entry.1) ∧
      ∀ name j, orig.get? name = some j → deps.get? name =
        some (Manifest.redirectEntry w.locate ((m.source.parent?).getD ⟨""⟩) j) := by
  have hredirect := Manifest.tableAt?_redirect w.locate ((m.source.parent?).getD ⟨""⟩) horig
  obtain ⟨deps, hdeps, hlinks, hkept⟩ := Manifest.exists_addDependencies extra hredirect
  refine ⟨deps, ?_, hlinks, ?_⟩
  · rw [get?_wired (by decide), if_pos h, hdeps]
  · intro name j hj
    refine hkept name _ ?_
    rw [Table.get?_mapValues, hj]
    rfl

end Wired

/-- A file in the copy holds what the file that it was copied from holds, or it is a manifest that
is written anew and has the same dependencies, with their paths sent elsewhere. -/
def KeepsDependencies (t₀ t : FileTree) (w : WorkingCopy) (p target : Path) : Prop :=
  t.fileAt? (target.lead t.cwd) = t₀.fileAt? (p.lead t₀.cwd) ∨
  ∃ old new : Table, Manifest.at? t₀ p = some old ∧
    t.fileAt? (target.lead t.cwd) = some (.text (Toml.document new)) ∧
    ∀ kind ∈ Manifest.dependencyTables, new.get? kind = (old.get? kind).map (Manifest.inTable
      (Table.mapValues (Manifest.redirectEntry w.locate ((p.parent?).getD ⟨""⟩))))

/-- A manifest in the copy has dependencies by which some crates can be linked, and all those that
the manifest it was copied from has, with their paths sent elsewhere. -/
structure DependsOn (t : FileTree) (w : WorkingCopy) (target dir : Path) (orig : Table)
    (crates : String → Prop) (new deps : Table) : Prop where
  written : t.fileAt? (target.lead t.cwd) = some (.text (Toml.document new))
  dependencies : new.get? "dependencies" = some (.obj deps)
  links : ∀ crate, crates crate → Manifest.Links deps crate
  kept : ∀ name j, orig.get? name = some j →
    deps.get? name = some (Manifest.redirectEntry w.locate dir j)

namespace Finished

variable {extra : Table} {p target : Path} {r : Relocation} {place names : Place} {c : Content}

/-- Before the wiring, a copied file is in the copy. -/
theorem fileAt?_copied (h : Finished t₀ spot base g plan d extra t₁ t)
    (hempty : ∀ f ∈ t₀.files, ¬ spot <+: f.1) (hp : Reaches t₀ d.copy p target r place names c) :
    t₁.fileAt? (place ++ names) = some c :=
  h.made.copied r (Relocation.covering?_eq_some hp.covers).1 place names c hp.copy hp.file
    (hempty _ (FileTree.mem_of_fileAt? hp.file)) hp.ne_nil hp.unskipped trivial

/-- What is wired of a copied manifest is what was in it. -/
theorem exists_written (h : Finished t₀ spot base g plan d extra t₁ t)
    (hlaid : d.copy.IsLaid spot) (hempty : ∀ f ∈ t₀.files, ¬ spot <+: f.1)
    (hp : Reaches t₀ d.copy p target r place names c) {m : ManifestCopy} (hm : m ∈ d.manifests)
    (hlead : m.copy.lead t₁.cwd = place ++ names) :
    ∃ table, Manifest.at? t₀ p = some table ∧ m.source.components = p.components ∧
      m.copy.IsAt (place ++ names) ∧ t.fileAt? (target.lead t.cwd) = some (.text (Toml.document
        (wired d.copy (instrumentedManifests g plan d.copy) extra d.patches m table))) := by
  obtain ⟨table, htable, hwritten⟩ := h.wiring.written m hm
  obtain ⟨r', hr', place', names', hat', hcopy, hsource⟩ := h.listed.origin m hm
  have hplace : place' ++ names' = place ++ names := (hcopy.lead t₁.cwd).symm.trans hlead
  have hr := (Relocation.covering?_eq_some hp.covers).1
  obtain rfl := hlaid.eq_of_prefix hr' hr hat' hp.copy hplace
  obtain rfl := hat'.eq hp.copy
  obtain rfl := List.append_cancel_left hplace
  refine ⟨table, ?_, hsource.trans hp.source.symm, hcopy, ?_⟩
  · rw [Manifest.at?, hlead, h.fileAt?_copied hempty hp] at htable
    rw [Manifest.at?, lead_append hp.source, hp.file]
    exact htable
  · rw [hp.target.lead, ← hlead, hwritten]

/-- Of an instrumented package, the manifest in the copy is listed. -/
theorem exists_manifest (h : Finished t₀ spot base g plan d extra t₁ t)
    (hmanifests : g.HasManifests) {i : Nat} {q : Package} (hi : i ∈ plan.instrumented)
    (hq : g.packages[i]? = some q)
    (hp : Reaches t₀ d.copy q.manifestPath target r place names c) :
    ∃ m ∈ d.manifests, m.copy.IsAt (place ++ names) := by
  obtain ⟨hmem, hstarts, hdeepest⟩ := Relocation.covering?_eq_some hp.covers
  have hmanifest := Package.components_manifestPath (hmanifests.named q (List.mem_of_getElem? hq))
  obtain ⟨init, last, rfl⟩ := List.eq_nil_or_concat' names |>.resolve_left hp.ne_nil
  have hsource := hp.source
  rw [hmanifest, List.map_append, List.map_singleton, ← List.append_assoc,
    List.append_singleton_inj, PathComponent.name.injEq] at hsource
  obtain ⟨hdir, rfl⟩ := hsource
  have hstartsDir (s : Relocation) (hs : s.source.components <+: q.rootDir.components) :
      q.manifestPath.startsWith s.source = true := by
    rw [Path.startsWith, List.isPrefixOf_iff_prefix, hmanifest]
    exact hs.trans (List.prefix_append _ _)
  refine h.listed.listed r hmem place _ c hp.copy hp.file (by simp) hp.unskipped ?_
  by_cases hbelow : q.rootDir.startsWith g.workspaceRoot = true
  · left
    exact source_of_covering h.made
      (hstartsDir ⟨g.workspaceRoot, d.copy.root⟩ (List.isPrefixOf_iff_prefix.mp hbelow)) hp.covers
  · -- its own directory is copied, and none below it
    right
    have hcopied : isCopied g plan i q = true := by
      simp [isCopied, hbelow, hi]
    obtain ⟨s, hs, hown⟩ := exists_relocation h.made hq hcopied
    have hdepth := hdeepest s hs (hstartsDir s (hown ▸ List.prefix_rfl))
    have hlength := congrArg List.length hdir
    rw [Relocation.depth, Relocation.depth, hown, hlength, List.length_append, List.length_map]
      at hdepth
    obtain rfl : init = [] := List.eq_nil_of_length_eq_zero (by omega)
    rfl

theorem any_instrumented {w : WorkingCopy} {i : Nat} {q : Package} {m : ManifestCopy}
    (hi : i ∈ plan.instrumented) (hq : g.packages[i]? = some q)
    (hcopy : w.copyPath? q.manifestPath = some target) (htarget : target.IsAt place)
    (hm : m.copy.IsAt place) : (instrumentedManifests g plan w).any m.copy.same = true := by
  refine List.any_eq_true.mpr ⟨target, List.mem_filterMap.mpr ⟨i, hi, ?_⟩, ?_⟩
  · rw [hq]
    exact hcopy
  · rw [Path.same, hm.components_eq, htarget.components_eq, beq_self_eq_true]

/-- Manifests are copied apart from each other, so that of a package that is not instrumented does
not count as one of those that are. -/
theorem not_any_instrumented {w : WorkingCopy} (hlaid : w.IsLaid spot) (hg : LiesIn g t₀)
    (hmanifests : g.HasManifests) (hp : Reaches t₀ w p target r place names c)
    (hnot : ∀ i ∈ plan.instrumented, ∀ q, g.packages[i]? = some q →
      q.manifestPath.components ≠ p.components)
    {m : ManifestCopy} (hm : m.copy.IsAt (place ++ names)) :
    (instrumentedManifests g plan w).any m.copy.same = false := by
  rw [List.any_eq_false]
  intro target' htarget' hsame
  obtain ⟨i, hi, hcopy⟩ := List.mem_filterMap.mp htarget'
  obtain ⟨q, hq, hcopy⟩ := Option.bind_eq_some_iff.mp hcopy
  have hmem : q ∈ g.packages := List.mem_of_getElem? hq
  have hup : .up ∉ q.manifestPath.components := by
    rw [Package.components_manifestPath (hmanifests.named q hmem)]
    simpa using hg.straight q hmem
  obtain ⟨r', place', names', hr', hat', hthere, hsource⟩ := hlaid.copyPath?_eq_some hup hcopy
  rw [Path.same, beq_iff_eq] at hsame
  have hplace : place' ++ names' = place ++ names :=
    Path.IsAt.eq (hsame.trans hthere.components_eq) hm
  obtain rfl := hlaid.eq_of_prefix (Relocation.covering?_eq_some hr').1
    (Relocation.covering?_eq_some hp.covers).1 hat' hp.copy hplace
  obtain rfl := hat'.eq hp.copy
  obtain rfl := List.append_cancel_left hplace
  exact hnot i hi q hq (hsource.trans hp.source.symm)

section

variable (h : Finished t₀ spot base g plan d extra t₁ t) (hempty : ∀ f ∈ t₀.files, ¬ spot <+: f.1)
  (hg : LiesIn g t₀) (hrooted : g.IsRooted) (hmanifests : g.HasManifests)
include h hempty hg hrooted hmanifests

/-- A copied file that is not the manifest of an instrumented package keeps its dependencies, if it
has any. -/
theorem keepsDependencies (hup : .up ∉ p.components) (hp : IsCopied t₀ d.copy p target)
    (hnot : ∀ i ∈ plan.instrumented, ∀ q, g.packages[i]? = some q →
      q.manifestPath.components ≠ p.components) : KeepsDependencies t₀ t d.copy p target := by
  have hlaid := h.made.isLaid hrooted
  obtain ⟨r, place, names, c, hfile, hreaches⟩ := exists_reaches h.made hlaid hg hup hp
  by_cases hlisted : ∃ m ∈ d.manifests, m.copy.lead t₁.cwd = place ++ names
  · obtain ⟨m, hm, hlead⟩ := hlisted
    obtain ⟨table, htable, hsource, hat, hwritten⟩ :=
      h.exists_written hlaid hempty hreaches hm hlead
    refine .inr ⟨table, _, htable, hwritten, fun kind hkind => ?_⟩
    have hany := not_any_instrumented hlaid hg hmanifests hreaches hnot hat
    obtain ⟨init, last, rfl⟩ := List.eq_nil_or_concat' names |>.resolve_left hreaches.ne_nil
    have hpath : p.components = r.source.components ++ init.map .name ++ [.name last] := by
      rw [hreaches.source, List.map_append, List.append_assoc, List.map_singleton]
    have hroot := Path.components_of_isAbsolute
      (hlaid.absolute r (Relocation.covering?_eq_some hreaches.covers).1)
    have hdir := redirectEntry_source (by simp [hroot]) hpath (hsource.trans hpath) d.copy.locate
    rw [get?_wired_dependencies hany hkind, Manifest.redirectEntries_eq, hdir]
  · left
    have hplace : place ++ names ∉ d.manifests.map fun m => m.copy.lead t₁.cwd := by
      intro hmem
      obtain ⟨m, hm, hlead⟩ := List.mem_map.mp hmem
      exact hlisted ⟨m, hm, hlead⟩
    rw [hreaches.target.lead, h.wiring.kept _ hplace, h.fileAt?_copied hempty hreaches, hfile]

/-- A copied manifest of an instrumented package gets the dependencies of instrumentation, and keeps
those that it has. -/
theorem exists_dependencies {i : Nat} {q : Package} (hi : i ∈ plan.instrumented)
    (hq : g.packages[i]? = some q) (hp : IsCopied t₀ d.copy q.manifestPath target) :
    ∃ old, Manifest.at? t₀ q.manifestPath = some old ∧
      ∀ orig, old.tableAt? "dependencies" = some orig →
        ∃ new deps, DependsOn t d.copy target q.rootDir orig (fun crate => extra.has crate = true)
          new deps := by
  have hmem : q ∈ g.packages := List.mem_of_getElem? hq
  have hmanifest := Package.components_manifestPath (hmanifests.named q hmem)
  have hup : .up ∉ q.manifestPath.components := by
    rw [hmanifest]
    simpa using hg.straight q hmem
  have hlaid := h.made.isLaid hrooted
  obtain ⟨r, place, names, c, -, hreaches⟩ := exists_reaches h.made hlaid hg hup hp
  obtain ⟨m, hm, hat⟩ := h.exists_manifest hmanifests hi hq hreaches
  obtain ⟨table, htable, hsource, -, hwritten⟩ :=
    h.exists_written hlaid hempty hreaches hm (hat.lead _)
  refine ⟨table, htable, fun orig horig => ?_⟩
  have hany := any_instrumented hi hq hp.copy hreaches.target hat
  obtain ⟨deps, hdeps, hlinks, hkept⟩ := exists_wired_dependencies hany horig
  have hne : q.rootDir.components ≠ [] := by
    simp [Path.components_of_isAbsolute (hrooted.dirs q hmem)]
  have hdir := redirectEntry_source hne hmanifest (hsource.trans hmanifest) d.copy.locate
  refine ⟨_, deps, hwritten, hdeps, fun crate hcrate => ?_, fun name j hj => hdir ▸ hkept name j hj⟩
  obtain ⟨entry, hentry, rfl⟩ := Table.exists_of_has hcrate
  exact hlinks entry hentry

end

end Finished
end WorkingCopy
end Instrumentation
