import Instrumentation.WorkingCopy.Basic
import Instrumentation.Proofs.Writing

/-!
What the making of a working copy keeps, step by step: outside the directory of the copy every file
stays what it was, and each copied directory holds what its source holds, as far as it is copied at
all and is no manifest. Each copy is made where nothing was, so it has a directory of its own.
-/
namespace Instrumentation

namespace FileTree

variable {t₀ t : FileTree} {spot : Place}

/-- The places of files are made of names. -/
structure IsProper (t : FileTree) : Prop where
  names : ∀ f ∈ t.files, ∀ s ∈ f.1, Path.IsName s

instance (t : FileTree) : Decidable t.IsProper :=
  decidable_of_iff (∀ f ∈ t.files, ∀ s ∈ f.1, Path.IsName s) ⟨.mk, IsProper.names⟩

theorem IsProper.of_files (h : t₀.IsProper) (hfiles : t.files = t₀.files) : t.IsProper where
  names := hfiles ▸ h.names

theorem IsProper.isName_of_mem_filesBelow (h : t.IsProper) {skip : List String} {place rest : Place}
    {c : Content} (hbelow : (rest, c) ∈ t.filesBelow skip place) : ∀ s ∈ rest, Path.IsName s := by
  obtain ⟨hfile, -, -⟩ := mem_filesBelow.mp hbelow
  exact fun s hs => h.names _ (mem_of_fileAt? hfile) s (List.mem_append_right _ hs)

/-- Outside a directory, files are what they were. -/
structure SameOutside (spot : Place) (t₀ t : FileTree) : Prop where
  cwd : t.cwd = t₀.cwd
  fileAt? : ∀ q, ¬ spot <+: q → t.fileAt? q = t₀.fileAt? q

namespace SameOutside

theorem refl (spot : Place) (t : FileTree) : SameOutside spot t t := ⟨rfl, fun _ _ => rfl⟩

theorem put (h : SameOutside spot t₀ t) {place : Place} (hplace : spot <+: place) (c : Content) :
    SameOutside spot t₀ (t.put place c) where
  cwd := by rw [cwd_put, h.cwd]
  fileAt? q hq := by
    have hne : q ≠ place := by
      rintro rfl
      exact hq hplace
    rw [fileAt?_put_of_ne t c hne, h.fileAt? q hq]

theorem copyBelow (h : SameOutside spot t₀ t) {target : Place} (htarget : spot <+: target)
    (skipped : List String) (dir : Place) :
    SameOutside spot t₀ (t.copyBelow skipped dir target) where
  cwd := by rw [cwd_copyBelow, h.cwd]
  fileAt? q hq := by
    have hnot : ∀ rest, q ≠ target ++ rest := by
      rintro rest rfl
      exact hq (htarget.trans (List.prefix_append target rest))
    rw [fileAt?_copyBelow_of_not_below hnot, h.fileAt? q hq]

end SameOutside
end FileTree

namespace WorkingCopy

open FileTree (SameOutside IsProper)
open Writing (Leaves)

variable {t₀ t : FileTree} {spot : Place} {base : Path} {g : PackageGraph} {plan : Plan}

/-- The copy of a directory is made where the paths lead, from a tree in which both are. -/
theorem leaves_copyDir (pre : FileTree → Prop) {source target : Path}
    (hdirs : ∀ t dirs, t.dirs ⊆ dirs → pre t → pre { t with dirs }) :
    Leaves pre (copyDir source target)
      (fun files t' => ∃ t, pre t ∧ t.exists? source = true ∧ t.exists? target = true ∧
        files = (t.filesBelow skippedDirs (source.lead t.cwd)).map Prod.fst ∧
        t' = t.copyBelow skippedDirs (source.lead t.cwd) (target.lead t.cwd))
      pre := by
  refine (Leaves.dirs hdirs fun _ ht => ht).bind fun _ => Leaves.get.bind fun t => ?_
  refine (Leaves.orFail fun _ ht => ht.2).bind fun dir => ?_
  split
  · exact Leaves.throw fun _ ht => ht.2.2
  · refine (Leaves.orFail fun _ ht => ht.2.2).bind fun copy => ?_
    refine (Leaves.set (fun t' => pre t ∧ t' = t.copyBelow skippedDirs dir copy ∧
      t.place source = .ok dir ∧ t.place target = .ok copy) ?_).bind fun _ => Leaves.pure ?_
    · rintro _ ⟨hcopy, hdir, rfl, ht⟩
      exact ⟨ht, rfl, eq_ok_of_mapError hdir, eq_ok_of_mapError hcopy⟩
    · rintro t' ⟨ht, rfl, hdir, hcopy⟩
      refine ⟨t, ht, FileTree.exists?_iff.mpr ⟨dir, hdir⟩, FileTree.exists?_iff.mpr ⟨copy, hcopy⟩, ?_⟩
      rw [FileTree.place_eq hdir, FileTree.place_eq hcopy]
      exact ⟨rfl, rfl⟩

/-- The draft of a workspace that is copied from a tree. -/
def Draft.workspace (base : Path) (g : PackageGraph) (t : FileTree) : Draft :=
  let w : WorkingCopy := { base }
  let files := (t.filesBelow skippedDirs (g.workspaceRoot.lead t.cwd)).map Prod.fst
  { copy := { w with relocations := [⟨g.workspaceRoot, w.root⟩] }
    manifests := (files.filter fun f => f.getLast? == some Manifest.fileName).map fun f =>
      ⟨w.root.join (Text.joined "/" f), g.workspaceRoot.join (Text.joined "/" f)⟩ }

/-- A draft with one more package, which is copied to a directory. -/
def Draft.withPackage (d : Draft) (p : Package) (copy : Path) : Draft where
  copy := { d.copy with
    relocations := d.copy.relocations ++ [⟨p.rootDir, copy⟩]
    patched := d.copy.patched ++ p.source.patchKey?.elim [] fun _ => [p.label] }
  manifests := d.manifests ++ [⟨copy / Manifest.fileName, p.manifestPath⟩]
  patches := p.source.patchKey?.elim d.patches fun key => d.patches.add key p.name copy

theorem leaves_ofWorkspace (pre : FileTree → Prop)
    (hdirs : ∀ t dirs, t.dirs ⊆ dirs → pre t → pre { t with dirs }) :
    Leaves pre (Draft.ofWorkspace base g)
      (fun d t' => ∃ t, pre t ∧ t.exists? g.workspaceRoot = true ∧
        t.exists? ({ base } : WorkingCopy).root = true ∧ d = Draft.workspace base g t ∧
        t' = t.copyBelow skippedDirs (g.workspaceRoot.lead t.cwd)
          (({ base } : WorkingCopy).root.lead t.cwd))
      pre := by
  refine (leaves_copyDir pre hdirs).bind fun files => Leaves.pure ?_
  rintro _ ⟨t, ht, hsource, hcopy, rfl, rfl⟩
  exact ⟨t, ht, hsource, hcopy, rfl, rfl⟩

/-- A package is copied to a directory of its name that was missing and has been made. -/
structure CopiesTo (d : Draft) (p : Package) (copy : Path) (s t : FileTree) : Prop where
  candidate : copy ∈ candidates d.copy.base p s.places.length
  missing : s.exists? copy = false
  grows : s.Grows t
  source : t.exists? p.rootDir = true
  copy : t.exists? copy = true

/-- A package is copied to a directory of its name that was not there. -/
theorem leaves_addPackage (pre : FileTree → Prop)
    (hdirs : ∀ t dirs, t.dirs ⊆ dirs → pre t → pre { t with dirs }) (d : Draft) (p : Package) :
    Leaves pre (Draft.addPackage d p)
      (fun d' t' => ∃ s t copy, pre s ∧ pre t ∧ CopiesTo d p copy s t ∧ d' = d.withPackage p copy ∧
        t' = t.copyBelow skippedDirs (p.rootDir.lead t.cwd) (copy.lead t.cwd))
      pre := by
  refine Leaves.get.bind fun s => ?_
  dsimp only
  split
  case h_2 => exact Leaves.throw fun _ ht => ht.2
  case h_1 copy hfind =>
  have hmissing : s.exists? copy = false := by simpa using List.find?_some hfind
  refine ((leaves_copyDir (fun t => pre s ∧ pre t ∧ s.Grows t) ?_).imp ?_ (fun _ _ => id)
    fun _ ht => ht.2.1).bind fun files => Leaves.pure ?_
  · rintro t dirs hmore ⟨hs, ht, hgrows⟩
    exact ⟨hs, hdirs t dirs hmore ht, hgrows.trans (.withDirs hmore)⟩
  · rintro _ ⟨rfl, ht⟩
    exact ⟨ht, ht, .refl s⟩
  · rintro _ ⟨t, ⟨hs, ht, hgrows⟩, hsource, hcopy, -, rfl⟩
    exact ⟨s, t, copy, hs, ht,
      ⟨List.mem_of_find?_eq_some hfind, hmissing, hgrows, hsource, hcopy⟩, rfl, rfl⟩

/-- Where copies lie in the directory of the working copy. -/
inductive IsSpot : Place → Prop
  | workspace : IsSpot ["ws"]
  | package (name : String) : IsSpot ["deps", name]

/-- Copies do not lie in one another. -/
theorem IsSpot.eq_of_append {a b xs ys : Place} (ha : IsSpot a) (hb : IsSpot b)
    (h : a ++ xs = b ++ ys) : a = b := by
  cases ha <;> cases hb <;> simp_all

/-- The directories for copies, as they are written. -/
inductive IsCopyDir (base : Path) : Place → Path → Prop
  | workspace : IsCopyDir base ["ws"] (base / "ws")
  | package {name : String} (hname : Path.IsName name) :
    IsCopyDir base ["deps", name] (base / "deps" / name)

namespace IsCopyDir

variable {names names' : Place} {p p' : Path}

theorem isSpot (h : IsCopyDir base names p) : IsSpot names := by
  cases h
  · exact .workspace
  · exact .package _

theorem components_eq (h : IsCopyDir base names p) :
    p.components = base.components ++ names.map .name := by
  cases h with
  | workspace => exact Path.components_div base (by decide)
  | package hname =>
    rw [Path.components_div _ hname, Path.components_div base (by decide), List.append_assoc]
    rfl

/-- A path that leads on from two directories for copies leads on from one. -/
theorem eq_of_append {xs ys : List PathComponent} (h : IsCopyDir base names p)
    (h' : IsCopyDir base names' p') (heq : p.components ++ xs = p'.components ++ ys) : p = p' := by
  rw [h.components_eq, h'.components_eq, List.append_assoc, List.append_assoc,
    List.append_cancel_left_eq] at heq
  cases h <;> cases h' <;> simp_all

end IsCopyDir

theorem noSlash_toString (n : Nat) : '/' ∉ (toString n).toList := by
  intro h
  rw [Nat.toString_eq_repr, Nat.toList_repr] at h
  exact absurd (Nat.isDigit_of_mem_toDigits (by decide) (by decide) h) (by decide)

/-- A name with a dash in it is none of the dots. -/
theorem isName_of_mem_copyNames {p : Package} {count : Nat} {name : String}
    (hlabel : '/' ∉ p.label.toList) (h : name ∈ copyNames p count) : Path.IsName name := by
  simp only [Package.label, String.toList_append, List.mem_append, not_or] at hlabel
  have hname (number : String) (hnumber : '/' ∉ number.toList) :
      Path.IsName (p.name ++ "-" ++ p.version.text ++ number) := by
    have hdash : '-' ∈ (p.name ++ "-" ++ p.version.text ++ number).toList := by simp
    refine ⟨?_, ?_, ?_, ?_⟩
    · intro he
      simp [he] at hdash
    · intro he
      simp [he] at hdash
    · intro he
      simp [he] at hdash
    · simp [hlabel, hnumber]
  rcases List.mem_cons.mp h with rfl | h
  · simpa using hname "" (by simp)
  · obtain ⟨n, -, rfl⟩ := List.mem_map.mp h
    have hnumber : '/' ∉ ("-" ++ toString (n + 1)).toList := by
      simpa using noSlash_toString (n + 1)
    simpa [String.append_assoc] using hname _ hnumber

theorem nodup_copyNames (p : Package) (count : Nat) : (copyNames p count).Nodup := by
  have hlonger (s : String) (n : Nat) : s ≠ s ++ "-" ++ toString (n + 1) := by
    intro h
    have hlength := congrArg String.length h
    simp only [String.length_append] at hlength
    have hdash : "-".length = 1 := rfl
    omega
  refine List.nodup_cons.mpr ⟨fun h => ?_, List.nodup_range.map fun m n h => ?_⟩
  · obtain ⟨n, -, hn⟩ := List.mem_map.mp h
    exact hlonger _ n hn.symm
  · have hdigits := congrArg String.toList ((String.append_right_inj _).mp h)
    rw [Nat.toString_eq_repr, Nat.toString_eq_repr, Nat.toList_repr, Nat.toList_repr] at hdigits
    have hnumbers := congrArg (Nat.ofDigitChars 10 · 0) hdigits
    simp only [Nat.ofDigitChars_ten_toDigits] at hnumbers
    omega

/-- A package is copied to a directory of its own name. -/
theorem isCopyDir_of_mem_candidates {p : Package} {count : Nat} {copy : Path}
    (hlabel : '/' ∉ p.label.toList) (h : copy ∈ candidates base p count) :
    ∃ name, IsCopyDir base ["deps", name] copy := by
  obtain ⟨name, hname, rfl⟩ := List.mem_map.mp h
  exact ⟨name, .package (isName_of_mem_copyNames hlabel hname)⟩

/-- The search for a directory ends: there are more names than the tree has places, so that they are
not all taken. -/
theorem exists_free (hbase : base.IsAt spot) {p : Package} (hlabel : '/' ∉ p.label.toList)
    (t : FileTree) : ∃ copy ∈ candidates base p t.places.length, t.exists? copy = false := by
  by_contra hnone
  have htaken : copyNames p t.places.length ⊆ t.entries (spot ++ ["deps"]) := by
    intro name hname
    have hat : (base / "deps" / name).IsAt ((spot ++ ["deps"]) ++ [name]) :=
      (hbase.div (by decide)).div (isName_of_mem_copyNames hlabel hname)
    have hexists : t.exists? (base / "deps" / name) = true := by
      by_contra hfree
      exact hnone ⟨_, List.mem_map_of_mem hname, by simpa using hfree⟩
    obtain ⟨place, hplace⟩ := FileTree.exists?_iff.mp hexists
    obtain rfl : place = (spot ++ ["deps"]) ++ [name] :=
      (FileTree.place_eq hplace).trans (hat.lead t.cwd)
    exact FileTree.mem_entries_of_there (FileTree.there_of_place hplace)
  have hcount := (nodup_copyNames p t.places.length).length_le_of_subset htaken
  have hentries := t.length_entries_le (spot ++ ["deps"])
  simp only [copyNames, List.length_cons, List.length_map, List.length_range] at hcount
  omega

/-- The copies of a working copy are there, each in a directory of its own, and were made of
something. -/
structure IsSpread (w : WorkingCopy) (t : FileTree) : Prop where
  dirs : ∀ r ∈ w.relocations, ∃ names, IsCopyDir w.base names r.copy
  single : (w.relocations.map Relocation.copy).Nodup
  present : ∀ r ∈ w.relocations, t.exists? r.copy = true
  sources : ∀ r ∈ w.relocations, r.source.components ≠ []

theorem IsSpread.grow {w : WorkingCopy} {t' : FileTree} (h : w.IsSpread t) (hgrows : t.Grows t') :
    w.IsSpread t' :=
  { h with present := fun r hr => hgrows.exists? (h.present r hr) }

theorem isSpread_workspace (hsource : t.exists? g.workspaceRoot = true)
    (hcopy : t.exists? ({ base } : WorkingCopy).root = true) :
    (Draft.workspace base g t₀).copy.IsSpread t := by
  constructor
  case single => exact List.nodup_singleton _
  all_goals
    intro r hr
    obtain rfl := List.mem_singleton.mp hr
  case dirs => exact ⟨_, .workspace⟩
  case present => exact hcopy
  case sources => exact FileTree.components_ne_nil_of_exists? hsource

/-- The directories of copies are there, and that for a new one is not. -/
theorem IsSpread.copy_ne {d : Draft} {p : Package} {copy : Path} {s : FileTree}
    (h : d.copy.IsSpread s) (hmade : CopiesTo d p copy s t) :
    ∀ r ∈ d.copy.relocations, r.copy ≠ copy := by
  rintro r hr rfl
  exact absurd (h.present r hr) (by simp [hmade.missing])

theorem IsSpread.withPackage {d : Draft} {p : Package} {copy : Path} {s : FileTree}
    (h : d.copy.IsSpread s) (hlabel : '/' ∉ p.label.toList) (hmade : CopiesTo d p copy s t) :
    (d.withPackage p copy).copy.IsSpread t := by
  have hgrown := h.grow hmade.grows
  have hsplit (r : Relocation) (hr : r ∈ (d.withPackage p copy).copy.relocations) :
      r ∈ d.copy.relocations ∨ r = ⟨p.rootDir, copy⟩ := by
    simpa [Draft.withPackage] using hr
  constructor
  case single =>
    have hnew : copy ∉ d.copy.relocations.map Relocation.copy := by
      intro hmem
      obtain ⟨r, hr, he⟩ := List.mem_map.mp hmem
      exact h.copy_ne hmade r hr he
    rw [Draft.withPackage, List.map_append, List.nodup_append_comm]
    exact List.nodup_cons.mpr ⟨hnew, h.single⟩
  case dirs =>
    intro r hr
    rcases hsplit r hr with hr | rfl
    · exact h.dirs r hr
    · obtain ⟨name, hdir⟩ := isCopyDir_of_mem_candidates hlabel hmade.candidate
      exact ⟨_, hdir⟩
  case present =>
    intro r hr
    rcases hsplit r hr with hr | rfl
    · exact hgrown.present r hr
    · exact hmade.copy
  case sources =>
    intro r hr
    rcases hsplit r hr with hr | rfl
    · exact h.sources r hr
    · exact FileTree.components_ne_nil_of_exists? hmade.source

/-- What lies in two copies lies in one. -/
def CopiesApart (w : WorkingCopy) : Prop :=
  ∀ r ∈ w.relocations, ∀ r' ∈ w.relocations, ∀ xs ys,
    r.copy.components ++ xs = r'.copy.components ++ ys → r = r'

theorem IsSpread.copiesApart {w : WorkingCopy} (h : w.IsSpread t) : w.CopiesApart := by
  intro r hr r' hr' xs ys heq
  obtain ⟨names, hdir⟩ := h.dirs r hr
  obtain ⟨names', hdir'⟩ := h.dirs r' hr'
  exact List.inj_on_of_nodup_map h.single hr hr' (hdir.eq_of_append hdir' heq)

/-- A copy holds what its source held in files of some names, but what is skipped and what lay in
the directory of the working copy. -/
def Copied (which : Place → Prop) (t₀ : FileTree) (spot : Place) (r : Relocation) (t : FileTree) :
    Prop :=
  ∀ place rest c, r.copy.IsAt place → t₀.fileAt? (r.source.lead t₀.cwd ++ rest) = some c →
    ¬ spot <+: r.source.lead t₀.cwd ++ rest → rest ≠ [] → (∀ s ∈ rest.dropLast, s ∉ skippedDirs) →
    which rest → t.fileAt? (place ++ rest) = some c

/-- A file is not a manifest. -/
def IsNoManifest (rest : Place) : Prop := rest.getLast? ≠ some Manifest.fileName

/-- A working copy in the making: what holds of its draft and the tree after the workspace and some
packages have been copied. Files of some names are as they were. -/
structure Made (which : Place → Prop) (t₀ : FileTree) (spot : Place) (base : Path)
    (g : PackageGraph) (done : List Package) (d : Draft) (t : FileTree) : Prop where
  outside : SameOutside spot t₀ t
  place : base.IsAt spot
  base : d.copy.base = base
  spread : d.copy.IsSpread t
  sources : d.copy.relocations.map Relocation.source = g.workspaceRoot :: done.map Package.rootDir
  workspace : ⟨g.workspaceRoot, d.copy.root⟩ ∈ d.copy.relocations
  manifests : ∀ m ∈ d.manifests, ∃ names, m.copy.IsAt (spot ++ names) ∧
    names.getLast? = some Manifest.fileName
  copied : ∀ r ∈ d.copy.relocations, Copied which t₀ spot r t

/-- The copy of a directory into a spot. -/
theorem Copied.of_copyBelow {which : Place → Prop} {r : Relocation}
    (houtside : SameOutside spot t₀ t) :
    Copied which t₀ spot r (t.copyBelow skippedDirs (r.source.lead t.cwd) (r.copy.lead t.cwd)) := by
  intro place' rest c hplace' hfile hnot hne hskip _
  rw [hplace'.lead, houtside.cwd]
  refine FileTree.fileAt?_copyBelow ?_ hne hskip
  rw [houtside.fileAt? _ hnot, hfile]

theorem made_ofWorkspace (which : Place → Prop) (hbase : base.IsAt spot) (hproper : t₀.IsProper) :
    Leaves (· = t₀) (Draft.ofWorkspace base g) (Made which t₀ spot base g [])
      (SameOutside spot t₀) := by
  have hroot : ({ base : WorkingCopy }.root).IsAt (spot ++ ["ws"]) := hbase.div (by decide)
  refine (leaves_ofWorkspace (fun t => t.files = t₀.files ∧ t.cwd = t₀.cwd)
    fun _ _ _ ht => ht).imp ?_ ?_ ?_
  · rintro _ rfl
    exact ⟨rfl, rfl⟩
  case refine_3 =>
    rintro t ⟨hfiles, hcwd⟩
    exact ⟨hcwd, fun q _ => by simp [FileTree.fileAt?, hfiles]⟩
  rintro _ _ ⟨t, ⟨hfiles, hcwd⟩, hsource, hcopy, rfl, rfl⟩
  have ht : t.IsProper := hproper.of_files hfiles
  have houtside : SameOutside spot t₀ t := ⟨hcwd, fun q _ => by simp [FileTree.fileAt?, hfiles]⟩
  constructor
  case outside =>
    refine houtside.copyBelow ?_ _ _
    rw [hroot.lead]
    exact List.prefix_append spot ["ws"]
  case place => exact hbase
  case base => rfl
  case spread => exact (isSpread_workspace hsource hcopy).grow (.copyBelow t _ _ _)
  case sources => rfl
  case workspace => simp [WorkingCopy.root, Draft.workspace]
  case manifests =>
    intro m hm
    obtain ⟨f, hf, rfl⟩ := List.mem_map.mp hm
    obtain ⟨hf, hlast⟩ := List.mem_filter.mp hf
    obtain ⟨⟨f', c⟩, hbelow, rfl⟩ := List.mem_map.mp hf
    obtain ⟨-, hne, -⟩ := FileTree.mem_filesBelow.mp hbelow
    refine ⟨"ws" :: f', ?_, ?_⟩
    · simpa [WorkingCopy.root] using hroot.join (ht.isName_of_mem_filesBelow hbelow)
    · obtain ⟨last, hlast'⟩ : ∃ last, f'.getLast? = some last := by
        simpa [← Option.isSome_iff_exists] using hne
      simpa [List.getLast?_cons, hlast'] using hlast
  case copied =>
    intro r hr
    obtain rfl := List.mem_singleton.mp hr
    exact Copied.of_copyBelow houtside

/-- What stays in the copy of a directory, if its files of those names stay. -/
theorem Copied.keep {which : Place → Prop} {r : Relocation} {t' : FileTree} {place : Place}
    (h : Copied which t₀ spot r t) (hat : r.copy.IsAt place)
    (hkeep : ∀ rest, rest ≠ [] → which rest →
      t'.fileAt? (place ++ rest) = t.fileAt? (place ++ rest)) : Copied which t₀ spot r t' := by
  intro place' rest c hplace hfile hnot hne hskip hwhich
  obtain rfl := hat.eq hplace
  rw [hkeep rest hne hwhich]
  exact h _ rest c hplace hfile hnot hne hskip hwhich

namespace Made

variable {which : Place → Prop} {done : List Package} {d : Draft}

theorem isAt (h : Made which t₀ spot base g done d t) {names : Place} {copy : Path}
    (hdir : IsCopyDir d.copy.base names copy) : copy.IsAt (spot ++ names) := by
  rw [Path.IsAt, hdir.components_eq, h.base, h.place.components_eq, List.map_append,
    List.cons_append]

theorem spots (h : Made which t₀ spot base g done d t) :
    ∀ r ∈ d.copy.relocations, ∃ names, IsSpot names ∧ r.copy.IsAt (spot ++ names) := by
  intro r hr
  obtain ⟨names, hdir⟩ := h.spread.dirs r hr
  exact ⟨names, hdir.isSpot, h.isAt hdir⟩

theorem withDirs (h : Made which t₀ spot base g done d t) {dirs : List Place}
    (hdirs : t.dirs ⊆ dirs) : Made which t₀ spot base g done d { t with dirs } where
  outside := ⟨h.outside.cwd, h.outside.fileAt?⟩
  place := h.place
  base := h.base
  spread := h.spread.grow (.withDirs hdirs)
  sources := h.sources
  workspace := h.workspace
  manifests := h.manifests
  copied := h.copied

/-- A manifest may be written. -/
theorem put_manifest (h : Made IsNoManifest t₀ spot base g done d t) {m : ManifestCopy}
    (hm : m ∈ d.manifests) (c : Content) :
    Made IsNoManifest t₀ spot base g done d (t.put (m.copy.lead t.cwd) c) := by
  obtain ⟨names, hat, hlast⟩ := h.manifests m hm
  rw [hat.lead]
  refine { h with
    outside := ?_, spread := h.spread.grow (.put t _ c), copied := ?_ }
  · exact h.outside.put (List.prefix_append spot names) c
  · intro r hr
    obtain ⟨names', -, hat'⟩ := h.spots r hr
    refine (h.copied r hr).keep hat' fun rest hne hrest => FileTree.fileAt?_put_of_ne t c ?_
    intro he
    rw [List.append_assoc, List.append_cancel_left_eq] at he
    rw [← he, List.getLast?_append_of_ne_nil names' hne] at hlast
    exact hrest hlast

/-- A package is copied to a spot that no other copy has. -/
theorem exists_newSpot {s : FileTree} (h : Made which t₀ spot base g done d s) {p : Package}
    (hlabel : '/' ∉ p.label.toList) {copy : Path} (hmade : CopiesTo d p copy s t) :
    ∃ name, copy.IsAt (spot ++ ["deps", name]) ∧
      ∀ r ∈ d.copy.relocations, ∀ names, IsSpot names → r.copy.IsAt (spot ++ names) →
        names ≠ ["deps", name] := by
  obtain ⟨name, hdir⟩ := isCopyDir_of_mem_candidates hlabel hmade.candidate
  have hat : copy.IsAt (spot ++ ["deps", name]) := h.isAt hdir
  refine ⟨name, hat, ?_⟩
  rintro r hr names - hat' rfl
  obtain ⟨names', hdir'⟩ := h.spread.dirs r hr
  have hsame : r.copy.components ++ [] = copy.components ++ [] := by
    rw [hat'.components_eq, hat.components_eq]
  exact h.spread.copy_ne hmade r hr (hdir'.eq_of_append hdir hsame)

end Made

theorem made_addPackage {which : Place → Prop} {done : List Package} {p : Package}
    (hlabel : '/' ∉ p.label.toList) (d : Draft) :
    Leaves (Made which t₀ spot base g done d) (Draft.addPackage d p)
      (Made which t₀ spot base g (done ++ [p])) (SameOutside spot t₀) := by
  refine (leaves_addPackage (Made which t₀ spot base g done d)
    (fun _ _ hdirs h => h.withDirs hdirs) d p).imp (fun _ => id) ?_ fun _ ht => ht.outside
  rintro _ _ ⟨s, t, copy, hbefore, hmade, hcopied, rfl, rfl⟩
  obtain ⟨name, hat, hapart⟩ := hbefore.exists_newSpot hlabel hcopied
  have hbelow : spot <+: copy.lead t.cwd := by
    rw [hat.lead]
    exact List.prefix_append spot _
  constructor
  case outside => exact hmade.outside.copyBelow hbelow _ _
  case place => exact hmade.place
  case base => exact hmade.base
  case spread => exact (hbefore.spread.withPackage hlabel hcopied).grow (.copyBelow t _ _ _)
  case sources => simp [Draft.withPackage, hmade.sources]
  case workspace => exact List.mem_append_left _ hmade.workspace
  case manifests =>
    intro m hm
    rcases List.mem_append.mp hm with hm | hm
    · exact hmade.manifests m hm
    · obtain rfl := List.mem_singleton.mp hm
      have hmanifest := hat.div (s := Manifest.fileName) (by decide)
      exact ⟨["deps", name, Manifest.fileName], by simpa using hmanifest, rfl⟩
  case copied =>
    intro r hr
    rcases List.mem_append.mp hr with hr | hr
    · obtain ⟨names, hspot, hat'⟩ := hmade.spots r hr
      refine (hmade.copied r hr).keep hat' fun rest _ _ =>
        FileTree.fileAt?_copyBelow_of_not_below fun rest' he => ?_
      rw [hat.lead, List.append_assoc, List.append_assoc, List.append_cancel_left_eq] at he
      exact hapart r hr names hspot hat' (hspot.eq_of_append (.package name) he)
    · obtain rfl := List.mem_singleton.mp hr
      exact Copied.of_copyBelow hmade.outside

theorem made_wire {done : List Package} {d : Draft} {m : ManifestCopy} (hm : m ∈ d.manifests)
    (instrumented : List Path) (extra : Table) (patches : Manifest.Patches) :
    Leaves (Made IsNoManifest t₀ spot base g done d) (wire d.copy instrumented extra patches m)
      (fun _ => Made IsNoManifest t₀ spot base g done d) (SameOutside spot t₀) := by
  refine Leaves.get.bind fun s => (Leaves.orFail fun _ ht => ht.2.outside).bind fun table => ?_
  exact Leaves.file (fun t ht => ht.2.2.put_manifest hm _) fun t ht => ht.2.2.outside

/-- The packages that are copied beside the workspace. -/
def copiedPackages (g : PackageGraph) (plan : Plan) : List Package :=
  (g.packages.zipIdx.filter fun (p, i) => isCopied g plan i p).map Prod.fst

theorem mem_packages_of_copied {p : Package} (h : p ∈ copiedPackages g plan) : p ∈ g.packages := by
  obtain ⟨⟨q, i⟩, hq, rfl⟩ := List.mem_map.mp h
  exact List.mem_of_getElem? (List.mem_zipIdx_iff_getElem?.mp (List.mem_filter.mp hq).1)

/-- The draft of a program: the workspace is copied first, and then every package that is. -/
def draft (base : Path) (g : PackageGraph) (plan : Plan) : Writing Draft := do
  (copiedPackages g plan).foldlM Draft.addPackage (← Draft.ofWorkspace base g)

/-- Manifests are wired when everything is copied. -/
theorem copyProgram_eq (base : Path) (g : PackageGraph) (plan : Plan) :
    copyProgram base g plan = draft base g plan >>= fun d => do
      let extra ← Writing.orFail (extraDependencies (← get) g plan d.copy)
      d.manifests.forM (wire d.copy (instrumentedManifests g plan d.copy) extra d.patches)
      return d.copy := by
  rw [draft, bind_assoc]
  rfl

theorem made_draft (which : Place → Prop) (hbase : base.IsAt spot) (hproper : t₀.IsProper)
    (hlabels : ∀ p ∈ g.packages, '/' ∉ p.label.toList) :
    Leaves (· = t₀) (draft base g plan) (Made which t₀ spot base g (copiedPackages g plan))
      (SameOutside spot t₀) := by
  have hpackages : ∀ done, ∀ p ∈ copiedPackages g plan, ∀ d,
      Leaves (Made which t₀ spot base g done d) (Draft.addPackage d p)
        (Made which t₀ spot base g (done ++ [p])) (SameOutside spot t₀) := fun done p hp d =>
    made_addPackage (hlabels p (mem_packages_of_copied hp)) d
  exact (made_ofWorkspace which hbase hproper).bind fun d => Leaves.foldlM hpackages []

/-- A working copy that is made keeps the files outside it, and holds what it copies; one that
cannot be made keeps the files outside it, too. -/
theorem made_copyProgram (hbase : base.IsAt spot) (hproper : t₀.IsProper)
    (hlabels : ∀ p ∈ g.packages, '/' ∉ p.label.toList) :
    Leaves (· = t₀) (copyProgram base g plan)
      (fun w t => ∃ d, d.copy = w ∧
        Made IsNoManifest t₀ spot base g (copiedPackages g plan) d t)
      (SameOutside spot t₀) := by
  rw [copyProgram_eq]
  refine (made_draft IsNoManifest hbase hproper hlabels).bind fun d => Leaves.get.bind fun s => ?_
  refine (Leaves.orFail fun _ ht => ht.2.outside).bind fun extra => ?_
  have hwire : Leaves (Made IsNoManifest t₀ spot base g (copiedPackages g plan) d)
      (d.manifests.forM (wire d.copy (instrumentedManifests g plan d.copy) extra d.patches))
      (fun _ => Made IsNoManifest t₀ spot base g (copiedPackages g plan) d)
      (SameOutside spot t₀) := Leaves.forM fun m hm => made_wire hm _ _ _
  exact (hwire.imp (fun _ ht => ht.2.2) (fun _ _ => id) fun _ => id).bind fun _ =>
    Leaves.pure fun t ht => ⟨d, rfl, ht⟩

end WorkingCopy
end Instrumentation
