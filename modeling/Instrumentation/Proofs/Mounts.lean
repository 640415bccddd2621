import Instrumentation.Proofs.Paths
import Instrumentation.Proofs.Walks
import Mathlib.Data.List.DropRight

/-!
The files of modules. The language prescribes in which file the module of a declaration is, by the
declaring file and by where the declaration stands in it; so files are mounted one from the other,
down from the crate root. A walk mounts its files as prescribed, but for declarations that it
misreads: it keeps the `r#` of raw names, and in a file with a directory for its modules it looks
from there for what an attribute names (`mounted_or_misread`).
-/
namespace Instrumentation

theorem Text.joined_joined (sep s : String) (parts rest : List String) :
    joined sep (joined sep (s :: parts) :: rest) = joined sep (s :: (parts ++ rest)) := by
  induction parts generalizing s with
  | nil => rfl
  | cons p parts ih =>
    have hrest := ih p
    cases rest with
    | nil => simp [joined]
    | cons r rest =>
      simp only [joined, List.cons_append] at hrest ⊢
      rw [← hrest]
      simp only [String.append_assoc]

namespace Path

theorem join_of_absolute {q : String} (h : q.toList.head? = some '/') (p : Path) : p.join q = ⟨q⟩ := by
  simp [join, h]

theorem text_join_append (p : Path) (s : String) {t : String} (ht : t.toList.head? ≠ some '/') :
    (p.join (s ++ t)).text = (p.join s).text ++ t := by
  have hhead : (s ++ t).toList.head? = some '/' ↔ s.toList.head? = some '/' := by
    rw [String.toList_append]
    cases hs : s.toList with
    | nil => simpa using ht
    | cons c cs => simp
  unfold join
  by_cases hs : s.toList.head? = some '/'
  · simp [hs]
  · simp only [beq_iff_eq, hs, mt hhead.mp hs, ↓reduceIte]
    split <;> simp [String.append_assoc]

/-- What a name is joined to ends in the name. -/
theorem fileName?_join (p : Path) {s : String} (hs : IsName s) : (p.join s).fileName? = some s := by
  have hnames : ∀ u ∈ [s], IsName u := by simpa using hs
  have hsteps : stepsIn s.toList = [.name s] := by simpa using stepsIn_names hnames
  have hhead : s.toList.head? ≠ some '/' := by
    intro he
    exact hs.noSlash (List.mem_of_mem_head? he)
  have hlast : (p.join s).components.getLast? = some (.name s) := by
    rw [components_eq]
    unfold join
    simp only [beq_iff_eq, hhead, ↓reduceIte]
    split
    · next hend =>
      rw [Bool.or_eq_true, beq_iff_eq] at hend
      rcases hend with hempty | hslash
      · simp [String.isEmpty_iff.mp hempty, hsteps]
      · obtain ⟨before, hbefore⟩ := List.getLast?_eq_some_iff.mp hslash
        simp [hbefore, stepsIn_append, hsteps]
    · simp [stepsIn_append, hsteps]
  simp [fileName?, hlast]

end Path

namespace ModuleFile

open Source (OutlineModule)

/-- Where the modules that a file declares are: beside it, or in a directory with its name. -/
inductive Manner where
  | beside
  | below
  deriving DecidableEq, Repr

/-- The directory for the modules of a file. -/
def Manner.dir : Manner → Path → Path
  | .beside, file => (file.parent?).getD ⟨""⟩
  | .below, file => ⟨String.ofList (file.text.toList.rdrop ".rs".length)⟩

/-- A `mod.rs` and a file that an attribute names have their modules beside them, like a crate
root; any other file has a directory for them. -/
def Manner.of (m : OutlineModule) (file : Path) : Manner :=
  if m.path.isSome || file.fileName? == some "mod.rs" then .beside else .below

/-- A name without `r#`. -/
def bare (name : String) : String :=
  match name.toList with
  | 'r' :: '#' :: rest => String.ofList rest
  | _ => name

/-- The directory for the modules of a module inside a file. -/
def moduleDir (k : Manner) (file : Path) (scope : List String) : Path :=
  (scope.map bare).foldl Path.join (k.dir file)

/-- The file that the language prescribes for a declaration in a file. -/
inductive Prescribed (t : FileTree) (k : Manner) (file : Path) (m : OutlineModule) : Path → Prop where
  /-- The file with the name of the module. -/
  | plain (hattr : m.path = none)
      (h : t.isFile (moduleDir k file m.scope / (bare m.name ++ ".rs")) = true) :
      Prescribed t k file m (moduleDir k file m.scope / (bare m.name ++ ".rs"))
  /-- If there is none, the `mod.rs` in the directory with that name. -/
  | inside (hattr : m.path = none)
      (hno : t.isFile (moduleDir k file m.scope / (bare m.name ++ ".rs")) = false)
      (h : t.isFile (moduleDir k file m.scope / bare m.name / "mod.rs") = true) :
      Prescribed t k file m (moduleDir k file m.scope / bare m.name / "mod.rs")
  /-- What an attribute names, seen from the directory that the declaring file is in. -/
  | named {p : String} (hattr : m.path = some p) (hscope : m.scope = [])
      (h : t.isFile ((file.parent?).getD ⟨""⟩ / p) = true) :
      Prescribed t k file m ((file.parent?).getD ⟨""⟩ / p)
  /-- In a module inside the file, it is seen from the directory of that module. -/
  | namedInside {p : String} (hattr : m.path = some p) (hscope : m.scope ≠ [])
      (h : t.isFile (moduleDir k file m.scope / p) = true) :
      Prescribed t k file m (moduleDir k file m.scope / p)

/-- Files that are mounted as the language prescribes, down from the crate root. -/
inductive Mounted (t : FileTree) (crate : String) (root : Path) : ModuleFile → Manner → Prop where
  | root {f : SourceFile} (hfile : scan t root = .ok f) :
      Mounted t crate root ⟨crate, true, f⟩ .beside
  | declared {g : ModuleFile} {k : Manner} {m : OutlineModule} {path : Path} {f : SourceFile}
      (hg : Mounted t crate root g k) (hm : m ∈ g.file.scan.modules)
      (hpath : Prescribed t k g.file.path m path) (hfile : scan t path = .ok f) :
      Mounted t crate root
        ⟨Text.joined "::" (g.modulePath :: (m.scope ++ [m.name])), g.isExported && m.isPub, f⟩
        (.of m path)

/-- Declarations that are looked for elsewhere: by a raw name as it is written, or, in a file with
a directory for its modules, from that directory for what an attribute names. An absolute path is
the same from everywhere. -/
inductive Misread (k : Manner) (m : OutlineModule) : Prop where
  | rawName (hattr : m.path = none) (h : bare m.name ≠ m.name)
  | rawScope (hrel : ∀ p, m.path = some p → p.toList.head? ≠ some '/')
      (h : ∃ s ∈ m.scope, bare s ≠ s)
  | named {p : String} (hattr : m.path = some p) (hrel : p.toList.head? ≠ some '/')
      (hk : k = .below) (hscope : m.scope = [])

section

variable {t : FileTree} {k : Manner} {p q : Pending} {m : OutlineModule}

/-- The directory for the modules of a file that is found by its name. -/
theorem dir_below (dir : Path) (name : String) :
    Manner.below.dir (dir / (name ++ ".rs")) = dir / name := by
  have htext : (dir / (name ++ ".rs")).text = (dir / name).text ++ ".rs" :=
    Path.text_join_append dir name (by decide)
  have hdrop : ((dir / name).text.toList ++ ".rs".toList).rdrop ".rs".length =
      (dir / name).text.toList := List.rdrop_append_length
  rw [Manner.dir, htext, String.toList_append, hdrop, String.ofList_toList]

theorem moduleDir_eq {file : Path} {scope : List String} (h : ∀ s ∈ scope, bare s = s) :
    moduleDir k file scope = scope.foldl Path.join (k.dir file) := by
  rw [moduleDir, List.map_congr_left h, List.map_id']

/-- A declaration without attribute is followed as it is prescribed. -/
theorem prescribed_of_unnamed (hdir : p.dir = k.dir p.path) (h : follow? t p m = some q)
    (hattr : m.path = none) (hname : bare m.name = m.name) (hscope : ∀ s ∈ m.scope, bare s = s) :
    Prescribed t k p.path m q.path ∧ q.dir = (Manner.of m q.path).dir q.path := by
  obtain ⟨found, hfind, rfl⟩ := follow?_eq_some h
  have hmodule : moduleDir k p.path m.scope = m.scope.foldl Path.join p.dir :=
    hdir ▸ moduleDir_eq hscope
  rw [← hmodule] at hfind ⊢
  have hplain := @Prescribed.plain t k p.path m hattr
  have hinside := @Prescribed.inside t k p.path m hattr
  rw [hname] at hplain hinside
  simp only [candidates, hattr] at hfind
  generalize moduleDir k p.path m.scope = dir at hfind hplain hinside ⊢
  rw [List.find?_cons] at hfind
  split at hfind
  · next hfile =>
    cases hfind
    refine ⟨hplain hfile, ?_⟩
    simp only [childDir, Manner.of, hattr]
    split
    · rfl
    · exact (dir_below dir m.name).symm
  · next hno =>
    rw [List.find?_singleton] at hfind
    split at hfind
    · next hfile =>
      cases hfind
      refine ⟨hinside hno hfile, ?_⟩
      have hlast : (dir / m.name / "mod.rs").fileName? = some "mod.rs" :=
        Path.fileName?_join _ (by decide)
      simp [childDir, Manner.of, hlast, Manner.dir]
    · cases hfind

/-- A declaration whose file is named leads where the name leads from the directory it is seen
from, and the modules of that file lie beside it. -/
theorem path_of_named {attr : String} (h : follow? t p m = some q) (hattr : m.path = some attr) :
    q.path = m.scope.foldl Path.join p.dir / attr ∧ t.isFile q.path = true ∧
      q.dir = (Manner.of m q.path).dir q.path := by
  obtain ⟨found, hfind, rfl⟩ := follow?_eq_some h
  simp only [candidates, hattr, List.find?_singleton] at hfind
  split at hfind
  · next hfile =>
    cases hfind
    exact ⟨rfl, hfile, by simp [childDir, Manner.of, hattr, Manner.dir]⟩
  · cases hfind

/-- A declaration that is not misread is followed as it is prescribed. -/
theorem prescribed_or_misread (hdir : p.dir = k.dir p.path) (h : follow? t p m = some q) :
    Misread k m ∨
      Prescribed t k p.path m q.path ∧ q.dir = (Manner.of m q.path).dir q.path := by
  by_cases hmisread : Misread k m
  · exact .inl hmisread
  right
  have hscope (hrel : ∀ attr, m.path = some attr → attr.toList.head? ≠ some '/') :
      ∀ s ∈ m.scope, bare s = s := by
    intro s hs
    by_contra hraw
    exact hmisread (.rawScope hrel ⟨s, hs, hraw⟩)
  cases hattr : m.path with
  | none =>
    have hname : bare m.name = m.name := by
      by_contra hraw
      exact hmisread (.rawName hattr hraw)
    exact prescribed_of_unnamed hdir h hattr hname (hscope (by simp [hattr]))
  | some attr =>
    obtain ⟨hpath, hfile, hnext⟩ := path_of_named h hattr
    refine ⟨?_, hnext⟩
    -- Both directories give the same file: they are one, or do not matter.
    have hsame (dir : Path) (h : attr.toList.head? ≠ some '/' →
        dir = m.scope.foldl Path.join p.dir) : q.path = dir / attr := by
      by_cases habs : attr.toList.head? = some '/'
      · rw [hpath]
        exact (Path.join_of_absolute habs _).trans (Path.join_of_absolute habs _).symm
      · rw [hpath, h habs]
    by_cases hnil : m.scope = []
    · have hnamed := hsame ((p.path.parent?).getD ⟨""⟩) fun hrel => by
        cases hk : k with
        | beside => simp [hnil, hdir, hk, Manner.dir]
        | below => exact absurd (.named hattr hrel hk hnil) hmisread
      rw [hnamed] at hfile ⊢
      exact .named hattr hnil hfile
    · have hnamed := hsame (moduleDir k p.path m.scope) fun hrel => by
        rw [moduleDir_eq (hscope (by simp [hattr, hrel])), hdir]
      rw [hnamed] at hfile ⊢
      exact .namedInside hattr hnil hfile

end

/-- Outside modules an attribute settles the file. -/
theorem Prescribed.eq_of_named {t : FileTree} {k : Manner} {file path : Path} {m : OutlineModule}
    {attr : String} (h : Prescribed t k file m path) (hattr : m.path = some attr)
    (hscope : m.scope = []) : path = (file.parent?).getD ⟨""⟩ / attr := by
  cases h with
  | plain hnone => simp [hattr] at hnone
  | inside hnone => simp [hattr] at hnone
  | named hsome =>
    rw [hattr] at hsome
    rw [Option.some.inj hsome]
  | namedInside _ hne => exact absurd hscope hne

/-- A walk mounts each file as the language prescribes, unless the file is that of a module, or of
one in it, whose declaration in a file that was mounted so is misread. -/
theorem mounted_or_misread {t : FileTree} {crate : String} {root : Path} {files : List ModuleFile}
    {f : ModuleFile} (h : walk t crate root = .ok files) (hf : f ∈ files) :
    (∃ k, Mounted t crate root f k) ∨
      ∃ g ∈ files, ∃ k m rest, Mounted t crate root g k ∧ m ∈ g.file.scan.modules ∧ Misread k m ∧
        f.modulePath = Text.joined "::" (g.modulePath :: (m.scope ++ m.name :: rest)) := by
  let Astray (modulePath : String) : Prop :=
    ∃ g ∈ files, ∃ k m rest, Mounted t crate root g k ∧ m ∈ g.file.scan.modules ∧ Misread k m ∧
      modulePath = Text.joined "::" (g.modulePath :: (m.scope ++ m.name :: rest))
  -- A pending file is seen from the directory for its modules, or lies behind a misread declaration.
  let P (p : Pending) : Prop :=
    (∃ k, p.dir = k.dir p.path ∧ ∀ f, scan t p.path = .ok f → Mounted t crate root (p.opened f) k) ∨
      Astray p.modulePath
  have hroot : P ⟨root, crate, (root.parent?).getD ⟨""⟩, true⟩ := by
    left
    exact ⟨.beside, rfl, fun f hf => .root hf⟩
  have hstep : ∀ p f m q, P p → scan t p.path = .ok f → p.opened f ∈ files →
      m ∈ f.scan.modules → follow? t p m = some q → P q := by
    intro p f m q hp hscan hmem hm hfollow
    obtain ⟨found, -, hq⟩ := follow?_eq_some hfollow
    have hmodulePath : q.modulePath = Text.joined "::" (p.modulePath :: (m.scope ++ [m.name])) := by
      rw [hq]
    have hexported : q.isExported = (p.isExported && m.isPub) := by rw [hq]
    rcases hp with ⟨k, hdir, hmounted⟩ | ⟨g, hg, k, m', rest, hmounted, hm', hmisread, hpath⟩
    · rcases prescribed_or_misread hdir hfollow with hmisread | ⟨hprescribed, hnext⟩
      · right
        exact ⟨p.opened f, hmem, k, m, [], hmounted f hscan, hm, hmisread, hmodulePath⟩
      · left
        refine ⟨.of m q.path, hnext, ?_⟩
        intro f' hf'
        have hpath : f.path = p.path := scan_path hscan
        have hq := Mounted.declared (hmounted f hscan) hm (hpath.symm ▸ hprescribed) hf'
        rw [Pending.opened, hmodulePath, hexported]
        exact hq
    · right
      refine ⟨g, hg, k, m', rest ++ (m.scope ++ [m.name]), hmounted, hm', hmisread, ?_⟩
      rw [hmodulePath, hpath, Text.joined_joined]
      simp
  obtain ⟨p, file, hp, hscan, rfl⟩ :=
    forall_walkLevels hstep h (List.Subset.refl files) (by simpa using hroot) hf
  rcases hp with ⟨k, _, hmounted⟩ | hastray
  · exact .inl ⟨k, hmounted file hscan⟩
  · exact .inr hastray

/-- A module in a module, with two files that might be its own. -/
def nestedTree (lead : String) : FileTree where
  files := [(["src", "lib.rs"], .text "mod a;"), (["src", "a.rs"], .text (lead ++ "mod b;")),
    (["src", "a", "b.rs"], .text ""), (["src", "b.rs"], .text "")]

/-- A file of a module, and what it declares. -/
def outline (f : ModuleFile) : String × Bool × Path × List OutlineModule :=
  (f.modulePath, f.isExported, f.file.path, f.file.scan.modules)

def outlines (lead : String) : Except Failure (List (String × Bool × Path × List OutlineModule)) :=
  (walk (nestedTree lead) "app" ⟨"src/lib.rs"⟩).map (List.map outline)

theorem exists_of_outlines {lead : String} {rows : List (String × Bool × Path × List OutlineModule)}
    (h : outlines lead = .ok rows) :
    ∃ files, walk (nestedTree lead) "app" ⟨"src/lib.rs"⟩ = .ok files ∧ files.map outline = rows := by
  unfold outlines at h
  cases hwalk : walk (nestedTree lead) "app" ⟨"src/lib.rs"⟩ with
  | error e => simp [hwalk, Except.map] at h
  | ok files =>
    rw [hwalk] at h
    cases h
    exact ⟨files, rfl, rfl⟩

theorem nestedTree_mounted : ∃ files f, walk (nestedTree "") "app" ⟨"src/lib.rs"⟩ = .ok files ∧
    f ∈ files ∧ f.modulePath = "app::a::b" ∧ f.file.path = ⟨"src/a/b.rs"⟩ ∧
    ∃ k, Mounted (nestedTree "") "app" ⟨"src/lib.rs"⟩ f k := by
  have houtlines : outlines "" =
      .ok [("app", true, ⟨"src/lib.rs"⟩, [⟨[], "a", none, false, false⟩]),
        ("app::a", false, ⟨"src/a.rs"⟩, [⟨[], "b", none, false, false⟩]),
        ("app::a::b", false, ⟨"src/a/b.rs"⟩, [])] := by
    decide +kernel
  obtain ⟨files, hwalk, hrows⟩ := exists_of_outlines houtlines
  have hmem : ("app::a::b", false, (⟨"src/a/b.rs"⟩ : Path), ([] : List OutlineModule)) ∈
      files.map outline := by
    rw [hrows]
    simp
  obtain ⟨f, hf, houtline⟩ := List.mem_map.mp hmem
  have hmodule : f.modulePath = "app::a::b" := congrArg Prod.fst houtline
  have hpath : f.file.path = ⟨"src/a/b.rs"⟩ := congrArg (fun r => r.2.2.1) houtline
  refine ⟨files, f, hwalk, hf, hmodule, hpath, ?_⟩
  rcases mounted_or_misread hwalk hf with hmounted | ⟨g, hg, k, m, _, _, hm, hmisread, _⟩
  · exact hmounted
  · have hplain : ∀ m ∈ g.file.scan.modules, m.path = none ∧ bare m.name = m.name ∧ m.scope = [] := by
      have hall : ∀ row ∈ files.map outline, ∀ m ∈ row.2.2.2,
          m.path = none ∧ bare m.name = m.name ∧ m.scope = [] := by
        rw [hrows]
        decide +kernel
      exact hall (outline g) (List.mem_map_of_mem hg)
    obtain ⟨hattr, hname, hscope⟩ := hplain m hm
    cases hmisread with
    | rawName _ hraw => exact absurd hname hraw
    | rawScope _ hraw =>
      obtain ⟨s, hs, _⟩ := hraw
      simp [hscope] at hs
    | named hsome => simp [hattr] at hsome

/-- The attribute names a file beside the one that it stands in; the walk takes another one. -/
theorem nestedTree_misread : ∃ files a m f,
    walk (nestedTree "#[path=\"b.rs\"]") "app" ⟨"src/lib.rs"⟩ = .ok files ∧
    a ∈ files ∧ Mounted (nestedTree "#[path=\"b.rs\"]") "app" ⟨"src/lib.rs"⟩ a .below ∧
    m ∈ a.file.scan.modules ∧ f ∈ files ∧
    f.modulePath = Text.joined "::" (a.modulePath :: (m.scope ++ [m.name])) ∧
    Prescribed (nestedTree "#[path=\"b.rs\"]") .below a.file.path m ⟨"src/b.rs"⟩ ∧
    ¬ Prescribed (nestedTree "#[path=\"b.rs\"]") .below a.file.path m f.file.path := by
  have houtlines : outlines "#[path=\"b.rs\"]" =
      .ok [("app", true, ⟨"src/lib.rs"⟩, [⟨[], "a", none, false, false⟩]),
        ("app::a", false, ⟨"src/a.rs"⟩, [⟨[], "b", some "b.rs", false, false⟩]),
        ("app::a::b", false, ⟨"src/a/b.rs"⟩, [])] := by
    decide +kernel
  obtain ⟨files, hwalk, hrows⟩ := exists_of_outlines houtlines
  obtain ⟨r, rest, rfl, hr, hrest⟩ := List.map_eq_cons_iff.mp hrows
  obtain ⟨a, rest, rfl, ha, hrest⟩ := List.map_eq_cons_iff.mp hrest
  obtain ⟨f, rest, rfl, hf, -⟩ := List.map_eq_cons_iff.mp hrest
  have hrscan := scan_of_mem_walkLevels hwalk (m := r) (by simp)
  have hascan := scan_of_mem_walkLevels hwalk (m := a) (by simp)
  obtain ⟨_, _, rfile⟩ := r
  obtain ⟨_, _, afile⟩ := a
  simp only [outline, Prod.mk.injEq] at hr ha hf hrscan hascan
  obtain ⟨rfl, rfl, hrpath, hrmodules⟩ := hr
  obtain ⟨rfl, rfl, hapath, hamodules⟩ := ha
  obtain ⟨hfmodule, _, hfpath, _⟩ := hf
  rw [hrpath] at hrscan
  rw [hapath] at hascan
  have hplain : Prescribed (nestedTree "#[path=\"b.rs\"]") .beside rfile.path
      ⟨[], "a", none, false, false⟩ ⟨"src/a.rs"⟩ := by
    rw [hrpath]
    exact .plain rfl (by decide +kernel)
  have hbeside : ((⟨"src/a.rs"⟩ : Path).parent?).getD ⟨""⟩ / "b.rs" = ⟨"src/b.rs"⟩ := by
    decide +kernel
  have hnamed : Prescribed (nestedTree "#[path=\"b.rs\"]") .below afile.path
      ⟨[], "b", some "b.rs", false, false⟩ ⟨"src/b.rs"⟩ := by
    rw [hapath, ← hbeside]
    exact .named rfl rfl (by decide +kernel)
  have hm : (⟨[], "a", none, false, false⟩ : OutlineModule) ∈ rfile.scan.modules := by
    simp [hrmodules]
  refine ⟨_, _, ⟨[], "b", some "b.rs", false, false⟩, f, hwalk,
    List.mem_cons_of_mem _ List.mem_cons_self,
    .declared (.root hrscan) hm hplain hascan, by simp [hamodules], by simp, ?_, hnamed, ?_⟩
  · rw [hfmodule]
    rfl
  · intro hother
    have hpath := hother.eq_of_named rfl rfl
    rw [hfpath, hapath] at hpath
    exact absurd hpath (by decide +kernel)

end ModuleFile
end Instrumentation
