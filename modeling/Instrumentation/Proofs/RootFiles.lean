import Instrumentation.Proofs.ActiveStages

/-!
Root files of crates of the first edition. Such a crate names another one only if its root file
makes it known, so the root file of each crate with a modified file tells all crates that its stages
name. A root file that is not among the instrumented files joins them at the end.
-/
namespace Instrumentation
namespace InstrumentedProgram

variable {t : FileTree} {g : PackageGraph} {files out out' : List InstrumentedFile}
  {f : InstrumentedFile} {crates : List String} {needed : Nat → List String} {done rest : List Nat}
  {root : Path} {i n : Nat} {ns : List Nat}

theorem mem_firstOfEach {s : String} {xs : List String} : s ∈ firstOfEach xs ↔ s ∈ xs := by
  induction xs with
  | nil => rfl
  | cons x xs ih =>
    simp only [firstOfEach, List.mem_cons, List.mem_filter, ih, bne_iff_ne]
    by_cases hs : s = x <;> simp [hs]

theorem nodup_firstOfEach (xs : List String) : (firstOfEach xs).Nodup := by
  induction xs with
  | nil => exact List.nodup_nil
  | cons x xs ih =>
    rw [firstOfEach, List.nodup_cons]
    exact ⟨by simp, ih.filter _⟩

theorem pairwise_insertNumber (h : ns.Pairwise (· < ·)) :
    (MatchSet.insertNumber n ns).Pairwise (· < ·) := by
  induction ns with
  | nil => simp [MatchSet.insertNumber]
  | cons m ns ih =>
    obtain ⟨hfirst, hrest⟩ := List.pairwise_cons.mp h
    unfold MatchSet.insertNumber
    split
    · next hlt =>
      refine List.pairwise_cons.mpr ⟨fun k hk => ?_, h⟩
      rcases List.mem_cons.mp hk with rfl | hk
      · exact hlt
      · exact Nat.lt_trans hlt (hfirst k hk)
    · split
      · exact h
      · refine List.pairwise_cons.mpr ⟨fun k hk => ?_, ih hrest⟩
        rcases mem_insertNumber.mp hk with rfl | hk
        · omega
        · exact hfirst k hk

/-- The packages of modified files are listed once. -/
theorem nodup_modifiedPackages (files : List InstrumentedFile) :
    (modifiedPackages files).Nodup := by
  have hsorted (kept : List InstrumentedFile) :
      (kept.foldr (fun f ns => MatchSet.insertNumber f.package ns) []).Pairwise (· < ·) := by
    induction kept with
    | nil => exact .nil
    | cons f kept ih => exact pairwise_insertNumber ih
  exact (hsorted _).imp Nat.ne_of_lt

/-- The root file of the library of a package. -/
def rootOf? (g : PackageGraph) (i : Nat) : Option Path := (g.packages[i]?).bind Package.libRoot

/-- Packages have libraries of their own. -/
def RootsDiffer (g : PackageGraph) : Prop := ∀ i j root root', rootOf? g i = some root →
  rootOf? g j = some root' → root.same root' = true → i = j

/-- No two files have the same path. -/
def PathsDiffer (files : List InstrumentedFile) : Prop := ∀ (k l : Nat) (f f' : InstrumentedFile),
  files[k]? = some f → files[l]? = some f' → f.path.same f'.path = true → k = l

/-- A package of the first edition with a modified file needs its crates made known in the root
file of its library. -/
structure Needs (g : PackageGraph) (files : List InstrumentedFile) (i : Nat) (root : Path) :
    Prop where
  first : isFirstEdition g i = true
  root : rootOf? g i = some root
  modified : ∃ f ∈ files, f.package = i ∧ f.isModified = true

theorem needs_iff : Needs g files i root ↔
    i ∈ (modifiedPackages files).filter (isFirstEdition g) ∧ rootOf? g i = some root := by
  rw [List.mem_filter, mem_modifiedPackages]
  constructor
  · rintro ⟨hfirst, hroot, f, hf, hi, hmodified⟩
    exact ⟨⟨⟨f, hf, hmodified, hi⟩, hfirst⟩, hroot⟩
  · rintro ⟨⟨⟨f, hf, hmodified, hi⟩, hfirst⟩, hroot⟩
    exact ⟨hfirst, hroot, f, hf, hi, hmodified⟩

/-- The support crate and, once each, the crates that the active stages of a package name. -/
structure TellsCrates (files : List InstrumentedFile) (i : Nat) (crates : List String) : Prop where
  first : crates.head? = some Splice.supportCrate
  single : crates.Nodup
  all : ∀ name, name ∈ crates ↔ name = Splice.supportCrate ∨ ∃ f ∈ files, f.package = i ∧
    ∃ d ∈ f.activeDecls, ∃ s ∈ d.stages, s.rule.hookCrate.name = name

theorem mem_hookCrateNames {name : String} : name ∈ hookCrateNames f ↔
    ∃ d ∈ f.activeDecls, ∃ s ∈ d.stages, s.rule.hookCrate.name = name := by
  simp only [hookCrateNames, activeRules, List.map_map, List.mem_map, List.mem_flatMap,
    Function.comp_apply]
  constructor
  · rintro ⟨s, ⟨d, hd, hs⟩, rfl⟩
    exact ⟨d, hd, s, hs, rfl⟩
  · rintro ⟨d, hd, s, hs, rfl⟩
    exact ⟨s, ⟨d, hd, hs⟩, rfl⟩

theorem tellsCrates_neededCrates (files : List InstrumentedFile) (i : Nat) :
    TellsCrates files i (neededCrates files i) where
  first := rfl
  single := nodup_firstOfEach _
  all name := by
    rw [neededCrates, mem_firstOfEach, List.mem_cons, List.mem_flatMap]
    refine or_congr_right ?_
    simp only [List.mem_filter, Bool.and_eq_true, beq_iff_eq, mem_hookCrateNames]
    constructor
    · rintro ⟨f, ⟨hf, -, hi⟩, hname⟩
      exact ⟨f, hf, hi, hname⟩
    · rintro ⟨f, hf, hi, d, hd, hname⟩
      exact ⟨f, ⟨hf, isModified_of_active hd, hi⟩, d, hd, hname⟩

/-- Crates are made known in the file that is there, or in one that is new. -/
theorem declareIn_cases (h : declareIn t i root crates out = .ok out') :
    (∃ k f, out[k]? = some f ∧ f.path.same root = true ∧
      out' = out.modify k fun f => { f with externs := crates }) ∨
    (∀ f ∈ out, f.path.same root = false) ∧ ∃ source, ModuleFile.scan t root = .ok source ∧
      out' = out ++ [{ package := i, source, externs := crates }] := by
  unfold declareIn at h
  split at h
  · next k hk =>
    cases h
    obtain ⟨hlt, hsame, -⟩ := List.findIdx?_eq_some_iff_getElem.mp hk
    exact .inl ⟨k, _, List.getElem?_eq_getElem hlt, hsame, rfl⟩
  · next hnone =>
    obtain ⟨source, hscan, h⟩ := exists_of_bind_eq_ok h
    cases h
    exact .inr ⟨List.findIdx?_eq_none_iff.mp hnone, source, hscan, rfl⟩

theorem exists_declareIn (h : (∃ f ∈ out, f.path.same root = true) ∨
    ∃ source, ModuleFile.scan t root = .ok source) :
    ∃ out', declareIn t i root crates out = .ok out' := by
  unfold declareIn
  split
  · exact ⟨_, rfl⟩
  · next hnone =>
    obtain ⟨f, hf, hsame⟩ | ⟨source, hscan⟩ := h
    · simp [List.findIdx?_eq_none_iff.mp hnone f hf] at hsame
    · exact ⟨_, bind_eq_ok hscan rfl⟩

/-- Makes crates known for a package, if it has a library. -/
def declareFor (t : FileTree) (g : PackageGraph) (crates : List String)
    (out : List InstrumentedFile) (i : Nat) : Except Failure (List InstrumentedFile) :=
  match rootOf? g i with
  | none => .ok out
  | some root => declareIn t i root crates out

theorem declareCrates_eq (t : FileTree) (g : PackageGraph) (files : List InstrumentedFile) :
    declareCrates t g files = ((modifiedPackages files).filter (isFirstEdition g)).foldlM
      (fun out i => declareFor t g (neededCrates files i) out i) files := by
  rw [declareCrates, List.foldlM_map]
  rfl

/-- What holds while crates are made known for one package after the other: files keep their places,
a file is changed or new only if it is the root file of a package that is done, and there is such a
file for each of these. -/
structure Inv (t : FileTree) (g : PackageGraph) (needed : Nat → List String)
    (files : List InstrumentedFile) (done : List Nat) (out : List InstrumentedFile) : Prop where
  differ : PathsDiffer out
  kept : ∀ (k : Nat) (f : InstrumentedFile), files[k]? = some f →
    ∃ crates, out[k]? = some { f with externs := crates } ∧ (crates ≠ f.externs →
      ∃ i ∈ done, ∃ root, rootOf? g i = some root ∧ f.path.same root = true)
  added : ∀ (k : Nat) (f : InstrumentedFile), files.length ≤ k → out[k]? = some f →
    f.decls = [] ∧ f.package ∈ done ∧ rootOf? g f.package = some f.path ∧
      ModuleFile.scan t f.path = .ok f.source
  root : ∀ i ∈ done, ∀ root, rootOf? g i = some root → ∃ (k : Nat) (f : InstrumentedFile),
    out[k]? = some f ∧ f.path.same root = true ∧ f.externs = needed i

theorem inv_start (hfiles : PathsDiffer files) : Inv t g needed files [] files where
  differ := hfiles
  kept k f hf := ⟨f.externs, hf, fun h => absurd rfl h⟩
  added k f hk hf := by simp [List.getElem?_eq_none hk] at hf
  root i hi := by cases hi

theorem getElem?_modify_externs {k l : Nat} :
    (out.modify k fun f => { f with externs := crates })[l]? = some f ↔
      ∃ f', out[l]? = some f' ∧ f = if k = l then { f' with externs := crates } else f' := by
  rw [List.getElem?_modify, Option.map_eq_map, Option.map_eq_some_iff]
  refine exists_congr fun f' => and_congr_right fun _ => ?_
  split <;> exact eq_comm

theorem same_iff {p q : Path} : p.same q = true ↔ p.components = q.components := beq_iff_eq

/-- A package without library needs nothing. -/
theorem Inv.pass (h : Inv t g needed files done out) (hi : rootOf? g i = none) :
    Inv t g needed files (i :: done) out where
  differ := h.differ
  kept k f hf := by
    obtain ⟨crates, hout, hchanged⟩ := h.kept k f hf
    refine ⟨crates, hout, fun hne => ?_⟩
    obtain ⟨j, hj, hroot⟩ := hchanged hne
    exact ⟨j, List.mem_cons_of_mem i hj, hroot⟩
  added k f hk hf := by
    obtain ⟨hdecls, hmem, hroot⟩ := h.added k f hk hf
    exact ⟨hdecls, List.mem_cons_of_mem i hmem, hroot⟩
  root j hj root hroot := by
    rcases List.mem_cons.mp hj with rfl | hj
    · rw [hi] at hroot
      cases hroot
    · exact h.root j hj root hroot

/-- A root file that is there is changed in its place. -/
theorem Inv.modify {k : Nat} (h : Inv t g needed files done out) (hroots : RootsDiffer g)
    (hi : i ∉ done) (hroot : rootOf? g i = some root) (hk : out[k]? = some f)
    (hsame : f.path.same root = true) :
    Inv t g needed files (i :: done) (out.modify k fun f => { f with externs := needed i }) where
  differ l m f₁ f₂ h₁ h₂ hpaths := by
    obtain ⟨f₁, hl, rfl⟩ := getElem?_modify_externs.mp h₁
    obtain ⟨f₂, hm, rfl⟩ := getElem?_modify_externs.mp h₂
    refine h.differ l m f₁ f₂ hl hm ?_
    split at hpaths <;> split at hpaths <;> exact hpaths
  kept l f' hf' := by
    obtain ⟨crates, hout, hchanged⟩ := h.kept l f' hf'
    by_cases hkl : k = l
    · subst hkl
      cases hk.symm.trans hout
      exact ⟨needed i, getElem?_modify_externs.mpr ⟨_, hout, by rw [if_pos rfl]⟩,
        fun _ => ⟨i, List.mem_cons_self, root, hroot, hsame⟩⟩
    · refine ⟨crates, getElem?_modify_externs.mpr ⟨_, hout, by rw [if_neg hkl]⟩, fun hne => ?_⟩
      obtain ⟨j, hj, hroot⟩ := hchanged hne
      exact ⟨j, List.mem_cons_of_mem i hj, hroot⟩
  added l f' hl hf' := by
    obtain ⟨f', hout, rfl⟩ := getElem?_modify_externs.mp hf'
    obtain ⟨hdecls, hmem, hadded⟩ := h.added l f' hl hout
    split <;> exact ⟨hdecls, List.mem_cons_of_mem i hmem, hadded⟩
  root j hj root' hroot' := by
    rcases List.mem_cons.mp hj with rfl | hj
    · cases hroot.symm.trans hroot'
      exact ⟨k, { f with externs := needed j },
        getElem?_modify_externs.mpr ⟨f, hk, by rw [if_pos rfl]⟩, hsame, rfl⟩
    · obtain ⟨l, f', hl, hsame', hneeded⟩ := h.root j hj root' hroot'
      -- the file is the root file of another package, which has another root
      have hkl : k ≠ l := by
        rintro rfl
        cases hk.symm.trans hl
        have hroots' : root.same root' = true :=
          same_iff.mpr ((same_iff.mp hsame).symm.trans (same_iff.mp hsame'))
        exact hi (hroots i j root root' hroot hroot' hroots' ▸ hj)
      exact ⟨l, f', getElem?_modify_externs.mpr ⟨f', hl, by rw [if_neg hkl]⟩, hsame', hneeded⟩

theorem getElem?_concat_iff {new : InstrumentedFile} {k : Nat} :
    (out ++ [new])[k]? = some f ↔ out[k]? = some f ∨ k = out.length ∧ f = new := by
  rcases Nat.lt_trichotomy k out.length with hlt | rfl | hgt
  · simp [List.getElem?_append_left hlt, Nat.ne_of_lt hlt]
  · simp [eq_comm]
  · rw [List.getElem?_append_right hgt.le, List.getElem?_eq_none hgt.le, List.getElem?_eq_none]
    · simp [Nat.ne_of_gt hgt]
    · exact Nat.sub_pos_of_lt hgt

/-- A root file that is not there is put at the end. -/
theorem Inv.append {source : SourceFile} (h : Inv t g needed files done out)
    (hroot : rootOf? g i = some root) (hnone : ∀ f ∈ out, f.path.same root = false)
    (hscan : ModuleFile.scan t root = .ok source) (hpath : source.path = root) :
    Inv t g needed files (i :: done)
      (out ++ [{ package := i, source, externs := needed i }]) := by
  subst hpath
  constructor
  case differ =>
    -- no file that is there has the path of the new one
    have hother {k : Nat} {f : InstrumentedFile} (hf : out[k]? = some f) :
        f.path.components ≠ source.path.components := fun heq => by
      simpa [same_iff.mpr heq] using hnone f (List.mem_of_getElem? hf)
    intro k l f f' hf hf' hpaths
    rw [same_iff] at hpaths
    rcases getElem?_concat_iff.mp hf with hf | ⟨rfl, rfl⟩ <;>
      rcases getElem?_concat_iff.mp hf' with hf' | ⟨rfl, rfl⟩
    · exact h.differ k l f f' hf hf' (same_iff.mpr hpaths)
    · exact absurd hpaths (hother hf)
    · exact absurd hpaths.symm (hother hf')
    · rfl
  case kept =>
    intro k f hf
    obtain ⟨crates, hout, hchanged⟩ := h.kept k f hf
    refine ⟨crates, getElem?_concat_iff.mpr (.inl hout), fun hne => ?_⟩
    obtain ⟨j, hj, hroot⟩ := hchanged hne
    exact ⟨j, List.mem_cons_of_mem i hj, hroot⟩
  case added =>
    intro k f hk hf
    rcases getElem?_concat_iff.mp hf with hf | ⟨-, rfl⟩
    · obtain ⟨hdecls, hmem, hadded⟩ := h.added k f hk hf
      exact ⟨hdecls, List.mem_cons_of_mem i hmem, hadded⟩
    · exact ⟨rfl, List.mem_cons_self, hroot, hscan⟩
  case root =>
    intro j hj root' hroot'
    rcases List.mem_cons.mp hj with rfl | hj
    · cases hroot.symm.trans hroot'
      exact ⟨out.length, _, getElem?_concat_iff.mpr (.inr ⟨rfl, rfl⟩), same_iff.mpr rfl, rfl⟩
    · obtain ⟨k, f, hf, hsame, hneeded⟩ := h.root j hj root' hroot'
      exact ⟨k, f, getElem?_concat_iff.mpr (.inl hf), hsame, hneeded⟩

theorem path_of_scan {source : SourceFile} (h : ModuleFile.scan t root = .ok source) :
    source.path = root := by
  unfold ModuleFile.scan at h
  split at h
  · cases h
  · split at h
    · cases h
      rfl
    · cases h

theorem Inv.step (h : Inv t g needed files done out) (hroots : RootsDiffer g) (hi : i ∉ done)
    (hout : declareFor t g (needed i) out i = .ok out') :
    Inv t g needed files (i :: done) out' := by
  unfold declareFor at hout
  split at hout
  · next hroot =>
    cases hout
    exact h.pass hroot
  · next root hroot =>
    rcases declareIn_cases hout with ⟨k, f, hk, hsame, rfl⟩ | ⟨hnone, source, hscan, rfl⟩
    · exact h.modify hroots hi hroot hk hsame
    · exact h.append hroot hnone hscan (path_of_scan hscan)

theorem Inv.run (h : Inv t g needed files done out) (hroots : RootsDiffer g)
    (hnodup : (rest ++ done).Nodup)
    (hout : rest.foldlM (fun out i => declareFor t g (needed i) out i) out = .ok out') :
    Inv t g needed files (rest.reverse ++ done) out' := by
  induction rest generalizing done out with
  | nil =>
    cases hout
    exact h
  | cons i rest ih =>
    rw [List.foldlM_cons] at hout
    obtain ⟨mid, hmid, hout⟩ := exists_of_bind_eq_ok hout
    have hi : i ∉ done := fun hi => (List.nodup_cons.mp hnodup).1 (List.mem_append_right rest hi)
    have hrest : (rest ++ i :: done).Nodup := List.nodup_middle.mpr hnodup
    simpa using ih (h.step hroots hi hmid) hrest hout

/-- A package can be handled if its root file is among the files at first, or can be read. -/
theorem Inv.exists_step (h : Inv t g needed files done out)
    (hroot : ∀ root, rootOf? g i = some root → (∃ f ∈ files, f.path.same root = true) ∨
      ∃ source, ModuleFile.scan t root = .ok source) :
    ∃ out', declareFor t g (needed i) out i = .ok out' := by
  unfold declareFor
  split
  · exact ⟨out, rfl⟩
  · next root hi =>
    refine exists_declareIn ((hroot root hi).imp_left ?_)
    rintro ⟨f, hf, hsame⟩
    obtain ⟨k, hk⟩ := List.mem_iff_getElem?.mp hf
    obtain ⟨crates, hout, -⟩ := h.kept k f hk
    exact ⟨_, List.mem_of_getElem? hout, hsame⟩

theorem Inv.exists_run (h : Inv t g needed files done out) (hroots : RootsDiffer g)
    (hnodup : (rest ++ done).Nodup)
    (hroot : ∀ i ∈ rest, ∀ root, rootOf? g i = some root → (∃ f ∈ files, f.path.same root = true) ∨
      ∃ source, ModuleFile.scan t root = .ok source) :
    ∃ out', rest.foldlM (fun out i => declareFor t g (needed i) out i) out = .ok out' := by
  induction rest generalizing done out with
  | nil => exact ⟨out, rfl⟩
  | cons i rest ih =>
    obtain ⟨hfirst, hrest⟩ := List.forall_mem_cons.mp hroot
    have hi : i ∉ done := fun hi => (List.nodup_cons.mp hnodup).1 (List.mem_append_right rest hi)
    obtain ⟨mid, hmid⟩ := h.exists_step hfirst
    obtain ⟨out', hout⟩ := ih (h.step hroots hi hmid) (List.nodup_middle.mpr hnodup) hrest
    exact ⟨out', by rw [List.foldlM_cons]; exact bind_eq_ok hmid hout⟩

/-- What instrumented files are after crates are made known: the root file of each package that
needs it is there once and tells its crates, all files keep their places and what they hold,
files that are not such root files do not change, and new files are such root files. -/
structure Declared (t : FileTree) (g : PackageGraph) (files out : List InstrumentedFile) :
    Prop where
  root : ∀ i root, Needs g files i root → ∃ (k : Nat) (f : InstrumentedFile), out[k]? = some f ∧
    f.path.same root = true ∧ TellsCrates files i f.externs ∧
    ∀ (l : Nat) (f' : InstrumentedFile), out[l]? = some f' → f'.path.same root = true → l = k
  kept : ∀ (k : Nat) (f : InstrumentedFile), files[k]? = some f →
    ∃ crates, out[k]? = some { f with externs := crates } ∧
      ((∀ i root, Needs g files i root → f.path.same root = false) → crates = f.externs)
  added : ∀ (k : Nat) (f : InstrumentedFile), files.length ≤ k → out[k]? = some f →
    f.decls = [] ∧ Needs g files f.package f.path ∧ ModuleFile.scan t f.path = .ok f.source

theorem Inv.declared (h : Inv t g (neededCrates files) files done out)
    (hdone : ∀ i, i ∈ done ↔ i ∈ (modifiedPackages files).filter (isFirstEdition g)) :
    Declared t g files out where
  root i root hneeds := by
    obtain ⟨hi, hroot⟩ := needs_iff.mp hneeds
    obtain ⟨k, f, hk, hsame, hcrates⟩ := h.root i ((hdone i).mpr hi) root hroot
    refine ⟨k, f, hk, hsame, hcrates ▸ tellsCrates_neededCrates files i, fun l f' hl hsame' => ?_⟩
    exact h.differ l k f' f hl hk
      (same_iff.mpr ((same_iff.mp hsame').trans (same_iff.mp hsame).symm))
  kept k f hf := by
    obtain ⟨crates, hout, hchanged⟩ := h.kept k f hf
    refine ⟨crates, hout, fun hother => by_contra fun hne => ?_⟩
    obtain ⟨i, hi, root, hroot, hsame⟩ := hchanged hne
    have hneeds := needs_iff.mpr ⟨(hdone i).mp hi, hroot⟩
    simp [hother i root hneeds] at hsame
  added k f hk hf := by
    obtain ⟨hdecls, hmem, hroot, hscan⟩ := h.added k f hk hf
    exact ⟨hdecls, needs_iff.mpr ⟨(hdone _).mp hmem, hroot⟩, hscan⟩

/-- Crates of the first edition get all their crates made known in one place. This works if each
root file that is needed is there or can be read. -/
theorem crates_declared (hroots : RootsDiffer g) (hfiles : PathsDiffer files) :
    ((∃ out, declareCrates t g files = .ok out) ↔ ∀ i root, Needs g files i root →
      (∃ f ∈ files, f.path.same root = true) ∨ ∃ source, ModuleFile.scan t root = .ok source) ∧
    ∀ out, declareCrates t g files = .ok out → Declared t g files out := by
  have hnodup : ((modifiedPackages files).filter (isFirstEdition g) ++ []).Nodup := by
    simpa using (nodup_modifiedPackages files).filter _
  have hdeclared (out) (hout : declareCrates t g files = .ok out) : Declared t g files out := by
    rw [declareCrates_eq] at hout
    exact ((inv_start hfiles).run hroots hnodup hout).declared (by simp)
  refine ⟨⟨?_, fun hneeds => ?_⟩, hdeclared⟩
  · rintro ⟨out, hout⟩ i root hneeds
    have hall := hdeclared out hout
    obtain ⟨k, f, hk, hsame, -⟩ := hall.root i root hneeds
    rcases Nat.lt_or_ge k files.length with hlt | hge
    · obtain ⟨crates, hkept, -⟩ := hall.kept k _ (List.getElem?_eq_getElem hlt)
      cases hk.symm.trans hkept
      exact .inl ⟨_, List.getElem_mem hlt, hsame⟩
    · obtain ⟨-, hneeds', hscan⟩ := hall.added k f hge hk
      obtain rfl := hroots _ i _ _ hneeds'.root hneeds.root hsame
      cases hneeds.root.symm.trans hneeds'.root
      exact .inr ⟨_, hscan⟩
  · rw [declareCrates_eq]
    exact (inv_start hfiles).exists_run hroots hnodup fun i hi root hroot =>
      hneeds i root (needs_iff.mpr ⟨hi, hroot⟩)

/-- A crate of the first edition with two files, and one of a later edition. -/
def firstEditionGraph : PackageGraph where
  workspaceRoot := ⟨"/w"⟩
  packages := [{ crateP with edition := "2015", libRoot := some ⟨"/w/lib.rs"⟩ }, crateP]
  deps := [[], []]
  rustc := none

def firstEditionTree : FileTree where
  files := [(["w", "lib.rs"], .text "mod a;"), (["w", "a.rs"], .text "fn f(){}"),
    (["p.rs"], .text "fn f(){}")]

/-- A file of a package, its functions with a stage each. -/
def stagedIn (package : Nat) (path : Path) (scan : Source.Scan) : InstrumentedFile where
  package := package
  source := ⟨path, scan⟩
  decls := scan.declarations.map fun d =>
    .ofStages "p" d [{ rule := MatchSet.functionRule 0 d.name }]

theorem firstEdition_declared : ∃ scan out, Source.Scan.read "fn f(){}".toList = .ok scan ∧
    RootsDiffer firstEditionGraph ∧
    PathsDiffer [stagedIn 1 ⟨"/p.rs"⟩ scan, stagedIn 0 ⟨"/w/a.rs"⟩ scan] ∧
    declareCrates firstEditionTree firstEditionGraph
      [stagedIn 1 ⟨"/p.rs"⟩ scan, stagedIn 0 ⟨"/w/a.rs"⟩ scan] = .ok out ∧
    Declared firstEditionTree firstEditionGraph
      [stagedIn 1 ⟨"/p.rs"⟩ scan, stagedIn 0 ⟨"/w/a.rs"⟩ scan] out ∧
    out.map (fun f => (f.package, f.path, f.externs)) = [(1, ⟨"/p.rs"⟩, []),
      (0, ⟨"/w/a.rs"⟩, []), (0, ⟨"/w/lib.rs"⟩, ["hookweave_rt", "hooks"])] := by
  have hscan : (Source.Scan.read "fn f(){}".toList).toOption.any (fun scan =>
      (declareCrates firstEditionTree firstEditionGraph
        [stagedIn 1 ⟨"/p.rs"⟩ scan, stagedIn 0 ⟨"/w/a.rs"⟩ scan]).toOption.any fun out =>
          decide (out.map (fun f => (f.package, f.path, f.externs)) =
            [(1, ⟨"/p.rs"⟩, []), (0, ⟨"/w/a.rs"⟩, []),
              (0, ⟨"/w/lib.rs"⟩, ["hookweave_rt", "hooks"])])) = true := by decide +kernel
  obtain ⟨scan, hread, hscan⟩ := exists_ok_of_any hscan
  obtain ⟨out, hout, hfiles⟩ := exists_ok_of_any hscan
  have hroots : RootsDiffer firstEditionGraph := by
    rintro (_ | _ | i) (_ | _ | j) _ _ ⟨⟩ ⟨⟩ hsame
    · rfl
    · revert hsame
      decide
    · revert hsame
      decide
    · rfl
  have hpaths : PathsDiffer [stagedIn 1 ⟨"/p.rs"⟩ scan, stagedIn 0 ⟨"/w/a.rs"⟩ scan] := by
    rintro (_ | _ | k) (_ | _ | l) _ _ ⟨⟩ ⟨⟩ hsame
    · rfl
    · change Path.same ⟨"/p.rs"⟩ ⟨"/w/a.rs"⟩ = true at hsame
      revert hsame
      decide
    · change Path.same ⟨"/w/a.rs"⟩ ⟨"/p.rs"⟩ = true at hsame
      revert hsame
      decide
    · rfl
  exact ⟨scan, out, hread, hroots, hpaths, hout, (crates_declared hroots hpaths).2 out hout,
    of_decide_eq_true hfiles⟩

end InstrumentedProgram
end Instrumentation
