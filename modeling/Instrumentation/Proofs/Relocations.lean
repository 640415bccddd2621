import Instrumentation.Proofs.Remapping

/-!
Relocation and the way back. A path is relocated by the deepest directory that holds it, and its
copy led back by the deepest copy. Copies do not lie in one another, wherever their sources do, so
the copy of a path leads back to that path, and no other path has it.
-/
namespace Instrumentation

/-- What is said of no tree stays as it is. -/
theorem Writing.Leaves.remains {α : Type} {m : Writing α} {P : Prop} :
    Leaves (fun _ => P) m (fun _ _ => P) (fun _ => P) := by
  refine ⟨fun t hP => ?_⟩
  split <;> exact hP

namespace WorkingCopy

open Writing (Leaves)

variable {t₀ t : FileTree} {base : Path} {g : PackageGraph} {plan : Plan} {w : WorkingCopy}
  {p q copy : Path}

theorem spread_ofWorkspace :
    Leaves (fun _ => True) (Draft.ofWorkspace base g) (fun d t => d.copy.IsSpread t)
      (fun _ => True) := by
  refine (leaves_ofWorkspace _ fun _ _ _ => id).imp (fun _ => id) ?_ fun _ => id
  rintro _ _ ⟨t, -, hsource, hcopy, rfl, rfl⟩
  exact (isSpread_workspace hsource hcopy).grow (.copyBelow t _ _ _)

theorem spread_addPackage {p : Package} (hlabel : '/' ∉ p.label.toList) (d : Draft) :
    Leaves (fun t => d.copy.IsSpread t) (Draft.addPackage d p) (fun d t => d.copy.IsSpread t)
      (fun _ => True) := by
  refine (leaves_addPackage _ (fun _ _ hdirs h => h.grow (.withDirs hdirs)) d p).imp (fun _ => id)
    ?_ fun _ _ => trivial
  rintro _ _ ⟨s, t, copy, hspread, -, hmade, rfl, rfl⟩
  exact (hspread.withPackage hlabel hmade).grow (.copyBelow t _ _ _)

theorem spread_draft (hlabels : ∀ p ∈ g.packages, '/' ∉ p.label.toList) :
    Leaves (fun _ => True) (draft base g plan) (fun d t => d.copy.IsSpread t) (fun _ => True) := by
  let inv (_ : List Package) (d : Draft) (t : FileTree) : Prop := d.copy.IsSpread t
  have hpackages : ∀ done, ∀ p ∈ copiedPackages g plan, ∀ d,
      Leaves (inv done d) (Draft.addPackage d p) (inv (done ++ [p])) (fun _ => True) :=
    fun _ p hp d => spread_addPackage (hlabels p (mem_packages_of_copied hp)) d
  exact spread_ofWorkspace.bind fun d => Leaves.foldlM hpackages []

/-- The copies of a working copy were there when they had been made. -/
theorem spread_copyProgram (hlabels : ∀ p ∈ g.packages, '/' ∉ p.label.toList) :
    Leaves (fun _ => True) (copyProgram base g plan) (fun w _ => ∃ t, w.IsSpread t)
      (fun _ => True) := by
  rw [copyProgram_eq]
  refine (spread_draft hlabels).bind fun d => Leaves.get.bind fun s => ?_
  refine (Leaves.orFail fun _ _ => trivial).bind fun extra => ?_
  -- wiring has no part in where copies are
  have hwire := Leaves.remains (m := d.manifests.forM (wire d.copy
    (instrumentedManifests g plan d.copy) extra d.patches)) (P := ∃ t, d.copy.IsSpread t)
  exact (hwire.imp (fun t ht => ⟨t, ht.2.2⟩) (fun _ _ => id) fun _ _ => trivial).bind fun _ =>
    Leaves.pure fun _ => id

theorem IsSpread.copy_ne_nil (h : w.IsSpread t) : ∀ r ∈ w.relocations, r.copy.components ≠ [] := by
  intro r hr
  obtain ⟨names, hdir⟩ := h.dirs r hr
  simp [hdir.components_eq, hdir.isSpot.ne_nil]

/-- As long as no package has a slash in its name or version, the copy of a path leads back to that
path, by its components, whether or not one copied directory lies in another; and two paths with one
copy are one path. -/
theorem copies_lead_back (hlabels : ∀ p ∈ g.packages, '/' ∉ p.label.toList)
    (hw : materialize t₀ base g plan = .ok (t, w)) :
    (∀ p copy, w.copyPath? p = some copy →
      ∃ source, w.sourcePath? copy = some source ∧ source.same p = true) ∧
    ∀ p q copy copy', w.copyPath? p = some copy → w.copyPath? q = some copy' →
      copy.same copy' = true → p.same q = true := by
  obtain ⟨t', hspread⟩ := (spread_copyProgram hlabels).of_result trivial hw
  have hapart := hspread.copiesApart
  have hcopies := hspread.copy_ne_nil
  constructor
  · intro p copy hp
    obtain ⟨r, cs, hr, hsource, hcopy⟩ := exists_of_copyPath? hspread.sources hcopies hp
    have hmem := (Relocation.covering?_eq_some hr).1
    obtain ⟨source, hback, hcomponents⟩ :=
      exists_sourcePath? hapart hmem (hcopies r hmem) (hspread.sources r hmem) hcopy
    refine ⟨source, hback, ?_⟩
    rw [Path.same, hcomponents, hsource, beq_self_eq_true]
  · intro p q copy copy' hp hq hsame
    obtain ⟨r, cs, hr, hsource, hcopy⟩ := exists_of_copyPath? hspread.sources hcopies hp
    obtain ⟨r', cs', hr', hsource', hcopy'⟩ := exists_of_copyPath? hspread.sources hcopies hq
    rw [Path.same, beq_iff_eq, hcopy, hcopy'] at hsame
    -- both copies lie in the copy of one directory, and go on there alike
    obtain rfl : r = r' := hapart r (Relocation.covering?_eq_some hr).1 r'
      (Relocation.covering?_eq_some hr').1 cs cs' hsame
    obtain rfl := List.append_cancel_left hsame
    rw [Path.same, hsource, hsource', beq_self_eq_true]

/-- The program of `nestedTree`, with one more package in the directory of the outer one. -/
def crowdedTree : FileTree :=
  { Remapping.nestedTree with
    files := Remapping.nestedTree.files ++ [(["q", "r", "Cargo.toml"], .text ""),
      (["q", "r", "src", "lib.rs"], .text "fn g() {}")] }

def crowdedGraph : PackageGraph :=
  { Remapping.nestedGraph with
    packages := Remapping.nestedGraph.packages ++
      [Remapping.pathPackage "r" ⟨"/q/r/Cargo.toml"⟩ false]
    deps := [[1, 2], [], []] }

/-- A file of the inner package is in the copies of both, and only that of the inner one is its
copy. -/
theorem crowdedTree_leads_back : ∃ t w,
    materialize crowdedTree ⟨"/t"⟩ crowdedGraph barePlan = .ok (t, w) ∧
    w.copyPath? ⟨"/q/r/src/lib.rs"⟩ = some ⟨"/t/deps/r-0.1.0/src/lib.rs"⟩ ∧
    (∃ source, w.sourcePath? ⟨"/t/deps/r-0.1.0/src/lib.rs"⟩ = some source ∧
      source.same ⟨"/q/r/src/lib.rs"⟩ = true) ∧
    w.copyPath? ⟨"/q//./r/src/lib.rs"⟩ = some ⟨"/t/deps/r-0.1.0/src/lib.rs"⟩ ∧
    (⟨"/q//./r/src/lib.rs"⟩ : Path).same ⟨"/q/r/src/lib.rs"⟩ = true := by
  have hmade : (materialize crowdedTree ⟨"/t"⟩ crowdedGraph barePlan).toOption.any (fun r =>
      decide (r.2.copyPath? ⟨"/q/r/src/lib.rs"⟩ = some ⟨"/t/deps/r-0.1.0/src/lib.rs"⟩ ∧
        r.2.copyPath? ⟨"/q//./r/src/lib.rs"⟩ = some ⟨"/t/deps/r-0.1.0/src/lib.rs"⟩)) = true := by
    decide +kernel
  obtain ⟨⟨t, w⟩, hw, hfacts⟩ := exists_ok_of_any hmade
  obtain ⟨hcopy, hdotted⟩ := of_decide_eq_true hfacts
  obtain ⟨hback, hone⟩ := copies_lead_back (by decide) hw
  exact ⟨t, w, hw, hcopy, hback _ _ hcopy, hdotted, hone _ _ _ _ hdotted hcopy (by decide)⟩

end WorkingCopy
end Instrumentation
