import Instrumentation.Proofs.Mounts
import Instrumentation.Proofs.Outlines
import Instrumentation.Registry

/-!
What a crate exports. A function is seen from other crates if it is public and all modules down to
it are. The files of a walk are told apart by the declarations that lead to them, and these are not
asked for the modules inside files that they stand in: so a function counts as exported when each
declaration on the way is public itself (`exports_of_mem`).
-/
namespace Instrumentation
namespace ModuleFile

open Source (Outline outlinesOf)

/-- A way from the root file of a crate, through declarations of modules that are public, with the
names of all modules on it. It is open if the modules inside files that it leads through are public
too. -/
inductive Route (t : FileTree) (root : Pending) : List String → Bool → Pending → Prop where
  | root : Route t root [] true root
  | declared {names : List String} {isOpen : Bool} {p q : Pending} {f : SourceFile} {o : Outline}
      (hp : Route t root names isOpen p) (hfile : scan t p.path = .ok f)
      (ho : o ∈ outlinesOf f.scan.text) (hpub : o.module.isPub = true)
      (hq : follow? t p o.module = some q) :
      Route t root (names ++ (o.module.scope ++ [o.module.name])) (isOpen && o.isOpen) q

/-- The root file of a crate, before it is read. -/
def crateRoot (crate : String) (root : Path) : Pending :=
  ⟨root, crate, (root.parent?).getD ⟨""⟩, true⟩

section

variable {t : FileTree} {root p : Pending} {names : List String} {isOpen : Bool}

theorem Route.modulePath_eq (h : Route t root names isOpen p) :
    p.modulePath = Text.joined "::" (root.modulePath :: names) := by
  induction h with
  | root => rfl
  | declared hp hfile ho hpub hq ih =>
    obtain ⟨found, -, rfl⟩ := follow?_eq_some hq
    rw [ih, Text.joined_joined]

/-- The modules on the way have names. -/
theorem Route.names_ne (h : Route t root names isOpen p) : names ≠ [""] := by
  cases h with
  | root => nofun
  | @declared lead _ _ _ _ o hp hfile ho hpub hq =>
    intro heq
    have hlast := congrArg List.getLast? heq
    rw [← List.append_assoc, List.getLast?_concat] at hlast
    exact Source.name_ne_of_mem_outlinesOf o ho (Option.some.inj hlast)

/-- No open way leads out of a root file that declares modules only inside others that are not
public. -/
theorem Route.path_of_closed {crate : String} {path : Path} {f : SourceFile}
    (hfile : scan t path = .ok f) (hclosed : ∀ o ∈ outlinesOf f.scan.text, o.isOpen = false)
    (h : Route t (crateRoot crate path) names true p) : p.path = path := by
  generalize hopen : true = isOpen at h
  induction h with
  | root => rfl
  | @declared _ _ _ _ f' o hp hfile' ho hpub hq ih =>
    obtain ⟨hlead, hmodule⟩ := Bool.and_eq_true_iff.mp hopen.symm
    rw [ih hlead.symm, hfile] at hfile'
    cases hfile'
    rw [hclosed o ho] at hmodule
    cases hmodule

/-- Each file that counts as exported is reached through public declarations. -/
theorem exists_route {crate : String} {path : Path} {files : List ModuleFile} {m : ModuleFile}
    (h : walk t crate path = .ok files) (hm : m ∈ files) (hexported : m.isExported = true) :
    ∃ names isOpen p f, Route t (crateRoot crate path) names isOpen p ∧ scan t p.path = .ok f ∧
      m = p.opened f := by
  let P (p : Pending) : Prop :=
    p.isExported = true → ∃ names isOpen, Route t (crateRoot crate path) names isOpen p
  have hstep : ∀ p f m q, P p → scan t p.path = .ok f → p.opened f ∈ files →
      m ∈ f.scan.modules → follow? t p m = some q → P q := by
    intro p f m q hp hscan _ hm hfollow hq
    obtain ⟨text, hread⟩ := exists_read_of_scan hscan
    rw [Source.Scan.modules_of_read hread] at hm
    obtain ⟨o, ho, rfl⟩ := List.mem_map.mp hm
    have hexported : q.isExported = (p.isExported && o.module.isPub) := by
      obtain ⟨found, -, rfl⟩ := follow?_eq_some hfollow
      rfl
    rw [hexported, Bool.and_eq_true] at hq
    obtain ⟨names, isOpen, hroute⟩ := hp hq.1
    exact ⟨_, _, hroute.declared hscan ho hq.2 hfollow⟩
  have hroot : ∀ p ∈ [crateRoot crate path], P p := by
    intro p hp _
    obtain rfl := List.mem_singleton.mp hp
    exact ⟨[], true, .root⟩
  obtain ⟨p, f, hp, hscan, rfl⟩ := forall_walkLevels hstep h (List.Subset.refl files) hroot hm
  obtain ⟨names, isOpen, hroute⟩ := hp hexported
  exact ⟨names, isOpen, p, f, hroute, hscan, rfl⟩

end

end ModuleFile

namespace Registry

open ModuleFile (Route crateRoot scan)

/-- A path, seen from a hook crate, is that of a public function: one that is no method and stands
in no module inside a file, in a file that an open way, or one that is not, leads to. -/
def Exports (t : FileTree) (k : HookCrate) (isOpen : Bool) (path : String) : Prop :=
  ∃ names p f fn, Route t (crateRoot k.name (hookCrateRoot t k.dir)) names isOpen p ∧
    scan t p.path = .ok f ∧
    fn ∈ f.scan.functions ∧ fn.isPub = true ∧ fn.receiver = none ∧ fn.scope = [] ∧
    path = Text.joined "::" (names ++ [fn.name])

theorem hookPath_eq {m : ModuleFile} {crate function : String} {names : List String}
    (hpath : m.modulePath = Text.joined "::" (crate :: names)) (hnames : names ≠ [""]) :
    hookPath m crate function = Text.joined "::" (names ++ [function]) := by
  unfold hookPath
  rw [hpath]
  cases names with
  | nil =>
    have hnone : Text.after? (crate ++ "::").toList crate.toList = none := by
      refine Option.eq_none_iff_forall_ne_some.mpr fun rest hrest => ?_
      have hlength := congrArg List.length (Text.after?_eq_some_iff.mp hrest)
      simp only [String.toList_append, List.length_append] at hlength
      have hcolons : "::".toList.length = 2 := by decide
      omega
    simp only [Text.joined, hnone, List.nil_append]
  | cons name names =>
    have hrest : Text.after? (crate ++ "::").toList
        (Text.joined "::" (crate :: name :: names)).toList =
          some (Text.joined "::" (name :: names)).toList :=
      Text.after?_eq_some_iff.mpr (String.toList_append ..)
    have hne : (Text.joined "::" (name :: names)).toList.isEmpty = false := by
      cases names with
      | nil => simpa [Text.joined] using hnames
      | cons next names => simp [Text.joined]
    simp only [hrest, hne, String.ofList_toList]
    exact Text.joined_joined "::" name names [function]

theorem exports_of_mem {t : FileTree} {k : HookCrate} {paths : List String} {path : String}
    (h : exportedFunctions t k = .ok paths) (hpath : path ∈ paths) :
    ∃ isOpen, Exports t k isOpen path := by
  unfold exportedFunctions at h
  dsimp only at h
  split at h
  · cases h
  · split at h
    · cases h
    · next files hwalk =>
      cases h
      obtain ⟨m, hm, hpath⟩ := List.mem_flatMap.mp hpath
      obtain ⟨hm, hexported⟩ := List.mem_filter.mp hm
      obtain ⟨fn, hfn, rfl⟩ := List.mem_map.mp hpath
      obtain ⟨hfn, hfacts⟩ := List.mem_filter.mp hfn
      simp only [Bool.and_eq_true, Option.isNone_iff_eq_none, List.isEmpty_iff] at hfacts
      obtain ⟨names, isOpen, p, f, hroute, hscan, rfl⟩ :=
        ModuleFile.exists_route hwalk hm hexported
      exact ⟨isOpen, names, p, f, fn, hroute, hscan, hfn, hfacts.1.1, hfacts.1.2, hfacts.2,
        hookPath_eq hroute.modulePath_eq hroute.names_ne⟩

end Registry
end Instrumentation
