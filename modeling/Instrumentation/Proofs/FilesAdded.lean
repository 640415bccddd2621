import Instrumentation.Proofs.CallGraph
import Mathlib.Data.List.Basic
import Mathlib.Data.Set.Defs

/-!
Functions that run, told by their files. A graph numbers the functions of its files and looks up
names by number, and each further file changes what is looked up everywhere. Which functions run can
be told without numbers, from the files alone and whatever their order (`CanRun`), so that
more files never make fewer functions run.
-/
namespace Instrumentation
namespace CallGraph

open Source (FunctionSummary)

variable {files files' : List Added} {f : Added} {fn : FunctionSummary} {i k : Nat}

/-- What can run of some files: what is an entry point by itself, what code outside of functions
mentions, and what something that can run mentions. -/
inductive CanRun (files : List Added) : Added → FunctionSummary → Prop
  | entry {f : Added} {fn : FunctionSummary} (hf : f ∈ files) (hfn : fn ∈ f.2.1.scan.functions)
      (hentry : f.2.2.entryKind? fn ≠ none) : CanRun files f fn
  | root {f outside : Added} {fn : FunctionSummary} (hf : f ∈ files)
      (hfn : fn ∈ f.2.1.scan.functions) (houtside : outside ∈ files)
      (hname : fn.name ∈ outside.2.1.scan.itemMentions) : CanRun files f fn
  | call {f caller : Added} {fn body : FunctionSummary} (hf : f ∈ files)
      (hfn : fn ∈ f.2.1.scan.functions) (hbody : CanRun files caller body)
      (hname : fn.name ∈ body.mentions) : CanRun files f fn

/-- More files do not take away what can run. -/
theorem CanRun.mono (hsub : files ⊆ files') (h : CanRun files f fn) : CanRun files' f fn := by
  induction h with
  | entry hf hfn hentry => exact .entry (hsub hf) hfn hentry
  | root hf hfn houtside hname => exact .root (hsub hf) hfn (hsub houtside) hname
  | call hf hfn _ hname ih => exact .call (hsub hf) hfn ih hname

theorem CanRun.exists_number (h : CanRun files f fn) :
    ∃ i k : Nat, (functionsOf files)[i]? = some (f, k, fn) := by
  have hmem : f ∈ files ∧ fn ∈ f.2.1.scan.functions := by
    cases h <;> exact ⟨‹_›, ‹_›⟩
  obtain ⟨k, hk⟩ := List.mem_iff_getElem?.mp hmem.2
  obtain ⟨i, hi⟩ := List.mem_iff_getElem?.mp (mem_functionsOf.mpr ⟨hmem.1, hk⟩)
  exact ⟨i, k, hi⟩

theorem CanRun.runs (h : CanRun files f fn) (hi : (functionsOf files)[i]? = some (f, k, fn)) :
    (addAll {} files).Runs i := by
  induction h generalizing i k with
  | entry hf hfn hentry =>
    exact runs_of_direct (node_of_functionsOf hi)
      ((mem_direct_addAll_iff files).mpr ⟨_, _, _, hi, hentry⟩)
  | root hf hfn houtside hname =>
    exact runs_of_rootName (node_of_functionsOf hi)
      (mem_rootNames_addAll.mpr (.inr ⟨_, houtside, hname⟩))
  | call hf hfn hbody hname ih =>
    obtain ⟨j, l, hj⟩ := hbody.exists_number
    exact (ih hj).mention (node_of_functionsOf hj) (node_of_functionsOf hi) hname

/-- A graph finds the functions that can run, whatever their numbers. -/
theorem runs_iff_canRun (hi : (functionsOf files)[i]? = some (f, k, fn)) :
    (addAll {} files).Runs i ↔ CanRun files f fn := by
  refine ⟨fun hruns => ?_, fun h => h.runs hi⟩
  have hreached := runs_iff.mp hruns
  clear hruns
  induction hreached generalizing f k fn with
  | @start i hstart hlt =>
    have hmem := mem_functionsOf.mp (List.mem_of_getElem? hi)
    have hfn := List.mem_of_getElem? hmem.2
    rcases List.mem_append.mp hstart with hdirect | hroot
    · obtain ⟨_, _, _, hi', hentry⟩ := (mem_direct_addAll_iff files).mp hdirect
      cases hi.symm.trans hi'
      exact .entry hmem.1 hfn hentry
    · obtain ⟨name, hname, hnamed⟩ := List.mem_flatMap.mp hroot
      obtain rfl := name_of_mem_named (node_of_functionsOf hi) hnamed
      rcases mem_rootNames_addAll.mp hname with habsurd | ⟨outside, houtside, hname⟩
      · cases habsurd
      · exact .root hmem.1 hfn houtside hname
  | @step j i hj hedge hlt ih =>
    have hmem := mem_functionsOf.mp (List.mem_of_getElem? hi)
    obtain ⟨caller, l, hcaller⟩ := exists_functionsOf (List.getElem?_eq_getElem hj.lt_size)
    exact .call hmem.1 (List.mem_of_getElem? hmem.2) (ih hcaller)
      ((mem_callees_iff (node_of_functionsOf hi) (node_of_functionsOf hcaller)).mp hedge)

/-- The functions that run of some files, by file and by number in the file. -/
def running (files : List Added) : Set (Added × Nat) :=
  {x | ∃ i fn, (functionsOf files)[i]? = some (x.1, x.2, fn) ∧ (addAll {} files).Runs i}

/-- Numbers apart, a function runs if it can. -/
theorem mem_running_iff : (f, k) ∈ running files ↔
    f ∈ files ∧ ∃ fn, f.2.1.scan.functions[k]? = some fn ∧ CanRun files f fn := by
  constructor
  · rintro ⟨i, fn, hi, hruns⟩
    have hmem := mem_functionsOf.mp (List.mem_of_getElem? hi)
    exact ⟨hmem.1, fn, hmem.2, (runs_iff_canRun hi).mp hruns⟩
  · rintro ⟨hf, fn, hfn, h⟩
    obtain ⟨i, hi⟩ := List.mem_iff_getElem?.mp (mem_functionsOf.mpr ⟨hf, hfn⟩)
    exact ⟨i, fn, hi, h.runs hi⟩

/-- Scanning more files never makes fewer functions run: a number that runs has the same function in
the graph of more files and runs there. A number runs if and only if its function is one of those
that run by file, and these do not depend on the order of the files. -/
theorem runs_grow (files : List Added) :
    (∀ more i, (addAll {} files).Runs i →
      (addAll {} (files ++ more)).nodes[i]? = (addAll {} files).nodes[i]? ∧
        (addAll {} (files ++ more)).Runs i) ∧
    (∀ i f k fn, (functionsOf files)[i]? = some (f, k, fn) →
      ((addAll {} files).Runs i ↔ (f, k) ∈ running files)) ∧
    ∀ files', files.Perm files' → running files = running files' := by
  refine ⟨fun more i hruns => ?_, fun i f k fn hi => ?_, fun files' hperm => ?_⟩
  · have hlt := (runs_iff.mp hruns).lt_size
    obtain ⟨f, k, hi⟩ := exists_functionsOf (List.getElem?_eq_getElem hlt)
    have hcan := (runs_iff_canRun hi).mp hruns
    have hmore := getElem?_functionsOf_append more hi
    exact ⟨(node_of_functionsOf hmore).trans (node_of_functionsOf hi).symm,
      (hcan.mono (List.subset_append_left ..)).runs hmore⟩
  · have hmem := mem_functionsOf.mp (List.mem_of_getElem? hi)
    rw [runs_iff_canRun hi, mem_running_iff]
    simp [hmem.1, hmem.2]
  · ext ⟨f, k⟩
    have hcan (fn : FunctionSummary) : CanRun files f fn ↔ CanRun files' f fn :=
      ⟨.mono hperm.subset, .mono hperm.symm.subset⟩
    simp only [mem_running_iff, hperm.mem_iff, hcan]

/-- A binary, and a module of it that is known by its name only. -/
def mainFile (scan : Source.Scan) : Added := (0, ⟨⟨"main.rs"⟩, scan⟩, .binaryRoot)

def moduleFile (scan : Source.Scan) : Added := (0, ⟨⟨"steps.rs"⟩, scan⟩, .internal)

/-- A function that calls another one, and what it calls. -/
def callerText : List Char := "fn main() { step() }".toList

def calleeText : List Char := "pub fn step() {}\npub fn idle() {}".toList

theorem callerText_grows : ∃ caller callee, Source.Scan.read callerText = .ok caller ∧
    Source.Scan.read calleeText = .ok callee ∧
    (addAll {} [mainFile caller]).Runs 0 ∧
    (addAll {} [mainFile caller, moduleFile callee]).Runs 0 ∧
    (∃ fn, (functionsOf [mainFile caller, moduleFile callee])[1]? =
      some (moduleFile callee, 0, fn)) ∧
    (moduleFile callee, 0) ∈ running [mainFile caller, moduleFile callee] ∧
    [mainFile caller, moduleFile callee].Perm [moduleFile callee, mainFile caller] ∧
    (moduleFile callee, 0) ∈ running [moduleFile callee, mainFile caller] := by
  have hfound : ((Source.Scan.read callerText).toOption.bind fun caller =>
      (Source.Scan.read calleeText).toOption.map fun callee =>
        ((addAll {} [mainFile caller]).reachable,
          (addAll {} [mainFile caller, moduleFile callee]).reachable,
          caller.functions.length, callee.functions.length)) =
      some ([true], [true, true, false], 1, 2) := by decide +kernel
  cases hcaller : Source.Scan.read callerText with
  | error e =>
    rw [hcaller] at hfound
    cases hfound
  | ok caller =>
    cases hcallee : Source.Scan.read calleeText with
    | error e =>
      rw [hcaller, hcallee] at hfound
      cases hfound
    | ok callee =>
      simp only [hcaller, hcallee, Except.toOption, Option.bind_some, Option.map_some,
        Option.some.injEq, Prod.mk.injEq] at hfound
      obtain ⟨hone, htwo, hlength, hlength'⟩ := hfound
      obtain ⟨m, hm⟩ := List.length_eq_one_iff.mp hlength
      obtain ⟨step, idle, hsteps⟩ := List.length_eq_two.mp hlength'
      have hruns : (addAll {} [mainFile caller]).Runs 0 := by
        rw [Runs, hone]
        rfl
      have hsecond : (addAll {} [mainFile caller, moduleFile callee]).Runs 1 := by
        rw [Runs, htwo]
        rfl
      have hnumber : (functionsOf [mainFile caller, moduleFile callee])[1]? =
          some (moduleFile callee, 0, step) := by
        simp [functionsOf, numbered, mainFile, moduleFile, hm, hsteps]
      have hperm := List.Perm.swap (moduleFile callee) (mainFile caller) []
      obtain ⟨-, hmember, horder⟩ := runs_grow [mainFile caller, moduleFile callee]
      have hrunning := (hmember 1 _ _ _ hnumber).mp hsecond
      exact ⟨caller, callee, rfl, rfl, hruns,
        ((runs_grow [mainFile caller]).1 [moduleFile callee] 0 hruns).2, ⟨step, hnumber⟩, hrunning,
        hperm, horder _ hperm ▸ hrunning⟩

end CallGraph
end Instrumentation
