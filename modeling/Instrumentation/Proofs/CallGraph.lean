import Instrumentation.CallGraph
import Instrumentation.Proofs.Closure
import Mathlib.Data.List.Induction

/-!
What runs in a call graph: the entry points of its files, the functions that code outside of
functions mentions, and whatever a running function mentions.
-/
namespace Instrumentation
namespace CallGraph

/-- A file with its package and its role. -/
abbrev Added := Nat × SourceFile × FileRole

/-- The functions of a file as nodes. -/
def nodesOf (f : Added) : List CallNode :=
  f.2.1.scan.functions.map fun fn => ⟨f.1, f.2.1.path, fn⟩

/-- A graph with further files. -/
def addAll (g : CallGraph) (files : List Added) : CallGraph :=
  files.foldl (fun g f => g.addFile f.1 f.2.1 f.2.2) g

theorem addAll_append (g : CallGraph) (xs ys : List Added) :
    g.addAll (xs ++ ys) = (g.addAll xs).addAll ys := by
  simp [addAll]

theorem nodes_addAll (g : CallGraph) (files : List Added) :
    (g.addAll files).nodes = g.nodes ++ files.flatMap nodesOf := by
  induction files generalizing g with
  | nil => simp [addAll]
  | cons f rest ih =>
    have h := ih (g.addFile f.1 f.2.1 f.2.2)
    simpa [addAll, addFile, nodesOf, List.append_assoc] using h

theorem mem_rootNames_addAll {g : CallGraph} {files : List Added} {name : String} :
    name ∈ (g.addAll files).rootNames ↔
      name ∈ g.rootNames ∨ ∃ f ∈ files, name ∈ f.2.1.scan.itemMentions := by
  induction files generalizing g with
  | nil => simp [addAll]
  | cons f rest ih =>
    have h := ih (g := g.addFile f.1 f.2.1 f.2.2)
    simpa [addAll, addFile, or_assoc] using h

section Numbers

open Source (FunctionSummary)

variable {files : List Added} {f f' : Added} {fn : FunctionSummary} {i k : Nat}

/-- The functions of a file, each with its number in the file. -/
def numbered (f : Added) : List (Added × Nat × FunctionSummary) :=
  f.2.1.scan.functions.zipIdx.map fun p => (f, p.2, p.1)

/-- The functions of files, in the order in which a graph numbers them. -/
def functionsOf (files : List Added) : List (Added × Nat × FunctionSummary) :=
  files.flatMap numbered

theorem functionsOf_append (xs ys : List Added) :
    functionsOf (xs ++ ys) = functionsOf xs ++ functionsOf ys := List.flatMap_append

/-- Further files do not change the numbers of functions. -/
theorem getElem?_functionsOf_append {x : Added × Nat × FunctionSummary} (more : List Added)
    (h : (functionsOf files)[i]? = some x) : (functionsOf (files ++ more))[i]? = some x := by
  rw [functionsOf_append, List.getElem?_append_left (List.getElem?_eq_some_iff.mp h).1, h]

theorem getElem?_numbered : (numbered f)[i]? = some (f', k, fn) ↔
    f' = f ∧ k = i ∧ f.2.1.scan.functions[i]? = some fn := by
  rw [numbered, List.getElem?_map, List.getElem?_zipIdx, Option.map_map, Option.map_eq_some_iff]
  simp only [Function.comp_apply, Nat.zero_add, Prod.mk.injEq]
  constructor
  · rintro ⟨fn, hfn, rfl, rfl, rfl⟩
    exact ⟨rfl, rfl, hfn⟩
  · rintro ⟨rfl, rfl, hfn⟩
    exact ⟨fn, hfn, rfl, rfl, rfl⟩

theorem mem_functionsOf :
    (f, k, fn) ∈ functionsOf files ↔ f ∈ files ∧ f.2.1.scan.functions[k]? = some fn := by
  simp only [functionsOf, List.mem_flatMap, List.mem_iff_getElem? (l := numbered _),
    getElem?_numbered]
  constructor
  · rintro ⟨f, hf, k, rfl, rfl, hk⟩
    exact ⟨hf, hk⟩
  · rintro ⟨hf, hk⟩
    exact ⟨f, hf, k, rfl, rfl, hk⟩

/-- A graph has a node for every function of its files. -/
theorem nodes_addAll_eq_map (files : List Added) :
    (addAll {} files).nodes = (functionsOf files).map fun x => ⟨x.1.1, x.1.2.1.path, x.2.2⟩ := by
  have hfile (f : Added) :
      nodesOf f = (numbered f).map fun x => ⟨x.1.1, x.1.2.1.path, x.2.2⟩ := by
    refine List.ext_getElem? fun i => ?_
    simp [nodesOf, numbered, List.getElem?_map, List.getElem?_zipIdx, Function.comp_def]
  rw [nodes_addAll, List.nil_append, functionsOf, List.map_flatMap, funext hfile]

theorem node_of_functionsOf (h : (functionsOf files)[i]? = some (f, k, fn)) :
    (addAll {} files).nodes[i]? = some ⟨f.1, f.2.1.path, fn⟩ := by
  rw [nodes_addAll_eq_map, List.getElem?_map, h]
  rfl

theorem exists_functionsOf {n : CallNode} (h : (addAll {} files).nodes[i]? = some n) :
    ∃ f k, (functionsOf files)[i]? = some (f, k, n.function) := by
  rw [nodes_addAll_eq_map, List.getElem?_map] at h
  obtain ⟨⟨f, k, fn⟩, hx, rfl⟩ := Option.map_eq_some_iff.mp h
  exact ⟨f, k, hx⟩

/-- The entry points of a file, by the numbers of their functions in the file. -/
theorem exists_mem_entryPoints_iff : (∃ e ∈ f.2.2.entryPoints f.2.1.scan, e.1 = i) ↔
    ∃ fn, f.2.1.scan.functions[i]? = some fn ∧ f.2.2.entryKind? fn ≠ none := by
  constructor
  · rintro ⟨e, he, rfl⟩
    obtain ⟨⟨fn, i⟩, hfn, he⟩ := List.mem_filterMap.mp he
    obtain ⟨kind, hkind, rfl⟩ := Option.map_eq_some_iff.mp he
    exact ⟨fn, List.mem_zipIdx_iff_getElem?.mp hfn, Option.ne_none_iff_exists'.mpr ⟨kind, hkind⟩⟩
  · rintro ⟨fn, hfn, hentry⟩
    obtain ⟨kind, hkind⟩ := Option.ne_none_iff_exists'.mp hentry
    refine ⟨(i, fn, kind), List.mem_filterMap.mpr ⟨(fn, i), ?_, ?_⟩, rfl⟩
    · exact List.mem_zipIdx_iff_getElem?.mpr hfn
    · exact Option.map_eq_some_iff.mpr ⟨kind, hkind, rfl⟩

/-- The numbers of the functions that are entry points by themselves. -/
theorem mem_direct_addAll_iff (files : List Added) : i ∈ (addAll {} files).direct ↔
    ∃ f k fn, (functionsOf files)[i]? = some (f, k, fn) ∧ f.2.2.entryKind? fn ≠ none := by
  induction files using List.reverseRecOn with
  | nil => simp [addAll, functionsOf]
  | append_singleton files last ih =>
    have hlength : (addAll {} files).nodes.length = (functionsOf files).length := by
      rw [nodes_addAll_eq_map, List.length_map]
    have hdirect : i ∈ (addAll {} (files ++ [last])).direct ↔ i ∈ (addAll {} files).direct ∨
        ∃ e ∈ last.2.2.entryPoints last.2.1.scan, (functionsOf files).length + e.1 = i := by
      rw [addAll_append, ← hlength, ← List.mem_map, ← List.mem_append]
      rfl
    have hlast : functionsOf [last] = numbered last := List.flatMap_singleton ..
    rw [hdirect, ih, functionsOf_append, hlast]
    rcases Nat.lt_or_ge i (functionsOf files).length with hlt | hge
    · rw [List.getElem?_append_left hlt]
      refine or_iff_left ?_
      rintro ⟨e, -, rfl⟩
      omega
    · obtain ⟨j, rfl⟩ := Nat.exists_eq_add_of_le hge
      simp only [List.getElem?_eq_none hge, List.getElem?_append_right hge, Nat.add_sub_cancel_left,
        Nat.add_left_cancel_iff, exists_mem_entryPoints_iff, getElem?_numbered]
      simp

/-- The node of a function of one of the files, and what makes it an entry point by itself. -/
theorem exists_node (hf : f ∈ files) (hfn : fn ∈ f.2.1.scan.functions) :
    ∃ i, (addAll {} files).nodes[i]? = some ⟨f.1, f.2.1.path, fn⟩ ∧
      (f.2.2.entryKind? fn ≠ none → i ∈ (addAll {} files).direct) := by
  obtain ⟨k, hk⟩ := List.mem_iff_getElem?.mp hfn
  obtain ⟨i, hi⟩ := List.mem_iff_getElem?.mp (mem_functionsOf.mpr ⟨hf, hk⟩)
  exact ⟨i, node_of_functionsOf hi,
    fun hentry => (mem_direct_addAll_iff files).mpr ⟨f, k, fn, hi, hentry⟩⟩

end Numbers

/-- Whether the function of a number can run. -/
def Runs (g : CallGraph) (i : Nat) : Prop := g.reachable[i]? = some true

theorem runs_iff {g : CallGraph} {i : Nat} :
    g.Runs i ↔ Reached g.nodes.length g.callees g.entries i := reachableFlags_eq_true_iff

theorem mem_named {g : CallGraph} {i : Nat} {n : CallNode} (h : g.nodes[i]? = some n) :
    i ∈ g.named n.function.name := by
  refine List.mem_map.mpr ⟨(n, i), List.mem_filter.mpr ⟨?_, by simp⟩, rfl⟩
  exact List.mem_zipIdx_iff_getElem?.mpr h

/-- The functions of a name are the nodes with that name. -/
theorem mem_named_iff {g : CallGraph} {i : Nat} {name : String} :
    i ∈ g.named name ↔ ∃ n, g.nodes[i]? = some n ∧ n.function.name = name := by
  constructor
  · intro h
    obtain ⟨⟨n, j⟩, hn, rfl⟩ := List.mem_map.mp h
    obtain ⟨hn, hname⟩ := List.mem_filter.mp hn
    exact ⟨n, List.mem_zipIdx_iff_getElem?.mp hn, beq_iff_eq.mp hname⟩
  · rintro ⟨n, hn, rfl⟩
    exact mem_named hn

theorem name_of_mem_named {g : CallGraph} {i : Nat} {n : CallNode} {name : String}
    (hn : g.nodes[i]? = some n) (h : i ∈ g.named name) : n.function.name = name := by
  obtain ⟨m, hm, hname⟩ := mem_named_iff.mp h
  rw [hn] at hm
  cases hm
  exact hname

/-- A function calls those whose names, as they are declared, its body mentions. -/
theorem mem_callees_iff {g : CallGraph} {i j : Nat} {n m : CallNode} (hn : g.nodes[i]? = some n)
    (hm : g.nodes[j]? = some m) : i ∈ g.callees j ↔ n.function.name ∈ m.function.mentions := by
  have hcallees : g.callees j = g.calleesOf m.function := by simp [callees, hm]
  rw [hcallees, calleesOf, List.mem_flatMap]
  constructor
  · rintro ⟨name, hname, hnamed⟩
    rw [name_of_mem_named hn hnamed]
    exact hname
  · intro hname
    exact ⟨_, hname, mem_named hn⟩

theorem lt_length {g : CallGraph} {i : Nat} {n : CallNode} (h : g.nodes[i]? = some n) :
    i < g.nodes.length := (List.getElem?_eq_some_iff.mp h).1

theorem runs_of_direct {g : CallGraph} {i : Nat} {n : CallNode} (h : g.nodes[i]? = some n)
    (hi : i ∈ g.direct) : g.Runs i :=
  runs_iff.mpr (.start (List.mem_append_left _ hi) (lt_length h))

theorem runs_of_rootName {g : CallGraph} {i : Nat} {n : CallNode} (h : g.nodes[i]? = some n)
    (hn : n.function.name ∈ g.rootNames) : g.Runs i := by
  refine runs_iff.mpr (.start (List.mem_append_right _ ?_) (lt_length h))
  exact List.mem_flatMap.mpr ⟨_, hn, mem_named h⟩

theorem Runs.mention {g : CallGraph} {i j : Nat} {n m : CallNode} (hj : g.Runs j)
    (hm : g.nodes[j]? = some m) (h : g.nodes[i]? = some n)
    (hn : n.function.name ∈ m.function.mentions) : g.Runs i :=
  runs_iff.mpr ((runs_iff.mp hj).step ((mem_callees_iff h hm).mpr hn) (lt_length h))

end CallGraph
end Instrumentation
