import Instrumentation.Proofs.CallGraph
import Instrumentation.Proofs.Outcome
import Instrumentation.Proofs.Packages
import Mathlib.Data.List.Nodup
import Mathlib.Data.Prod.Lex
import Mathlib.Logic.Relation

/-!
Searches round by round. Each round takes away one of the pending nodes, whichever it is: a node
that was seen is dropped, any other is seen now, and those after it are pending too. Nodes may be
pending many times and lie on cycles, yet every search comes to an end, and what it has seen then
are the nodes that paths lead to. Both searches of a program, through its packages and through its
functions, answer what such a search answers.
-/
namespace Instrumentation

/-- A search under way: the nodes that were not seen yet, and those to look at. -/
structure Search where
  unseen : List Nat
  pending : List Nat

namespace Search

/-- A round. Nodes that were seen need not become pending again. -/
inductive Round (next : Nat → List Nat) : Search → Search → Prop
  | pass {unseen pending rest : List Nat} {i : Nat} (htake : pending.Perm (i :: rest))
      (hseen : i ∉ unseen) : Round next ⟨unseen, pending⟩ ⟨unseen, rest⟩
  | visit {unseen pending rest new more : List Nat} {i : Nat} (htake : pending.Perm (i :: rest))
      (hunseen : i ∈ unseen) (hnew : new ⊆ next i)
      (hall : ∀ j ∈ next i, j ∈ unseen.erase i → j ∈ new) (hput : more.Perm (new ++ rest)) :
      Round next ⟨unseen, pending⟩ ⟨unseen.erase i, more⟩

variable {size : Nat} {next : Nat → List Nat} {start unseen pending : List Nat} {s s' : Search}

/-- What a round makes smaller: the unseen nodes, or else the pending ones. -/
def measure (s : Search) : Nat ×ₗ Nat := toLex (s.unseen.length, s.pending.length)

theorem Round.measure_lt (h : Round next s s') : s'.measure < s.measure := by
  rw [measure, measure, Prod.Lex.toLex_lt_toLex]
  cases h with
  | pass htake _ =>
    right
    simp [htake.length_eq]
  | visit _ hunseen _ _ _ =>
    left
    have hpos := List.length_pos_of_mem hunseen
    rw [List.length_erase_of_mem hunseen]
    exact Nat.sub_one_lt_of_lt hpos

/-- No search goes on for ever. -/
theorem wellFounded_round (next : Nat → List Nat) : WellFounded fun s' s => Round next s s' :=
  Subrelation.wf Round.measure_lt (InvImage.wf measure wellFounded_lt)

/-- A search goes on as long as something is pending. -/
theorem exists_round {i : Nat} (next : Nat → List Nat) (unseen rest : List Nat) :
    ∃ s, Round next ⟨unseen, i :: rest⟩ s := by
  by_cases hi : i ∈ unseen
  · exact ⟨_, .visit (.refl _) hi (List.Subset.refl _) (fun j hj _ => hj) (.refl _)⟩
  · exact ⟨_, .pass (.refl _) hi⟩

/-- Every search can be brought to its end. -/
theorem exists_end (next : Nat → List Nat) (s : Search) :
    ∃ unseen, Relation.ReflTransGen (Round next) s ⟨unseen, []⟩ := by
  induction s using (wellFounded_round next).induction with
  | _ s ih =>
    obtain ⟨unseen, pending⟩ := s
    cases pending with
    | nil => exact ⟨unseen, .refl⟩
    | cons i rest =>
      obtain ⟨s', hround⟩ := exists_round (i := i) next unseen rest
      obtain ⟨last, hend⟩ := ih s' hround
      exact ⟨last, .head hround hend⟩

/-- What holds in every round of a search from some start nodes: seen and pending nodes are reached,
and what is to be seen after the seen ones is pending. -/
structure Inv (size : Nat) (next : Nat → List Nat) (start : List Nat) (s : Search) : Prop where
  single : s.unseen.Nodup
  below : ∀ i ∈ s.unseen, i < size
  seen : ∀ i, i < size → i ∉ s.unseen → Reached size next start i
  pending : ∀ i ∈ s.pending, i < size → Reached size next start i
  after : ∀ i, i < size → i ∉ s.unseen → ∀ j ∈ next i, j ∈ s.unseen → j ∈ s.pending
  start : ∀ i ∈ start, i ∈ s.unseen → i ∈ s.pending

theorem inv_start (size : Nat) (next : Nat → List Nat) (start : List Nat) :
    Inv size next start ⟨List.range size, start⟩ where
  single := List.nodup_range
  below _ hi := List.mem_range.mp hi
  seen _ hi hseen := absurd (List.mem_range.mpr hi) hseen
  pending _ hi hlt := .start hi hlt
  after _ hi hseen := absurd (List.mem_range.mpr hi) hseen
  start _ hi _ := hi

theorem Inv.round (h : Inv size next start s) (hround : Round next s s') :
    Inv size next start s' := by
  cases hround with
  | @pass unseen pending rest k htake hseen =>
    -- only a seen node is taken away, so that an unseen one stays pending
    have hrest (j : Nat) (hj : j ∈ pending) (hu : j ∈ unseen) : j ∈ rest := by
      rcases List.mem_cons.mp (htake.mem_iff.mp hj) with rfl | hj
      · exact absurd hu hseen
      · exact hj
    exact {
      single := h.single
      below := h.below
      seen := h.seen
      pending := fun i hi => h.pending i (htake.mem_iff.mpr (List.mem_cons_of_mem _ hi))
      after := fun i hi hs j hj hu => hrest j (h.after i hi hs j hj hu) hu
      start := fun i hi hu => hrest i (h.start i hi hu) hu }
  | @visit unseen pending rest new more k htake hunseen hnew hall hput =>
    have hmem (j : Nat) : j ∈ unseen.erase k ↔ j ≠ k ∧ j ∈ unseen := h.single.mem_erase_iff
    have hmore (j : Nat) : j ∈ more ↔ j ∈ new ∨ j ∈ rest := by
      rw [hput.mem_iff, List.mem_append]
    have hreached : Reached size next start k :=
      h.pending k (htake.mem_iff.mpr List.mem_cons_self) (h.below k hunseen)
    have hrest (j : Nat) (hj : j ∈ pending) (hu : j ∈ unseen.erase k) : j ∈ more := by
      rcases List.mem_cons.mp (htake.mem_iff.mp hj) with rfl | hj
      · exact absurd rfl ((hmem j).mp hu).1
      · exact (hmore j).mpr (.inr hj)
    constructor
    case single => exact h.single.erase k
    case below => exact fun i hi => h.below i ((hmem i).mp hi).2
    case seen =>
      intro i hi hs
      by_cases hik : i = k
      · subst hik
        exact hreached
      · exact h.seen i hi fun hu => hs ((hmem i).mpr ⟨hik, hu⟩)
    case pending =>
      intro i hi hlt
      rcases (hmore i).mp hi with hi | hi
      · exact hreached.step (hnew hi) hlt
      · exact h.pending i (htake.mem_iff.mpr (List.mem_cons_of_mem _ hi)) hlt
    case after =>
      intro i hi hs j hj hu
      by_cases hik : i = k
      · subst hik
        exact (hmore j).mpr (.inl (hall j hj hu))
      · have hseen : i ∉ unseen := fun hu => hs ((hmem i).mpr ⟨hik, hu⟩)
        exact hrest j (h.after i hi hseen j hj ((hmem j).mp hu).2) hu
    case start => exact fun i hi hu => hrest i (h.start i hi ((hmem i).mp hu).2) hu

theorem Inv.run (h : Inv size next start s) (hrun : Relation.ReflTransGen (Round next) s s') :
    Inv size next start s' := by
  induction hrun with
  | refl => exact h
  | tail _ hround ih => exact ih.round hround

/-- A search that is at its end has seen the nodes that paths lead to. -/
theorem not_mem_unseen_iff (h : Inv size next start ⟨unseen, []⟩) {i : Nat} (hi : i < size) :
    i ∉ unseen ↔ Reached size next start i := by
  constructor
  · exact h.seen i hi
  · intro hreached
    induction hreached with
    | start hstart _ => exact fun hu => List.not_mem_nil (h.start _ hstart hu)
    | @step k j hk hj _ ih =>
      exact fun hu => List.not_mem_nil (h.after k hk.lt_size (ih hk.lt_size) j hj hu)

/-- However a search goes, its answer at the end is the one that is computed. -/
theorem reachableFlags_eq_of_run
    (hrun : Relation.ReflTransGen (Round next) ⟨List.range size, start⟩ ⟨unseen, []⟩) :
    reachableFlags size next start = (List.range size).map fun i => decide (i ∉ unseen) := by
  have hinv := (inv_start size next start).run hrun
  refine List.map_congr_left fun i hi => ?_
  rw [Bool.eq_iff_iff, List.contains_iff_mem, decide_eq_true_iff, mem_search_range_iff,
    not_mem_unseen_iff hinv (List.mem_range.mp hi)]

/-- What is asked of a search of a graph: no search goes on for ever, one comes to its end, all of
them end with the given flags, and these mark the nodes that some path joins to a start node. -/
structure Finds (size : Nat) (next : Nat → List Nat) (start : List Nat) (flags : List Bool) :
    Prop where
  ends : WellFounded fun s' s => Round next s s'
  run : ∃ unseen, Relation.ReflTransGen (Round next) ⟨List.range size, start⟩ ⟨unseen, []⟩
  answer : ∀ unseen, Relation.ReflTransGen (Round next) ⟨List.range size, start⟩ ⟨unseen, []⟩ →
    flags = (List.range size).map fun i => decide (i ∉ unseen)
  length : flags.length = size
  marks : ∀ i, flags[i]? = some true ↔
    ∃ s ∈ start, Relation.ReflTransGen (fun i j => j ∈ next i) s i

/-- In a graph whose edges do not lead out of it, the nodes that are reached are those that paths
lead to. -/
theorem reached_iff_exists_path (hstart : ∀ i ∈ start, i < size)
    (hnext : ∀ i, ∀ j ∈ next i, j < size) {i : Nat} :
    Reached size next start i ↔ ∃ s ∈ start, Relation.ReflTransGen (fun i j => j ∈ next i) s i := by
  constructor
  · intro h
    induction h with
    | start h _ => exact ⟨_, h, .refl⟩
    | step _ hj _ ih =>
      obtain ⟨s, hs, hpath⟩ := ih
      exact ⟨s, hs, hpath.tail hj⟩
  · rintro ⟨s, hs, hpath⟩
    induction hpath with
    | refl => exact .start hs (hstart s hs)
    | tail _ hj ih => exact ih.step hj (hnext _ _ hj)

theorem finds_reachableFlags (hstart : ∀ i ∈ start, i < size)
    (hnext : ∀ i, ∀ j ∈ next i, j < size) :
    Finds size next start (reachableFlags size next start) where
  ends := wellFounded_round next
  run := exists_end next _
  answer _ hrun := reachableFlags_eq_of_run hrun
  length := by simp [reachableFlags]
  marks i := reachableFlags_eq_true_iff.trans (reached_iff_exists_path hstart hnext)

end Search

namespace PackageGraph

variable {packages : List Package} {deps deps' : List (List Nat)} {edges : List (String × String)}
  {root : Path} {rustc : Option Version} {g : PackageGraph} {i j start target : Nat} {id : String}

theorem exists_of_indexOf? (h : indexOf? packages id = some i) :
    ∃ p, packages[i]? = some p ∧ p.id = id := by
  obtain ⟨⟨p, i⟩, hlast, rfl⟩ := Option.map_eq_some_iff.mp h
  obtain ⟨hp, hid⟩ := List.mem_filter.mp (List.mem_of_getLast? hlast)
  exact ⟨p, List.mem_zipIdx_iff_getElem?.mp hp, beq_iff_eq.mp hid⟩

/-- An id is looked up if some package has it. -/
theorem exists_indexOf?_iff : (∃ i, indexOf? packages id = some i) ↔ ∃ p ∈ packages, p.id = id := by
  constructor
  · rintro ⟨i, hi⟩
    obtain ⟨p, hp, hid⟩ := exists_of_indexOf? hi
    exact ⟨p, List.mem_of_getElem? hp, hid⟩
  · rintro ⟨p, hp, hid⟩
    obtain ⟨i, hi⟩ := List.mem_iff_getElem?.mp hp
    have hmem : (p, i) ∈ packages.zipIdx.filter fun p => p.1.id == id :=
      List.mem_filter.mpr ⟨List.mem_zipIdx_iff_getElem?.mpr hi, beq_iff_eq.mpr hid⟩
    have hlast := List.getLast?_eq_some_getLast (List.ne_nil_of_mem hmem)
    exact ⟨_, by rw [indexOf?, hlast, Option.map_some]⟩

/-- Where ids are distinct, an id is that of one package. -/
theorem indexOf?_eq_some_iff (hids : (packages.map Package.id).Nodup) :
    indexOf? packages id = some i ↔ ∃ p, packages[i]? = some p ∧ p.id = id := by
  refine ⟨exists_of_indexOf?, ?_⟩
  rintro ⟨p, hp, rfl⟩
  obtain ⟨k, hk⟩ := exists_indexOf?_iff.mpr ⟨p, List.mem_of_getElem? hp, rfl⟩
  obtain ⟨q, hq, hid⟩ := exists_of_indexOf? hk
  have hlt : i < (packages.map Package.id).length := by
    simpa using (List.getElem?_eq_some_iff.mp hp).1
  have heq : i = k := (List.getElem?_inj hlt hids).mp (by simp [hp, hq, hid])
  rw [hk, heq]

/-- The dependencies in a row. -/
def row (deps : List (List Nat)) (i : Nat) : List Nat := (deps[i]?).getD []

/-- At first no package depends on anything. -/
theorem row_none (packages : List Package) (i : Nat) : row (packages.map fun _ => []) i = [] := by
  unfold row
  rw [List.getElem?_map]
  cases packages[i]? <;> rfl

theorem length_addDep (deps : List (List Nat)) (start target : Nat) :
    (addDep deps start target).length = deps.length := List.length_modify ..

theorem row_addDep (h : start < deps.length) : row (addDep deps start target) i =
    if i = start then
      if (row deps i).contains target then row deps i else row deps i ++ [target]
    else row deps i := by
  unfold row addDep
  by_cases hi : i = start
  · subst hi
    rw [if_pos rfl, List.getElem?_modify_eq, List.getElem?_eq_getElem h]
    rfl
  · rw [if_neg hi, List.getElem?_modify_ne _ _ (Ne.symm hi)]

theorem mem_row_addDep (h : start < deps.length) : j ∈ row (addDep deps start target) i ↔
    j ∈ row deps i ∨ (i = start ∧ j = target) := by
  rw [row_addDep h]
  by_cases hi : i = start
  · rw [if_pos hi]
    split
    · next hthere =>
      refine ⟨.inl, ?_⟩
      rintro (hj | ⟨-, rfl⟩)
      · exact hj
      · exact List.contains_iff_mem.mp hthere
    · simp [hi]
  · simp [hi]

theorem nodup_row_addDep (h : start < deps.length) (hrow : (row deps i).Nodup) :
    (row (addDep deps start target) i).Nodup := by
  rw [row_addDep h]
  split
  · split
    · exact hrow
    · next hnew =>
      rw [List.nodup_append_comm]
      exact List.nodup_cons.mpr ⟨fun hmem => hnew (List.contains_iff_mem.mpr hmem), hrow⟩
  · exact hrow

/-- An edge counts if both of its ends are packages. -/
theorem depsOf_cons_eq_ok {e : String × String} :
    depsOf packages deps (e :: edges) = .ok deps' ↔ ∃ f t, indexOf? packages e.1 = some f ∧
      indexOf? packages e.2 = some t ∧ depsOf packages (addDep deps f t) edges = .ok deps' := by
  rw [depsOf]
  cases hf : indexOf? packages e.1 with
  | none => simp
  | some f =>
    cases ht : indexOf? packages e.2 with
    | none => simp
    | some t => simp

theorem lt_length_of_indexOf? (h : indexOf? packages id = some i) : i < packages.length := by
  obtain ⟨p, hp, -⟩ := exists_of_indexOf? h
  exact (List.getElem?_eq_some_iff.mp hp).1

theorem exists_depsOf_iff : (∃ deps', depsOf packages deps edges = .ok deps') ↔
    ∀ e ∈ edges, (∃ i, indexOf? packages e.1 = some i) ∧ ∃ j, indexOf? packages e.2 = some j := by
  induction edges generalizing deps with
  | nil => simp [depsOf]
  | cons e edges ih =>
    simp only [depsOf_cons_eq_ok, List.forall_mem_cons]
    constructor
    · rintro ⟨deps', f, t, hf, ht, h⟩
      exact ⟨⟨⟨f, hf⟩, t, ht⟩, ih.mp ⟨deps', h⟩⟩
    · rintro ⟨⟨⟨f, hf⟩, t, ht⟩, hrest⟩
      obtain ⟨deps', h⟩ : ∃ deps', depsOf packages (addDep deps f t) edges = .ok deps' :=
        ih.mpr hrest
      exact ⟨deps', f, t, hf, ht, h⟩

/-- Rows of dependencies in which each dependency stands once. -/
structure Rows (packages : List Package) (deps : List (List Nat)) : Prop where
  length : deps.length = packages.length
  single : ∀ i, (row deps i).Nodup

theorem Rows.addDep (h : Rows packages deps) (hstart : start < packages.length) :
    Rows packages (addDep deps start target) where
  length := (length_addDep ..).trans h.length
  single i := nodup_row_addDep (h.length ▸ hstart) (h.single i)

/-- The dependencies are those that are there and those that the edges tell. -/
theorem rows_of_depsOf (h : Rows packages deps) (hdeps : depsOf packages deps edges = .ok deps') :
    Rows packages deps' ∧ ∀ i j, j ∈ row deps' i ↔ j ∈ row deps i ∨
      ∃ e ∈ edges, indexOf? packages e.1 = some i ∧ indexOf? packages e.2 = some j := by
  induction edges generalizing deps with
  | nil =>
    cases hdeps
    exact ⟨h, by simp⟩
  | cons e edges ih =>
    obtain ⟨f, t, hf, ht, hdeps⟩ := depsOf_cons_eq_ok.mp hdeps
    have hlt := lt_length_of_indexOf? hf
    obtain ⟨hrows, hmem⟩ := ih (h.addDep hlt) hdeps
    refine ⟨hrows, fun i j => ?_⟩
    rw [hmem, mem_row_addDep (h.length ▸ hlt), or_assoc]
    refine or_congr_right ?_
    simp only [List.exists_mem_cons_iff, hf, ht, Option.some.injEq, eq_comm]

/-- A graph holds the packages and the edges that it is made of: each row tells, once each, the
packages that edges lead to. -/
structure IsOf (g : PackageGraph) (packages : List Package) (edges : List (String × String)) :
    Prop where
  nodes : g.packages = packages
  length : g.deps.length = packages.length
  single : ∀ i, (g.depsAt i).Nodup
  edge : ∀ i j, j ∈ g.depsAt i ↔
    ∃ p q, packages[i]? = some p ∧ packages[j]? = some q ∧ (p.id, q.id) ∈ edges
  member : ∀ i, i ∈ g.members ↔ ∃ p, packages[i]? = some p ∧ p.isMember = true

theorem isOf_ofEdges (hids : (packages.map Package.id).Nodup)
    (h : ofEdges root packages edges rustc = .ok g) : g.IsOf packages edges := by
  obtain ⟨deps, hdeps, h⟩ := exists_of_bind_eq_ok h
  cases h
  have hstart : Rows packages (packages.map fun _ => []) :=
    ⟨List.length_map .., fun i => by rw [row_none]; exact List.nodup_nil⟩
  obtain ⟨hrows, hmem⟩ := rows_of_depsOf hstart hdeps
  refine ⟨rfl, hrows.length, hrows.single, fun i j => ?_, fun i => mem_numbersWhere⟩
  change j ∈ row deps i ↔ _
  simp only [hmem, row_none, List.not_mem_nil, false_or, indexOf?_eq_some_iff hids]
  constructor
  · rintro ⟨e, he, ⟨p, hp, hstart⟩, q, hq, htarget⟩
    exact ⟨p, q, hp, hq, by rw [hstart, htarget]; exact he⟩
  · rintro ⟨p, q, hp, hq, he⟩
    exact ⟨_, he, ⟨p, hp, rfl⟩, q, hq, rfl⟩

theorem exists_ofEdges_iff : (∃ g, ofEdges root packages edges rustc = .ok g) ↔
    ∀ e ∈ edges, (∃ p ∈ packages, p.id = e.1) ∧ ∃ p ∈ packages, p.id = e.2 := by
  have hrows : (∃ deps, depsOf packages (packages.map fun _ => []) edges = .ok deps) ↔ _ :=
    exists_depsOf_iff
  simp only [← exists_indexOf?_iff]
  rw [← hrows]
  constructor
  · rintro ⟨g, h⟩
    obtain ⟨deps, hdeps, -⟩ := exists_of_bind_eq_ok h
    exact ⟨deps, hdeps⟩
  · rintro ⟨deps, hdeps⟩
    exact ⟨_, by rw [ofEdges, hdeps]; rfl⟩

theorem IsOf.finds (h : g.IsOf packages edges) :
    Search.Finds packages.length g.depsAt g.members g.reachable := by
  have hlt {i : Nat} {p : Package} (hp : packages[i]? = some p) : i < packages.length :=
    (List.getElem?_eq_some_iff.mp hp).1
  rw [reachable, h.nodes]
  refine Search.finds_reachableFlags (fun i hi => ?_) fun i j hj => ?_
  · obtain ⟨p, hp, -⟩ := (h.member i).mp hi
    exact hlt hp
  · obtain ⟨p, q, -, hq, -⟩ := (h.edge i j).mp hj
    exact hlt hq

end PackageGraph

namespace CallGraph

variable {g : CallGraph} {files : List Added} {i j : Nat} {n m : CallNode}

theorem direct_lt_addAll (files : List Added) (hi : i ∈ (addAll {} files).direct) :
    i < (addAll {} files).nodes.length := by
  obtain ⟨f, k, fn, hi, -⟩ := (mem_direct_addAll_iff files).mp hi
  exact lt_length (node_of_functionsOf hi)

theorem lt_of_mem_named {name : String} (h : i ∈ g.named name) : i < g.nodes.length := by
  obtain ⟨n, hn, -⟩ := mem_named_iff.mp h
  exact lt_length hn

/-- A call graph whose names are looked up: edges lead to the functions that a body mentions, and
what is mentioned outside of functions is among the entries. -/
structure IsLinked (g : CallGraph) : Prop where
  entries_lt : ∀ i ∈ g.entries, i < g.nodes.length
  callees_lt : ∀ i, ∀ j ∈ g.callees i, j < g.nodes.length
  callees : ∀ i j n m, g.nodes[i]? = some n → g.nodes[j]? = some m →
    (j ∈ g.callees i ↔ m.function.name ∈ n.function.mentions)
  roots : ∀ i n, g.nodes[i]? = some n → n.function.name ∈ g.rootNames → i ∈ g.entries

theorem isLinked_addAll (files : List Added) : (addAll {} files).IsLinked where
  entries_lt i hi := by
    rcases List.mem_append.mp hi with hi | hi
    · exact direct_lt_addAll files hi
    · obtain ⟨name, -, hi⟩ := List.mem_flatMap.mp hi
      exact lt_of_mem_named hi
  callees_lt i j hj := by
    unfold CallGraph.callees at hj
    cases hn : (addAll {} files).nodes[i]? with
    | none => simp [hn] at hj
    | some n =>
      rw [hn] at hj
      obtain ⟨name, -, hj⟩ := List.mem_flatMap.mp hj
      exact lt_of_mem_named hj
  callees _ _ _ _ hn hm := mem_callees_iff hm hn
  roots _ _ hn hname := List.mem_append_right _ (List.mem_flatMap.mpr ⟨_, hname, mem_named hn⟩)

theorem IsLinked.finds (h : g.IsLinked) :
    Search.Finds g.nodes.length g.callees g.entries g.reachable :=
  Search.finds_reachableFlags h.entries_lt h.callees_lt

end CallGraph

/-- Both searches of a program compute exactly what paths lead to. Packages and the edges between
their ids make a graph if both ends of every edge are packages, and the graph has these edges; the
packages that are found are those that some member needs. The functions of files make a graph whose
edges are mentions, and those that are found are the ones that some entry point leads to. -/
theorem searches_exact :
    (∀ (root : Path) (packages : List Package) (edges : List (String × String))
        (rustc : Option Version), (packages.map Package.id).Nodup →
      ((∃ g, PackageGraph.ofEdges root packages edges rustc = .ok g) ↔
        ∀ e ∈ edges, (∃ p ∈ packages, p.id = e.1) ∧ ∃ p ∈ packages, p.id = e.2) ∧
      ∀ g, PackageGraph.ofEdges root packages edges rustc = .ok g →
        g.IsOf packages edges ∧
          Search.Finds packages.length g.depsAt g.members g.reachable) ∧
    ∀ files : List CallGraph.Added, (CallGraph.addAll {} files).IsLinked ∧
      Search.Finds (CallGraph.addAll {} files).nodes.length (CallGraph.addAll {} files).callees
        (CallGraph.addAll {} files).entries (CallGraph.addAll {} files).reachable := by
  refine ⟨fun root packages edges rustc hids => ⟨PackageGraph.exists_ofEdges_iff, fun g hg => ?_⟩,
    fun files => ?_⟩
  · have hof := PackageGraph.isOf_ofEdges hids hg
    exact ⟨hof, hof.finds⟩
  · have hlinked := CallGraph.isLinked_addAll files
    exact ⟨hlinked, hlinked.finds⟩

/-- A member that is on a cycle, and a package that nothing needs. -/
def ringPackages : List Package :=
  [{ crateP with id := "a" }, { crateP with id := "b", isMember := false },
    { crateP with id := "c", isMember := false }]

/-- The edges of the cycle, one of them twice, a loop, and an edge to the cycle. -/
def ringEdges : List (String × String) :=
  [("a", "b"), ("b", "a"), ("b", "b"), ("a", "b"), ("c", "a")]

theorem ringPackages_searched : (ringPackages.map Package.id).Nodup ∧
    ∃ g, PackageGraph.ofEdges ⟨"/p"⟩ ringPackages ringEdges none = .ok g ∧
      g.IsOf ringPackages ringEdges ∧
      Search.Finds ringPackages.length g.depsAt g.members g.reachable ∧
      g.reachable = [true, true, false] := by
  have hids : (ringPackages.map Package.id).Nodup := by decide
  obtain ⟨hexists, hall⟩ := searches_exact.1 ⟨"/p"⟩ ringPackages ringEdges none hids
  obtain ⟨g, hg⟩ := hexists.mpr (by decide)
  have hreachable : (PackageGraph.ofEdges ⟨"/p"⟩ ringPackages ringEdges none).toOption.map
      PackageGraph.reachable = some [true, true, false] := by decide
  rw [hg] at hreachable
  exact ⟨hids, g, hg, (hall g hg).1, (hall g hg).2, Option.some.inj hreachable⟩

end Instrumentation
