import Mathlib.Data.List.Sort
import Mathlib.Data.List.SplitBy
import Instrumentation.Proofs.MatchSets
import Instrumentation.Proofs.Outcome

/-!
Match sets and their groups. A match set depends only on which matches it is made of, and the
groups by file and by declaration are runs of it: the runs of alike neighbours in a sorted list are
increasing themselves, and put behind one another they give the list back.
-/
namespace Instrumentation

open Std (TransCmp OrientedCmp ReflCmp LawfulEqCmp)

section Runs

variable {α β γ : Type} {cmp : α → α → Ordering} {test : α → α → Bool} {xs run : List α}

theorem mem_of_mem_run {x : α} (hrun : run ∈ xs.splitBy test) (hx : x ∈ run) : x ∈ xs := by
  rw [← List.flatten_splitBy test xs]
  exact List.mem_flatten.mpr ⟨run, hrun, hx⟩

theorem pairwise_of_mem_run {R : α → α → Prop} (h : xs.Pairwise R) (hrun : run ∈ xs.splitBy test) :
    run.Pairwise R := by
  rw [← List.flatten_splitBy test xs, List.pairwise_flatten] at h
  exact h.1 run hrun

/-- Neighbours in a run are alike, so all that are in it are. -/
theorem cmp_eq_of_mem_run [TransCmp cmp] (htest : ∀ a b, test a b = true ↔ cmp a b = .eq)
    (hrun : run ∈ xs.splitBy test) : ∀ a ∈ run, ∀ b ∈ run, cmp a b = .eq := by
  have htrans : IsTrans α fun a b => cmp a b = .eq := ⟨fun _ _ _ => TransCmp.eq_trans⟩
  have hsymm : Std.Symm fun a b => cmp a b = .eq := ⟨fun _ _ => OrientedCmp.eq_symm⟩
  have hchain := (List.isChain_of_mem_splitBy hrun).imp fun a b => (htest a b).mp
  exact fun a ha b hb =>
    hchain.pairwise.forall_of_forall (fun _ _ => ReflCmp.compare_self) ha hb

/-- All of one run stands before all of another one. -/
def RunBefore (cmp : α → α → Ordering) (r s : List α) : Prop :=
  s ≠ [] ∧ ∀ a ∈ r, ∀ b ∈ s, cmp a b = .lt

instance [TransCmp cmp] : IsTrans (List α) (RunBefore cmp) where
  trans r s t hrs hst := by
    obtain ⟨c, hc⟩ := List.exists_mem_of_ne_nil s hrs.1
    exact ⟨hst.1, fun a ha b hb => TransCmp.lt_trans (hrs.2 a ha c hc) (hst.2 c hc b hb)⟩

/-- The runs of a sorted list are increasing: the last of a run and the first of the next one are
not alike, and this tells the runs apart. -/
theorem pairwise_runs [TransCmp cmp] (htest : ∀ a b, test a b = true ↔ cmp a b = .eq)
    (hsorted : xs.Pairwise fun a b => cmp a b ≠ .gt) :
    (xs.splitBy test).Pairwise (RunBefore cmp) := by
  rw [← List.flatten_splitBy test xs, List.pairwise_flatten] at hsorted
  have hnext := List.isChain_iff_getElem.mp (List.isChain_getLast_head_splitBy test xs)
  refine (List.isChain_iff_getElem.mpr fun i hi => ?_).pairwise
  obtain ⟨hr, hs, hdiffer⟩ := hnext i hi
  have hlast := List.getLast_mem hr
  have hhead := List.head_mem hs
  have hle := List.pairwise_iff_getElem.mp hsorted.2 i (i + 1) (by omega) hi (by omega)
    _ hlast _ hhead
  have hlt : cmp ((xs.splitBy test)[i].getLast hr) ((xs.splitBy test)[i + 1].head hs) = .lt := by
    cases hcmp : cmp ((xs.splitBy test)[i].getLast hr) ((xs.splitBy test)[i + 1].head hs) with
    | lt => rfl
    | eq => simp [(htest _ _).mpr hcmp] at hdiffer
    | gt => exact absurd hcmp hle
  refine ⟨hs, fun a ha b hb => ?_⟩
  have hfirst := cmp_eq_of_mem_run htest (List.getElem_mem _) a ha _ hlast
  have hsecond := cmp_eq_of_mem_run htest (List.getElem_mem _) _ hhead b hb
  exact TransCmp.lt_of_eq_of_lt hfirst (TransCmp.lt_of_lt_of_eq hlt hsecond)

/-- In an increasing list alike elements are one. -/
theorem eq_of_pairwise_lt [OrientedCmp cmp] {a b : α} (h : xs.Pairwise fun a b => cmp a b = .lt)
    (ha : a ∈ xs) (hb : b ∈ xs) (heq : cmp a b = .eq) : a = b := by
  have hsymm : Std.Symm fun a b => cmp a b ≠ .eq :=
    ⟨fun _ _ hne heq => hne (OrientedCmp.eq_symm heq)⟩
  have hdiffer : xs.Pairwise fun a b => cmp a b ≠ .eq := by
    refine h.imp fun {a b} hlt heq => ?_
    rw [hlt] at heq
    cases heq
  by_contra hne
  exact hdiffer.forall ha hb hne heq

/-- A group made of each run, opened again, gives back the list. -/
theorem flatMap_runs {group? : List α → Option β} {opened : β → List γ} {mark : α → γ}
    (h : ∀ run ∈ xs.splitBy test, ∃ y, group? run = some y ∧ opened y = run.map mark) :
    ((xs.splitBy test).filterMap group?).flatMap opened = xs.map mark := by
  have hruns : ∀ runs : List (List α),
      (∀ run ∈ runs, ∃ y, group? run = some y ∧ opened y = run.map mark) →
      (runs.filterMap group?).flatMap opened = runs.flatten.map mark := by
    intro runs hruns
    induction runs with
    | nil => rfl
    | cons run runs ih =>
      obtain ⟨y, hy, hopened⟩ := hruns run List.mem_cons_self
      rw [List.filterMap_cons_some hy, List.flatMap_cons, hopened,
        ih fun r hr => hruns r (List.mem_cons_of_mem run hr), List.flatten_cons, List.map_append]
  rw [hruns _ h, List.flatten_splitBy]

end Runs

namespace Match

variable {a b : Match}

/-- What a match is told from others by: the path of its file, the place in it, and when its rule
was registered. -/
def key (m : Match) : List PathComponent × Nat × Nat :=
  (m.file.path.components, m.decl.bodyOpen, m.rule.order)

theorem cmp_eq_iff_key : a.cmp b = .eq ↔ a.key = b.key := by
  simp [cmp_eq_iff, key, Path.same]

theorem sameFile_iff : a.sameFile b = true ↔ Ordering.byKey (fun m : Match => m.file.path)
    Path.cmp a b = .eq :=
  Path.cmp_eq_iff.symm

theorem sameDecl_iff :
    a.sameDecl b = true ↔ compareOn (fun m : Match => m.decl.bodyOpen) a b = .eq := by
  simp [sameDecl, compareOn]

/-- The file, the declaration and the rule of a match. -/
def triple (m : Match) : SourceFile × Source.Declaration × Rule := (m.file, m.decl, m.rule)

end Match

/-- The triples that a group of one file and one declaration stands for. -/
def DeclMatches.triples (file : SourceFile) (d : DeclMatches) :
    List (SourceFile × Source.Declaration × Rule) :=
  d.rules.map fun r => (file, d.decl, r)

def FileMatches.triples (f : FileMatches) : List (SourceFile × Source.Declaration × Rule) :=
  f.decls.flatMap (DeclMatches.triples f.file)

/-- Increasing declarations, and increasing rules of each. -/
def FileMatches.Increasing (f : FileMatches) : Prop :=
  f.decls.Pairwise (fun a b => a.decl.bodyOpen < b.decl.bodyOpen) ∧
    ∀ d ∈ f.decls, d.rules.Pairwise fun a b => a.order < b.order

/-- Where a triple belongs: the path, the place in the file, and the rule. -/
def placed (t : SourceFile × Source.Declaration × Rule) : List PathComponent × Nat × Rule :=
  (t.1.path.components, t.2.1.bodyOpen, t.2.2)

namespace MatchSet

variable {s : MatchSet} {f : FileMatches} {d : DeclMatches} {ms : List Match}

/-- Matches at one place of one path are in one file and have one declaration. -/
def Coherent (s : MatchSet) : Prop :=
  ∀ a ∈ s.toList, ∀ b ∈ s.toList, a.sameFile b = true →
    a.file = b.file ∧ (a.sameDecl b = true → a.decl = b.decl)

def triples (s : MatchSet) : List (SourceFile × Source.Declaration × Rule) :=
  s.files.flatMap FileMatches.triples

/-- The groups, opened again, are the matches in order, as far as one can tell that takes all files
of one path for one, and all declarations at one place of a file. -/
theorem map_triples {δ : Type} (mark : SourceFile × Source.Declaration × Rule → δ)
    (hfile : ∀ a ∈ s.toList, ∀ b ∈ s.toList, a.sameFile b = true →
      ∀ d r, mark (a.file, d, r) = mark (b.file, d, r))
    (hdecl : ∀ a ∈ s.toList, ∀ b ∈ s.toList, a.sameFile b = true → a.sameDecl b = true →
      ∀ r, mark (a.file, a.decl, r) = mark (a.file, b.decl, r)) :
    s.triples.map mark = s.toList.map fun m => mark m.triple := by
  rw [triples, List.map_flatMap, files]
  refine flatMap_runs fun run hrun => ?_
  have hsame := cmp_eq_of_mem_run (fun _ _ => Match.sameFile_iff) hrun
  obtain ⟨m, rest, rfl⟩ := List.exists_cons_of_ne_nil (List.ne_nil_of_mem_splitBy hrun)
  refine ⟨_, rfl, ?_⟩
  rw [FileMatches.triples, List.map_flatMap]
  refine flatMap_runs fun part hpart => ?_
  have hplace := cmp_eq_of_mem_run (fun _ _ => Match.sameDecl_iff) hpart
  have hin : ∀ n ∈ part, n ∈ m :: rest := fun n hn => mem_of_mem_run hpart hn
  obtain ⟨k, others, rfl⟩ := List.exists_cons_of_ne_nil (List.ne_nil_of_mem_splitBy hpart)
  refine ⟨_, rfl, ?_⟩
  have hk := hin k List.mem_cons_self
  simp only [DeclMatches.triples, List.map_map]
  refine List.map_congr_left fun n hn => ?_
  have hm : m ∈ s.toList := mem_of_mem_run hrun List.mem_cons_self
  have hn' : n ∈ s.toList := mem_of_mem_run hrun (hin n hn)
  calc mark (m.file, k.decl, n.rule)
      = mark (n.file, k.decl, n.rule) := hfile m hm n hn'
          (Match.sameFile_iff.mpr (hsame m List.mem_cons_self n (hin n hn))) _ _
    _ = mark (n.file, n.decl, n.rule) := (hdecl n hn' k (mem_of_mem_run hrun hk)
          (Match.sameFile_iff.mpr (hsame n (hin n hn) k hk))
          (Match.sameDecl_iff.mpr (hplace n hn k List.mem_cons_self)) _).symm

/-- The matches of one file, in order, make increasing declarations with increasing rules. -/
theorem increasing_of_ofRun? {run : List Match} (hbefore : run.Pairwise Match.Before)
    (hsame : ∀ a ∈ run, ∀ b ∈ run, a.sameFile b = true) (hf : FileMatches.ofRun? run = some f) :
    f.Increasing := by
  obtain ⟨m, -, rfl⟩ := Option.map_eq_some_iff.mp hf
  have hplaces : run.Pairwise fun a b => a.decl.bodyOpen < b.decl.bodyOpen ∨
      a.decl.bodyOpen = b.decl.bodyOpen ∧ a.rule.order < b.rule.order := by
    refine hbefore.imp_of_mem fun {a b} ha hb hab => ?_
    exact hab.resolve_left (fun hlt => by
      rw [Path.cmp_eq_iff.mpr (hsame a ha b hb)] at hlt
      cases hlt) |>.2
  constructor
  · have hsorted : run.Pairwise fun a b =>
        compareOn (fun m : Match => m.decl.bodyOpen) a b ≠ .gt := by
      refine hplaces.imp fun {a b} hab => ?_
      simp only [compareOn, ne_eq, Nat.compare_eq_gt]
      omega
    refine (pairwise_runs (fun _ _ => Match.sameDecl_iff) hsorted).filterMap _ ?_
    intro part next hparts d hd e he
    obtain ⟨a, ha, rfl⟩ := Option.map_eq_some_iff.mp hd
    obtain ⟨b, hb, rfl⟩ := Option.map_eq_some_iff.mp he
    exact Nat.compare_eq_lt.mp
      (hparts.2 a (List.mem_of_mem_head? ha) b (List.mem_of_mem_head? hb))
  · intro d hd
    obtain ⟨part, hpart, hd⟩ := List.mem_filterMap.mp hd
    obtain ⟨m, -, rfl⟩ := Option.map_eq_some_iff.mp hd
    have hplace := cmp_eq_of_mem_run (fun _ _ => Match.sameDecl_iff) hpart
    refine List.pairwise_map.mpr ((pairwise_of_mem_run hplaces hpart).imp_of_mem
      fun {a b} ha hb hab => ?_)
    have heq : a.decl.bodyOpen = b.decl.bodyOpen :=
      LawfulEqCmp.compare_eq_iff_eq.mp (hplace a ha b hb)
    exact (hab.resolve_left (by omega)).2

theorem pairwise_files (s : MatchSet) :
    s.files.Pairwise (fun f g => f.file.path.cmp g.file.path = .lt) ∧
      ∀ f ∈ s.files, f.Increasing := by
  constructor
  · have hsorted : s.toList.Pairwise fun a b =>
        Ordering.byKey (fun m : Match => m.file.path) Path.cmp a b ≠ .gt := by
      refine s.before.imp fun {a b} hab => ?_
      rcases hab with hlt | ⟨hsame, -⟩
      · simp [Ordering.byKey, hlt]
      · rw [Match.sameFile_iff.mp hsame]
        nofun
    refine (pairwise_runs (fun _ _ => Match.sameFile_iff) hsorted).filterMap _ ?_
    intro run next hruns f hf g hg
    obtain ⟨a, ha, rfl⟩ := Option.map_eq_some_iff.mp hf
    obtain ⟨b, hb, rfl⟩ := Option.map_eq_some_iff.mp hg
    exact hruns.2 a (List.mem_of_mem_head? ha) b (List.mem_of_mem_head? hb)
  · intro f hf
    obtain ⟨run, hrun, hf⟩ := List.mem_filterMap.mp hf
    have hsame := cmp_eq_of_mem_run (fun _ _ => Match.sameFile_iff) hrun
    exact increasing_of_ofRun? (pairwise_of_mem_run s.before hrun)
      (fun a ha b hb => Match.sameFile_iff.mpr (hsame a ha b hb)) hf

theorem mem_triples_iff {file : SourceFile} {decl : Source.Declaration} {r : Rule} :
    (file, decl, r) ∈ s.triples ↔
      ∃ f ∈ s.files, ∃ d ∈ f.decls, ∃ q ∈ d.rules, (f.file, d.decl, q) = (file, decl, r) := by
  simp only [triples, FileMatches.triples, DeclMatches.triples, List.mem_flatMap, List.mem_map]

/-- A group has one file and one declaration, so two matches that share the path, and the place,
share these too if their triples are among those of the groups. -/
theorem coherent_of_triples (htriples : s.triples = s.toList.map Match.triple) : s.Coherent := by
  obtain ⟨hfiles, hdecls⟩ := pairwise_files s
  have hgroup (m : Match) (hm : m ∈ s.toList) :
      ∃ f ∈ s.files, f.file = m.file ∧ ∃ d ∈ f.decls, d.decl = m.decl := by
    have hmem : m.triple ∈ s.triples := htriples ▸ List.mem_map_of_mem hm
    obtain ⟨f, hf, d, hd, q, -, heq⟩ := mem_triples_iff.mp hmem
    simp only [Prod.mk.injEq] at heq
    exact ⟨f, hf, heq.1, d, hd, heq.2.1⟩
  intro a ha b hb hsame
  obtain ⟨f, hf, hfa, d, hd, hda⟩ := hgroup a ha
  obtain ⟨g, hg, hgb, e, he, heb⟩ := hgroup b hb
  have hpaths : s.files.Pairwise fun f g =>
      Ordering.byKey (fun f : FileMatches => f.file.path) Path.cmp f g = .lt := hfiles
  obtain rfl := eq_of_pairwise_lt hpaths hf hg (by
    simpa only [Ordering.byKey, hfa, hgb] using Match.sameFile_iff.mp hsame)
  refine ⟨hfa.symm.trans hgb, fun hplace => ?_⟩
  have hplaces : f.decls.Pairwise fun d e =>
      compareOn (fun d : DeclMatches => d.decl.bodyOpen) d e = .lt :=
    (hdecls f hf).1.imp Nat.compare_eq_lt.mpr
  obtain rfl := eq_of_pairwise_lt hplaces hd he (by
    simpa only [compareOn, hda, heb] using Match.sameDecl_iff.mp hplace)
  exact hda.symm.trans heb

theorem triples_eq_iff (s : MatchSet) :
    s.triples = s.toList.map Match.triple ↔ s.Coherent := by
  refine ⟨coherent_of_triples, fun hcoherent => ?_⟩
  have hmap := map_triples (s := s) id ?_ ?_
  · simpa using hmap
  · intro a ha b hb hsame d r
    rw [(hcoherent a ha b hb hsame).1]
  · intro a ha b hb hsame hplace r
    rw [(hcoherent a ha b hb hsame).2 hplace]

theorem map_placed_triples (s : MatchSet) :
    s.triples.map placed = s.toList.map fun m => placed m.triple := by
  refine map_triples placed (fun a _ b _ hsame d r => ?_) fun a _ b _ _ hplace r => ?_
  · simp only [Match.sameFile, Path.same, beq_iff_eq] at hsame
    simp [placed, hsame]
  · simp only [Match.sameDecl, beq_iff_eq] at hplace
    simp [placed, hplace]

/-- A match set has the keys of the matches that it is made of. -/
theorem mem_keys_iff {k : List PathComponent × Nat × Nat} :
    k ∈ (ofList ms).toList.map Match.key ↔ k ∈ ms.map Match.key := by
  constructor
  · intro h
    obtain ⟨m, hm, rfl⟩ := List.mem_map.mp h
    exact List.mem_map_of_mem (mem_of_mem_ofList hm)
  · intro h
    obtain ⟨m, hm, rfl⟩ := List.mem_map.mp h
    obtain ⟨n, hn, hcmp⟩ := exists_ofList hm
    exact Match.cmp_eq_iff_key.mp hcmp ▸ List.mem_map_of_mem hn

/-- Keys tell the matches apart. -/
def Keyed (ms : List Match) : Prop := ∀ a ∈ ms, ∀ b ∈ ms, a.key = b.key → a = b

theorem mem_ofList_iff {m : Match} (h : Keyed ms) : m ∈ (ofList ms).toList ↔ m ∈ ms := by
  refine ⟨mem_of_mem_ofList, fun hm => ?_⟩
  obtain ⟨n, hn, hcmp⟩ := exists_ofList hm
  exact h n (mem_of_mem_ofList hn) m hm (Match.cmp_eq_iff_key.mp hcmp) ▸ hn

/-- The order in which matches are found does not matter, if keys tell them apart. -/
theorem ofList_eq_of_perm {other : List Match} (hperm : other.Perm ms) (h : Keyed ms) :
    ofList other = ofList ms := by
  have hother : Keyed other := fun a ha b hb =>
    h a (hperm.mem_iff.mp ha) b (hperm.mem_iff.mp hb)
  have hmem : ∀ m, m ∈ (ofList other).toList ↔ m ∈ (ofList ms).toList := fun m => by
    rw [mem_ofList_iff h, mem_ofList_iff hother, hperm.mem_iff]
  have hirrefl : Std.Irrefl fun a b : Match => a.cmp b = .lt :=
    ⟨fun a hlt => by simp [ReflCmp.compare_self] at hlt⟩
  have hantisymm : Std.Antisymm fun a b : Match => a.cmp b = .lt :=
    ⟨fun a b hab hba => by simp [OrientedCmp.gt_of_lt hab] at hba⟩
  exact ext ((ofList other).increasing.eq_of_mem_iff (ofList ms).increasing hmem)

/-- What a match set is made of fixes it: its matches are increasing by path, place and rule, with
the keys that were given, in whatever order. Its groups are increasing on each level and hold the
rules at the paths and places of the matches, in their order; and they hold just their files,
declarations and rules if and only if matches of one path have one file, and those at one place of
it one declaration. -/
theorem groups_of_ofList (ms : List Match) :
    (ofList ms).toList.Pairwise Match.Before ∧
    (∀ k, k ∈ (ofList ms).toList.map Match.key ↔ k ∈ ms.map Match.key) ∧
    (∀ other : List Match, other.Perm ms → Keyed ms → ofList other = ofList ms) ∧
    (ofList ms).files.Pairwise (fun f g => f.file.path.cmp g.file.path = .lt) ∧
    (∀ f ∈ (ofList ms).files, f.Increasing) ∧
    (ofList ms).triples.map placed = (ofList ms).toList.map (fun m => placed m.triple) ∧
    ((ofList ms).triples = (ofList ms).toList.map Match.triple ↔ (ofList ms).Coherent) := by
  obtain ⟨hfiles, hincreasing⟩ := pairwise_files (ofList ms)
  exact ⟨before _, fun k => mem_keys_iff, fun _ => ofList_eq_of_perm, hfiles, hincreasing,
    map_placed_triples _, triples_eq_iff _⟩

/-- A rule for a function of the crate `pkg`, whatever its parameters and results. -/
def functionRule (order : Nat) (name : String) : Rule where
  id := name
  order := order
  source := "rules.toml"
  importPath := "pkg"
  receiver := .none
  function := name
  params := .any
  results := .any
  onEnter := some ⟨"hooks", "enter"⟩
  onExit := none
  version := .any
  rustc := none
  requires := []
  fusible := false
  captures := []
  hookCrate := ⟨"hooks", ⟨"hooks"⟩⟩

/-- The match of the rule for `name` with a declaration of `a.rs`. -/
def matchAt (order : Nat) (name : String) (scan : Source.Scan) (d : Source.Declaration) : Match :=
  ⟨functionRule order name, 0, "pkg", ⟨⟨"a.rs"⟩, scan⟩, d⟩

/-- Of two files that have one path, the first is taken for both: the declaration of the second one
is lost, and its rule goes to the declaration of the first. -/
theorem two_files_at_one_path :
    ∃ f g : Source.Scan, Source.Scan.read "fn f() {}".toList = .ok f ∧
      Source.Scan.read "fn g() {}".toList = .ok g ∧
      ∃ d e, f.declarations = [d] ∧ g.declarations = [e] ∧
        (ofList [matchAt 0 "f" f d, matchAt 1 "g" g e]).triples ≠
          (ofList [matchAt 0 "f" f d, matchAt 1 "g" g e]).toList.map Match.triple := by
  have hfirst : (Source.Scan.read "fn f() {}".toList).toOption.any (fun scan =>
      scan.text = "fn f() {}".toList && scan.declarations.length = 1) = true := by decide +kernel
  have hsecond : (Source.Scan.read "fn g() {}".toList).toOption.any (fun scan =>
      scan.text = "fn g() {}".toList && scan.declarations.length = 1) = true := by decide +kernel
  obtain ⟨f, hf, hfacts⟩ := exists_ok_of_any hfirst
  obtain ⟨g, hg, hgacts⟩ := exists_ok_of_any hsecond
  simp only [Bool.and_eq_true, decide_eq_true_eq] at hfacts hgacts
  obtain ⟨d, hd⟩ := List.length_eq_one_iff.mp hfacts.2
  obtain ⟨e, he⟩ := List.length_eq_one_iff.mp hgacts.2
  refine ⟨f, g, hf, hg, d, e, hd, he, fun htriples => ?_⟩
  have hkeyed : Keyed [matchAt 0 "f" f d, matchAt 1 "g" g e] := by
    simp [Keyed, Match.key, matchAt, functionRule]
  have hsame := coherent_of_triples htriples (matchAt 0 "f" f d)
    ((mem_ofList_iff hkeyed).mpr (by simp)) (matchAt 1 "g" g e)
    ((mem_ofList_iff hkeyed).mpr (by simp)) (by simp [Match.sameFile, matchAt, Path.same])
  have htext : f.text = g.text := congrArg (fun file : SourceFile => file.scan.text) hsame.1
  rw [hfacts.1, hgacts.1] at htext
  exact absurd htext (by decide)

end MatchSet
end Instrumentation
