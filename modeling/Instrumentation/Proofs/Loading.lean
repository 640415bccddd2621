import Instrumentation.Proofs.Exports
import Instrumentation.Proofs.Registered

/-!
What loading gives. The rules of a registry are those of the rule files, one for each definition
and in the same order, numbered from zero on. Leaving rules out moves the positions in the indexes
but not the numbers. Each hook of a rule is a function that the hook crate of its file exports, as
far as the registry can tell.
-/
namespace Instrumentation

/-- A definition in a rule file, with what the file says of all its rules. -/
structure WrittenRule where
  source : String
  hookCrate : HookCrate
  definition : RuleDefinition

/-- The rule that a definition stands for, at the number that it has. -/
def WrittenRule.Makes (w : WrittenRule) (r : Rule) : Prop :=
  w.definition.toRule r.order w.source w.hookCrate = .ok r

/-- The definitions in a rule file, in order. -/
def RuleSource.written (t : FileTree) (s : RuleSource) : Except Failure (List WrittenRule) :=
  s.definitions.map fun f => f.rules.map fun d => ⟨s.name, s.hookCrate t f, d⟩

namespace Registry

open ModuleFile (scan)

variable {t : FileTree} {sources : List RuleSource} {g : Registry} {l l' : Loading}
  {source : String} {h : HookCrate} {rules rules' : List Rule} {ds : List RuleDefinition}

theorem hookCrate_of_mem_hooksOf {r : Rule} {id : String} {order : Nat} (hr : r.From id order h)
    {e : String × HookRef} (he : e ∈ hooksOf r) : e.2.hookCrate = h.name := by
  rcases List.mem_append.mp he with he | he
  · obtain ⟨k, hk, rfl⟩ := Option.map_eq_some_iff.mp (Option.mem_toList.mp he)
    exact hr.onEnter k hk
  · obtain ⟨k, hk, rfl⟩ := Option.map_eq_some_iff.mp (Option.mem_toList.mp he)
    exact hr.onExit k hk

/-- The rules of one file stand behind those before it, and have its hook crate. -/
theorem exists_of_addRules (hadd : addRules source h rules ds = .ok rules') :
    ∃ new, rules' = rules ++ new ∧
      List.Forall₂ WrittenRule.Makes (ds.map fun d => ⟨source, h, d⟩) new ∧
      ∀ r ∈ new, r.hookCrate = h ∧ ∀ e ∈ hooksOf r, e.2.hookCrate = h.name := by
  induction ds generalizing rules with
  | nil =>
    cases hadd
    exact ⟨[], by simp, .nil, by simp⟩
  | cons d rest ih =>
    unfold addRules at hadd
    split at hadd
    · cases hadd
    · next r hr =>
      split at hadd
      · cases hadd
      · have hfrom := RuleDefinition.from_of_toRule hr
        obtain ⟨new, rfl, hnew, hcrates⟩ := ih hadd
        refine ⟨r :: new, by simp, .cons ?_ hnew, List.forall_mem_cons.mpr
          ⟨⟨hfrom.hookCrate_eq, fun e => hookCrate_of_mem_hooksOf hfrom⟩, hcrates⟩⟩
        rw [WrittenRule.Makes, hfrom.order_eq]
        exact hr

/-- What is known of hook crates stays known, and the crate of a file is known then. -/
theorem exists_of_addHookCrate {known known' : List HookCrate}
    (hadd : addHookCrate source known h = .ok known') :
    known ⊆ known' ∧ ((known.map HookCrate.name).Nodup → (known'.map HookCrate.name).Nodup) ∧
      ∃ k ∈ known', k.name = h.name ∧ k.dir.same h.dir = true := by
  unfold addHookCrate at hadd
  split at hadd
  · next hnone =>
    cases hadd
    refine ⟨List.subset_append_left _ _, fun hnodup => ?_, h, by simp, rfl, by simp [Path.same]⟩
    rw [List.map_append, List.nodup_append]
    refine ⟨hnodup, by simp, ?_⟩
    intro name hname other hother
    obtain ⟨k, hk, rfl⟩ := List.mem_map.mp hname
    obtain rfl : other = h.name := by simpa using hother
    simpa using List.find?_eq_none.mp hnone k hk
  · next k hk =>
    split at hadd
    · next hsame =>
      cases hadd
      exact ⟨List.Subset.refl _, id, k, List.mem_of_find?_eq_some hk,
        by simpa using List.find?_some hk, hsame⟩
    · cases hadd

/-- Hook crates have names of their own, and that of each rule is among them. -/
structure Located (l : Loading) : Prop where
  names : (l.hookCrates.map HookCrate.name).Nodup
  crates : ∀ r ∈ l.rules, ∃ k ∈ l.hookCrates, k.name = r.hookCrate.name ∧
    k.dir.same r.hookCrate.dir = true
  hooks : ∀ r ∈ l.rules, ∀ e ∈ hooksOf r, e.2.hookCrate = r.hookCrate.name

/-- One rule file more: its rules come last. -/
theorem exists_of_addSource {s : RuleSource} (hadd : addSource t l s = .ok l') :
    (Located l → Located l') ∧ ∃ ws new, s.written t = .ok ws ∧ l'.rules = l.rules ++ new ∧
      List.Forall₂ WrittenRule.Makes ws new := by
  obtain ⟨f, hf, hcrates, hrules⟩ := addSource_eq_ok hadd
  obtain ⟨hsubset, hnodup, k, hk, hname, hdir⟩ := exists_of_addHookCrate hcrates
  obtain ⟨new, hnewRules, hnew, hfile⟩ := exists_of_addRules hrules
  have hwritten : s.written t = .ok (f.rules.map fun d => ⟨s.name, s.hookCrate t f, d⟩) := by
    rw [RuleSource.written, hf]
    rfl
  refine ⟨fun hl => ⟨hnodup hl.names, fun r hr => ?_, fun r hr e he => ?_⟩, _, new, hwritten,
    hnewRules, hnew⟩ <;> rw [hnewRules] at hr
  · rcases List.mem_append.mp hr with hr | hr
    · obtain ⟨k, hk, hfacts⟩ := hl.crates r hr
      exact ⟨k, hsubset hk, hfacts⟩
    · rw [(hfile r hr).1]
      exact ⟨k, hk, hname, hdir⟩
  · rcases List.mem_append.mp hr with hr | hr
    · exact hl.hooks r hr e he
    · rw [(hfile r hr).1]
      exact (hfile r hr).2 e he

/-- All rule files, after those before them. -/
theorem exists_of_foldlM (hfold : sources.foldlM (addSource t) l = .ok l') :
    (Located l → Located l') ∧ ∃ ws new, sources.mapM (RuleSource.written t) = .ok ws ∧
      l'.rules = l.rules ++ new ∧ List.Forall₂ WrittenRule.Makes ws.flatten new := by
  induction sources generalizing l with
  | nil =>
    cases hfold
    exact ⟨id, [], [], rfl, by simp, .nil⟩
  | cons s rest ih =>
    rw [List.foldlM_cons] at hfold
    obtain ⟨next, hnext, hfold⟩ := exists_of_bind_eq_ok hfold
    obtain ⟨hlocated, ws, new, hws, hrules, hmakes⟩ := exists_of_addSource hnext
    obtain ⟨hlocated', wss, news, hwss, hrules', hmakes'⟩ := ih hfold
    refine ⟨hlocated' ∘ hlocated, ws :: wss, new ++ news, ?_, ?_, ?_⟩
    · rw [List.mapM_cons]
      exact bind_eq_ok hws (bind_eq_ok hwss rfl)
    · rw [hrules', hrules, List.append_assoc]
    · rw [List.flatten_cons]
      exact List.rel_append hmakes hmakes'

theorem checkHooks_of_forM {exported : List (String × List String)}
    (hchecked : rules.forM (checkHooks exported) = .ok ()) {r : Rule} (hr : r ∈ rules) :
    checkHooks exported r = .ok () := by
  induction rules with
  | nil => cases hr
  | cons k rest ih =>
    obtain ⟨⟨⟩, hk, hrest⟩ := exists_of_bind_eq_ok hchecked
    rcases List.mem_cons.mp hr with rfl | hr
    · exact hk
    · exact ih hrest hr

/-- Each hook of a rule that was checked is among the functions of its hook crate. -/
theorem exists_of_checkHooks {exported : List (String × List String)} {r : Rule}
    (hchecked : checkHooks exported r = .ok ()) {e : String × HookRef} (he : e ∈ hooksOf r) :
    ∃ found ∈ exported, found.1 = e.2.hookCrate ∧ e.2.path ∈ found.2 := by
  unfold checkHooks at hchecked
  dsimp only at hchecked
  split at hchecked
  · next hnone => simpa using List.find?_eq_none.mp hnone e he
  · cases hchecked

/-- A hook names a function that the hook crate of its rule exports, by an open way or by one that
leads through a module inside a file that is not public. -/
theorem exports_of_load (hload : load t sources = .ok g) {r : Rule} (hr : r ∈ g.rules)
    {e : String × HookRef} (he : e ∈ hooksOf r) : e.2.hookCrate = r.hookCrate.name ∧
      ∃ k ∈ g.hookCrates, k.name = r.hookCrate.name ∧ k.dir.same r.hookCrate.dir = true ∧
        (Exports t k true e.2.path ∨ Exports t k false e.2.path) := by
  obtain ⟨l, exported, hl, rfl, hexported, hchecked⟩ := exists_of_load hload
  have hlocated := (exists_of_foldlM hl).1 ⟨by simp, by simp, by simp⟩
  have hcrate := hlocated.hooks r hr e he
  obtain ⟨found, hfound, hname, hpath⟩ :=
    exists_of_checkHooks (checkHooks_of_forM hchecked hr) he
  obtain ⟨k, hk, hkname, hfunctions⟩ := hexported found hfound
  obtain ⟨k', hk', hname', hdir⟩ := hlocated.crates r hr
  have hsame : k.name = r.hookCrate.name := by rw [hkname, hname, hcrate]
  obtain rfl := List.inj_on_of_nodup_map hlocated.names hk' hk (hname'.trans hsame.symm)
  obtain ⟨isOpen, hexports⟩ := exports_of_mem hfunctions hpath
  refine ⟨hcrate, k', hk, hsame, hdir, ?_⟩
  cases isOpen with
  | true => exact .inl hexports
  | false => exact .inr hexports

@[simp] theorem rules_foldl_retain (keeps : List (Rule → Bool)) (g : Registry) :
    (keeps.foldl retain g).rules = g.rules.filter fun r => keeps.all fun keep => keep r := by
  induction keeps generalizing g with
  | nil => simp
  | cons keep keeps ih => simp [ih, List.filter_filter, Bool.and_comm]

/-- The rules of a registry are those of the rule files, in order, numbered from zero on, with ids
of their own. However rules are left out, those that stay do so in order and with their numbers, and
both indexes lead to them: to just those for a module or a crate, in order. And every hook is a
function that its hook crate exports, maybe by way of modules inside files that are not public. -/
theorem agrees_of_load (hload : load t sources = .ok g) :
    (g.rules.map Rule.id).Nodup ∧ g.rules.map Rule.order = List.range g.rules.length ∧
    (∃ ws, sources.mapM (RuleSource.written t) = .ok ws ∧
      List.Forall₂ WrittenRule.Makes ws.flatten g.rules) ∧
    (∀ keeps : List (Rule → Bool),
      (keeps.foldl retain g).rules = g.rules.filter (fun r => keeps.all fun keep => keep r) ∧
      ∀ text,
        (keeps.foldl retain g).lookup text =
          (keeps.foldl retain g).rules.filter (fun r => r.importPath = text) ∧
        (keeps.foldl retain g).forCrate text =
          (keeps.foldl retain g).rules.filter (fun r => r.targetCrate = text)) ∧
    ∀ r ∈ g.rules, ∀ e ∈ hooksOf r, e.2.hookCrate = r.hookCrate.name ∧
      ∃ k ∈ g.hookCrates, k.name = r.hookCrate.name ∧ k.dir.same r.hookCrate.dir = true ∧
        (Exports t k true e.2.path ∨ Exports t k false e.2.path) := by
  have hcounted := counted_of_load hload
  refine ⟨List.pairwise_map.mpr hcounted.ids, hcounted.orders, ?_, fun keeps => ?_,
    fun r hr e he => exports_of_load hload hr he⟩
  · obtain ⟨l, exported, hl, rfl, -, -⟩ := exists_of_load hload
    obtain ⟨-, ws, new, hws, hrules, hmakes⟩ := exists_of_foldlM hl
    obtain rfl : l.rules = new := hrules
    exact ⟨ws, hws, hmakes⟩
  · exact ⟨rules_foldl_retain keeps g, fun text => ⟨lookup_eq _ text, forCrate_eq _ text⟩⟩

/-- Two rule files, and what is left of their rules without one in the middle. -/
theorem librarySource_agrees :
    ∃ g, load libraryTree [plainSource, librarySource] = .ok g ∧ (g.rules.map Rule.id).Nodup ∧
      g.rules.map Rule.order = List.range 4 ∧
      ([fun r : Rule => r.id != "b"].foldl retain g).rules.map Rule.order = [0, 2, 3] ∧
      (([fun r : Rule => r.id != "b"].foldl retain g).lookup "p").map Rule.id = ["a", "d"] ∧
      (([fun r : Rule => r.id != "b"].foldl retain g).forCrate "q").map Rule.id = ["c"] ∧
      ∀ r ∈ g.rules, ∃ e ∈ hooksOf r, ∃ k ∈ g.hookCrates, k.name = r.hookCrate.name ∧
        (Exports libraryTree k true e.2.path ∨ Exports libraryTree k false e.2.path) := by
  obtain ⟨hids, horders, -, hkept, hexports⟩ := agrees_of_load load_libraryRules
  obtain ⟨hrules, hindexes⟩ := hkept [fun r => r.id != "b"]
  refine ⟨_, load_libraryRules, hids, horders, ?_, ?_, ?_, fun r hr => ?_⟩
  · rw [hrules]
    decide +kernel
  · rw [(hindexes "p").1, hrules]
    decide +kernel
  · rw [(hindexes "q").2, hrules]
    decide +kernel
  · have hhook : ("on_enter", ⟨"h", "g"⟩) ∈ hooksOf r := by
      revert r
      decide +kernel
    obtain ⟨-, k, hk, hname, -, hfound⟩ := hexports r hr _ hhook
    exact ⟨_, hhook, k, hk, hname, hfound⟩

/-- A hook crate with a public module in one inside its file that is not public. -/
def hiddenTree : FileTree where
  files := [(["h", "src", "lib.rs"], .text "mod m \x7b pub mod x; \x7d"),
    (["h", "src", "m", "x.rs"], .text "pub fn g() \x7b\x7d")]

def hiddenSource : RuleSource := ⟨"hidden", .toml,
  "[hooks]\ncrate=\"h\"\npath=\"h\"\n[[rule]]\nid=\"a\"\nimport_path=\"p\"\nfunction=\"f\"\n" ++
    "on_enter=\"m::x::g\"\n", ⟨"/"⟩⟩

/-- A rule is loaded though no other crate can see its hook: the hook is in a public module, but
this stands in one that is not. -/
theorem hidden_hook_loaded :
    ∃ g, load hiddenTree [hiddenSource] = .ok g ∧ ∃ r ∈ g.rules, ∃ e ∈ hooksOf r,
      ∀ k ∈ g.hookCrates, ¬ Exports hiddenTree k true e.2.path := by
  have hsample : (load hiddenTree [hiddenSource]).toOption.any (fun g =>
      g.rules.any (fun r => (hooksOf r).any fun _ => true) &&
      g.hookCrates.all fun k => hookCrateRoot hiddenTree k.dir = ⟨"/h/src/lib.rs"⟩) = true := by
    decide +kernel
  have hroot : (scan hiddenTree ⟨"/h/src/lib.rs"⟩).toOption.any (fun f =>
      f.scan.functions = [] && (Source.outlinesOf f.scan.text).all fun o => !o.isOpen) = true := by
    decide +kernel
  obtain ⟨g, hload, hfacts⟩ := exists_ok_of_any hsample
  obtain ⟨f, hscan, hfile⟩ := exists_ok_of_any hroot
  simp only [Bool.and_eq_true, decide_eq_true_eq, List.all_eq_true] at hfacts
  simp only [Bool.and_eq_true, decide_eq_true_eq, List.all_eq_true, Bool.not_eq_true'] at hfile
  obtain ⟨r, hr, hhooks⟩ := List.any_eq_true.mp hfacts.1
  obtain ⟨e, he, -⟩ := List.any_eq_true.mp hhooks
  refine ⟨g, hload, r, hr, e, he, ?_⟩
  rintro k hk ⟨names, p, f', fn, hroute, hscan', hfn, -⟩
  rw [hfacts.2 k hk] at hroute
  rw [hroute.path_of_closed hscan hfile.2, hscan] at hscan'
  cases hscan'
  simp [hfile.1] at hfn

end Registry
end Instrumentation
