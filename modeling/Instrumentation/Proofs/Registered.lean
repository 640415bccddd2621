import Instrumentation.Proofs.Outcome
import Instrumentation.Registry
import Mathlib.Data.List.Nodup

/-!
Registries. The rules of a registry that was read from rule files stand in the order of their
numbers, and no two of them have one id; leaving rules out keeps both.
-/
namespace Instrumentation

/-- A hook is one of the hook crate of its file. -/
theorem hookCrate_of_readHook {hookCrate what : String} {written : Option String}
    {hook : Option HookRef} (h : readHook hookCrate what written = .ok hook) :
    ∀ k ∈ hook, k.hookCrate = hookCrate := by
  intro k hk
  unfold readHook at h
  split at h
  · cases h
    cases hk
  · dsimp only at h
    split at h
    · cases h
      cases hk
      rfl
    · cases h

/-- What a rule has from the file that it is written in. -/
structure Rule.From (r : Rule) (id : String) (order : Nat) (hookCrate : HookCrate) : Prop where
  id_eq : r.id = id
  order_eq : r.order = order
  hookCrate_eq : r.hookCrate = hookCrate
  onEnter : ∀ h ∈ r.onEnter, h.hookCrate = hookCrate.name
  onExit : ∀ h ∈ r.onExit, h.hookCrate = hookCrate.name

/-- What a checked definition has in its rule. -/
structure RuleDefinition.Checked (d : RuleDefinition) (id : String) (order : Nat)
    (hookCrate : HookCrate) (r : Rule) : Prop where
  id_eq : r.id = id
  order_eq : r.order = order
  hookCrate_eq : r.hookCrate = hookCrate
  receiver : readReceiver d.receiver = .ok r.receiver
  params : readShape "params" d.params = .ok r.params
  results : readShape "results" d.results = .ok r.results
  onEnter : readHook hookCrate.name "on_enter" d.onEnter = .ok r.onEnter
  onExit : readHook hookCrate.name "on_exit" d.onExit = .ok r.onExit
  captures : readCaptures [] d.captures = .ok r.captures
  hooked : (r.onEnter.isNone && r.onExit.isNone) = false

theorem RuleDefinition.checked_of_check {d : RuleDefinition} {id source : String} {order : Nat}
    {hookCrate : HookCrate} {r : Rule} (h : d.check id order source hookCrate = .ok r) :
    d.Checked id order hookCrate r := by
  unfold check at h
  extract_lets afterFunction afterPath at h
  split at h
  · cases h
  dsimp -zeta only [afterPath] at h
  split at h
  · cases h
  obtain ⟨receiver, hreceiver, h⟩ := exists_of_bind_eq_ok h
  obtain ⟨params, hparams, h⟩ := exists_of_bind_eq_ok h
  obtain ⟨results, hresults, h⟩ := exists_of_bind_eq_ok h
  obtain ⟨onEnter, henter, h⟩ := exists_of_bind_eq_ok h
  obtain ⟨onExit, hexit, h⟩ := exists_of_bind_eq_ok h
  extract_lets afterVersion afterHooks at h
  split at h
  · cases h
  next hhooked =>
  -- Whatever the versions are, what follows them is the same.
  obtain ⟨version, h⟩ : ∃ version, afterVersion version = .ok r := by
    dsimp -zeta only [afterHooks] at h
    split at h
    · obtain ⟨version, -, h⟩ := exists_of_bind_eq_ok h
      exact ⟨version, h⟩
    · exact ⟨.any, h⟩
  dsimp -zeta only [afterVersion] at h
  extract_lets afterCompiler at h
  obtain ⟨rustc, h⟩ : ∃ rustc, afterCompiler rustc = .ok r := by
    split at h
    · obtain ⟨range, -, h⟩ := exists_of_bind_eq_ok h
      exact ⟨some range, h⟩
    · exact ⟨none, h⟩
  obtain ⟨requires, -, h⟩ := exists_of_bind_eq_ok h
  obtain ⟨captures, hcaptures, h⟩ := exists_of_bind_eq_ok h
  cases h
  exact ⟨rfl, rfl, rfl, hreceiver, hparams, hresults, henter, hexit, hcaptures,
    Bool.not_eq_true _ ▸ hhooked⟩

theorem RuleDefinition.checked_of_toRule {d : RuleDefinition} {source : String} {order : Nat}
    {hookCrate : HookCrate} {r : Rule} (h : d.toRule order source hookCrate = .ok r) :
    d.Checked (Text.trimmed d.id) order hookCrate r := by
  simp only [toRule] at h
  split at h
  · cases h
  · split at h
    · next hcheck =>
      cases h
      exact checked_of_check hcheck
    · cases h

/-- A rule has the id, the number and the hook crate it was given. -/
theorem RuleDefinition.from_of_toRule {d : RuleDefinition} {source : String} {order : Nat}
    {hookCrate : HookCrate} {r : Rule} (h : d.toRule order source hookCrate = .ok r) :
    r.From (Text.trimmed d.id) order hookCrate := by
  have hchecked := checked_of_toRule h
  exact ⟨hchecked.id_eq, hchecked.order_eq, hchecked.hookCrate_eq,
    hookCrate_of_readHook hchecked.onEnter, hookCrate_of_readHook hchecked.onExit⟩

/-- The hook crate of a rule file. -/
def RuleSource.hookCrate (t : FileTree) (s : RuleSource) (f : RuleFile) : HookCrate :=
  ⟨underscored f.hookCrate, Registry.absolute t (s.baseDir / f.hookPath)⟩

namespace Registry

/-- The rules stand in the order of their numbers, and each has an id of its own. -/
structure Distinct (g : Registry) : Prop where
  orders : g.rules.Pairwise fun a b => a.order < b.order
  ids : g.rules.Pairwise fun a b => a.id ≠ b.id

/-- The registries of a run: what is read from rule files, and what is left of that. -/
inductive Loaded : Registry → Prop where
  | load {t : FileTree} {sources : List RuleSource} {g : Registry}
      (h : Registry.load t sources = .ok g) : Loaded g
  | retain {g : Registry} (keep : Rule → Bool) (h : Loaded g) : Loaded (g.retain keep)

/-- Rules that are numbered from zero on. -/
structure Counted (rules : List Rule) : Prop where
  orders : rules.map Rule.order = List.range rules.length
  ids : rules.Pairwise fun a b => a.id ≠ b.id

theorem Counted.push {rules : List Rule} (h : Counted rules) {r : Rule}
    (horder : r.order = rules.length) (hnew : ∀ k ∈ rules, k.id ≠ r.id) :
    Counted (rules ++ [r]) := by
  constructor
  · rw [List.map_append, h.orders, List.length_append, List.length_singleton, List.range_succ]
    simp [horder]
  · rw [List.pairwise_append]
    exact ⟨h.ids, List.pairwise_singleton _ _, by simpa using hnew⟩

theorem Counted.addRules {source : String} {hookCrate : HookCrate} {rules rules' : List Rule}
    {ds : List RuleDefinition} (hrules : Counted rules)
    (h : addRules source hookCrate rules ds = .ok rules') : Counted rules' := by
  induction ds generalizing rules with
  | nil =>
    cases h
    exact hrules
  | cons d rest ih =>
    unfold Registry.addRules at h
    split at h
    · cases h
    · next r hr =>
      split at h
      · cases h
      · next hnone =>
        refine ih (hrules.push ((RuleDefinition.from_of_toRule hr).order_eq) ?_) h
        intro k hk
        simpa using List.find?_eq_none.mp hnone k hk

/-- One rule file more is its hook crate and its rules. -/
theorem addSource_eq_ok {t : FileTree} {l l' : Loading} {s : RuleSource}
    (h : addSource t l s = .ok l') : ∃ f, s.definitions = .ok f ∧
      addHookCrate s.name l.hookCrates (s.hookCrate t f) = .ok l'.hookCrates ∧
      addRules s.name (s.hookCrate t f) l.rules f.rules = .ok l'.rules := by
  obtain ⟨f, hf, h⟩ := exists_of_bind_eq_ok h
  obtain ⟨crates, hcrates, h⟩ := exists_of_bind_eq_ok h
  obtain ⟨rules, hrules, h⟩ := exists_of_bind_eq_ok h
  cases h
  exact ⟨f, hf, hcrates, hrules⟩

/-- A registry has what was read of the rule files, and its hooks were looked up in the hook crates
that rules name. -/
theorem exists_of_load {t : FileTree} {sources : List RuleSource} {g : Registry}
    (hload : load t sources = .ok g) :
    ∃ l exported, sources.foldlM (addSource t) {} = .ok l ∧ g = ofRules l.rules l.hookCrates ∧
      (∀ e ∈ exported, ∃ k ∈ l.hookCrates, k.name = e.1 ∧ exportedFunctions t k = .ok e.2) ∧
      l.rules.forM (checkHooks exported) = .ok () := by
  obtain ⟨l, hl, hload⟩ := exists_of_bind_eq_ok hload
  obtain ⟨exported, hexported, hload⟩ := exists_of_bind_eq_ok hload
  obtain ⟨⟨⟩, hchecked, hload⟩ := exists_of_bind_eq_ok hload
  cases hload
  refine ⟨l, exported, hl, rfl, fun e he => ?_, hchecked⟩
  obtain ⟨k, hk, he⟩ := exists_of_mem_mapM hexported he
  cases hfunctions : exportedFunctions t k with
  | error fault =>
    rw [hfunctions] at he
    cases he
  | ok paths =>
    rw [hfunctions] at he
    cases he
    exact ⟨k, (List.mem_filter.mp hk).1, rfl, hfunctions⟩

theorem counted_of_load {t : FileTree} {sources : List RuleSource} {g : Registry}
    (h : Registry.load t sources = .ok g) : Counted g.rules := by
  obtain ⟨l, exported, hl, rfl, -, -⟩ := exists_of_load h
  refine foldlM_keeps (P := fun l : Loading => Counted l.rules) ?_ ?_ hl
  · intro l s l' hcounted hs
    obtain ⟨f, -, -, hrules⟩ := addSource_eq_ok hs
    exact hcounted.addRules hrules
  · exact ⟨rfl, List.Pairwise.nil⟩

theorem Distinct.retain {g : Registry} (h : g.Distinct) (keep : Rule → Bool) :
    (g.retain keep).Distinct :=
  ⟨h.orders.filter keep, h.ids.filter keep⟩

theorem Loaded.distinct {g : Registry} (h : g.Loaded) : g.Distinct := by
  induction h with
  | load h =>
    have hcounted := counted_of_load h
    refine ⟨?_, hcounted.ids⟩
    rw [← List.pairwise_map (R := (· < ·)), hcounted.orders]
    exact List.pairwise_lt_range
  | retain keep _ ih => exact ih.retain keep

/-- Rules with one id are one rule. -/
theorem Distinct.eq_of_id {g : Registry} (h : g.Distinct) {a b : Rule} (ha : a ∈ g.rules)
    (hb : b ∈ g.rules) (hid : a.id = b.id) : a = b := by
  have hids : (g.rules.map Rule.id).Nodup := List.pairwise_map.mpr h.ids
  exact List.inj_on_of_nodup_map hids ha hb hid

/-- Rules with one number are one rule. -/
theorem Distinct.eq_of_order {g : Registry} (h : g.Distinct) {a b : Rule} (ha : a ∈ g.rules)
    (hb : b ∈ g.rules) (horder : a.order = b.order) : a = b := by
  have horders : (g.rules.map Rule.order).Nodup :=
    List.pairwise_map.mpr (h.orders.imp Nat.ne_of_lt)
  exact List.inj_on_of_nodup_map horders ha hb horder

end Registry

/-- A rule without its place in the order of registration. -/
def Rule.unnumbered (r : Rule) : Rule := { r with order := 0 }

namespace Registry

/-- The rules are the same, however they are ordered and numbered. -/
def SameRules (g g' : Registry) : Prop :=
  (g.rules.map Rule.unnumbered).Perm (g'.rules.map Rule.unnumbered)

instance (g g' : Registry) : Decidable (g.SameRules g') :=
  inferInstanceAs (Decidable (List.Perm _ _))

theorem SameRules.symm {g g' : Registry} (h : g.SameRules g') : g'.SameRules g := List.Perm.symm h

theorem SameRules.exists_rule {g g' : Registry} (h : g.SameRules g') {r : Rule}
    (hr : r ∈ g'.rules) : ∃ k ∈ g.rules, k.unnumbered = r.unnumbered :=
  List.mem_map.mp (h.mem_iff.mpr (List.mem_map_of_mem hr))

end Registry

/-- The head of a rule file, and a rule for the crate `p`. -/
def ruleText (id : String) : String :=
  "[hooks]\ncrate=\"h\"\npath=\"h\"\n[[rule]]\nid=\"" ++ id ++
    "\"\nimport_path=\"p\"\nfunction=\"f\"\non_enter=\"g\"\n"

def plainSource : RuleSource := ⟨"plain", .toml, ruleText "a", ⟨"/"⟩⟩

/-- The hook crate of such rule files. -/
def hookTree : FileTree where
  files := [(["h", "src", "lib.rs"], .text "pub fn g() {}")]

/-- A rule that comes behind others in a rule file. -/
def nextRule (id importPath : String) : String :=
  "[[rule]]\nid=\"" ++ id ++ "\"\nimport_path=\"" ++ importPath ++
    "\"\nfunction=\"f\"\non_enter=\"g\"\n"

/-- Rules for two crates. -/
def librarySource : RuleSource where
  name := "library"
  format := .toml
  text := ruleText "b" ++ nextRule "c" "q" ++ nextRule "d" "p"
  baseDir := ⟨"/"⟩

/-- The libraries `p`, of two files, and `q`, in two versions, and the hook crate. -/
def libraryTree : FileTree where
  files := [(["p.rs"], .text "mod m; fn k(){} fn f(){}"), (["m.rs"], .text "fn f(){}"),
    (["q.rs"], .text "fn f(){}"), (["old", "q.rs"], .text "fn f(){}"),
    (["h", "src", "lib.rs"], .text "pub fn g() {}")]

/-- What is loaded of a rule that tells no more than that. -/
def loadedRule (source id importPath : String) (order : Nat) : Rule where
  id
  order
  source
  importPath
  receiver := .none
  function := "f"
  params := .any
  results := .any
  onEnter := some ⟨"h", "g"⟩
  onExit := none
  version := ⟨.unbounded, .unbounded⟩
  rustc := none
  requires := []
  fusible := false
  captures := []
  hookCrate := ⟨"h", ⟨"/h"⟩⟩

def libraryRules : List Rule :=
  [loadedRule "plain" "a" "p" 0, loadedRule "library" "b" "p" 1, loadedRule "library" "c" "q" 2,
    loadedRule "library" "d" "p" 3]

theorem Registry.load_libraryRules : Registry.load libraryTree [plainSource, librarySource] =
    .ok (.ofRules libraryRules [⟨"h", ⟨"/h"⟩⟩]) := by
  have hload : (Registry.load libraryTree [plainSource, librarySource]).toOption.any (fun x =>
      x.rules == libraryRules && x.hookCrates == [⟨"h", ⟨"/h"⟩⟩]) = true := by
    decide +kernel
  obtain ⟨x, hx, hload⟩ := exists_ok_of_any hload
  rw [Bool.and_eq_true, beq_iff_eq, beq_iff_eq] at hload
  obtain ⟨l, -, -, rfl, -, -⟩ := Registry.exists_of_load hx
  rw [hx, ← hload.1, ← hload.2]
  rfl

end Instrumentation
