import Instrumentation.Optimization
import Mathlib.Data.List.Forall2

/-!
Optimizing again. Each pass looks at the rules of the stages, at the declaration and at what is
pruned already, and at nothing else that an earlier one has left: not at the toggles and not at the
groups. So two optimizations come to one (`file_file`), and the same one twice to itself.
-/
namespace Instrumentation

/-- Whether a rule is named does not depend on which of two lists names it. -/
theorem namesRule_append (xs ys : List String) (rule : String) :
    namesRule (xs ++ ys) rule = (namesRule xs rule || namesRule ys rule) := by
  simp only [namesRule, List.contains_eq_mem, List.mem_append, Bool.decide_or]
  grind

namespace Optimization

/-- One optimization for two. What either of them disables is off, the second one settles what can
be switched off later, and a declaration may run if it may for both. -/
def andThen (a b : Optimization) : Optimization where
  disabled := a.disabled ++ b.disabled
  runtimeToggle := b.runtimeToggle
  isLive package path place := a.isLive package path place && b.isLive package path place

/-- The stages that stay are told by their rules. -/
theorem map_rule_stages (o : Optimization) (ss : List Stage) :
    (o.stages ss).map Stage.rule =
      (ss.map Stage.rule).filter fun r => !namesRule o.disabled r.id := by
  simp [stages, List.filter_map, Function.comp_def]

/-- The second pass finds the rules that the first one has left, and toggles them anew. -/
theorem stages_stages (a b : Optimization) (ss : List Stage) :
    b.stages (a.stages ss) = (a.andThen b).stages ss := by
  simp only [stages, andThen, List.filter_map, List.map_map, List.filter_filter, namesRule_append]
  have hkeep : (fun s : Stage => (!namesRule b.disabled s.rule.id) &&
      !namesRule a.disabled s.rule.id) =
      fun s => !(namesRule a.disabled s.rule.id || namesRule b.disabled s.rule.id) := by
    funext s
    rw [Bool.not_or, Bool.and_comm]
  exact congrArg (fun keep => (ss.filter keep).map _) hkeep

/-- The second pass does not see the groups of the first one. -/
theorem decl_decl (a b : Optimization) (f : InstrumentedFile) (d : InstrumentedDecl) :
    b.decl (a.file f) (a.decl f d) = (a.andThen b).decl f d := by
  have hlive : (d.pruned || !a.isLive f.package f.path d.decl.bodyOpen ||
      !b.isLive f.package f.path d.decl.bodyOpen) =
      (d.pruned || !(a.isLive f.package f.path d.decl.bodyOpen &&
        b.isLive f.package f.path d.decl.bodyOpen)) := by
    rw [Bool.or_assoc, ← Bool.not_and]
  unfold decl
  simp only [stages_stages]
  exact congrArg _ hlive

/-- Files are optimized in the same way if stages and liveness are. -/
theorem file_congr {a b : Optimization} {f : InstrumentedFile}
    (hstages : ∀ ss, a.stages ss = b.stages ss)
    (hlive : ∀ place, a.isLive f.package f.path place = b.isLive f.package f.path place) :
    a.file f = b.file f := by
  have hdecl : a.decl f = b.decl f := by
    funext d
    simp only [decl, hstages, hlive]
  simp only [file, hdecl]

/-- An optimization after itself is itself. -/
theorem stages_andThen_self (o : Optimization) (ss : List Stage) :
    (o.andThen o).stages ss = o.stages ss := by
  simp [stages, andThen, namesRule_append]

/-- What an optimization makes of a file: each declaration keeps its place and the rules of some of
its stages, in their order. -/
theorem decls_file (o : Optimization) (f : InstrumentedFile) :
    List.Forall₂ (fun d d' => d'.importPath = d.importPath ∧ d'.decl = d.decl ∧
      (d'.stages.map Stage.rule).Sublist (d.stages.map Stage.rule)) f.decls (o.file f).decls := by
  simp only [file, List.forall₂_map_right_iff, List.forall₂_same]
  intro d _
  refine ⟨rfl, rfl, ?_⟩
  simp only [decl, map_rule_stages]
  exact List.filter_sublist

/-- Optimizing a file twice is optimizing it once, by both optimizations together: the result has
the same stages, toggles, groups and prunings, and so the same text and the same way back from it.
The same optimization twice changes nothing more, and stages only ever go. -/
theorem file_file (a b : Optimization) (f : InstrumentedFile) :
    b.file (a.file f) = (a.andThen b).file f ∧
    (b.file (a.file f)).text = ((a.andThen b).file f).text ∧
    (b.file (a.file f)).rendering = ((a.andThen b).file f).rendering ∧
    a.file (a.file f) = a.file f ∧
    List.Forall₂ (fun d d' => d'.importPath = d.importPath ∧ d'.decl = d.decl ∧
      (d'.stages.map Stage.rule).Sublist (d.stages.map Stage.rule)) f.decls (a.file f).decls := by
  have hboth (a b : Optimization) : b.file (a.file f) = (a.andThen b).file f := by
    have hdecls : (f.decls.map (a.decl f)).map (b.decl (a.file f)) =
        f.decls.map ((a.andThen b).decl f) := by
      rw [List.map_map]
      exact List.map_congr_left fun d _ => decl_decl a b f d
    exact congrArg (fun decls => { f with decls }) hdecls
  have hself : a.file (a.file f) = a.file f := by
    rw [hboth a a]
    apply file_congr (stages_andThen_self a)
    intro place
    exact Bool.and_self _
  exact ⟨hboth a b, by rw [hboth a b], by rw [hboth a b], hself, decls_file a f⟩

end Optimization
end Instrumentation
