import Instrumentation.Proofs.Mounts
import Instrumentation.Proofs.Visibility

/-!
Raw names in the call graph. A body mentions identifiers without `r#`, and a function has the name
that its declaration writes, so the two meet unless the declaration writes `r#`: what a running
function mentions runs, if it is not declared by a raw name (`runs_of_mentioned`).
-/
namespace Instrumentation
namespace CallGraph

open ModuleFile (bare)
open Source (functionsIn itemsOf)

variable {files : List Added} {i j : Nat} {f g : Source.Function}

/-- An edge leads from a body to the functions whose written names stand in it without `r#`. -/
theorem mem_callees_iff_mentioned (hread : AreScanned files) (hf : Declares files j f)
    (hg : Declares files i g) : i ∈ (Reachability.callGraph files).callees j ↔
      g.sig.name.text ∈ Source.Tree.namesIn f.body.trees := by
  obtain ⟨n, hn, hnaming⟩ := hg.exists_node hread
  obtain ⟨m, hm, hnaming'⟩ := hf.exists_node hread
  simp only [Source.FunctionSummary.naming, Source.Function.naming, Prod.mk.injEq] at hnaming hnaming'
  change i ∈ (addAll {} files).callees j ↔ _
  rw [mem_callees_iff hn hm, hnaming.1, hnaming'.2, Text.mem_sortedSet]

/-- A running function calls all functions that its body mentions, and they run, except for those
that are declared by a raw name. -/
theorem runs_of_mentioned (hread : AreScanned files) (hf : Declares files j f)
    (hg : Declares files i g) (hplain : bare g.sig.name.text = g.sig.name.text)
    (hmention : bare g.sig.name.text ∈ Source.Tree.namesIn f.body.trees) :
    i ∈ (Reachability.callGraph files).callees j ∧
      ((Reachability.callGraph files).reachable[j]? = some true →
        (Reachability.callGraph files).reachable[i]? = some true) := by
  rw [hplain] at hmention
  have hedge := (mem_callees_iff_mentioned hread hf hg).mpr hmention
  refine ⟨hedge, fun hruns => ?_⟩
  obtain ⟨n, hn, -⟩ := hg.exists_node hread
  have hruns : (addAll {} files).Runs j := hruns
  exact runs_iff.mpr ((runs_iff.mp hruns).step hedge (lt_length hn))

/-- A call of a function by a raw name that its declaration writes without `r#`. -/
def rawCall : List Char := "fn helper() \x7b\x7d\nfn main() \x7b r#helper() \x7d".toList

theorem rawCall_runs : ∃ scan f g, Source.Scan.read rawCall = .ok scan ∧
    Declares (binary scan) 1 f ∧ Declares (binary scan) 0 g ∧
    bare g.sig.name.text = g.sig.name.text ∧
    bare g.sig.name.text ∈ Source.Tree.namesIn f.body.trees ∧
    0 ∈ (Reachability.callGraph (binary scan)).callees 1 ∧
    (Reachability.callGraph (binary scan)).reachable[0]? = some true := by
  have hruns : running? rawCall = some [true, true] := by decide +kernel
  have hnaming : (functionsIn (itemsOf rawCall)).map Source.Function.naming =
      [("helper", []), ("main", ["helper"])] := by decide +kernel
  cases hread : Source.Scan.read rawCall with
  | error e => simp [running?, hread] at hruns
  | ok scan =>
    have htext : scan.text = rawCall := Source.Scan.text_of_read hread
    have hscanned : AreScanned (binary scan) := by
      intro f hf
      obtain rfl := List.mem_singleton.mp hf
      simpa [Added.text, htext] using hread
    obtain ⟨g, f, hfunctions⟩ : ∃ g f, functionsIn (itemsOf rawCall) = [g, f] :=
      List.length_eq_two.mp (by simpa using congrArg List.length hnaming)
    simp only [hfunctions, List.map_cons, List.map_nil, List.cons.injEq, Source.Function.naming,
      Prod.mk.injEq] at hnaming
    obtain ⟨⟨hname, -⟩, ⟨-, hnames⟩, -⟩ := hnaming
    have declares (i : Nat) (h : Source.Function) (hi : [g, f][i]? = some h) :
        Declares (binary scan) i h :=
      ⟨[], _, [], i, rfl, by simpa [Added.text, htext, hfunctions] using hi, by simp⟩
    have hplain : bare g.sig.name.text = g.sig.name.text := by
      rw [hname]
      rfl
    have hmention : bare g.sig.name.text ∈ Source.Tree.namesIn f.body.trees := by
      rw [hplain, hname, ← Text.mem_sortedSet, hnames]
      simp
    have hfirst : (Reachability.callGraph (binary scan)).reachable[1]? = some true := by
      simp only [running?, hread, Option.some.injEq] at hruns
      rw [hruns]
      rfl
    obtain ⟨hedge, hreach⟩ := runs_of_mentioned hscanned (declares 1 f rfl) (declares 0 g rfl)
      hplain hmention
    exact ⟨scan, f, g, rfl, declares 1 f rfl, declares 0 g rfl, hplain, hmention, hedge,
      hreach hfirst⟩

/-- A function that is declared by a raw name is not seen to be called, though a function that runs
mentions it by just that name. -/
theorem rawName_unseen :
    (functionsIn (itemsOf "fn r#try() \x7b\x7d\nfn main() \x7b r#try() \x7d\n".toList)).map
      Source.Function.naming = [("r#try", []), ("main", ["try"])] ∧
    running? "fn r#try() \x7b\x7d\nfn main() \x7b r#try() \x7d\n".toList = some [false, true] := by
  constructor <;> decide +kernel

end CallGraph
end Instrumentation
