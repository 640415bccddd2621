import Instrumentation.Proofs.CallGraph
import Instrumentation.Proofs.ScannedBodies
import Instrumentation.Reachability

/-!
What the call graph sees of the sources. A function is kept alive by its own name and by nothing
else: in the body of a function that can run, in a macro definition, or in the value of a constant
or static that is an item of its own.
-/
namespace Instrumentation
namespace Source

mutual
/-- The code of an item outside of functions that is looked into. -/
def Item.evaluations : Item → List (List Tree)
  | .evaluated trees => [trees]
  | .inline _ _ items => evaluationsIn items
  | .function _ => []
  | .implementation _ _ _ => []
  | .trait _ _ => []
  | .outline _ _ _ => []
  | .other => []

def evaluationsIn : List Item → List (List Tree)
  | [] => []
  | item :: items => item.evaluations ++ evaluationsIn items
end

/-- The items that a text is read as. -/
def itemsOf (text : List Char) : List Item :=
  match File.read (withoutMark (withoutMark text).2).2 with
  | .ok file => file.items
  | .error _ => []

theorem itemsOf_of_read {text : List Char} {file : File}
    (h : File.read (withoutMark (withoutMark text).2).2 = .ok file) : itemsOf text = file.items := by
  simp only [itemsOf, h]

/-- The name of a function as it is declared, and the names that stand in its body. -/
def Function.naming (f : Function) : String × List String :=
  (f.sig.name.text, Text.sortedSet (Tree.namesIn f.body.trees))

def FunctionSummary.naming (f : FunctionSummary) : String × List String := (f.name, f.mentions)

/-- What is found is put together part by part. -/
theorem Found.foldl_append {β : Type} {part : Found → List β}
    (h : ∀ a b : Found, part (a ++ b) = part a ++ part b) (found : List Found) (a : Found) :
    part (found.foldl (· ++ ·) a) = part a ++ found.flatMap part := by
  induction found generalizing a with
  | nil => simp
  | cons f found ih => simp [ih, h]

theorem Found.functions_append (a b : Found) :
    (a ++ b).functions = a.functions ++ b.functions := rfl

theorem Found.itemNames_append (a b : Found) :
    (a ++ b).itemNames = a.itemNames ++ b.itemNames := rfl

section

variable (places : Places)

theorem naming_scanMethods (scope : List String) (receiver : Receiver) (traitName : Option String)
    (methods : List Function) :
    ((methods.map (scanMethod places scope receiver traitName)).flatMap Found.functions).map
      FunctionSummary.naming = methods.map Function.naming := by
  induction methods with
  | nil => rfl
  | cons f methods ih =>
    simp only [List.map_cons, List.flatMap_cons, List.map_append, ih]
    rfl

theorem itemNames_scanMethods (scope : List String) (receiver : Receiver)
    (traitName : Option String) (methods : List Function) :
    (methods.map (scanMethod places scope receiver traitName)).flatMap Found.itemNames = [] := by
  induction methods with
  | nil => rfl
  | cons f methods ih =>
    simp only [List.map_cons, List.flatMap_cons, ih, List.append_nil]
    rfl

mutual
/-- A scan keeps every function of an item, with its name and all that its body mentions. -/
theorem naming_scanItem (scope : List String) (item : Item) :
    (scanItem places scope item).functions.map FunctionSummary.naming =
      item.functions.map Function.naming := by
  cases item with
  | function f => rfl
  | implementation target traitName methods =>
    simp only [scanItem, Found.foldl_append Found.functions_append, List.nil_append, Item.functions]
    exact naming_scanMethods places scope target.receiver traitName methods
  | trait name methods =>
    simp only [scanItem, Item.functions, List.map_map]
    rfl
  | outline attrs isPub name => rfl
  | inline isPub name items => exact naming_scanItems (scope ++ [name]) items
  | evaluated trees => rfl
  | other => rfl

theorem naming_scanItems (scope : List String) (items : List Item) :
    (scanItems places scope items).functions.map FunctionSummary.naming =
      (functionsIn items).map Function.naming := by
  cases items with
  | nil => rfl
  | cons item items =>
    simp only [scanItems, Found.functions_append, List.map_append, functionsIn,
      naming_scanItem scope item, naming_scanItems scope items]
end

mutual
/-- A scan keeps the names of all code that it looks into outside of functions. -/
theorem itemNames_scanItem (scope : List String) (item : Item) :
    (scanItem places scope item).itemNames = item.evaluations.flatMap Tree.namesIn := by
  cases item with
  | function f => rfl
  | implementation target traitName methods =>
    simp only [scanItem, Found.foldl_append Found.itemNames_append, List.nil_append]
    exact itemNames_scanMethods places scope target.receiver traitName methods
  | trait name methods => rfl
  | outline attrs isPub name => rfl
  | inline isPub name items => exact itemNames_scanItems (scope ++ [name]) items
  | evaluated trees => simp [scanItem, Item.evaluations]
  | other => rfl

theorem itemNames_scanItems (scope : List String) (items : List Item) :
    (scanItems places scope items).itemNames = (evaluationsIn items).flatMap Tree.namesIn := by
  cases items with
  | nil => rfl
  | cons item items =>
    simp only [scanItems, Found.itemNames_append, evaluationsIn, List.flatMap_append,
      itemNames_scanItem scope item, itemNames_scanItems scope items]
end

end

/-- What a scan keeps of the names in a text. -/
theorem Scan.naming_of_read {text : List Char} {scan : Scan} (h : Scan.read text = .ok scan) :
    scan.functions.map FunctionSummary.naming = (functionsIn (itemsOf text)).map Function.naming ∧
      ∀ name, name ∈ scan.itemMentions ↔
        ∃ trees ∈ evaluationsIn (itemsOf text), name ∈ Tree.namesIn trees := by
  obtain ⟨file, hfile, rfl⟩ := Scan.read_eq_ok_iff.mp h
  rw [itemsOf_of_read hfile]
  refine ⟨naming_scanItems _ [] file.items, fun name => ?_⟩
  rw [File.scan, Text.mem_sortedSet, itemNames_scanItems, List.mem_flatMap]

end Source

namespace CallGraph

open Source (functionsIn evaluationsIn itemsOf)

/-- The text of a file. -/
def Added.text (f : Added) : List Char := f.2.1.scan.text

/-- The function of a number, as the text of its file declares it. -/
def Declares (files : List Added) (i : Nat) (g : Source.Function) : Prop :=
  ∃ before f after k, files = before ++ f :: after ∧ (functionsIn (itemsOf f.text))[k]? = some g ∧
    i = (before.flatMap nodesOf).length + k

/-- Files whose scans are those of their texts. -/
def AreScanned (files : List Added) : Prop :=
  ∀ f ∈ files, Source.Scan.read f.text = .ok f.2.1.scan

variable {files : List Added}

/-- The node of a function has its name and the names of its body. -/
theorem Declares.exists_node (hread : AreScanned files) {i : Nat} {g : Source.Function}
    (hg : Declares files i g) :
    ∃ n, (addAll {} files).nodes[i]? = some n ∧ n.function.naming = g.naming := by
  obtain ⟨before, f, after, k, rfl, hk, rfl⟩ := hg
  have hnaming := (Source.Scan.naming_of_read (hread f (by simp))).1
  have hfn : (f.2.1.scan.functions.map Source.FunctionSummary.naming)[k]? = some g.naming := by
    rw [hnaming, List.getElem?_map, hk]
    rfl
  rw [List.getElem?_map, Option.map_eq_some_iff] at hfn
  obtain ⟨fn, hfn, heq⟩ := hfn
  have hlt : k < f.2.1.scan.functions.length := (List.getElem?_eq_some_iff.mp hfn).1
  refine ⟨⟨f.1, f.2.1.path, fn⟩, ?_, heq⟩
  rw [nodes_addAll, List.flatMap_append, List.flatMap_cons, List.nil_append,
    List.getElem?_append_right (by omega), Nat.add_sub_cancel_left,
    List.getElem?_append_left (by simpa [nodesOf] using hlt)]
  simp [nodesOf, hfn]

/-- Every node is the node of a function that some text declares. -/
theorem exists_declares (hread : AreScanned files) {i : Nat}
    (hi : i < (addAll {} files).nodes.length) : ∃ g, Declares files i g := by
  simp only [nodes_addAll, List.nil_append] at hi
  induction files generalizing i with
  | nil => simp at hi
  | cons f rest ih =>
    have hnaming := congrArg List.length (Source.Scan.naming_of_read (hread f (by simp))).1
    simp only [List.length_map] at hnaming
    by_cases hlt : i < (nodesOf f).length
    · have hk : i < (functionsIn (itemsOf f.text)).length := by
        simpa [nodesOf, hnaming] using hlt
      exact ⟨_, [], f, rest, i, rfl, List.getElem?_eq_getElem hk, by simp⟩
    · simp only [List.flatMap_cons, List.length_append] at hi
      obtain ⟨g, before, f', after, k, rfl, hk, hi'⟩ :=
        ih (i := i - (nodesOf f).length) (fun f' hf' => hread f' (by simp [hf'])) (by omega)
      refine ⟨g, f :: before, f', after, k, rfl, hk, ?_⟩
      simp only [List.flatMap_cons, List.length_append]
      omega

/-- A name stands in code that is taken to run: in a macro definition, in the value of a constant
or static that is an item, or in the body of a function that runs. -/
def Names (files : List Added) (name : String) : Prop :=
  (∃ f ∈ files, ∃ trees ∈ evaluationsIn (itemsOf f.text), name ∈ Source.Tree.namesIn trees) ∨
  ∃ j g, Declares files j g ∧ (Reachability.callGraph files).reachable[j]? = some true ∧
    name ∈ Source.Tree.namesIn g.body.trees

/-- A function runs if and only if it is an entry point by itself or its own name stands in code
that is taken to run. -/
theorem runs_iff_named (hread : AreScanned files) {i : Nat} {g : Source.Function}
    (hg : Declares files i g) :
    (Reachability.callGraph files).reachable[i]? = some true ↔
      i ∈ (Reachability.callGraph files).direct ∨ Names files g.sig.name.text := by
  obtain ⟨n, hn, hname⟩ := hg.exists_node hread
  simp only [Source.FunctionSummary.naming, Source.Function.naming, Prod.mk.injEq] at hname
  change (addAll {} files).Runs i ↔ i ∈ (addAll {} files).direct ∨ _
  constructor
  · intro hruns
    cases runs_iff.mp hruns with
    | start hstart hlt =>
      rcases List.mem_append.mp hstart with hdirect | hroot
      · exact .inl hdirect
      · obtain ⟨root, hroot, hnamed⟩ := List.mem_flatMap.mp hroot
        obtain rfl := name_of_mem_named hn hnamed
        rcases mem_rootNames_addAll.mp hroot with habsurd | ⟨f, hf, hmention⟩
        · cases habsurd
        · rw [hname.1] at hmention
          obtain ⟨trees, htrees, hmem⟩ :=
            ((Source.Scan.naming_of_read (hread f hf)).2 _).mp hmention
          exact .inr (.inl ⟨f, hf, trees, htrees, hmem⟩)
    | @step j _ hj hnext hlt =>
      obtain ⟨g', hg'⟩ := exists_declares hread hj.lt_size
      obtain ⟨n', hn', hname'⟩ := hg'.exists_node hread
      simp only [Source.FunctionSummary.naming, Source.Function.naming, Prod.mk.injEq] at hname'
      have hcallees : (addAll {} files).callees j = (addAll {} files).calleesOf n'.function := by
        simp [callees, hn']
      rw [hcallees, calleesOf, List.mem_flatMap] at hnext
      obtain ⟨mention, hmention, hnamed⟩ := hnext
      obtain rfl := name_of_mem_named hn hnamed
      rw [hname.1, hname'.2, Text.mem_sortedSet] at hmention
      exact .inr (.inr ⟨j, g', hg', runs_iff.mpr hj, hmention⟩)
  · rintro (hdirect | ⟨f, hf, trees, htrees, hmem⟩ | ⟨j, g', hg', hruns, hmem⟩)
    · exact runs_of_direct hn hdirect
    · refine runs_of_rootName hn (mem_rootNames_addAll.mpr (.inr ⟨f, hf, ?_⟩))
      rw [hname.1]
      exact ((Source.Scan.naming_of_read (hread f hf)).2 _).mpr ⟨trees, htrees, hmem⟩
    · obtain ⟨n', hn', hname'⟩ := hg'.exists_node hread
      simp only [Source.FunctionSummary.naming, Source.Function.naming, Prod.mk.injEq] at hname'
      refine Runs.mention (show (addAll {} files).Runs j from hruns) hn' hn ?_
      rw [hname.1, hname'.2, Text.mem_sortedSet]
      exact hmem

/-- A binary that is one file. -/
def binary (scan : Source.Scan) : List Added := [(0, ⟨⟨"main.rs"⟩, scan⟩, .binaryRoot)]

/-- Which functions of a binary run, in the order of its text. -/
def running? (text : List Char) : Option (List Bool) :=
  match Source.Scan.read text with
  | .ok scan => some (Reachability.callGraph (binary scan)).reachable
  | .error _ => none

/-- A call of the second function by the first. -/
def mainRuns : List Char := "fn main() { run() }\nfn run() {}".toList

theorem mainRuns_named :
    ∃ scan g, Source.Scan.read mainRuns = .ok scan ∧ Declares (binary scan) 1 g ∧
      (1 ∈ (Reachability.callGraph (binary scan)).direct ∨ Names (binary scan) g.sig.name.text) := by
  have hruns : running? mainRuns = some [true, true] := by decide +kernel
  have htwo : (functionsIn (itemsOf mainRuns)).length = 2 := by decide +kernel
  cases hread : Source.Scan.read mainRuns with
  | error e => simp [running?, hread] at hruns
  | ok scan =>
    have htext : scan.text = mainRuns := Source.Scan.text_of_read hread
    have hscanned : AreScanned (binary scan) := by
      intro f hf
      obtain rfl := List.mem_singleton.mp hf
      simpa [Added.text, htext] using hread
    have hg : Declares (binary scan) 1 ((functionsIn (itemsOf mainRuns)).get ⟨1, by omega⟩) :=
      ⟨[], _, [], 1, rfl, by simp [Added.text, htext], rfl⟩
    have hsecond : (Reachability.callGraph (binary scan)).reachable[1]? = some true := by
      simp only [running?, hread, Option.some.injEq] at hruns
      rw [hruns]
      rfl
    exact ⟨scan, _, rfl, hg, (runs_iff_named hscanned hg).mp hsecond⟩

/-- What is called under another name, by the value of a constant in an implementation, or by what
a macro expands to, is not seen to run. -/
theorem hidden_calls_unseen :
    running? "mod a { pub fn g() {} }\nuse a::g as h;\nfn main() { h() }\n".toList =
      some [false, true] ∧
    running? "impl S { const C: u8 = g(); }\nconst fn g() -> u8 { 1 }\nfn main() {}\n".toList =
      some [false, true] ∧
    running? "thread_local! { static T: u8 = g(); }\nfn g() -> u8 { 1 }\nfn main() {}\n".toList =
      some [false, true] := by
  refine ⟨?_, ?_, ?_⟩ <;> decide +kernel

end CallGraph
end Instrumentation
