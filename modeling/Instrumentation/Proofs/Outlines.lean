import Instrumentation.Proofs.Visibility

/-!
Declarations of modules that live in other files: each has a name, and a scan keeps all of them,
with the modules inside the file that they stand in. It does not keep whether these are public.
-/
namespace Instrumentation.Source

/-- A module that is declared in a file, and whether all modules inside the file that it stands in
are public. -/
structure Outline where
  module : OutlineModule
  isOpen : Bool
  deriving DecidableEq, Repr

mutual
/-- The modules in other files that an item declares, inside the modules `scope`. -/
def Item.outlines (scope : List String) (isOpen : Bool) : Item → List Outline
  | .outline attrs isPub name =>
    [⟨⟨scope, name, pathAttribute? attrs, isPub, hasAttribute attrs "cfg"⟩, isOpen⟩]
  | .inline isPub name items => outlinesIn (scope ++ [name]) (isOpen && isPub) items
  | .function _ => []
  | .implementation _ _ _ => []
  | .trait _ _ => []
  | .evaluated _ => []
  | .other => []

def outlinesIn (scope : List String) (isOpen : Bool) : List Item → List Outline
  | [] => []
  | item :: items => item.outlines scope isOpen ++ outlinesIn scope isOpen items
end

/-- The modules in other files that a text declares. -/
def outlinesOf (text : List Char) : List Outline := outlinesIn [] true (itemsOf text)

theorem Found.modules_append (a b : Found) : (a ++ b).modules = a.modules ++ b.modules := rfl

section

variable (places : Places)

theorem modules_scanMethods (scope : List String) (receiver : Receiver) (traitName : Option String)
    (methods : List Function) :
    (methods.map (scanMethod places scope receiver traitName)).flatMap Found.modules = [] := by
  induction methods with
  | nil => rfl
  | cons f methods ih =>
    simp only [List.map_cons, List.flatMap_cons, ih, List.append_nil]
    rfl

mutual
/-- A scan keeps each declaration of a module, but not whether it can be seen from outside. -/
theorem modules_scanItem (scope : List String) (isOpen : Bool) (item : Item) :
    (scanItem places scope item).modules = (item.outlines scope isOpen).map Outline.module := by
  cases item with
  | function f => rfl
  | implementation target traitName methods =>
    simp only [scanItem, Found.foldl_append Found.modules_append, List.nil_append]
    exact modules_scanMethods places scope target.receiver traitName methods
  | trait name methods => rfl
  | outline attrs isPub name => rfl
  | inline isPub name items => exact modules_scanItems (scope ++ [name]) (isOpen && isPub) items
  | evaluated trees => rfl
  | other => rfl

theorem modules_scanItems (scope : List String) (isOpen : Bool) (items : List Item) :
    (scanItems places scope items).modules =
      (outlinesIn scope isOpen items).map Outline.module := by
  cases items with
  | nil => rfl
  | cons item items =>
    simp only [scanItems, Found.modules_append, outlinesIn, List.map_append,
      modules_scanItem scope isOpen item, modules_scanItems scope isOpen items]
end

end

/-- The modules of a scan are those that its text declares. -/
theorem Scan.modules_of_read {text : List Char} {scan : Scan} (h : Scan.read text = .ok scan) :
    scan.modules = (outlinesOf scan.text).map Outline.module := by
  obtain ⟨file, hfile, rfl⟩ := Scan.read_eq_ok_iff.mp h
  rw [File.scan, outlinesOf, itemsOf_of_read hfile]
  exact modules_scanItems _ [] true file.items

section

variable {text : List Char} {o : Outline}

mutual
theorem Item.Stands.name_ne {lo hi : Nat} {item : Item} (h : item.Stands text lo hi)
    {scope : List String} {isOpen : Bool} (ho : o ∈ item.outlines scope isOpen) :
    o.module.name ≠ "" := by
  cases item with
  | function f => cases ho
  | implementation target traitName methods => cases ho
  | trait name methods => cases ho
  | outline attrs isPub name =>
    obtain rfl := List.mem_singleton.mp ho
    exact h.2
  | inline isPub name items => exact StandIn.name_ne h ho
  | evaluated trees => cases ho
  | other => cases ho

theorem StandIn.name_ne {lo hi : Nat} {items : List Item} (h : StandIn text lo items hi)
    {scope : List String} {isOpen : Bool} (ho : o ∈ outlinesIn scope isOpen items) :
    o.module.name ≠ "" := by
  cases items with
  | nil => cases ho
  | cons item items =>
    obtain ⟨mid, -, hitem, hitems⟩ := h
    rcases List.mem_append.mp ho with ho | ho
    · exact hitem.name_ne ho
    · exact hitems.name_ne ho
end

end

/-- Modules in other files have names. -/
theorem name_ne_of_mem_outlinesOf {text : List Char} :
    ∀ o ∈ outlinesOf text, o.module.name ≠ "" := by
  intro o ho
  unfold outlinesOf itemsOf at ho
  split at ho
  · next file hfile =>
    obtain ⟨_, -, -, hstand⟩ := File.stands_of_read hfile
    exact hstand.name_ne ho
  · cases ho

end Instrumentation.Source
