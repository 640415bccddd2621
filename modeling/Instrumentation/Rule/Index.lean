/-!
Positions of rules by a text of theirs, such as the module that they aim at. The positions under one
text stand in the order in which they were added.
-/
namespace Instrumentation

structure RuleIndex where
  entries : List (String × List Nat) := []

namespace RuleIndex

/-- One position more under a text. -/
def addTo (key : String) (i : Nat) : List (String × List Nat) → List (String × List Nat)
  | [] => [(key, [i])]
  | (k, is) :: rest => if k = key then (k, is ++ [i]) :: rest else (k, is) :: addTo key i rest

def add (x : RuleIndex) (key : String) (i : Nat) : RuleIndex := ⟨addTo key i x.entries⟩

/-- The positions under a text, in the entries of an index. -/
def getFrom (key : String) : List (String × List Nat) → List Nat
  | [] => []
  | (k, is) :: rest => if k = key then is else getFrom key rest

def get (x : RuleIndex) (key : String) : List Nat := getFrom key x.entries

/-- The index of texts by where they stand. -/
def of (keys : List String) : RuleIndex :=
  keys.zipIdx.foldl (fun x (key, i) => x.add key i) {}

theorem get_add (x : RuleIndex) (k : String) (i : Nat) (key : String) :
    (x.add k i).get key = if k = key then x.get key ++ [i] else x.get key := by
  obtain ⟨entries⟩ := x
  simp only [add, get]
  induction entries with
  | nil =>
    by_cases h : k = key <;> simp [addTo, getFrom, h]
  | cons e rest ih =>
    obtain ⟨l, is⟩ := e
    by_cases hk : l = k
    · by_cases h : k = key <;> simp [addTo, getFrom, hk, h]
    · by_cases h : l = key
      · have hne : k ≠ key := fun he => hk (h.trans he.symm)
        simp [addTo, getFrom, h, hne, hne.symm]
      · simp [addTo, getFrom, hk, h, ih]

/-- Under a text are the positions that it was added with, behind those that were there. -/
theorem get_foldl_add (key : String) (pairs : List (String × Nat)) (x : RuleIndex) :
    (pairs.foldl (fun x (k, i) => x.add k i) x).get key =
      x.get key ++ (pairs.filter fun p => p.1 == key).map Prod.snd := by
  induction pairs generalizing x with
  | nil => simp
  | cons p pairs ih =>
    obtain ⟨k, i⟩ := p
    rw [List.foldl_cons, ih, get_add]
    by_cases h : k = key <;> simp [h]

theorem get_of (keys : List String) (key : String) :
    (of keys).get key = (keys.zipIdx.filter fun p => p.1 == key).map Prod.snd := by
  rw [of, get_foldl_add]
  rfl

end RuleIndex
end Instrumentation
