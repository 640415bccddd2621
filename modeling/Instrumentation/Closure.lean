/-!
What can be reached in a finite graph. Nodes are numbers below a bound, and a search takes each of
them away once.
-/
namespace Instrumentation

/-- The nodes among `unseen` that are found from `pending`, in the order they are found; each step
finds one. -/
def searchSteps (next : Nat → List Nat) : (steps : Nat) → (unseen pending : List Nat) → List Nat
  | 0, _, _ => []
  | steps + 1, unseen, pending =>
    match pending.dropWhile fun i => !unseen.contains i with
    | [] => []
    | i :: rest => i :: searchSteps next steps (unseen.erase i) (next i ++ rest)

/-- The nodes among `unseen` that are found from `pending`, in the order they are found. -/
def search (next : Nat → List Nat) (unseen pending : List Nat) : List Nat :=
  searchSteps next unseen.length unseen pending

/-- For each node below `size`, whether it is found from `start`. -/
def reachableFlags (size : Nat) (next : Nat → List Nat) (start : List Nat) : List Bool :=
  let found := search next (List.range size) start
  (List.range size).map found.contains

end Instrumentation
