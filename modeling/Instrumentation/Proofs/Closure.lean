import Instrumentation.Closure

/-!
A search finds exactly the closure of its start: a node is flagged if and only if some path of
nodes below the bound leads to it.
-/
namespace Instrumentation

/-- The nodes below `size` that a path of such nodes joins to a start node. -/
inductive Reached (size : Nat) (next : Nat → List Nat) (start : List Nat) : Nat → Prop where
  | start {i : Nat} (h : i ∈ start) (hi : i < size) : Reached size next start i
  | step {i j : Nat} (h : Reached size next start i) (hj : j ∈ next i) (hs : j < size) :
      Reached size next start j

variable {next : Nat → List Nat} {steps : Nat} {unseen pending : List Nat}

theorem Reached.lt_size {size : Nat} {start : List Nat} {i : Nat} (h : Reached size next start i) :
    i < size := by
  cases h with
  | start _ hi => exact hi
  | step _ _ hs => exact hs

/-- What a step passes over has been seen, and what it stops at has not. -/
theorem pending_cases (unseen pending : List Nat) :
    (pending.dropWhile (fun i => !unseen.contains i) = [] ∧ ∀ i ∈ pending, i ∉ unseen) ∨
    ∃ seen k rest, pending.dropWhile (fun i => !unseen.contains i) = k :: rest ∧ k ∈ unseen ∧
      pending = seen ++ k :: rest ∧ ∀ i ∈ seen, i ∉ unseen := by
  induction pending with
  | nil => exact .inl ⟨rfl, by simp⟩
  | cons a pending ih =>
    by_cases ha : a ∈ unseen
    · exact .inr ⟨[], a, pending, by simp [ha], ha, rfl, by simp⟩
    · rcases ih with ⟨he, hall⟩ | ⟨seen, k, rest, he, hk, rfl, hall⟩
      · exact .inl ⟨by simpa [ha] using he, by simpa [ha] using hall⟩
      · exact .inr ⟨a :: seen, k, rest, by simpa [ha] using he, hk, rfl, by simpa [ha] using hall⟩

theorem mem_searchSteps_of_pending {i : Nat} (hs : unseen.length ≤ steps) (hi : i ∈ pending)
    (hu : i ∈ unseen) : i ∈ searchSteps next steps unseen pending := by
  induction steps generalizing unseen pending with
  | zero => simp [List.eq_nil_of_length_eq_zero (Nat.le_zero.mp hs)] at hu
  | succ steps ih =>
    rcases pending_cases unseen pending with ⟨_, hall⟩ | ⟨seen, k, rest, he, hk, rfl, hall⟩
    · exact absurd hu (hall i hi)
    · simp only [searchSteps, he]
      by_cases hik : i = k
      · simp [hik]
      · have hrest : i ∈ rest := by
          rcases List.mem_append.mp hi with hi | hi
          · exact absurd hu (hall i hi)
          · simpa [hik] using hi
        have hlen : (unseen.erase k).length ≤ steps := by
          rw [List.length_erase_of_mem hk]
          omega
        exact List.mem_cons_of_mem _ (ih hlen (List.mem_append_right _ hrest)
          ((List.mem_erase_of_ne hik).mpr hu))

/-- What is found is closed under `next`. -/
theorem mem_searchSteps_of_next {i j : Nat} (hs : unseen.length ≤ steps)
    (hi : i ∈ searchSteps next steps unseen pending) (hj : j ∈ next i) (hu : j ∈ unseen) :
    j ∈ searchSteps next steps unseen pending := by
  induction steps generalizing unseen pending with
  | zero => simp [searchSteps] at hi
  | succ steps ih =>
    rcases pending_cases unseen pending with ⟨he, _⟩ | ⟨seen, k, rest, he, hk, rfl, _⟩
    · simp only [searchSteps, he, List.not_mem_nil] at hi
    · simp only [searchSteps, he] at hi ⊢
      have hlen : (unseen.erase k).length ≤ steps := by
        rw [List.length_erase_of_mem hk]
        omega
      by_cases hjk : j = k
      · simp [hjk]
      · have hu' : j ∈ unseen.erase k := (List.mem_erase_of_ne hjk).mpr hu
        refine List.mem_cons_of_mem _ ?_
        rcases List.mem_cons.mp hi with rfl | hi
        · exact mem_searchSteps_of_pending hlen (List.mem_append_left _ hj) hu'
        · exact ih hlen hi hu'

theorem reached_of_mem_searchSteps {size : Nat} {start : List Nat} (hu : ∀ i ∈ unseen, i < size)
    (hp : ∀ i ∈ pending, i < size → Reached size next start i) :
    ∀ i ∈ searchSteps next steps unseen pending, Reached size next start i := by
  induction steps generalizing unseen pending with
  | zero => simp [searchSteps]
  | succ steps ih =>
    rcases pending_cases unseen pending with ⟨he, _⟩ | ⟨seen, k, rest, he, hk, rfl, _⟩
    · simp only [searchSteps, he, List.not_mem_nil, false_implies, implies_true]
    · have hreached : Reached size next start k := hp k (by simp) (hu k hk)
      intro i hi
      simp only [searchSteps, he] at hi
      rcases List.mem_cons.mp hi with rfl | hi
      · exact hreached
      · refine ih (fun j hj => hu j (List.mem_of_mem_erase hj)) ?_ i hi
        intro j hj hs
        rcases List.mem_append.mp hj with hj | hj
        · exact hreached.step hj hs
        · exact hp j (by simp [hj]) hs

theorem mem_search_range_iff {size : Nat} {start : List Nat} {i : Nat} :
    i ∈ search next (List.range size) start ↔ Reached size next start i := by
  constructor
  · exact reached_of_mem_searchSteps (by simp) (fun j hj hs => .start hj hs) i
  · intro h
    induction h with
    | start h hi => exact mem_searchSteps_of_pending (Nat.le_refl _) h (by simpa using hi)
    | step _ hj hs ih => exact mem_searchSteps_of_next (Nat.le_refl _) ih hj (by simpa using hs)

theorem reachableFlags_eq_true_iff {size : Nat} {start : List Nat} {i : Nat} :
    (reachableFlags size next start)[i]? = some true ↔ Reached size next start i := by
  by_cases hi : i < size
  · simp [reachableFlags, hi, mem_search_range_iff]
  · simp [reachableFlags, hi, mt Reached.lt_size hi]

end Instrumentation
