/-!
Binary search. A list that is sorted by a comparison with what is searched for is halved until one
member is left: the last that is not greater, or the first if all are.
-/
namespace Instrumentation.BinarySearch

/-- What a search among `n` members gives. -/
inductive Outcome (n : Nat) where
  /-- A member that compares equal. -/
  | found (i : Fin n)
  /-- The number of members behind which one that compares equal could be put in. -/
  | missing (i : Fin (n + 1))
  deriving DecidableEq, Repr

namespace Outcome

variable {n : Nat}

/-- The outcome of coming down to one member, by how that compares. -/
def beside (i : Fin n) : Ordering → Outcome n
  | .lt => missing i.succ
  | .eq => found i
  | .gt => missing i.castSucc

/-- The last member that is not greater: the one that is found, or the one before the gap. -/
def floor? : Outcome n → Option (Fin n)
  | found i => some i
  | missing ⟨0, _⟩ => none
  | missing ⟨i + 1, h⟩ => some ⟨i, Nat.lt_of_succ_lt_succ h⟩

theorem floor?_beside {o : Ordering} (h : o ≠ .gt) (i : Fin n) : (beside i o).floor? = some i := by
  cases o with
  | lt => rfl
  | eq => rfl
  | gt => exact absurd rfl h

theorem floor?_beside_gt {i : Fin n} (h : i.val = 0) : (beside i .gt).floor? = none := by
  obtain ⟨i, hi⟩ := i
  cases h
  rfl

end Outcome

variable {α : Type} (cmp : α → Ordering)

/-- The member that is left of the `size` members from `base` on. -/
def narrow (xs : List α) (base size : Nat) (h : 0 < size ∧ base + size ≤ xs.length) :
    Fin xs.length :=
  if hone : size = 1 then ⟨base, by omega⟩
  else if cmp xs[base + size / 2] = .gt then narrow xs base (size - size / 2) (by omega)
  else narrow xs (base + size / 2) (size - size / 2) (by omega)
termination_by size

def search (xs : List α) : Outcome xs.length :=
  if h : 0 < xs.length then
    let i := narrow cmp xs 0 xs.length ⟨h, by omega⟩
    .beside i (cmp (xs.get i))
  else .missing 0

/-- The last member that is not greater than what is searched for. -/
def floor? (xs : List α) : Option α := (search cmp xs).floor?.map xs.get

/-- Once a member is greater, all that follow are. -/
abbrev Sorted (xs : List α) : Prop := xs.Pairwise fun a b => cmp a = .gt → cmp b = .gt

variable {cmp} {xs : List α}

theorem countP_eq_zero_of_gt {x : α} (hs : Sorted cmp (x :: xs)) (hx : cmp x = .gt) :
    xs.countP (cmp · != .gt) = 0 := by
  rw [List.countP_eq_zero]
  intro y hy
  simp [(List.pairwise_cons.mp hs).1 y hy hx]

/-- In a sorted list, the greater members come behind all others. -/
theorem gt_iff_countP_le (hs : Sorted cmp xs) {j : Nat} (hj : j < xs.length) :
    cmp xs[j] = .gt ↔ xs.countP (cmp · != .gt) ≤ j := by
  induction xs generalizing j with
  | nil => simp at hj
  | cons x xs ih =>
    by_cases hgt : cmp x = .gt
    · have hnone := countP_eq_zero_of_gt hs hgt
      cases j with
      | zero => simp [hgt, hnone]
      | succ j =>
        have hall := (List.pairwise_cons.mp hs).1 _ (List.getElem_mem (Nat.lt_of_succ_lt_succ hj)) hgt
        simp [hgt, hnone, hall]
    · cases j with
      | zero => simp [hgt]
      | succ j => simp [hgt, ih hs.of_cons]

/-- If exactly the members from `k` on are greater, the one before them is left. -/
theorem narrow_eq {k base size : Nat} (hk : ∀ j (hj : j < xs.length), cmp xs[j] = .gt ↔ k ≤ j)
    (h : 0 < size ∧ base + size ≤ xs.length) (hbase : base = 0 ∨ base < k)
    (hsize : k ≤ base + size) : (narrow cmp xs base size h).val = k - 1 := by
  fun_induction narrow cmp xs base size h with
  | case1 base h =>
    change base = k - 1
    omega
  | case2 base size h hone hgt ih =>
    have hle := (hk _ _).mp hgt
    exact ih hbase (by omega)
  | case3 base size h hone hgt ih =>
    have hlt := mt (hk _ _).mpr hgt
    exact ih (.inr (by omega)) (by omega)

/-- A search comes down to the last of the members that are not greater. -/
theorem floor?_search (hs : Sorted cmp xs) : (search cmp xs).floor?.map Fin.val =
    if xs.countP (cmp · != .gt) = 0 then none else some (xs.countP (cmp · != .gt) - 1) := by
  have hk := fun j hj => gt_iff_countP_le (j := j) hs hj
  have hcount := xs.countP_le_length (p := (cmp · != .gt))
  generalize xs.countP (cmp · != .gt) = k at hk hcount
  unfold search
  split
  · next hpos =>
    have hi := narrow_eq hk ⟨hpos, by omega⟩ (.inl rfl) (by omega)
    dsimp only
    generalize narrow cmp xs 0 xs.length ⟨hpos, by omega⟩ = i at hi
    have hgt : cmp (xs.get i) = .gt ↔ k ≤ i.val := hk i.val i.isLt
    by_cases hzero : k = 0
    · rw [if_pos hzero, hgt.mpr (by omega), Outcome.floor?_beside_gt (by omega), Option.map_none]
    · rw [if_neg hzero, Outcome.floor?_beside (mt hgt.mp (by omega)), Option.map_some, hi]
  · next hnil =>
    rw [if_pos (by omega)]
    rfl

/-- In a sorted list, the members that are not greater come first. -/
theorem filter_eq_take (hs : Sorted cmp xs) :
    xs.filter (cmp · != .gt) = xs.take (xs.countP (cmp · != .gt)) := by
  induction xs with
  | nil => rfl
  | cons x xs ih =>
    by_cases hgt : cmp x = .gt
    · have hnone := countP_eq_zero_of_gt hs hgt
      have hfilter := List.length_eq_zero_iff.mp (hnone ▸ List.countP_eq_length_filter.symm)
      simp [hgt, hnone, hfilter]
    · simp [hgt, ih hs.of_cons]

theorem floor?_eq (hs : Sorted cmp xs) :
    floor? cmp xs = (xs.filter (cmp · != .gt)).getLast? := by
  have hindex := floor?_search hs
  rw [filter_eq_take hs, List.getLast?_take]
  unfold floor?
  split at hindex
  · next hzero =>
    rw [if_pos hzero, Option.map_eq_none_iff.mp hindex]
    rfl
  · next hpos =>
    obtain ⟨i, hi, hval⟩ := Option.map_eq_some_iff.mp hindex
    rw [if_neg hpos, hi, ← hval, List.getElem?_eq_getElem i.isLt]
    rfl

/-! ### Keys -/

variable {f : α → Nat} {k : Nat}

theorem sorted_of_pairwise (h : xs.Pairwise fun a b => f a ≤ f b) :
    Sorted (fun x => compare (f x) k) xs := by
  refine h.imp fun {a b} hab hgt => ?_
  rw [Nat.compare_eq_gt] at hgt ⊢
  omega

theorem compare_bne_gt (n : Nat) : (compare n k != .gt) = decide (n ≤ k) := by
  rw [Bool.eq_iff_iff, bne_iff_ne, decide_eq_true_iff]
  exact Nat.compare_ne_gt

/-- With keys in order, the member with the last key that is not past `k` is found. -/
theorem floor?_key (h : xs.Pairwise fun a b => f a ≤ f b) :
    floor? (fun x => compare (f x) k) xs = (xs.filter (f · ≤ k)).getLast? := by
  rw [floor?_eq (sorted_of_pairwise h)]
  simp only [compare_bne_gt]

theorem floor?_search_key (h : xs.Pairwise fun a b => f a ≤ f b) :
    (search (fun x => compare (f x) k) xs).floor?.map Fin.val =
      if xs.countP (f · ≤ k) = 0 then none else some (xs.countP (f · ≤ k) - 1) := by
  rw [floor?_search (sorted_of_pairwise h)]
  simp only [compare_bne_gt]

end Instrumentation.BinarySearch
