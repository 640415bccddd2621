import Instrumentation.Proofs.NormalPaths
import Instrumentation.Proofs.Places

/-!
Normal forms of paths. A normal form leads wherever its path leads, and steps up only at its start,
if that is not the root. Taking dots away gives the normal form of a path, unless several of its
steps up lead out of where it starts: each of those takes the one before it away.
-/
namespace Instrumentation.Path

variable {p q : Path} {cs : List PathComponent}

/-- A path without detours that leads to the same place as another one. -/
structure NormalForm (p q : Path) : Prop where
  /-- From every directory that is deep enough, both lead to one place. -/
  leads : ∀ start : List String, p.excess ≤ start.length → q.lead start = p.lead start
  /-- What both find in a file tree is the same. -/
  finds : ∀ (t : FileTree) (x y : Place), p.excess ≤ t.cwd.length → t.place p = .ok x →
    t.place q = .ok y → y = x
  noDots : .here ∉ q.components
  upsFirst : (∃ names : List String, q.components = .root :: names.map .name) ∨
    ∃ (ups : Nat) (names : List String), q.components = List.replicate ups .up ++ names.map .name
  stable : q.normalize = q

/-- Steps that start below some names lead out of what holds those, and then on by names. -/
theorem Steps.foldl_enter_append {names : List String} (h : Steps names cs) (start : List String) :
    cs.foldl enter (start ++ names) =
      start.take (start.length - overrun names.length cs) ++ cs.foldl enter names := by
  induction h generalizing start with
  | nil => simp [overrun]
  | @out cs _ ih =>
    have hup := ih start.dropLast
    have htake : start.dropLast.take (start.dropLast.length - overrun 0 cs) =
        start.take (start.length - (overrun 0 cs + 1)) := by
      rw [List.dropLast_eq_take, List.take_take, List.length_take]
      congr 1
      omega
    rw [List.append_nil, List.length_nil, htake] at hup
    rw [List.append_nil]
    exact hup
  | up _ ih => simpa [enter, overrun, ← List.append_assoc] using ih start
  | name _ ih => simpa [enter, overrun] using ih start

/-- A relative path leads as far out as its excess says, and then on by the names it leads to from
the root. -/
theorem lead_of_not_isAbsolute (h : p.isAbsolute = false) (start : List String) :
    p.lead start = start.take (start.length - p.excess) ++ p.lead [] := by
  have hsteps : ∀ c ∈ stepsIn p.text.toList, c = .up ∨ ∃ s, c = .name s := fun c hc =>
    (mem_stepsIn hc).imp_right fun ⟨s, hs, _⟩ => ⟨s, hs⟩
  have hroot : .root ∉ p.components := by
    rw [← isAbsolute_iff, h]
    exact Bool.false_ne_true
  have hfold := (steps_of_forall hsteps []).foldl_enter_append start
  rw [List.append_nil, List.length_nil, ← excess_eq, ← lead_nil] at hfold
  rw [lead_of_relative hroot, hfold]

theorem isAbsolute_normalize (p : Path) : p.normalize.isAbsolute = p.isAbsolute := by
  rw [Bool.eq_iff_iff, isAbsolute_iff, components_normalize_eq, baseOf]
  cases p.isAbsolute <;> simp [List.mem_replicate]

theorem baseOf_normalize (p : Path) : p.normalize.baseOf = p.baseOf := by
  rw [baseOf, isAbsolute_normalize, baseOf]

theorem overrun_names (depth : Nat) (names : List String) :
    overrun depth (names.map .name) = 0 := overrun_of_descend (descend_names depth names)

theorem overrun_replicate (n : Nat) (cs : List PathComponent) :
    overrun 0 (List.replicate n .up ++ cs) = n + overrun 0 cs := by
  induction n with
  | zero => simp
  | succ n ih =>
    rw [List.replicate_succ, List.cons_append, overrun, ih]
    omega

/-- Of the steps up that lead out, a normal form has the last one if their number is odd. -/
theorem excess_normalize (p : Path) : p.normalize.excess = p.excess % 2 := by
  unfold excess
  rw [components_normalize_eq]
  have hrest : overrun 0 (List.replicate (p.excess % 2) .up ++ (p.lead []).map .name) =
      p.excess % 2 := by
    rw [overrun_replicate, overrun_names, Nat.add_zero]
  rcases p.baseOf_cases with hbase | hbase <;> rw [hbase]
  · exact hrest
  · exact hrest

theorem lead_normalize_nil (p : Path) : p.normalize.lead [] = p.lead [] := by
  have hups : (List.replicate (p.excess % 2) PathComponent.up).foldl enter [] = [] := by
    rcases Nat.mod_two_eq_zero_or_one p.excess with hn | hn <;> simp [hn, enter]
  rw [lead, components_normalize_eq, List.foldl_append, List.foldl_append]
  rcases p.baseOf_cases with hbase | hbase <;> rw [hbase]
  · rw [List.foldl_nil, hups, foldl_enter_names, List.nil_append]
  · rw [List.foldl_cons, List.foldl_nil, enter, hups, foldl_enter_names, List.nil_append]

/-- An absolute path leads to the same place without its dots. -/
theorem lead_normalize_of_isAbsolute (h : p.isAbsolute = true) (start : List String) :
    p.normalize.lead start = p.lead start := by
  have hnormal : p.normalize.isAbsolute = true := by rw [isAbsolute_normalize, h]
  rw [lead_of_isAbsolute hnormal, lead_of_isAbsolute h, lead_normalize_nil]

/-- A normal form of a relative path leads out one directory at most. -/
theorem lead_normalize_of_not_isAbsolute (h : p.isAbsolute = false) (start : List String) :
    p.normalize.lead start = start.take (start.length - p.excess % 2) ++ p.lead [] := by
  have hnormal : p.normalize.isAbsolute = false := by rw [isAbsolute_normalize, h]
  rw [lead_of_not_isAbsolute hnormal, excess_normalize, lead_normalize_nil]

theorem normalize_normalize (p : Path) : p.normalize.normalize = p.normalize := by
  rw [normalize_eq p.normalize, baseOf_normalize, excess_normalize, lead_normalize_nil, Nat.mod_mod,
    ← normalize_eq]

theorem here_not_mem_normalize (p : Path) : .here ∉ p.normalize.components := by
  rw [components_normalize_eq]
  rcases p.baseOf_cases with hbase | hbase <;> simp [hbase, List.mem_replicate]

/-- Of the steps up that lead out of where a relative path starts there may be one; those that lead
past the root may be left out, and are if their number is even. -/
def KeepsExcess (p : Path) : Prop :=
  if p.isAbsolute then p.excess % 2 = 0 else p.excess ≤ 1

instance (p : Path) : Decidable p.KeepsExcess := by
  unfold KeepsExcess
  infer_instance

theorem leads_of_keepsExcess (h : p.KeepsExcess) (start : List String) :
    p.normalize.lead start = p.lead start := by
  unfold KeepsExcess at h
  cases habs : p.isAbsolute with
  | true => exact lead_normalize_of_isAbsolute habs start
  | false =>
    rw [habs, if_neg Bool.false_ne_true] at h
    have hmod : p.excess % 2 = p.excess := Nat.mod_eq_of_lt (by omega)
    rw [lead_normalize_of_not_isAbsolute habs, lead_of_not_isAbsolute habs start, hmod]

theorem NormalForm.of_keepsExcess (h : p.KeepsExcess) : NormalForm p p.normalize where
  leads start _ := leads_of_keepsExcess h start
  finds t x y _ hx hy := by
    rw [FileTree.place_eq hx, FileTree.place_eq hy, leads_of_keepsExcess h t.cwd]
  noDots := here_not_mem_normalize p
  upsFirst := by
    unfold KeepsExcess at h
    rw [components_normalize_eq, baseOf]
    cases habs : p.isAbsolute with
    | true =>
      rw [habs, if_pos rfl] at h
      rw [h, if_pos rfl]
      exact .inl ⟨p.lead [], rfl⟩
    | false => exact .inr ⟨p.excess % 2, p.lead [], by simp⟩
  stable := normalize_normalize p

theorem NormalForm.keepsExcess (h : NormalForm p p.normalize) : p.KeepsExcess := by
  unfold KeepsExcess
  cases habs : p.isAbsolute with
  | true =>
    rw [if_pos rfl]
    -- a step up that is left stands behind the root
    rcases Nat.mod_two_eq_zero_or_one p.excess with hn | hn
    · exact hn
    · have hcomponents := components_normalize_eq p
      rw [baseOf, habs, if_pos rfl, hn] at hcomponents
      rcases h.upsFirst with ⟨names, hnames⟩ | ⟨ups, names, hups⟩
      · rw [hnames] at hcomponents
        cases names <;> simp at hcomponents
      · rw [hups] at hcomponents
        cases ups with
        | zero => cases names <;> simp at hcomponents
        | succ ups => simp [List.replicate_succ] at hcomponents
  | false =>
    rw [if_neg Bool.false_ne_true]
    -- from a directory that is just deep enough, the path leads out of all of it
    have hlead := h.leads (List.replicate p.excess "d") (by simp)
    rw [lead_normalize_of_not_isAbsolute habs,
      lead_of_not_isAbsolute habs (List.replicate p.excess "d")] at hlead
    have hlength := congrArg List.length hlead
    simp only [List.length_append, List.length_take, List.length_replicate] at hlength
    omega

/-- Taking dots away gives the normal form of exactly those paths of whose steps up at most one
leads out of where the path starts, or an even number past the root. Whatever the path, what it
gives has no dots and is its own normal form, leads to the same place if it is absolute, and has of
the steps up that lead out one if their number is odd and none if it is even. -/
theorem normalForm_normalize_iff (p : Path) :
    (NormalForm p p.normalize ↔ p.KeepsExcess) ∧
      .here ∉ p.normalize.components ∧ p.normalize.normalize = p.normalize ∧
      (p.isAbsolute = true → ∀ start, p.normalize.lead start = p.lead start) ∧
      p.normalize.components =
        p.baseOf ++ (List.replicate (p.excess % 2) .up ++ (p.lead []).map .name) :=
  ⟨⟨NormalForm.keepsExcess, NormalForm.of_keepsExcess⟩, here_not_mem_normalize p,
    normalize_normalize p, lead_normalize_of_isAbsolute, components_normalize_eq p⟩

/-- Two steps up take each other away, and one past the root stays there. -/
theorem steps_up_cancelled :
    (⟨"../.."⟩ : Path).normalize = ⟨""⟩ ∧
    (⟨"../.."⟩ : Path).lead ["a", "b"] = [] ∧ (⟨""⟩ : Path).lead ["a", "b"] = ["a", "b"] ∧
    (⟨"/.."⟩ : Path).normalize = ⟨"/.."⟩ ∧ (⟨"/.."⟩ : Path).components = [.root, .up] ∧
    ¬ NormalForm ⟨"../.."⟩ (⟨"../.."⟩ : Path).normalize ∧
    ¬ NormalForm ⟨"/.."⟩ (⟨"/.."⟩ : Path).normalize := by
  refine ⟨by decide, by decide, by decide, by decide, by decide, fun h => ?_, fun h => ?_⟩
  · exact absurd h.keepsExcess (by decide)
  · exact absurd h.keepsExcess (by decide)

end Instrumentation.Path
