import Mathlib.Data.List.Forall2

/-!
Results of steps that may fail: a whole that succeeds has parts that succeed, and one that fails has
a part that fails.
-/
namespace Instrumentation

variable {α β ε : Type} {r : Except ε α}

theorem exists_of_bind_eq_ok {f : α → Except ε β} {b : β} (h : r >>= f = .ok b) :
    ∃ a, r = .ok a ∧ f a = .ok b := by
  cases r with
  | error e => cases h
  | ok a => exact ⟨a, rfl, h⟩

theorem bind_eq_ok {f : α → Except ε β} {a : α} {b : β} (h : r = .ok a) (hf : f a = .ok b) :
    r >>= f = .ok b := by
  rw [h]
  exact hf

theorem bind_eq_ok_iff {f : α → Except ε β} {b : β} :
    r >>= f = .ok b ↔ ∃ a, r = .ok a ∧ f a = .ok b :=
  ⟨exists_of_bind_eq_ok, fun ⟨_, h, hf⟩ => bind_eq_ok h hf⟩

theorem pure_eq_ok_iff {a b : α} : (pure a : Except ε α) = .ok b ↔ a = b := by
  simp [pure, Except.pure]

theorem eq_error_or_of_bind {f : α → Except ε β} {e : ε} (h : r >>= f = .error e) :
    r = .error e ∨ ∃ a, r = .ok a ∧ f a = .error e := by
  cases r with
  | error e' =>
    cases h
    exact .inl rfl
  | ok a => exact .inr ⟨a, rfl, h⟩

theorem eq_ok_of_mapError {ε' : Type} {f : ε → ε'} {a : α} (h : r.mapError f = .ok a) :
    r = .ok a := by
  cases r with
  | error e => cases h
  | ok b =>
    cases h
    rfl

/-- A test that a result passes is passed by the value in it. -/
theorem exists_ok_of_any {p : α → Bool} (h : r.toOption.any p = true) :
    ∃ a, r = .ok a ∧ p a = true := by
  cases r with
  | error e => cases h
  | ok a => exact ⟨a, rfl, h⟩

theorem mapM_cons_eq_ok_iff {f : α → Except ε β} {a : α} {rest : List α} {ys : List β} :
    (a :: rest).mapM f = .ok ys ↔ ∃ b, f a = .ok b ∧ ∃ bs, rest.mapM f = .ok bs ∧ b :: bs = ys := by
  simp only [List.mapM_cons, bind_eq_ok_iff, pure_eq_ok_iff]

theorem exists_of_mapM {f : α → Except ε β} {xs : List α} {ys : List β}
    (h : xs.mapM f = .ok ys) {x : α} (hx : x ∈ xs) : ∃ y ∈ ys, f x = .ok y := by
  induction xs generalizing ys with
  | nil => cases hx
  | cons a rest ih =>
    obtain ⟨b, hb, bs, hbs, rfl⟩ := mapM_cons_eq_ok_iff.mp h
    rcases List.mem_cons.mp hx with rfl | hx
    · exact ⟨b, by simp, hb⟩
    · obtain ⟨y, hy, he⟩ := ih hbs hx
      exact ⟨y, List.mem_cons_of_mem b hy, he⟩

theorem exists_of_mem_mapM {f : α → Except ε β} {xs : List α} {ys : List β}
    (h : xs.mapM f = .ok ys) {y : β} (hy : y ∈ ys) : ∃ x ∈ xs, f x = .ok y := by
  induction xs generalizing ys with
  | nil =>
    cases h
    cases hy
  | cons a rest ih =>
    obtain ⟨b, hb, bs, hbs, rfl⟩ := mapM_cons_eq_ok_iff.mp h
    rcases List.mem_cons.mp hy with rfl | hy
    · exact ⟨a, by simp, hb⟩
    · obtain ⟨x, hx, he⟩ := ih hbs hy
      exact ⟨x, List.mem_cons_of_mem a hx, he⟩

/-- A map succeeds if it does so on each member. -/
theorem exists_mapM_eq_ok {f : α → Except ε β} {xs : List α} (h : ∀ x ∈ xs, ∃ y, f x = .ok y) :
    ∃ ys, xs.mapM f = .ok ys := by
  induction xs with
  | nil => exact ⟨[], rfl⟩
  | cons a rest ih =>
    obtain ⟨b, hb⟩ := h a List.mem_cons_self
    obtain ⟨bs, hbs⟩ := ih fun x hx => h x (List.mem_cons_of_mem a hx)
    exact ⟨b :: bs, mapM_cons_eq_ok_iff.mpr ⟨b, hb, bs, hbs, rfl⟩⟩

/-- Each result of a map is made from what stands in its place. -/
theorem forall₂_of_mapM {f : α → Except ε β} {xs : List α} {ys : List β}
    (h : xs.mapM f = .ok ys) : List.Forall₂ (fun x y => f x = .ok y) xs ys := by
  induction xs generalizing ys with
  | nil =>
    cases h
    exact .nil
  | cons a rest ih =>
    obtain ⟨b, hb, bs, hbs, rfl⟩ := mapM_cons_eq_ok_iff.mp h
    exact .cons hb (ih hbs)

/-- The results of a map stand in the order of what they were made from. -/
theorem map_eq_of_mapM {γ : Type} {f : α → Except ε β} {k : β → γ} {j : α → γ}
    (hf : ∀ x y, f x = .ok y → k y = j x) {xs : List α} {ys : List β} (h : xs.mapM f = .ok ys) :
    ys.map k = xs.map j := by
  induction xs generalizing ys with
  | nil =>
    cases h
    rfl
  | cons a rest ih =>
    obtain ⟨b, hb, bs, hbs, rfl⟩ := mapM_cons_eq_ok_iff.mp h
    rw [List.map_cons, List.map_cons, hf a b hb, ih hbs]

/-- What every step of a fold keeps, the fold keeps. -/
theorem foldlM_keeps {P : β → Prop} {f : β → α → Except ε β}
    (hstep : ∀ b a b', P b → f b a = .ok b' → P b') {xs : List α} {b b' : β} (hb : P b)
    (h : xs.foldlM f b = .ok b') : P b' := by
  induction xs generalizing b with
  | nil =>
    cases h
    exact hb
  | cons a rest ih =>
    rw [List.foldlM_cons] at h
    obtain ⟨c, hc, h⟩ := exists_of_bind_eq_ok h
    exact ih (hstep b a c hb hc) h

/-- The test says yes. -/
def saysYes (f : α → Except ε Bool) (a : α) : Bool :=
  match f a with
  | .ok b => b
  | .error _ => false

theorem saysYes_eq_true_iff {f : α → Except ε Bool} {a : α} :
    saysYes f a = true ↔ f a = .ok true := by
  unfold saysYes
  cases f a <;> simp

theorem filterAuxM_eq_ok_iff {f : α → Except ε Bool} {xs done ys : List α} :
    List.filterAuxM f xs done = .ok ys ↔
      (∀ x ∈ xs, ∃ b, f x = .ok b) ∧ ys = (xs.filter (saysYes f)).reverse ++ done := by
  induction xs generalizing done with
  | nil =>
    rw [List.filterAuxM]
    constructor
    · intro h
      cases h
      exact ⟨by simp, rfl⟩
    · rintro ⟨_, rfl⟩
      rfl
  | cons a rest ih =>
    rw [List.filterAuxM]
    cases ha : f a with
    | error e =>
      constructor
      · intro h
        cases h
      · rintro ⟨hall, _⟩
        obtain ⟨b, hb⟩ := hall a List.mem_cons_self
        rw [ha] at hb
        cases hb
    | ok b =>
      change List.filterAuxM f rest (cond b (a :: done) done) = .ok ys ↔ _
      rw [ih]
      cases b <;> simp [ha, saysYes]

/-- A list is filtered if every test gives an answer. -/
theorem filterM_eq_ok_iff {f : α → Except ε Bool} {xs ys : List α} :
    xs.filterM f = .ok ys ↔
      (∀ x ∈ xs, ∃ b, f x = .ok b) ∧ ys = xs.filter (saysYes f) := by
  unfold List.filterM
  constructor
  · intro h
    obtain ⟨zs, hzs, h⟩ := exists_of_bind_eq_ok h
    cases h
    obtain ⟨hall, rfl⟩ := filterAuxM_eq_ok_iff.mp hzs
    exact ⟨hall, by simp⟩
  · rintro ⟨hall, rfl⟩
    rw [filterAuxM_eq_ok_iff.mpr ⟨hall, rfl⟩]
    simp [bind, Except.bind, pure, Except.pure]

/-- A list that cannot be filtered has a member whose test fails so. -/
theorem exists_of_filterAuxM_eq_error {f : α → Except ε Bool} {xs done : List α} {e : ε}
    (h : List.filterAuxM f xs done = .error e) : ∃ x ∈ xs, f x = .error e := by
  induction xs generalizing done with
  | nil => cases h
  | cons a rest ih =>
    rw [List.filterAuxM] at h
    rcases eq_error_or_of_bind h with hfirst | ⟨b, -, hrest⟩
    · exact ⟨a, List.mem_cons_self, hfirst⟩
    · obtain ⟨x, hx, hfails⟩ := ih hrest
      exact ⟨x, List.mem_cons_of_mem a hx, hfails⟩

theorem exists_of_filterM_eq_error {f : α → Except ε Bool} {xs : List α} {e : ε}
    (h : xs.filterM f = .error e) : ∃ x ∈ xs, f x = .error e := by
  rcases eq_error_or_of_bind h with haux | ⟨ys, -, hdone⟩
  · exact exists_of_filterAuxM_eq_error haux
  · cases hdone

end Instrumentation
