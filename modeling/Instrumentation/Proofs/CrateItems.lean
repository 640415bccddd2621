import Instrumentation.Proofs.CrateLines
import Instrumentation.Proofs.Steady

/-!
Runs of parsers on trees that are known. A line that makes a crate known is one item, and items are
read one after the other.
-/
namespace Instrumentation.Source

namespace Parser

section

variable {α β : Type} {c d : Cursor}

theorem run_bind {p : Parser α} {a : α} (h : p.run c = .ok (a, d)) (f : α → Parser β) :
    (p >>= f).run c = (f a).run d := by
  simp only [bind, h]

theorem exists_of_run_bind {p : Parser α} {f : α → Parser β} {b : β}
    (h : (p >>= f).run c = .ok (b, d)) :
    ∃ a c', p.run c = .ok (a, c') ∧ (f a).run c' = .ok (b, d) := by
  simp only [bind] at h
  split at h
  · next a c' hp => exact ⟨a, c', hp, h⟩
  · cases h

theorem run_pure (a : α) (c : Cursor) : (pure a : Parser α).run c = .ok (a, c) := rfl

theorem run_peek (test : List Tree → Bool) (c : Cursor) :
    (peek test).run c = .ok (test c.rest, c) := rfl

theorem run_ahead {p : Parser α} {a : α} (h : p.run c = .ok (a, d)) :
    (ahead p).run c = .ok (a, c) := by
  simp only [ahead, h]

theorem run_optional_none {test : List Tree → Bool} (h : test c.rest = false) (p : Parser α) :
    (Parser.optional test p).run c = .ok (none, c) := by
  rw [Parser.optional, run_bind (run_peek test c), h]
  rfl

theorem run_op?_false {o : String} (h : isOp o c.rest = false) :
    (op? o).run c = .ok (false, c) := by
  rw [op?, run_bind (run_optional_none h _)]
  rfl

theorem run_keyword?_false {k : String} (h : isKeyword k c.rest = false) :
    (keyword? k).run c = .ok (false, c) := by
  rw [keyword?, run_bind (run_optional_none h _)]
  rfl

theorem run_token {test : List Tree → Bool} {t : Tree} {rest : List Tree} (hc : c.rest = t :: rest)
    (h : test (t :: rest)) :
    (token test).run c = .ok (t, { c with rest, printed := t :: c.printed }) := by
  simp only [token]
  split
  · next t' rest' hc' =>
    rw [hc] at hc'
    cases hc'
    rw [hc, if_pos h]
  · next hc' => simp [hc] at hc'

theorem run_keyword {k : String} {pos : Nat} {rest : List Tree}
    (hc : c.rest = .word false k pos :: rest) :
    (keyword k).run c = .ok ((), { c with rest, printed := .word false k pos :: c.printed }) := by
  rw [keyword, run_bind (run_token hc (by simp [isKeyword]))]
  rfl

theorem run_ident {raw : Bool} {name : String} {pos : Nat} {rest : List Tree}
    (hc : c.rest = .word raw name pos :: rest) (h : isIdent (.word raw name pos :: rest)) :
    ident.run c = .ok (⟨Tree.spelled raw name, pos⟩,
      { c with rest, printed := .word raw name pos :: c.printed }) := by
  rw [ident, run_bind (run_token hc h)]
  rfl

/-- An operator of one character. -/
theorem run_op {o : String} {m : Char} {joint : Bool} {pos : Nat} {rest : List Tree}
    (ho : o.toList = [m]) (hm : m ≠ '\'') (hc : c.rest = .mark m joint pos :: rest) :
    (op o).run c = .ok ((), { c with rest, printed := .mark m false pos :: c.printed }) := by
  have hop : isOp o (.mark m joint pos :: rest) := by simp [isOp, ho, isMark, hm]
  simp [op, hop, ho, hc]

end
end Parser

namespace Grammar
open Source.Parser

variable {c : Cursor}

theorem run_outerAttributes (g : Grammar) (h : isOp "#" c.rest = false) :
    (outerAttributes g).run c = .ok ([], c) := by
  have hstep : ((do
      if ← op? "#" then return ((← attributeBody g) :: [], true)
      else return ([], false)) : Parser (List Attribute × Bool)).run c = .ok (([], false), c) := by
    rw [run_bind (run_op?_false h)]
    rfl
  have hloop : (repeating [] fun attrs => do
      if ← op? "#" then return ((← attributeBody g) :: attrs, true)
      else return (attrs, false)).run c = .ok ([], c) := by
    have hleft : left.run c = .ok (c.rest.length, c) := rfl
    rw [repeating, run_bind hleft, loop, run_bind hstep]
    rfl
  rw [outerAttributes, run_bind hloop]
  rfl

theorem run_visibility (h : isKeyword "pub" c.rest = false) :
    visibility.run c = .ok (.inherited, c) := by
  rw [visibility, run_bind (run_keyword?_false h)]
  rfl

theorem run_externItem (g : Grammar) {raw joint : Bool} {name : String} {p q r s : Nat}
    {rest : List Tree}
    (hc : c.rest = .word false "extern" p :: .word false "crate" q :: .word raw name r ::
      .mark ';' joint s :: rest) (hident : isIdent [.word raw name 0]) :
    (externItem g).run c = .ok ((), { c with
      rest
      printed := .mark ';' false s :: .word raw name r :: .word false "crate" q ::
        .word false "extern" p :: c.printed }) := by
  have hvis : visibility.run c = .ok (.inherited, c) := by
    refine run_visibility ?_
    rw [hc]
    simp [isKeyword]
  have hahead : (ahead do
      let _ ← visibility
      keyword "extern"
      if ← peek (isKeyword "crate") then return true
      if ← peek isLitText then
        let _ ← lit
      if ← peek isBrace then return false
      fail).run c = .ok (true, c) := by
    refine run_ahead (d := { c with
      rest := .word false "crate" q :: .word raw name r :: .mark ';' joint s :: rest
      printed := .word false "extern" p :: c.printed }) ?_
    rw [run_bind hvis, run_bind (run_keyword hc), run_bind (run_peek _ _)]
    rfl
  have hself : isKeyword "self" (.word raw name r :: .mark ';' joint s :: rest) = false := by
    cases raw with
    | true => rfl
    | false =>
      simp only [isKeyword, beq_eq_false_iff_ne]
      rintro rfl
      exact absurd hident (by decide)
  have hname : isIdent (.word raw name r :: .mark ';' joint s :: rest) := hident
  rw [externItem, run_bind hahead, run_bind hvis]
  simp only [↓reduceIte]
  rw [run_bind (run_keyword hc), run_bind (run_keyword rfl), run_bind (run_peek _ _)]
  simp only [hself, Bool.false_eq_true, ↓reduceIte]
  rw [run_bind (run_ident rfl hname), run_bind (run_keyword?_false rfl)]
  simp only [Bool.false_eq_true, ↓reduceIte]
  have hsemicolon : ";".toList = [';'] := by decide
  exact run_op hsemicolon (by decide) rfl

/-- Items are told apart by what stands behind the visibility; where there is none, nothing is read. -/
theorem run_aheadOfItem {c : Cursor} (hpub : isKeyword "pub" c.rest = false) : (ahead do
    let vis ← visibility
    let ts ← asks Cursor.rest
    return (vis, ts, ← here)).run c = .ok ((.inherited, c.rest, c.here), c) := by
  refine run_ahead (d := c) ?_
  rw [run_bind (run_visibility hpub)]
  rfl

theorem run_crate (g : Grammar) {crate : String} (h : isCrateName crate) (pos : Nat)
    (joint : Bool) (rest : List Tree)
    (hc : c.rest = crateTrees pos joint crate ++ rest) :
    (itemBody g).run c = .ok (.other, { c with
      rest, printed := (crateTrees pos false crate).reverse ++ c.printed }) := by
  obtain ⟨raw, name, -, hident, htrees⟩ := exists_crateTrees h
  rw [htrees] at hc
  have hfirst {test : List Tree → Bool}
      (ht : ∀ ts, test (.word false "extern" pos :: ts) = false) : test c.rest = false := by
    rw [hc]
    exact ht _
  have hpub : isKeyword "pub" c.rest = false := hfirst fun _ => by simp [isKeyword]
  rw [itemBody, run_bind (run_outerAttributes g (hfirst fun _ => rfl)), itemRest,
    run_bind (run_aheadOfItem hpub)]
  have hfn : startsFunction false c.rest = false := by
    rw [hc]
    simp [startsFunction, isKeyword, isLitText]
  have hextern : isKeyword "extern" c.rest := by
    rw [hc]
    rfl
  simp only [hfn, hextern, Bool.false_eq_true, ↓reduceIte]
  rw [run_bind (run_externItem g hc hident), htrees]
  rfl

/-! ### Items one after the other -/

/-- One more value, as long as there are trees left. -/
def manyStep {α : Type} (p : Parser α) (xs : List α) : Parser (List α × Bool) := do
  if ← atEnd then return (xs, false)
  let x ← p
  return (x :: xs, true)

theorem many_eq {α : Type} (p : Parser α) :
    many p = do return (← repeating [] (manyStep p)).reverse := rfl

theorem run_manyStep_end {α : Type} (p : Parser α) (xs : List α) {c : Cursor} (h : c.rest = []) :
    (manyStep p xs).run c = .ok ((xs, false), c) := by
  have hend : atEnd.run c = .ok (true, c) := by
    have hrun : atEnd.run c = .ok (c.rest.isEmpty, c) := rfl
    rw [hrun, h]
    rfl
  rw [manyStep, run_bind hend]
  rfl

theorem run_manyStep {α : Type} {p : Parser α} {x : α} {c d : Cursor} (xs : List α)
    (hne : c.rest ≠ []) (h : p.run c = .ok (x, d)) :
    (manyStep p xs).run c = .ok ((x :: xs, true), d) := by
  have hend : atEnd.run c = .ok (false, c) := by
    have hrun : atEnd.run c = .ok (c.rest.isEmpty, c) := rfl
    rw [hrun, List.isEmpty_eq_false_iff.mpr hne]
  rw [manyStep, run_bind hend]
  simp only [Bool.false_eq_true, ↓reduceIte]
  rw [run_bind h]
  rfl

theorem exists_of_run_manyStep {α : Type} {p : Parser α} {xs ys : List α} {more : Bool}
    {c d : Cursor} (hne : c.rest ≠ []) (h : (manyStep p xs).run c = .ok ((ys, more), d)) :
    ∃ x, p.run c = .ok (x, d) ∧ ys = x :: xs ∧ more = true := by
  have hend : atEnd.run c = .ok (false, c) := by
    have hrun : atEnd.run c = .ok (c.rest.isEmpty, c) := rfl
    rw [hrun, List.isEmpty_eq_false_iff.mpr hne]
  rw [manyStep, run_bind hend] at h
  simp only [Bool.false_eq_true, ↓reduceIte] at h
  obtain ⟨x, d', hp, hpure⟩ := exists_of_run_bind h
  cases hpure
  exact ⟨x, hp, rfl, rfl⟩

theorem run_loop_done {σ : Type} {step : σ → Parser (σ × Bool)} {s s' : σ} {c d : Cursor}
    (h : (step s).run c = .ok ((s', false), d)) (fuel : Nat) :
    (loop step (fuel + 1) s).run c = .ok (s', d) := by
  rw [loop, run_bind h]
  rfl

theorem run_loop_more {σ : Type} {step : σ → Parser (σ × Bool)} {s s' : σ} {c d : Cursor}
    (h : (step s).run c = .ok ((s', true), d)) (fuel : Nat) :
    (loop step (fuel + 1) s).run c = (loop step fuel s').run d := by
  rw [loop, run_bind h]
  rfl

/-- More steps than needed, and values that were there before, change nothing. -/
theorem run_loop_manyStep {α : Type} {p : Parser α} {fuel fuel' : Nat} {xs ys : List α}
    {c d : Cursor} (h : (loop (manyStep p) fuel xs).run c = .ok (ys, d)) (hfuel : fuel ≤ fuel')
    (zs : List α) : (loop (manyStep p) fuel' (xs ++ zs)).run c = .ok (ys ++ zs, d) := by
  induction fuel generalizing fuel' xs c with
  | zero => cases h
  | succ fuel ih =>
    cases fuel' with
    | zero => omega
    | succ fuel' =>
      by_cases hend : c.rest = []
      · rw [run_loop_done (run_manyStep_end p xs hend)] at h
        cases h
        exact run_loop_done (run_manyStep_end p _ hend) fuel'
      · obtain ⟨⟨xs', more⟩, c', hstep, hrest⟩ := exists_of_run_bind h
        obtain ⟨x, hp, rfl, rfl⟩ := exists_of_run_manyStep hend hstep
        rw [run_loop_more (run_manyStep _ hend hp)]
        exact ih hrest (by omega)

/-- A value and those behind it. -/
theorem run_many_cons {α : Type} {p : Parser α} {x : α} {xs : List α} {c c' d : Cursor}
    (h : p.run c = .ok (x, c')) (hlt : c'.rest.length < c.rest.length)
    (hmany : (many p).run c' = .ok (xs, d)) : (many p).run c = .ok (x :: xs, d) := by
  rw [many_eq] at hmany ⊢
  obtain ⟨ys, d', hys, hrest⟩ := exists_of_run_bind hmany
  cases hrest
  have hleft (c : Cursor) : left.run c = .ok (c.rest.length, c) := rfl
  rw [repeating, run_bind (hleft c')] at hys
  have hne : c.rest ≠ [] := by
    rintro hnil
    simp [hnil] at hlt
  have hloop : (repeating [] (manyStep p)).run c = .ok (ys ++ [x], d) := by
    rw [repeating, run_bind (hleft c), run_loop_more (run_manyStep [] hne h)]
    exact run_loop_manyStep hys (by omega) [x]
  rw [run_bind hloop]
  simp [run_pure]

theorem parsers_item (c : Cursor) :
    (parsers .item).run c = (itemBody (layer (4 * Tree.sizeIn c.rest + 15))).run c := by
  rw [parsers_run, depthFor, layer]
  rfl

/-- The line for a crate is one item, before any others. -/
theorem run_many_crate {name : String} (hname : isCrateName name) {pos : Nat} {joint : Bool}
    {rest : List Tree} {items : List Item} {c d : Cursor}
    (hc : c.rest = crateTrees pos joint name ++ rest)
    (hmany : (many (parsers .item)).run { c with
      rest, printed := (crateTrees pos false name).reverse ++ c.printed } = .ok (items, d)) :
    (many (parsers .item)).run c = .ok (.other :: items, d) := by
  have hitem : (parsers .item).run c = .ok (.other, { c with
      rest, printed := (crateTrees pos false name).reverse ++ c.printed }) := by
    rw [parsers_item]
    exact run_crate _ hname pos joint rest hc
  refine run_many_cons hitem ?_ hmany
  obtain ⟨raw, word, -, -, htrees⟩ := exists_crateTrees hname
  simp only [hc, htrees, List.cons_append, List.nil_append, List.length_cons]
  omega

/-- A list of values fails where its first value does. -/
theorem run_many_ne_ok {α : Type} {p : Parser α} {c : Cursor} (hne : c.rest ≠ []) {e : Blame}
    (h : p.run c = .error e) (r : List α × Cursor) : (many p).run c ≠ .ok r := by
  intro hmany
  rw [many_eq] at hmany
  obtain ⟨ys, d, hys, -⟩ := exists_of_run_bind hmany
  have hleft : left.run c = .ok (c.rest.length, c) := rfl
  rw [repeating, run_bind hleft] at hys
  obtain ⟨⟨xs, more⟩, d', hstep, -⟩ := exists_of_run_bind hys
  obtain ⟨x, hp, -⟩ := exists_of_run_manyStep hne hstep
  rw [h] at hp
  cases hp

/-- The lines for some crates are one item for each. -/
theorem run_crates {names : List String} (hnames : ∀ c ∈ names, isCrateName c) {pos : Nat}
    {joint : Bool} {rest : List Tree} {items : List Item} {c d : Cursor}
    (hc : c.rest = cratesTrees pos joint names ++ rest)
    (hmany : (many (parsers .item)).run { c with
      rest, printed := (cratesTrees pos false names).reverse ++ c.printed } = .ok (items, d)) :
    (many (parsers .item)).run c = .ok (names.map (fun _ => .other) ++ items, d) := by
  induction names generalizing pos c with
  | nil =>
    obtain ⟨cs, close, printed, stray, unspellable⟩ := c
    obtain rfl : cs = rest := hc
    exact hmany
  | cons name names ih =>
    have hname := hnames name List.mem_cons_self
    cases names with
    | nil => exact run_many_crate hname hc hmany
    | cons next names =>
      rw [cratesTrees, List.append_assoc] at hc
      rw [cratesTrees, List.reverse_append, List.append_assoc] at hmany
      refine run_many_crate hname hc ?_
      exact ih (fun c hc => hnames c (List.mem_cons_of_mem _ hc)) rfl hmany

end Grammar
end Instrumentation.Source
