import Instrumentation.Proofs.Tokens
import Instrumentation.Source.Parser

/-!
What parsers print is made of the tokens of texts, if what they read is. There is one rule for each
combinator, and the rules are found by the shape of the parser.
-/
namespace Instrumentation.Source

/-- All tokens of some trees are tokens of texts. -/
def MadeOfTokens (ts : List Tree) : Prop := ∀ l ∈ lexemesIn ts, IsToken l

namespace MadeOfTokens

variable {ts us : List Tree} {t : Tree}

theorem iff_forall : MadeOfTokens ts ↔ ∀ t ∈ ts, ∀ l ∈ t.lexemes, IsToken l := by
  simp only [MadeOfTokens, mem_lexemesIn]
  exact ⟨fun h t ht l hl => h l ⟨t, ht, hl⟩, fun h l ⟨t, ht, hl⟩ => h t ht l hl⟩

theorem nil : MadeOfTokens [] := fun _ h => nomatch h

theorem cons_iff : MadeOfTokens (t :: ts) ↔ (∀ l ∈ t.lexemes, IsToken l) ∧ MadeOfTokens ts := by
  simp only [iff_forall, List.forall_mem_cons]

theorem append (h : MadeOfTokens ts) (h' : MadeOfTokens us) : MadeOfTokens (ts ++ us) := by
  rw [iff_forall] at h h' ⊢
  exact List.forall_mem_append.mpr ⟨h, h'⟩

theorem of_subset (h : MadeOfTokens ts) (hs : us ⊆ ts) : MadeOfTokens us := by
  rw [iff_forall] at h ⊢
  exact fun t ht => h t (hs ht)

theorem reverse (h : MadeOfTokens ts) : MadeOfTokens ts.reverse :=
  h.of_subset fun _ ht => List.mem_reverse.mp ht

theorem isToken_opening (d : Delimiter) : IsToken [d.opening] := by
  refine ⟨0, [d.opening, d.closing], [.group d 0 2 []], ?_, by simp [lexemesIn, Tree.lexemes]⟩
  cases d <;> rfl

theorem isToken_closing (d : Delimiter) : IsToken [d.closing] := by
  refine ⟨0, [d.opening, d.closing], [.group d 0 2 []], ?_, by simp [lexemesIn, Tree.lexemes]⟩
  cases d <;> rfl

/-- A group is made of tokens if its inside is. -/
theorem group_iff {d : Delimiter} {start stop : Nat} {inside : List Tree} :
    MadeOfTokens (.group d start stop inside :: ts) ↔ MadeOfTokens inside ∧ MadeOfTokens ts := by
  rw [cons_iff]
  refine and_congr_left fun _ => ⟨fun h l hl => h l ?_, fun h l hl => ?_⟩
  · simp [Tree.lexemes, hl]
  · simp only [Tree.lexemes, List.mem_cons, List.mem_append, List.not_mem_nil, or_false] at hl
    rcases hl with rfl | hl | rfl
    · exact isToken_opening d
    · exact h l hl
    · exact isToken_closing d

end MadeOfTokens

/-! ### Values that hold trees -/

/-- What it means for a value that its trees are made of tokens. Other values hold no trees. -/
class Contents (α : Type) where
  lexical : α → Prop

namespace Contents

instance (priority := low) plain (α : Type) : Contents α := ⟨fun _ => True⟩

instance trees : Contents (List Tree) := ⟨MadeOfTokens⟩

instance prod {α β : Type} [Contents α] [Contents β] : Contents (α × β) :=
  ⟨fun x => lexical x.1 ∧ lexical x.2⟩

instance fn {α β : Type} [Contents α] [Contents β] : Contents (α → β) :=
  ⟨fun f => ∀ a, lexical a → lexical (f a)⟩

/-- Lists of values with trees. -/
@[reducible] def list (α : Type) [Contents α] : Contents (List α) :=
  ⟨fun xs => ∀ x ∈ xs, lexical x⟩

/-- Values with trees that may be missing. -/
@[reducible] def option (α : Type) [Contents α] : Contents (Option α) :=
  ⟨fun o => ∀ x ∈ o, lexical x⟩

/-- A parser prints tokens if it reads tokens. -/
instance parser {α : Type} [Contents α] : Contents (Parser α) :=
  ⟨fun p => ∀ ⦃c d : Cursor⦄ ⦃a : α⦄, p.run c = .ok (a, d) → MadeOfTokens c.rest →
    MadeOfTokens c.printed → lexical a ∧ MadeOfTokens d.printed⟩

end Contents

/-- The trees of a value are made of tokens. -/
class Lexical {α : Type} [Contents α] (a : α) : Prop where
  out : Contents.lexical a

/-- A value with the proof that its trees are made of tokens. -/
structure Held (α : Type) [Contents α] where
  val : α
  lexical : Contents.lexical val

namespace Lexical

variable {α β : Type}

scoped instance plain (a : α) : @Lexical α (.plain α) a := @Lexical.mk α (.plain α) a trivial

scoped instance pair [Contents α] [Contents β] {a : α} {b : β} [h : Lexical a] [k : Lexical b] :
    Lexical (a, b) := ⟨h.out, k.out⟩

section

variable [Contents α] {a : α} {as bs : List α}

scoped instance there [h : Lexical a] : @Lexical (Option α) (.option α) (some a) :=
  @Lexical.mk _ (.option α) _ fun _ hx => Option.some.inj hx ▸ h.out

scoped instance missing : @Lexical (Option α) (.option α) none :=
  @Lexical.mk _ (.option α) _ fun _ hx => nomatch hx

scoped instance nil : @Lexical (List α) (.list α) [] :=
  @Lexical.mk _ (.list α) _ fun _ hx => nomatch hx

scoped instance cons [h : Lexical a] [hs : @Lexical (List α) (.list α) as] :
    @Lexical (List α) (.list α) (a :: as) :=
  @Lexical.mk _ (.list α) _ (List.forall_mem_cons.mpr ⟨h.out, @Lexical.out _ (.list α) _ hs⟩)

scoped instance reverse [hs : @Lexical (List α) (.list α) as] :
    @Lexical (List α) (.list α) as.reverse :=
  @Lexical.mk _ (.list α) _ fun _ hx => @Lexical.out _ (.list α) _ hs _ (List.mem_reverse.mp hx)

end

/-! ### Functions -/

scoped instance held [Contents α] (x : Held α) : Lexical x.val := ⟨x.lexical⟩

scoped instance (priority := low) ofHeld [Contents α] [Contents β] {f : α → β}
    [h : ∀ x : Held α, Lexical (f x.val)] : Lexical f := ⟨fun a ha => (h ⟨a, ha⟩).out⟩

scoped instance ofPlain [Contents β] {f : α → β} [h : ∀ a, Lexical (f a)] :
    @Lexical (α → β) (@Contents.fn α β (.plain α) _) f :=
  @Lexical.mk _ (@Contents.fn α β (.plain α) _) _ fun a _ => (h a).out

scoped instance ofOption [Contents β] {f : Option α → β} [h : ∀ a, Lexical (f (some a))]
    [k : Lexical (f none)] : @Lexical (Option α → β) (@Contents.fn _ β (.plain _) _) f :=
  @Lexical.mk _ (@Contents.fn _ β (.plain _) _) _ fun o _ => match o with
    | some a => (h a).out
    | none => k.out

theorem ofOptional [Contents α] [Contents β] {f : Option α → β}
    (h : Lexical fun a => f (some a)) (k : Lexical (f none)) :
    @Lexical (Option α → β) (@Contents.fn _ β (.option α) _) f :=
  @Lexical.mk _ (@Contents.fn _ β (.option α) _) _ fun o ho => match o with
    | some a => h.out a (ho a rfl)
    | none => k.out

scoped instance ofPair {γ : Type} [Contents α] [Contents β] [Contents γ] {f : α × β → γ}
    [h : Lexical fun a b => f (a, b)] : Lexical f := ⟨fun x hx => h.out x.1 hx.1 x.2 hx.2⟩

theorem of [Contents α] [Contents β] {f : α → β} (h : ∀ a, Lexical a → Lexical (f a)) :
    Lexical f := ⟨fun a ha => (h a ⟨ha⟩).out⟩

/-! ### Parsers -/

section

variable [Contents α] [Contents β]

scoped instance ite {c : Prop} [Decidable c] {x y : β} [h : Lexical x] [k : Lexical y] :
    Lexical (if c then x else y) := by
  split
  · exact h
  · exact k

theorem asks {f : Cursor → α} (h : ∀ c, MadeOfTokens c.rest → Contents.lexical (f c)) :
    Lexical (Parser.asks f) := ⟨by
  intro c d a hrun hrest hprinted
  cases hrun
  exact ⟨h c hrest, hprinted⟩⟩

scoped instance pure {a : α} [h : Lexical a] : Lexical (Pure.pure a : Parser α) :=
  asks fun _ _ => h.out

scoped instance bind {p : Parser α} {f : α → Parser β} [h : Lexical p] [k : Lexical f] :
    Lexical (p >>= f) := ⟨by
  intro c d b hrun hrest hprinted
  simp only [Bind.bind] at hrun
  split at hrun
  · next a c' hp =>
    obtain ⟨ha, hprinted'⟩ := h.out hp hrest hprinted
    exact k.out a ha hrun (hrest.of_subset (p.forward hp).subset) hprinted'
  · cases hrun⟩

/-- What is read first and not used. -/
scoped instance seq {p : Parser α} {x : Parser β} [h : Lexical p] [k : Lexical x] :
    Lexical (p >>= fun _ => x) := bind (k := ⟨fun _ _ => k.out⟩)

/-- A branch on what is read first. -/
scoped instance branch {p : Parser Bool} {c : Bool → Prop} [∀ b, Decidable (c b)]
    {x y : Parser β} [h : Lexical p] [k : Lexical x] [l : Lexical y] :
    Lexical (p >>= fun b => if c b then x else y) :=
  bind (k := ofPlain (h := fun _ => ite))

scoped instance failAt {place : Blame} : Lexical (Parser.failAt place : Parser α) := ⟨by
  intro c d a hrun
  cases hrun⟩

scoped instance fail : Lexical (Parser.fail : Parser α) := ⟨by
  intro c d a hrun
  cases hrun⟩

end

section

variable [Contents α]

scoped instance asksPlain {f : Cursor → β} : @Lexical (Parser β) (@Contents.parser β (.plain β))
    (Parser.asks f) :=
  @asks β (.plain β) f fun _ _ => trivial

scoped instance rest : Lexical (Parser.asks Cursor.rest) := asks fun _ h => h

scoped instance peek {test : List Tree → Bool} : Lexical (Parser.peek test) := asksPlain

scoped instance here : Lexical Parser.here := asksPlain

scoped instance atEnd : Lexical Parser.atEnd := peek

scoped instance left : Lexical Parser.left := asksPlain

theorem attempt_option {p : Parser α} (h : Lexical p) :
    @Lexical (Parser (Option α)) (@Contents.parser _ (.option α)) (Parser.attempt p) := by
  refine @Lexical.mk _ (@Contents.parser _ (.option α)) _ fun c d a hrun hrest hprinted => ?_
  simp only [Parser.attempt] at hrun
  split at hrun
  · next hp =>
    cases hrun
    obtain ⟨ha, hd⟩ := h.out hp hrest hprinted
    exact ⟨fun _ hx => Option.some.inj hx ▸ ha, hd⟩
  · cases hrun
    exact ⟨fun _ hx => (nomatch hx), hprinted⟩

/-- Parsers whose values are not looked at. -/
theorem forget {p : Parser α} (h : Lexical p) :
    @Lexical (Parser α) (@Contents.parser α (.plain α)) p :=
  @Lexical.mk _ (@Contents.parser α (.plain α)) _ fun _ _ _ hrun hrest hprinted =>
    ⟨trivial, (h.out hrun hrest hprinted).2⟩

scoped instance attempt {p : Parser α} [h : Lexical p] :
    @Lexical (Parser (Option α)) (@Contents.parser _ (.plain _)) (Parser.attempt p) :=
  @forget _ (.option α) _ (attempt_option h)

scoped instance ahead {p : Parser α} [h : Lexical p] : Lexical (Parser.ahead p) := ⟨by
  intro c d a hrun hrest hprinted
  simp only [Parser.ahead] at hrun
  split at hrun
  · next hp =>
    cases hrun
    exact ⟨(h.out hp hrest hprinted).1, hprinted⟩
  · cases hrun⟩

scoped instance captured {p : Parser α} [h : Lexical p] : Lexical (Parser.captured p) := ⟨by
  intro c d a hrun hrest hprinted
  simp only [Parser.captured] at hrun
  split at hrun
  · next hp =>
    cases hrun
    obtain ⟨ha, hd⟩ := h.out hp hrest MadeOfTokens.nil
    exact ⟨⟨ha, hd.reverse⟩, hd.append hprinted⟩
  · cases hrun⟩

scoped instance reprinted {p : Parser (α × List Tree)} [h : Lexical p] :
    Lexical (Parser.reprinted p) := ⟨by
  intro c d a hrun hrest hprinted
  simp only [Parser.reprinted] at hrun
  split at hrun
  · next hp =>
    cases hrun
    obtain ⟨⟨ha, htrees⟩, -⟩ := h.out hp hrest MadeOfTokens.nil
    exact ⟨ha, htrees.reverse.append hprinted⟩
  · cases hrun⟩

scoped instance markUnspellable : Lexical Parser.markUnspellable := ⟨by
  intro c d a hrun hrest hprinted
  cases hrun
  exact ⟨trivial, hprinted⟩⟩

scoped instance spellable {p : Parser α} [h : Lexical p] : Lexical (Parser.spellable p) := ⟨by
  intro c d a hrun hrest hprinted
  simp only [Parser.spellable] at hrun
  split at hrun
  · next hp =>
    cases hrun
    obtain ⟨ha, hd⟩ := h.out hp hrest hprinted
    exact ⟨⟨ha, trivial⟩, hd⟩
  · cases hrun⟩

scoped instance verbatim {p : Parser α} [h : Lexical p] : Lexical (Parser.verbatim p) := ⟨by
  intro c d a hrun hrest hprinted
  simp only [Parser.verbatim] at hrun
  split at hrun
  · next hp =>
    cases hrun
    obtain ⟨ha, hd⟩ := h.out hp hrest hprinted
    exact ⟨ha, hd⟩
  · cases hrun⟩

/-! ### Tokens -/

scoped instance token {test : List Tree → Bool} : Lexical (Parser.token test) := ⟨by
  intro c d a hrun hrest hprinted
  simp only [Parser.token] at hrun
  split at hrun
  · next hc =>
    split at hrun
    · cases hrun
      rw [hc] at hrest
      exact ⟨trivial, MadeOfTokens.cons_iff.mpr ⟨(MadeOfTokens.cons_iff.mp hrest).1, hprinted⟩⟩
    · cases hrun
  · cases hrun⟩

/-- The marks of an operator are printed, though with other gaps between them. -/
scoped instance op {o : String} : Lexical (Parser.op o) := ⟨by
  intro c d a hrun hrest hprinted
  simp only [Parser.op] at hrun
  split at hrun
  · cases hrun
    refine ⟨trivial, MadeOfTokens.append (.reverse ?_) hprinted⟩
    rw [MadeOfTokens.iff_forall] at hrest ⊢
    intro t ht
    obtain ⟨⟨u, i⟩, hu, rfl⟩ := List.mem_map.mp ht
    have htokens := hrest u (List.mem_of_mem_take (List.fst_mem_of_mem_zipIdx hu))
    cases u <;> exact htokens
  · cases hrun⟩

scoped instance optional {test : List Tree → Bool} {p : Parser α} [h : Lexical p] :
    @Lexical (Parser (Option α)) (@Contents.parser _ (.plain _)) (Parser.optional test p) := by
  unfold Parser.optional
  infer_instance

scoped instance keyword {k : String} : Lexical (Parser.keyword k) := by
  unfold Parser.keyword
  infer_instance

scoped instance op? {o : String} : Lexical (Parser.op? o) := by
  unfold Parser.op?
  infer_instance

scoped instance keyword? {k : String} : Lexical (Parser.keyword? k) := by
  unfold Parser.keyword?
  infer_instance

scoped instance ident : Lexical Parser.ident := by
  unfold Parser.ident
  infer_instance

scoped instance anyWord : Lexical Parser.anyWord := by
  unfold Parser.anyWord
  infer_instance

scoped instance lifetime : Lexical Parser.lifetime := ⟨by
  intro c d a hrun hrest hprinted
  simp only [Parser.lifetime] at hrun
  split at hrun
  · next hc =>
    cases hrun
    simp only [hc, MadeOfTokens.cons_iff] at hrest ⊢
    exact ⟨trivial, hrest.2.1, hrest.1, hprinted⟩
  · cases hrun⟩

scoped instance lit : Lexical Parser.lit := ⟨by
  intro c d a hrun hrest hprinted
  simp only [Parser.lit] at hrun
  split at hrun
  · next hc =>
    cases hrun
    rw [hc, MadeOfTokens.cons_iff] at hrest
    exact ⟨trivial, MadeOfTokens.cons_iff.mpr ⟨hrest.1, hprinted⟩⟩
  · next hc =>
    split at hrun
    · cases hrun
      rw [hc, MadeOfTokens.cons_iff] at hrest
      exact ⟨trivial, MadeOfTokens.cons_iff.mpr ⟨hrest.1, hprinted⟩⟩
    · cases hrun
  · next hc =>
    split at hrun
    · cases hrun
      simp only [hc, MadeOfTokens.cons_iff] at hrest ⊢
      exact ⟨trivial, hrest.2.1, hrest.1, hprinted⟩
    · cases hrun
  · cases hrun⟩

scoped instance inside {δ : Delimiter} {p : Parser α} [h : Lexical p] :
    Lexical (Parser.inside δ p) := ⟨by
  intro c d a hrun hrest hprinted
  simp only [Parser.inside] at hrun
  split at hrun
  · next hc =>
    rw [hc, MadeOfTokens.group_iff] at hrest
    split at hrun
    · split at hrun
      · next hp =>
        cases hrun
        obtain ⟨ha, hd⟩ := h.out hp hrest.1 MadeOfTokens.nil
        exact ⟨⟨trivial, ha⟩, MadeOfTokens.group_iff.mpr ⟨hd.reverse, hprinted⟩⟩
      · cases hrun
    · cases hrun
  · cases hrun⟩

scoped instance rawGroup : Lexical Parser.rawGroup := ⟨by
  intro c d a hrun hrest hprinted
  simp only [Parser.rawGroup] at hrun
  split at hrun
  · next hc =>
    cases hrun
    rw [hc, MadeOfTokens.group_iff] at hrest
    exact ⟨⟨trivial, hrest.1⟩, MadeOfTokens.group_iff.mpr ⟨hrest.1, hprinted⟩⟩
  · cases hrun⟩

scoped instance everything : Lexical Parser.everything := ⟨by
  intro c d a hrun hrest hprinted
  cases hrun
  exact ⟨trivial, hrest.reverse.append hprinted⟩⟩

end

/-! ### Loops and lists -/

section

variable {σ : Type} [Contents σ]

theorem loop {step : σ → Parser (σ × Bool)} (h : Lexical step) (fuel : Nat) {s : σ}
    (hs : Lexical s) : Lexical (Parser.loop step fuel s) := by
  induction fuel generalizing s with
  | zero => exact fail
  | succ fuel ih =>
    have hstep : Lexical (step s) := ⟨h.out s hs.out⟩
    refine bind (k := ofPair (h := of fun s' hs' => ?_))
    have hrest := ih hs'
    infer_instance

scoped instance repeating {step : σ → Parser (σ × Bool)} {s : σ} [k : Lexical s]
    [h : Lexical step] :
    Lexical (Parser.repeating s step) := by
  have hloop (n : Nat) := loop h n k
  unfold Parser.repeating
  infer_instance

end

section

variable [Contents α]

scoped instance terminated {sep : String} {p : Parser α} [h : Lexical p] :
    @Lexical (Parser (List α)) (@Contents.parser _ (.plain _)) (Parser.terminated sep p) := by
  have hp := forget h
  let : Contents α := .plain α
  let : Contents (List α) := .plain (List α)
  unfold Parser.terminated
  infer_instance

scoped instance many {p : Parser α} [h : Lexical p] :
    @Lexical (Parser (List α)) (@Contents.parser _ (.plain _)) (Parser.many p) := by
  have hp := forget h
  let : Contents α := .plain α
  let : Contents (List α) := .plain (List α)
  unfold Parser.many
  infer_instance

/-- The same for values that hold trees. -/
theorem many_list {p : Parser α} (h : Lexical p) :
    @Lexical (Parser (List α)) (@Contents.parser _ (.list α)) (Parser.many p) := by
  let : Contents (List α) := .list α
  unfold Parser.many
  infer_instance

end

end Lexical
end Instrumentation.Source
