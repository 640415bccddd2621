import Instrumentation.Proofs.Alike
import Mathlib.Data.List.Forall2
import Mathlib.Data.Option.Basic

/-!
Parsers run side by side on trees that differ in their offsets alone. What they hand out then
differs in offsets alone as well. There is one rule for each combinator, and the rules are found by
the shape of the parser.
-/
namespace Instrumentation.Source

/-- How two values correspond when offsets do. Values without offsets are the same. -/
class Offsets (α : Type) where
  alike : (Nat → Nat → Prop) → α → α → Prop

/-- Two words with the same letters. -/
structure Parser.Name.Alike (R : Nat → Nat → Prop) (n m : Parser.Name) : Prop where
  text : n.text = m.text
  pos : R n.pos m.pos

namespace Offsets

instance (priority := low) plain (α : Type) : Offsets α := ⟨fun _ => Eq⟩

/-- A place of a fault is not looked at. -/
instance blame : Offsets Blame := ⟨fun _ _ _ => True⟩

/-- Trees that are handed out are those that are printed. -/
instance trees : Offsets (List Tree) := ⟨fun _ ts us => bareIn ts = bareIn us⟩

instance prod {α β : Type} [Offsets α] [Offsets β] : Offsets (α × β) :=
  ⟨fun R x y => alike R x.1 y.1 ∧ alike R x.2 y.2⟩

instance fn {α β : Type} [Offsets α] [Offsets β] : Offsets (α → β) :=
  ⟨fun R f g => ∀ a b, alike R a b → alike R (f a) (g b)⟩

instance tree : Offsets Tree := ⟨fun R => Tree.Alike R⟩

instance name : Offsets Parser.Name := ⟨Parser.Name.Alike⟩

instance span : Offsets Parser.GroupSpan :=
  ⟨fun R s t => s.delim = t.delim ∧ R s.start t.start ∧ R (s.stop - 1) (t.stop - 1)⟩

/-- Lists whose members correspond one by one. -/
@[reducible] def list (α : Type) [Offsets α] : Offsets (List α) := ⟨fun R => List.Forall₂ (alike R)⟩

/-- Values that are both there and correspond, or are both missing. -/
@[reducible] def option (α : Type) [Offsets α] : Offsets (Option α) :=
  ⟨fun R => Option.Rel (alike R)⟩

end Offsets

/-- Two values that correspond. -/
class Alike (R : Nat → Nat → Prop) {α : Type} [Offsets α] (x y : α) : Prop where
  out : Offsets.alike R x y

/-- Two values with the proof that they correspond. -/
structure Related (R : Nat → Nat → Prop) (α : Type) [Offsets α] where
  left : α
  right : α
  alike : Offsets.alike R left right

/-- Two cursors at corresponding places. What was printed before `old` and `old'` may differ. -/
structure Cursor.Alike (R : Nat → Nat → Prop) (old old' : List Tree) (c d : Cursor) : Prop where
  rest : AlikeIn R c.rest d.rest
  printed : ∃ ts us, c.printed = ts ++ old ∧ d.printed = us ++ old' ∧ bareIn ts = bareIn us
  stray : c.stray.isSome = d.stray.isSome
  unspellable : c.unspellable = d.unspellable

/-- Two results: both fail, or both succeed with values that are related. -/
inductive Both {α : Type} (S : α → α → Prop) : Except Blame α → Except Blame α → Prop
  | ok {a b : α} (h : S a b) : Both S (.ok a) (.ok b)
  | error {e e' : Blame} : Both S (.error e) (.error e')

/-- From corresponding cursors the parsers reach corresponding cursors. -/
def Parallel (R : Nat → Nat → Prop) {α : Type} [Offsets α] (p q : Parser α) : Prop :=
  ∀ ⦃old old' : List Tree⦄, isBrace old = isBrace old' → ∀ ⦃c d : Cursor⦄, c.Alike R old old' d →
    Both (fun x y => Offsets.alike R x.1 y.1 ∧ x.2.Alike R old old' y.2) (p.run c) (q.run d)

instance Offsets.parser {α : Type} [Offsets α] : Offsets (Parser α) := ⟨fun R => Parallel R⟩

namespace Alike

variable {R : Nat → Nat → Prop} {α β : Type}

/-! ### Values -/

scoped instance plain (a : α) : @Alike R α (.plain α) a a := ⟨rfl⟩

theorem eq {a b : α} (h : @Alike R α (.plain α) a b) : a = b := h.out

scoped instance blame (a b : Blame) : Alike R a b := ⟨trivial⟩

scoped instance trees (ts : List Tree) : Alike R ts ts := ⟨rfl⟩

scoped instance pair [Offsets α] [Offsets β] {a a' : α} {b b' : β} [h : Alike R a a']
    [k : Alike R b b'] :
    Alike R (a, b) (a', b') := ⟨h.out, k.out⟩

section

variable [Offsets α] {a b : α} {as bs : List α}

scoped instance there [h : Alike R a b] : @Alike R (Option α) (.option α) (some a) (some b) :=
  @Alike.mk R _ (.option α) _ _ (.some h.out)

scoped instance missing : @Alike R (Option α) (.option α) none none :=
  @Alike.mk R _ (.option α) _ _ .none

scoped instance nil : @Alike R (List α) (.list α) [] [] := @Alike.mk R _ (.list α) _ _ .nil

scoped instance cons [h : Alike R a b] [hs : @Alike R (List α) (.list α) as bs] :
    @Alike R (List α) (.list α) (a :: as) (b :: bs) :=
  @Alike.mk R _ (.list α) _ _ (.cons h.out (@Alike.out R _ (.list α) _ _ hs))

scoped instance append {as' bs' : List α} [hs : @Alike R (List α) (.list α) as bs]
    [hs' : @Alike R (List α) (.list α) as' bs'] :
    @Alike R (List α) (.list α) (as ++ as') (bs ++ bs') :=
  @Alike.mk R _ (.list α) _ _
    (List.rel_append (@Alike.out R _ (.list α) _ _ hs) (@Alike.out R _ (.list α) _ _ hs'))

scoped instance reverse [hs : @Alike R (List α) (.list α) as bs] :
    @Alike R (List α) (.list α) as.reverse bs.reverse :=
  @Alike.mk R _ (.list α) _ _ (List.rel_reverse (@Alike.out R _ (.list α) _ _ hs))

end

/-! ### Functions -/

scoped instance ofBlind {f : List Tree → α} [h : Blind f] :
    @Alike R (List Tree → α) (@Offsets.fn _ _ _ (.plain α)) f f :=
  ⟨fun _ _ hts => h.eq_of_alike hts⟩

scoped instance related [Offsets α] (x : Related R α) : Alike R x.left x.right := ⟨x.alike⟩

scoped instance (priority := low) ofRelated [Offsets α] [Offsets β] {f g : α → β}
    [h : ∀ x : Related R α, Alike R (f x.left) (g x.right)] : Alike R f g :=
  ⟨fun a b hab => (h ⟨a, b, hab⟩).out⟩

scoped instance ofPlain [Offsets β] {f g : α → β} [h : ∀ a, Alike R (f a) (g a)] :
    @Alike R (α → β) (@Offsets.fn α β (.plain α) _) f g := ⟨by
  rintro a _ rfl
  exact (h a).out⟩

scoped instance ofOption [Offsets β] {f g : Option α → β}
    [h : ∀ a, Alike R (f (some a)) (g (some a))]
    [k : Alike R (f none) (g none)] :
    @Alike R (Option α → β) (@Offsets.fn _ β (.plain _) _) f g := ⟨by
  rintro (_ | a) _ rfl
  · exact k.out
  · exact (h a).out⟩

scoped instance ofPairOption {γ : Type} [Offsets γ] {f g : Option (α × β) → γ}
    [h : ∀ a b, Alike R (f (some (a, b))) (g (some (a, b)))] [k : Alike R (f none) (g none)] :
    @Alike R (Option (α × β) → γ) (@Offsets.fn _ γ (.plain _) _) f g := ⟨by
  rintro (_ | ⟨a, b⟩) _ rfl
  · exact k.out
  · exact (h a b).out⟩

theorem ofOptional [Offsets α] [Offsets β] {f g : Option α → β}
    (h : Alike R (fun a => f (some a)) fun a => g (some a)) (k : Alike R (f none) (g none)) :
    @Alike R (Option α → β) (@Offsets.fn _ β (.option α) _) f g := by
  refine @Alike.mk R _ (@Offsets.fn _ β (.option α) _) _ _ ?_
  rintro _ _ (hab | _)
  · exact h.out _ _ hab
  · exact k.out

/-- What uses a name uses its text. -/
scoped instance ofName [Offsets β] {f g : Parser.Name → β}
    [h : ∀ text p q, Alike R (f ⟨text, p⟩) (g ⟨text, q⟩)] : Alike R f g := ⟨by
  rintro ⟨text, p⟩ ⟨_, q⟩ ⟨rfl, -⟩
  exact (h text p q).out⟩

scoped instance ofPair {γ : Type} [Offsets α] [Offsets β] [Offsets γ] {f g : α × β → γ}
    [h : Alike R (fun a b => f (a, b)) (fun a b => g (a, b))] : Alike R f g :=
  ⟨fun x y hxy => h.out x.1 y.1 hxy.1 x.2 y.2 hxy.2⟩

theorem of [Offsets α] [Offsets β] {f g : α → β} (h : ∀ a b, Alike R a b → Alike R (f a) (g b)) :
    Alike R f g := ⟨fun a b hab => (h a b ⟨hab⟩).out⟩

theorem app [Offsets α] [Offsets β] {f g : α → β} (h : Alike R f g) {a b : α} (hab : Alike R a b) :
    Alike R (f a) (g b) := ⟨h.out a b hab.out⟩

/-! ### Parsers -/

section

variable [Offsets α] [Offsets β]

scoped instance ite {c : Prop} [Decidable c] {x x' y y' : β} [h : Alike R x x'] [k : Alike R y y'] :
    Alike R (if c then x else y) (if c then x' else y') := by
  split
  · exact h
  · exact k

/-- A branch on what trees look like. -/
scoped instance ofTest {test : List Tree → Bool} [k : Blind test] {f f' g g' : List Tree → β}
    [h : Alike R f f'] [l : Alike R g g'] : Alike R (fun ts => if test ts then f ts else g ts)
      fun ts => if test ts then f' ts else g' ts := ⟨fun ts us hts => by
  simp only [k.eq_of_alike hts]
  split
  · exact h.out ts us hts
  · exact l.out ts us hts⟩

theorem asks {f g : Cursor → α}
    (h : ∀ old old', isBrace old = isBrace old' → ∀ c d, Cursor.Alike R old old' c d →
      Offsets.alike R (f c) (g d)) : Alike R (Parser.asks f) (Parser.asks g) :=
  ⟨fun old old' hold c d hcd => .ok ⟨h old old' hold c d hcd, hcd⟩⟩

scoped instance pure {a b : α} [h : Alike R a b] : Alike R (Pure.pure a : Parser α) (Pure.pure b) :=
  asks fun _ _ _ _ _ _ => h.out

scoped instance bind {p q : Parser α} {f g : α → Parser β} [h : Alike R p q] [k : Alike R f g] :
    Alike R (p >>= f) (q >>= g) := ⟨by
  intro old old' hold c d hcd
  have hpq := h.out hold hcd
  simp only [Bind.bind]
  generalize p.run c = r at hpq
  generalize q.run d = s at hpq
  cases hpq with
  | ok hxy => exact k.out _ _ hxy.1 hold hxy.2
  | error => exact .error⟩

/-- What is read first and not used. -/
scoped instance seq {p q : Parser α} {x y : Parser β} [h : Alike R p q] [k : Alike R x y] :
    Alike R (p >>= fun _ => x) (q >>= fun _ => y) := bind (k := ⟨fun _ _ _ => k.out⟩)

/-- A branch on what is read first. -/
scoped instance branch {p q : Parser Bool} {c : Bool → Prop} [∀ b, Decidable (c b)]
    {x x' y y' : Parser β} [h : Alike R p q] [k : Alike R x x'] [l : Alike R y y'] :
    Alike R (p >>= fun b => if c b then x else y) (q >>= fun b => if c b then x' else y') :=
  bind (k := ofPlain (h := fun _ => ite))

/-- For what is read first and looked at. -/
theorem bind_of {p q : Parser α} {f g : α → Parser β} [Alike R p q]
    (h : ∀ a b, Alike R a b → Alike R (f a) (g b)) : Alike R (p >>= f) (q >>= g) :=
  bind (k := of h)

scoped instance failAt {a b : Blame} : Alike R (Parser.failAt a : Parser α) (Parser.failAt b) :=
  ⟨fun _ _ _ _ _ _ => .error⟩

scoped instance fail : Alike R (Parser.fail : Parser α) Parser.fail := ⟨fun _ _ _ _ _ _ => .error⟩

end

section

variable [Offsets α] [Offsets β]

/-- A parser that succeeds on one cursor does so on the corresponding one. -/
theorem run {p q : Parser α} (h : Alike R p q) {old old' : List Tree}
    (hold : isBrace old = isBrace old') {c d : Cursor} (hcd : c.Alike R old old' d) :
    (∃ a b c' d', p.run c = .ok (a, c') ∧ q.run d = .ok (b, d') ∧ Offsets.alike R a b ∧
      c'.Alike R old old' d') ∨ ∃ e e', p.run c = .error e ∧ q.run d = .error e' := by
  have hpq := h.out hold hcd
  generalize p.run c = r at hpq
  generalize q.run d = s at hpq
  cases hpq with
  | @ok x y h => exact .inl ⟨x.1, y.1, x.2, y.2, rfl, rfl, h.1, h.2⟩
  | error => exact .inr ⟨_, _, rfl, rfl⟩

scoped instance peek {test : List Tree → Bool} [Blind test] :
    Alike R (Parser.peek test) (Parser.peek test) :=
  asks fun _ _ _ _ _ h => Blind.eq_of_alike h.rest.bareIn_eq

scoped instance here : Alike R Parser.here Parser.here := asks fun _ _ _ _ _ _ => trivial

scoped instance atEnd : Alike R Parser.atEnd Parser.atEnd := peek

scoped instance left : Alike R Parser.left Parser.left := asks fun _ _ _ _ _ h => h.rest.length_eq

scoped instance asksRest {f : List Tree → α} {g : List Tree → α}
    [h : Alike R f g] : Alike R (Parser.asks fun c => f c.rest) (Parser.asks fun c => g c.rest) :=
  asks fun _ _ _ _ _ hcd => h.out _ _ hcd.rest.bareIn_eq

scoped instance rest : Alike R (Parser.asks Cursor.rest) (Parser.asks Cursor.rest) :=
  asks fun _ _ _ _ _ h => h.rest.bareIn_eq

scoped instance attempt {p q : Parser α}
    [h : @Alike R (Parser α) (@Offsets.parser α (.plain α)) p q] :
    @Alike R (Parser (Option α)) (@Offsets.parser _ (.plain _)) (Parser.attempt p)
      (Parser.attempt q) := ⟨by
  intro old old' hold c d hcd
  rcases @run R α (.plain α) p q h _ _ hold _ _ hcd with
    ⟨a, b, c', d', hp, hq, hab, hcd'⟩ | ⟨e, e', hp, hq⟩
  · simp only [Parser.attempt, hp, hq]
    exact .ok ⟨congrArg some hab, hcd'⟩
  · simp only [Parser.attempt, hp, hq]
    exact .ok ⟨rfl, hcd⟩⟩

/-- The same for values with offsets. -/
theorem attempt_option {p q : Parser α} (h : Alike R p q) :
    @Alike R (Parser (Option α)) (@Offsets.parser _ (.option α)) (Parser.attempt p)
      (Parser.attempt q) := by
  refine @Alike.mk R _ (@Offsets.parser _ (.option α)) _ _ fun old old' hold c d hcd => ?_
  rcases h.run hold hcd with ⟨a, b, c', d', hp, hq, hab, hcd'⟩ | ⟨e, e', hp, hq⟩
  · simp only [Parser.attempt, hp, hq]
    exact .ok ⟨.some hab, hcd'⟩
  · simp only [Parser.attempt, hp, hq]
    exact .ok ⟨.none, hcd⟩

scoped instance ahead {p q : Parser α} [h : Alike R p q] :
    Alike R (Parser.ahead p) (Parser.ahead q) := ⟨by
  intro old old' hold c d hcd
  rcases h.run hold hcd with ⟨a, b, c', d', hp, hq, hab, -⟩ | ⟨e, e', hp, hq⟩
  · simp only [Parser.ahead, hp, hq]
    exact .ok ⟨hab, hcd⟩
  · simp only [Parser.ahead, hp, hq]
    exact .error⟩

/-- A cursor with nothing printed. -/
theorem unprinted {old old' : List Tree} {c d : Cursor} (h : Cursor.Alike R old old' c d) :
    Cursor.Alike R [] [] { c with printed := [] } { d with printed := [] } :=
  ⟨h.rest, ⟨[], [], rfl, rfl, rfl⟩, h.stray, h.unspellable⟩

/-- What has been printed in between is put before what was printed. -/
theorem reprinted_append {old old' ts us : List Tree} {c d c' d' : Cursor}
    (h : Cursor.Alike R old old' c d) (h' : Cursor.Alike R [] [] c' d') (hts : bareIn ts = bareIn us) :
    Cursor.Alike R old old' { c' with printed := ts ++ c.printed }
      { d' with printed := us ++ d.printed } := by
  obtain ⟨xs, ys, hxs, hys, hbare⟩ := h.printed
  refine ⟨h'.rest, ⟨ts ++ xs, us ++ ys, by simp [hxs], by simp [hys], ?_⟩, h'.stray, h'.unspellable⟩
  simp [hts, hbare]

theorem bareIn_printed {c d : Cursor} (h : Cursor.Alike R [] [] c d) :
    bareIn c.printed = bareIn d.printed := by
  obtain ⟨xs, ys, hxs, hys, hbare⟩ := h.printed
  simpa [hxs, hys] using hbare

scoped instance captured {p q : Parser α} [h : Alike R p q] :
    Alike R (Parser.captured p) (Parser.captured q) := ⟨by
  intro old old' hold c d hcd
  rcases h.run rfl (unprinted hcd) with ⟨a, b, c', d', hp, hq, hab, hcd'⟩ | ⟨e, e', hp, hq⟩
  · simp only [Parser.captured, hp, hq]
    have hbare := bareIn_printed hcd'
    exact .ok ⟨⟨hab, by simp only [Offsets.alike, bareIn_reverse, hbare]⟩,
      reprinted_append hcd hcd' hbare⟩
  · simp only [Parser.captured, hp, hq]
    exact .error⟩

scoped instance reprinted {p q : Parser (α × List Tree)} [h : Alike R p q] :
    Alike R (Parser.reprinted p) (Parser.reprinted q) := ⟨by
  intro old old' hold c d hcd
  rcases h.run rfl (unprinted hcd) with
    ⟨⟨a, ts⟩, ⟨b, us⟩, c', d', hp, hq, ⟨hab, hts⟩, hcd'⟩ | ⟨e, e', hp, hq⟩
  · simp only [Parser.reprinted, hp, hq]
    have hbare : bareIn ts.reverse = bareIn us.reverse := by
      rw [bareIn_reverse, bareIn_reverse, show bareIn ts = bareIn us from hts]
    exact .ok ⟨hab, reprinted_append hcd hcd' hbare⟩
  · simp only [Parser.reprinted, hp, hq]
    exact .error⟩

scoped instance markUnspellable : Alike R Parser.markUnspellable Parser.markUnspellable :=
  ⟨fun _ _ _ _ _ h => .ok ⟨rfl, h.rest, h.printed, h.stray, rfl⟩⟩

scoped instance spellable {p q : Parser α} [h : Alike R p q] :
    Alike R (Parser.spellable p) (Parser.spellable q) := ⟨by
  intro old old' hold c d hcd
  have hstart : Cursor.Alike R old old' { c with unspellable := false }
      { d with unspellable := false } := ⟨hcd.rest, hcd.printed, hcd.stray, rfl⟩
  rcases h.run hold hstart with ⟨a, b, c', d', hp, hq, hab, hcd'⟩ | ⟨e, e', hp, hq⟩
  · simp only [Parser.spellable, hp, hq]
    exact .ok ⟨⟨hab, congrArg not hcd'.unspellable⟩, hcd'.rest, hcd'.printed, hcd'.stray,
      by rw [hcd.unspellable, hcd'.unspellable]⟩
  · simp only [Parser.spellable, hp, hq]
    exact .error⟩

scoped instance verbatim {p q : Parser α} [h : Alike R p q] :
    Alike R (Parser.verbatim p) (Parser.verbatim q) := ⟨by
  intro old old' hold c d hcd
  rcases h.run hold hcd with ⟨a, b, c', d', hp, hq, hab, hcd'⟩ | ⟨e, e', hp, hq⟩
  · simp only [Parser.verbatim, hp, hq]
    exact .ok ⟨hab, hcd'.rest, hcd'.printed, hcd'.stray, hcd.unspellable⟩
  · simp only [Parser.verbatim, hp, hq]
    exact .error⟩

end

/-! ### Tokens -/

/-- A cursor after trees that were passed over. -/
theorem passed {old old' rest rest' : List Tree} (ts us : List Tree) {c d : Cursor}
    (h : Cursor.Alike R old old' c d) (hrest : AlikeIn R rest rest') (hts : bareIn ts = bareIn us) :
    Cursor.Alike R old old' { c with rest, printed := ts ++ c.printed }
      { d with rest := rest', printed := us ++ d.printed } := by
  obtain ⟨xs, ys, hxs, hys, hbare⟩ := h.printed
  exact ⟨hrest, ⟨ts ++ xs, us ++ ys, by simp [hxs], by simp [hys], by simp [hts, hbare]⟩, h.stray,
    h.unspellable⟩

scoped instance token {test : List Tree → Bool} [Blind test] :
    Alike R (Parser.token test) (Parser.token test) := ⟨by
  intro old old' hold c d hcd
  have htest : test c.rest = test d.rest := Blind.eq_of_alike hcd.rest.bareIn_eq
  have hrest := hcd.rest
  simp only [Parser.token]
  generalize hc : c.rest = ts at hrest htest
  generalize hd : d.rest = us at hrest htest
  cases hrest with
  | nil => exact .error
  | cons h hs =>
    simp only [htest]
    split
    · exact .ok ⟨h, passed [_] [_] hcd hs (by simp [bareIn, h.bare_eq])⟩
    · exact .error⟩

theorem bareIn_map_zipIdx {f : Tree × Nat → Tree}
    (hf : ∀ t u i, Tree.Alike R t u → (f (t, i)).bare = (f (u, i)).bare) {ts us : List Tree}
    (h : AlikeIn R ts us) (n k : Nat) : bareIn (((ts.take n).zipIdx k).map f) =
      bareIn (((us.take n).zipIdx k).map f) := by
  induction n generalizing ts us k with
  | zero => rfl
  | succ n ih =>
    cases h with
    | nil => rfl
    | cons h hs =>
      simp only [List.take_succ_cons, List.zipIdx_cons, List.map_cons, bareIn, hf _ _ k h, ih hs]

scoped instance op {o : String} : Alike R (Parser.op o) (Parser.op o) := ⟨by
  intro old old' hold c d hcd
  have htest : isOp o c.rest = isOp o d.rest := Blind.eq_of_alike hcd.rest.bareIn_eq
  simp only [Parser.op, htest]
  split
  · refine .ok ⟨rfl, passed _ _ hcd (hcd.rest.drop _) ?_⟩
    rw [bareIn_reverse, bareIn_reverse]
    refine congrArg _ (bareIn_map_zipIdx (fun t u i htu => ?_) hcd.rest _ 0)
    cases htu with
    | group hstart hclose hinside => simp only [Tree.bare, hinside.bareIn_eq]
    | _ => rfl
  · exact .error⟩

scoped instance optional [Offsets α] {test : List Tree → Bool} [Blind test] {p q : Parser α}
    [@Alike R (Parser α) (@Offsets.parser α (.plain α)) p q] :
    @Alike R (Parser (Option α)) (@Offsets.parser _ (.plain _)) (Parser.optional test p)
      (Parser.optional test q) := by
  let : Offsets α := .plain α
  unfold Parser.optional
  infer_instance

scoped instance keyword {k : String} : Alike R (Parser.keyword k) (Parser.keyword k) := by
  unfold Parser.keyword
  infer_instance

scoped instance op? {o : String} : Alike R (Parser.op? o) (Parser.op? o) := by
  unfold Parser.op?
  infer_instance

scoped instance keyword? {k : String} : Alike R (Parser.keyword? k) (Parser.keyword? k) := by
  unfold Parser.keyword?
  infer_instance

scoped instance nameOf {t u : Tree} [h : Alike R t u] :
    Alike R (Parser.nameOf t) (Parser.nameOf u) := ⟨by
  cases h.out with
  | word hpos => exact ⟨rfl, hpos⟩
  | mark hpos => exact ⟨rfl, hpos⟩
  | literal hpos => exact ⟨rfl, hpos⟩
  | group hstart => exact ⟨rfl, hstart⟩⟩

scoped instance ident : Alike R Parser.ident Parser.ident := by
  unfold Parser.ident
  exact bind_of fun _ _ _ => inferInstance

scoped instance anyWord : Alike R Parser.anyWord Parser.anyWord := by
  unfold Parser.anyWord
  exact bind_of fun _ _ _ => inferInstance

scoped instance lifetime : Alike R Parser.lifetime Parser.lifetime := ⟨by
  intro old old' hold c d hcd
  have hrest := hcd.rest
  have htest : isLifetime c.rest = isLifetime d.rest := Blind.eq_of_alike hrest.bareIn_eq
  simp only [Parser.lifetime]
  generalize hc : c.rest = ts at hrest htest
  generalize hd : d.rest = us at hrest htest
  by_cases hl : isLifetime ts
  · unfold isLifetime at hl
    split at hl
    · next p raw name p' rest =>
      rcases hrest with _ | ⟨⟨hmark⟩, _ | ⟨⟨hword⟩, hs⟩⟩
      obtain ⟨xs, ys, hxs, hys, hbare⟩ := hcd.printed
      refine .ok ⟨rfl, hs, ⟨_ :: _ :: xs, _ :: _ :: ys, by rw [hxs]; rfl, by rw [hys]; rfl, ?_⟩,
        hcd.stray, rfl⟩
      simp [bareIn, Tree.bare, hbare]
    · cases hl
  · have hl' : ¬isLifetime us := htest ▸ hl
    have hno {us : List Tree} (hl : ¬isLifetime us) {p : Nat} {raw : Bool} {name : String} {p' : Nat}
        {rest : List Tree} : us ≠ .mark '\'' true p :: .word raw name p' :: rest := by
      rintro rfl
      exact hl rfl
    split
    · exact absurd rfl (hno hl)
    · split
      · exact absurd rfl (hno hl')
      · exact .error⟩

theorem lit_mark {c : Cursor} {m : Char} {joint : Bool} {p : Nat} {ts : List Tree}
    (hc : c.rest = .mark m joint p :: ts) (hm : m ≠ '-') : Parser.lit.run c = .error c.here := by
  simp only [Parser.lit, hc]
  split
  · next h => cases h
  · next h => cases h
  · next h =>
    cases h
    exact absurd rfl hm
  · rfl

scoped instance lit : Alike R Parser.lit Parser.lit := ⟨by
  intro old old' hold c d hcd
  have hrest := hcd.rest
  generalize hc : c.rest = ts at hrest
  generalize hd : d.rest = us at hrest
  cases hrest with
  | nil =>
    simp only [Parser.lit, hc, hd]
    exact .error
  | cons ht hs =>
    cases ht with
    | literal =>
      simp only [Parser.lit, hc, hd]
      exact .ok ⟨rfl, passed [_] [_] hcd hs rfl⟩
    | @word raw name =>
      simp only [Parser.lit, hc, hd]
      cases raw with
      | true => exact .error
      | false =>
        simp only
        split
        · exact .ok ⟨rfl, passed [_] [_] hcd hs rfl⟩
        · exact .error
    | @mark m joint =>
      by_cases hm : m = '-'
      · subst hm
        simp only [Parser.lit, hc, hd]
        cases hs with
        | nil => exact .error
        | cons hu hs =>
          cases hu with
          | literal =>
            simp only
            split
            · exact .ok ⟨rfl, passed [_, _] [_, _] hcd hs rfl⟩
            · exact .error
          | _ => exact .error
      · rw [lit_mark hc hm, lit_mark hd hm]
        exact .error
    | group =>
      simp only [Parser.lit, hc, hd]
      exact .error⟩

scoped instance inside {δ : Delimiter} [Offsets α] {p q : Parser α} [h : Alike R p q] :
    Alike R (Parser.inside δ p) (Parser.inside δ q) := ⟨by
  intro old old' hold c d hcd
  have hrest := hcd.rest
  simp only [Parser.inside]
  generalize hc : c.rest = ts at hrest
  generalize hd : d.rest = us at hrest
  cases hrest with
  | nil => exact .error
  | cons ht hs =>
    cases ht with
    | word | mark | literal => exact .error
    | @group e start stop start' stop' inner inner' hstart hclose hinside =>
      simp only
      split
      · next he =>
        subst he
        have hin : Cursor.Alike R [] []
            { c with rest := inner, close := some (stop - 1), printed := [] }
            { d with rest := inner', close := some (stop' - 1), printed := [] } :=
          ⟨hinside, ⟨[], [], rfl, rfl, rfl⟩, hcd.stray, hcd.unspellable⟩
        rcases h.run rfl hin with ⟨a, b, c', d', hp, hq, hab, hcd'⟩ | ⟨e, e', hp, hq⟩
        · obtain ⟨ts, us, hts, hus, hbare⟩ := hcd'.printed
          obtain ⟨xs, ys, hxs, hys, hbare'⟩ := hcd.printed
          have hstray : (c'.rest.head?.map Tree.start).isSome =
              (d'.rest.head?.map Tree.start).isSome := by
            have hleft := hcd'.rest
            generalize c'.rest = ts at hleft
            generalize d'.rest = us at hleft
            cases hleft <;> rfl
          simp only [hp, hq]
          refine .ok ⟨⟨⟨rfl, hstart, hclose⟩, hab⟩, hs,
            ⟨_ :: xs, _ :: ys, by rw [hxs]; rfl, by rw [hys]; rfl, ?_⟩, ?_, hcd'.unspellable⟩
          · simp [bareIn, Tree.bare, hts, hus, hbare, hbare']
          · simp only [Option.isSome_or, hcd'.stray, hstray]
        · simp only [hp, hq]
          exact .error
      · exact .error⟩

scoped instance rawGroup : Alike R Parser.rawGroup Parser.rawGroup := ⟨by
  intro old old' hold c d hcd
  have hrest := hcd.rest
  simp only [Parser.rawGroup]
  generalize hc : c.rest = ts at hrest
  generalize hd : d.rest = us at hrest
  cases hrest with
  | nil => exact .error
  | cons ht hs =>
    cases ht with
    | word | mark | literal => exact .error
    | @group e start stop start' stop' inner inner' hstart hclose hinside =>
      have hbare := hinside.bareIn_eq
      exact .ok ⟨⟨rfl, hbare⟩, passed [_] [_] hcd hs (by simp [bareIn, Tree.bare, hbare])⟩⟩

scoped instance everything : Alike R Parser.everything Parser.everything := ⟨by
  intro old old' hold c d hcd
  refine .ok ⟨rfl, passed _ _ hcd .nil ?_⟩
  rw [bareIn_reverse, bareIn_reverse, hcd.rest.bareIn_eq]⟩

/-! ### Loops -/

section

variable {σ : Type} [Offsets σ]

theorem loop {f g : σ → Parser (σ × Bool)} (h : Alike R f g) (fuel : Nat) {s t : σ}
    (hst : Alike R s t) : Alike R (Parser.loop f fuel s) (Parser.loop g fuel t) := by
  induction fuel generalizing s t with
  | zero => exact fail
  | succ fuel ih =>
    refine bind (h := app h hst) (k := ofPair (h := of fun s' t' hst' => ?_))
    have hrest := ih hst'
    infer_instance

scoped instance repeating {f g : σ → Parser (σ × Bool)} {s t : σ} [k : Alike R s t]
    [h : Alike R f g] :
    Alike R (Parser.repeating s f) (Parser.repeating t g) := by
  have hloop (n : Nat) := loop h n k
  unfold Parser.repeating
  infer_instance

end

/-! ### Lists -/

section

variable [Offsets α]

/-- Values that are read one after the other. -/
theorem listed {read read' : List α → Parser (List α × Bool)}
    (h : ∀ xs ys, @Alike R (List α) (.list α) xs ys →
      @Alike R (Parser (List α × Bool)) (@Offsets.parser _ (@Offsets.prod _ _ (.list α) _))
        (read xs) (read' ys)) :
    @Alike R (Parser (List α)) (@Offsets.parser _ (.list α))
      (do return (← Parser.repeating [] read).reverse)
      (do return (← Parser.repeating [] read').reverse) := by
  let : Offsets (List α) := .list α
  have hnil : Alike R ([] : List α) [] := ⟨.nil⟩
  exact .bind (h := .repeating (h := .of h)) (k := .of fun _ _ h =>
    .pure (h := ⟨List.rel_reverse h.out⟩))

theorem terminated_list {sep : String} {p q : Parser α} (h : Alike R p q) :
    @Alike R (Parser (List α)) (@Offsets.parser _ (.list α)) (Parser.terminated sep p)
      (Parser.terminated sep q) := by
  let : Offsets (List α) := .list α
  refine listed fun xs ys hxs => .branch (l := .bind_of fun x y h => ?_)
  have hcons : Alike R (x :: xs) (y :: ys) := ⟨.cons h.out hxs.out⟩
  infer_instance

theorem many_list {p q : Parser α} (h : Alike R p q) :
    @Alike R (Parser (List α)) (@Offsets.parser _ (.list α)) (Parser.many p) (Parser.many q) := by
  let : Offsets (List α) := .list α
  refine listed fun xs ys hxs => .branch (l := .bind_of fun x y h => ?_)
  have hcons : Alike R (x :: xs) (y :: ys) := ⟨.cons h.out hxs.out⟩
  infer_instance

end

scoped instance terminated {sep : String} {p q : Parser α}
    [@Alike R (Parser α) (@Offsets.parser α (.plain α)) p q] :
    @Alike R (Parser (List α)) (@Offsets.parser _ (.plain _)) (Parser.terminated sep p)
      (Parser.terminated sep q) := by
  let : Offsets α := .plain α
  let : Offsets (List α) := .plain (List α)
  unfold Parser.terminated
  infer_instance

scoped instance many {p q : Parser α} [@Alike R (Parser α) (@Offsets.parser α (.plain α)) p q] :
    @Alike R (Parser (List α)) (@Offsets.parser _ (.plain _)) (Parser.many p) (Parser.many q) := by
  let : Offsets α := .plain α
  let : Offsets (List α) := .plain (List α)
  unfold Parser.many
  infer_instance

end Alike
end Instrumentation.Source
