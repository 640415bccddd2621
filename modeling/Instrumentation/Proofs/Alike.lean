import Instrumentation.Source.Node
import Instrumentation.Source.Spelling

/-!
Trees that differ in their offsets alone. What the parsers ask of the trees that are left, and what
is made of the trees that are printed, does not depend on offsets.
-/
namespace Instrumentation.Source

mutual
/-- Two trees that differ in their offsets alone, which are related by `R`. -/
inductive Tree.Alike (R : Nat → Nat → Prop) : Tree → Tree → Prop
  | word {raw : Bool} {name : String} {p q : Nat} (h : R p q) :
    Tree.Alike R (.word raw name p) (.word raw name q)
  | mark {c : Char} {joint : Bool} {p q : Nat} (h : R p q) :
    Tree.Alike R (.mark c joint p) (.mark c joint q)
  | literal {text : String} {p q : Nat} (h : R p q) : Tree.Alike R (.literal text p) (.literal text q)
  | group {d : Delimiter} {start stop start' stop' : Nat} {ts us : List Tree}
    (hstart : R start start') (hclose : R (stop - 1) (stop' - 1)) (hinside : AlikeIn R ts us) :
    Tree.Alike R (.group d start stop ts) (.group d start' stop' us)

inductive AlikeIn (R : Nat → Nat → Prop) : List Tree → List Tree → Prop
  | nil : AlikeIn R [] []
  | cons {t u : Tree} {ts us : List Tree} (h : Tree.Alike R t u) (hs : AlikeIn R ts us) :
    AlikeIn R (t :: ts) (u :: us)
end

mutual
/-- A tree without its offsets. -/
def Tree.bare : Tree → Tree
  | .word raw name _ => .word raw name 0
  | .mark c joint _ => .mark c joint 0
  | .literal text _ => .literal text 0
  | .group d _ _ inside => .group d 0 0 (bareIn inside)

def bareIn : List Tree → List Tree
  | [] => []
  | t :: ts => t.bare :: bareIn ts
end

theorem bareIn_eq_map (ts : List Tree) : bareIn ts = ts.map Tree.bare := by
  induction ts with
  | nil => rfl
  | cons t ts ih => rw [bareIn, ih, List.map_cons]

mutual
theorem Tree.Alike.bare_eq {R : Nat → Nat → Prop} {t u : Tree} (h : t.Alike R u) :
    t.bare = u.bare := by
  cases h with
  | word => rfl
  | mark => rfl
  | literal => rfl
  | group _ _ hinside => simp only [Tree.bare, hinside.bareIn_eq]

theorem AlikeIn.bareIn_eq {R : Nat → Nat → Prop} {ts us : List Tree} (h : AlikeIn R ts us) :
    bareIn ts = bareIn us := by
  cases h with
  | nil => rfl
  | cons h hs => simp only [bareIn, h.bare_eq, hs.bareIn_eq]
end

mutual
theorem Tree.names_bare (t : Tree) : t.bare.names = t.names := by
  cases t with
  | word | mark | literal => rfl
  | group d start stop inside => simp only [Tree.bare, Tree.names, namesIn_bareIn inside]

theorem namesIn_bareIn (ts : List Tree) : Tree.namesIn (bareIn ts) = Tree.namesIn ts := by
  cases ts with
  | nil => rfl
  | cons t ts => simp only [bareIn, Tree.namesIn, Tree.names_bare t, namesIn_bareIn ts]
end

mutual
theorem Tree.size_bare (t : Tree) : t.bare.size = t.size := by
  cases t with
  | word | mark | literal => rfl
  | group d start stop inside => simp only [Tree.bare, Tree.size, sizeIn_bareIn inside]

theorem sizeIn_bareIn (ts : List Tree) : Tree.sizeIn (bareIn ts) = Tree.sizeIn ts := by
  cases ts with
  | nil => rfl
  | cons t ts => simp only [bareIn, Tree.sizeIn, Tree.size_bare t, sizeIn_bareIn ts]
end

mutual
theorem Tree.text_bare (t : Tree) : t.bare.text = t.text := by
  cases t with
  | word | mark | literal => rfl
  | group d start stop inside =>
    have hinside := textOf_bareIn inside
    cases d with
    | paren | bracket => simp only [Tree.bare, Tree.text, hinside]
    | brace =>
      cases inside with
      | nil => rfl
      | cons t ts =>
        simp only [bareIn] at hinside
        simp only [Tree.bare, bareIn, Tree.text, hinside]

theorem textOf_bareIn (ts : List Tree) : textOf (bareIn ts) = textOf ts := by
  cases ts with
  | nil => rfl
  | cons t ts =>
    cases ts with
    | nil => simp only [bareIn, textOf, Tree.text_bare t]
    | cons u rest =>
      have hrest := textOf_bareIn (u :: rest)
      simp only [bareIn] at hrest
      simp only [bareIn, textOf, Tree.text_bare t, hrest]
      cases t with
      | mark c joint p => cases joint <;> rfl
      | _ => rfl
end

@[simp] theorem bareIn_append (ts us : List Tree) : bareIn (ts ++ us) = bareIn ts ++ bareIn us := by
  simp [bareIn_eq_map]

@[simp] theorem bareIn_reverse (ts : List Tree) : bareIn ts.reverse = (bareIn ts).reverse := by
  simp [bareIn_eq_map]

namespace AlikeIn

variable {R : Nat → Nat → Prop} {ts us ts' us' : List Tree}

theorem append (h : AlikeIn R ts us) (h' : AlikeIn R ts' us') :
    AlikeIn R (ts ++ ts') (us ++ us') := by
  induction ts generalizing us with
  | nil =>
    cases h
    exact h'
  | cons t ts ih =>
    cases h with
    | cons h hs => exact .cons h (ih hs)

theorem drop (h : AlikeIn R ts us) (n : Nat) : AlikeIn R (ts.drop n) (us.drop n) := by
  induction n generalizing ts us with
  | zero => exact h
  | succ n ih =>
    cases h with
    | nil => simpa using AlikeIn.nil
    | cons h hs => exact ih hs

theorem length_eq (h : AlikeIn R ts us) : ts.length = us.length := by
  have hlen := congrArg List.length h.bareIn_eq
  simpa [bareIn_eq_map] using hlen

theorem sizeIn_eq (h : AlikeIn R ts us) : Tree.sizeIn ts = Tree.sizeIn us := by
  rw [← sizeIn_bareIn ts, h.bareIn_eq, sizeIn_bareIn]

end AlikeIn

/-! ### Questions about trees -/

/-- A question about trees whose answer does not depend on offsets. -/
class Blind {α : Type} (f : List Tree → α) : Prop where
  bareIn : ∀ ts, f (bareIn ts) = f ts

namespace Blind

variable {α : Type}

theorem eq_of_alike {f : List Tree → α} [h : Blind f] {ts us : List Tree}
    (hbare : Source.bareIn ts = Source.bareIn us) : f ts = f us := by
  rw [← h.bareIn ts, hbare, h.bareIn]

/-- A question about the first tree. -/
theorem of_first {f : List Tree → α} (h : ∀ t ts, f (t.bare :: Source.bareIn ts) = f (t :: ts)) :
    Blind f where
  bareIn ts := by
    cases ts with
    | nil => rfl
    | cons t ts => exact h t ts

end Blind

section

variable {α : Type} {f g : List Tree → Bool}

instance (a : α) : Blind fun _ => a := ⟨fun _ => rfl⟩

instance [Blind f] [Blind g] : Blind fun ts => f ts && g ts :=
  ⟨fun ts => by rw [Blind.bareIn (f := f), Blind.bareIn (f := g)]⟩

instance [Blind f] [Blind g] : Blind fun ts => f ts || g ts :=
  ⟨fun ts => by rw [Blind.bareIn (f := f), Blind.bareIn (f := g)]⟩

instance [Blind f] : Blind fun ts => !f ts := ⟨fun ts => by rw [Blind.bareIn (f := f)]⟩

end

theorem isMark_bareIn (op : List Char) (ts : List Tree) : isMark op (bareIn ts) = isMark op ts := by
  induction op generalizing ts with
  | nil => rfl
  | cons o op ih =>
    cases ts with
    | nil => rfl
    | cons t ts =>
      cases t with
      | mark c joint p =>
        cases op with
        | nil => rfl
        | cons o' op => simp only [bareIn, Tree.bare, isMark, ih]
      | _ => simp only [bareIn, Tree.bare, isMark]

instance (o : String) : Blind (isOp o) := ⟨fun ts => isMark_bareIn o.toList ts⟩

instance (k : String) : Blind (isKeyword k) := .of_first fun t ts => by
  cases t with
  | word raw => cases raw <;> rfl
  | _ => rfl

instance (ks : List String) : Blind (isOneOf ks) := .of_first fun t ts => by
  cases t with
  | word raw => cases raw <;> rfl
  | _ => rfl

instance : Blind isAnyWord := .of_first fun t ts => by cases t <;> rfl

instance : Blind isIdent := .of_first fun t ts => by cases t <;> rfl

instance (d : Delimiter) : Blind (isGroup d) := .of_first fun t ts => by cases t <;> rfl

instance : Blind isParen := inferInstanceAs (Blind (isGroup .paren))

instance : Blind isBracket := inferInstanceAs (Blind (isGroup .bracket))

instance : Blind isBrace := inferInstanceAs (Blind (isGroup .brace))

instance : Blind isLitText := .of_first fun t ts => by cases t <;> rfl

instance : Blind (List.isEmpty : List Tree → Bool) := .of_first fun _ _ => rfl

/-- A lifetime is a quote joined to a word. -/
theorem isLifetime_mark (c : Char) (joint : Bool) (p : Nat) (ts : List Tree) :
    isLifetime (.mark c joint p :: ts) = (c == '\'' && joint && isAnyWord ts) := by
  by_cases hc : c = '\'' ∧ joint = true
  · obtain ⟨rfl, rfl⟩ := hc
    cases ts with
    | nil => rfl
    | cons t ts => cases t <;> rfl
  · have hquote : (c == '\'' && joint) = false := by simpa using hc
    unfold isLifetime
    split
    · next h =>
      cases h
      simp at hc
    · simp [hquote]

instance : Blind isLifetime := .of_first fun t ts => by
  cases t with
  | mark c joint p => rw [Tree.bare, isLifetime_mark, isLifetime_mark, Blind.bareIn (f := isAnyWord)]
  | _ => rfl

theorem past_mark (c : Char) (joint : Bool) (p : Nat) (ts : List Tree) :
    past (.mark c joint p :: ts) = if isLifetime (.mark c joint p :: ts) then ts.drop 1 else ts := by
  by_cases hc : c = '\'' ∧ joint = true
  · obtain ⟨rfl, rfl⟩ := hc
    cases ts with
    | nil => rfl
    | cons t ts => cases t <;> rfl
  · have hquote : isLifetime (.mark c joint p :: ts) = false := by
      rw [isLifetime_mark]
      rw [Bool.and_eq_false_iff]
      exact .inl (by simpa using hc)
    unfold past
    split
    · next h =>
      cases h
      simp at hc
    · next h =>
      cases h
      simp [hquote]
    · next h => cases h

theorem past_bareIn (ts : List Tree) : past (bareIn ts) = bareIn (past ts) := by
  cases ts with
  | nil => rfl
  | cons t ts =>
    cases t with
    | mark c joint p =>
      have hlifetime := Blind.bareIn (f := isLifetime) (.mark c joint p :: ts)
      rw [bareIn, Tree.bare] at hlifetime
      rw [bareIn, Tree.bare, past_mark, past_mark, hlifetime]
      split
      · cases ts <;> rfl
      · rfl
    | _ => rfl

/-- A literal that starts with a mark is a negative number. -/
theorem isLit_mark (c : Char) (joint : Bool) (p : Nat) (ts : List Tree) :
    isLit (.mark c joint p :: ts) = (c == '-' && isLit (.mark '-' false 0 :: ts)) := by
  by_cases hc : c = '-'
  · subst hc
    cases ts with
    | nil => rfl
    | cons t ts => cases t <;> rfl
  · unfold isLit
    split <;> simp_all

instance : Blind isLit := .of_first fun t ts => by
  cases t with
  | word raw => cases raw <;> rfl
  | mark c joint p =>
    have hnumber : isLit (.mark '-' false 0 :: bareIn ts) = isLit (.mark '-' false 0 :: ts) := by
      cases ts with
      | nil => rfl
      | cons t ts => cases t <;> rfl
    rw [Tree.bare, isLit_mark c, isLit_mark c, hnumber]
  | _ => rfl

instance (test : List Tree → Bool) [h : Blind test] : Blind (second test) where
  bareIn ts := by
    rw [second, second, past_bareIn, h.bareIn, Blind.bareIn (f := List.isEmpty)]

instance (test : List Tree → Bool) [Blind test] : Blind (third test) where
  bareIn ts := by
    rw [third, third, past_bareIn, Blind.bareIn (f := second test),
      Blind.bareIn (f := List.isEmpty)]

end Instrumentation.Source
