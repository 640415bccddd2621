import Instrumentation.Proofs.Layout
import Instrumentation.Source.Node

/-!
What parsers give, and where. A parser moves forward only, so what it gives stands between the
offset where it began and the offset where it ended; values that are read one after the other
stand one after the other.
-/
namespace Instrumentation.Source

open Text (Boundary)

/-- A value that stands between two offsets also stands between offsets further apart. -/
class Widens {α : Type} (R : (lo : Nat) → α → (hi : Nat) → Prop) : Prop where
  widen {lo lo' hi hi' : Nat} {a : α} : R lo a hi → lo' ≤ lo → hi ≤ hi' → R lo' a hi'

open Widens (widen)

/-- Values that stand one after the other between two offsets. -/
def InOrder {α : Type} (R : Nat → α → Nat → Prop) : (lo : Nat) → List α → (hi : Nat) → Prop
  | lo, [], hi => lo ≤ hi
  | lo, a :: as, hi => ∃ mid, lo ≤ mid ∧ R lo a mid ∧ InOrder R mid as hi

/-- A value that stands between two offsets, if there is one. -/
def IfAny {α : Type} (R : Nat → α → Nat → Prop) (lo : Nat) (a : Option α) (hi : Nat) : Prop :=
  lo ≤ hi ∧ ∀ b ∈ a, R lo b hi

/-- What does not depend on offsets. -/
instance {α : Type} {P : α → Prop} : Widens fun _ a _ => P a where
  widen h _ _ := h

section

variable {α : Type} {R : Nat → α → Nat → Prop}

theorem InOrder.le {lo hi : Nat} {as : List α} (h : InOrder R lo as hi) : lo ≤ hi := by
  induction as generalizing lo with
  | nil => exact h
  | cons a as ih =>
    obtain ⟨mid, hmid, -, has⟩ := h
    exact Nat.le_trans hmid (ih has)

theorem InOrder.upTo {lo hi hi' : Nat} {as : List α} (h : InOrder R lo as hi) (hle : hi ≤ hi') :
    InOrder R lo as hi' := by
  induction as generalizing lo with
  | nil => exact Nat.le_trans h hle
  | cons a as ih =>
    obtain ⟨mid, hmid, ha, has⟩ := h
    exact ⟨mid, hmid, ha, ih has⟩

variable [Widens R]

instance : Widens (InOrder R) where
  widen {lo lo' hi hi' as} h hlo hhi := by
    cases as with
    | nil => exact Nat.le_trans hlo (Nat.le_trans h hhi)
    | cons a as =>
      obtain ⟨mid, hmid, ha, has⟩ := h
      exact ⟨mid, Nat.le_trans hlo hmid, widen ha hlo (Nat.le_refl _), has.upTo hhi⟩

instance : Widens (IfAny R) where
  widen h hlo hhi :=
    ⟨Nat.le_trans hlo (Nat.le_trans h.1 hhi), fun b hb => widen (h.2 b hb) hlo hhi⟩

namespace InOrder

theorem append {lo mid hi : Nat} {as bs : List α} (h : InOrder R lo as mid)
    (h' : InOrder R mid bs hi) : InOrder R lo (as ++ bs) hi := by
  induction as generalizing lo with
  | nil => exact widen h' h (Nat.le_refl _)
  | cons a as ih =>
    obtain ⟨mid', hmid, ha, has⟩ := h
    exact ⟨mid', hmid, ha, ih has⟩

omit [Widens R] in
theorem singleton {lo hi : Nat} {a : α} (hle : lo ≤ hi) (h : R lo a hi) : InOrder R lo [a] hi :=
  ⟨hi, hle, h, Nat.le_refl hi⟩

theorem mem {lo hi : Nat} {as : List α} (h : InOrder R lo as hi) {a : α} (ha : a ∈ as) :
    R lo a hi := by
  induction as generalizing lo with
  | nil => cases ha
  | cons b as ih =>
    obtain ⟨mid, hmid, hb, has⟩ := h
    rcases List.mem_cons.mp ha with rfl | ha
    · exact widen hb (Nat.le_refl _) has.le
    · exact widen (ih has ha) hmid (Nat.le_refl _)

/-- Of two values, the first one ends before the second one begins. -/
theorem pairwise {lo hi : Nat} {as : List α} (h : InOrder R lo as hi) :
    as.Pairwise fun a b => ∃ mid, lo ≤ mid ∧ R lo a mid ∧ R mid b hi := by
  induction as generalizing lo with
  | nil => exact .nil
  | cons a as ih =>
    obtain ⟨mid, hmid, ha, has⟩ := h
    refine .cons (fun b hb => ⟨mid, hmid, ha, has.mem hb⟩) ((ih has).imp ?_)
    rintro b c ⟨mid', hmid', hb, hc⟩
    exact ⟨mid', Nat.le_trans hmid hmid', widen hb hmid (Nat.le_refl _), hc⟩

/-- Of values that may be missing, those that are there. -/
theorem filterMap {lo hi : Nat} {as : List (Option α)} (h : InOrder (IfAny R) lo as hi) :
    InOrder R lo (as.filterMap id) hi := by
  induction as generalizing lo with
  | nil => exact h
  | cons a as ih =>
    obtain ⟨mid, hmid, ha, has⟩ := h
    cases a with
    | none => exact widen (ih has) hmid (Nat.le_refl _)
    | some a => exact ⟨mid, hmid, ha.2 a rfl, ih has⟩

end InOrder
end

/-- What a parser gives, with the offsets where it begins and ends. -/
def Gives (text : List Char) {α : Type} (p : Parser α) (post : Nat → α → Nat → Prop) : Prop :=
  ∀ ⦃c d : Cursor⦄ ⦃a : α⦄ ⦃lo hi : Nat⦄, p.run c = .ok (a, d) → Laid text lo c.rest hi →
    ∃ mid, lo ≤ mid ∧ Laid text mid d.rest hi ∧ post lo a mid

namespace Gives

variable {text : List Char} {α β σ : Type} {P R : Nat → α → Nat → Prop} {Q : Nat → β → Nat → Prop}

/-- Any parser moves forward. -/
theorem any (p : Parser α) : Gives text p fun _ _ _ => True := by
  intro c d a lo hi h hl
  obtain ⟨mid, hmid, hrest⟩ := hl.suffix (p.forward h)
  exact ⟨mid, hmid, hrest, trivial⟩

theorem imp {p : Parser α} (h : Gives text p P) (hi : ∀ lo a hi, lo ≤ hi → P lo a hi → R lo a hi) :
    Gives text p R := by
  intro c d a lo hi' hrun hl
  obtain ⟨mid, hmid, hrest, hp⟩ := h hrun hl
  exact ⟨mid, hmid, hrest, hi lo a mid hmid hp⟩

theorem pure {a : α} (h : ∀ lo, P lo a lo) : Gives text (Pure.pure a) P := by
  intro c d b lo hi hrun hl
  cases hrun
  exact ⟨lo, Nat.le_refl lo, hl, h lo⟩

theorem fail : Gives text Parser.fail P := by
  intro c d a lo hi hrun
  cases hrun

theorem failAt {place : Blame} : Gives text (Parser.failAt place) P := by
  intro c d a lo hi hrun
  cases hrun

theorem ite {c : Prop} [Decidable c] {p q : Parser α} (hp : Gives text p P) (hq : Gives text q P) :
    Gives text (if c then p else q) P := by
  split
  · exact hp
  · exact hq

theorem bind {p : Parser α} {f : α → Parser β} (hp : Gives text p P)
    (hf : ∀ a, Gives text (f a) fun mid b hi => ∀ lo, lo ≤ mid → P lo a mid → Q lo b hi) :
    Gives text (p >>= f) Q := by
  intro c d b lo hi hrun hl
  simp only [Bind.bind] at hrun
  split at hrun
  · next a c' ha =>
    obtain ⟨mid, hmid, hrest, hP⟩ := hp ha hl
    obtain ⟨mid', hmid', hrest', hQ⟩ := hf a hrun hrest
    exact ⟨mid', Nat.le_trans hmid hmid', hrest', hQ lo hmid hP⟩
  · cases hrun

/-- Of the value that comes before, a property is known. -/
theorem knowing [Widens Q] {S : α → Prop} {p : Parser α} {f : α → Parser β}
    (hp : Gives text p fun _ a _ => S a) (hf : ∀ a, S a → Gives text (f a) Q) :
    Gives text (p >>= f) Q := by
  refine hp.bind fun a => ?_
  by_cases ha : S a
  · exact (hf a ha).imp fun _ _ _ _ h _ hlo _ => widen h hlo (Nat.le_refl _)
  · exact (any _).imp fun _ _ _ _ _ _ _ h => absurd h ha

/-- What comes before does not matter. -/
theorem after [Widens Q] {p : Parser α} {f : α → Parser β} (hf : ∀ a, Gives text (f a) Q) :
    Gives text (p >>= f) Q :=
  knowing (any p) fun a _ => hf a

/-- What is made of what was read. -/
theorem map {p : Parser α} {f : α → β} (hp : Gives text p P)
    (hf : ∀ lo a hi, lo ≤ hi → P lo a hi → Q lo (f a) hi) :
    Gives text (p >>= fun a => Pure.pure (f a)) Q :=
  hp.bind fun a => pure fun hi lo hle h => hf lo a hi hle h

theorem token {test : List Tree → Bool} (htest : ∀ ts, test ts = true → isAnyWord ts = true) :
    Gives text (Parser.token test) fun lo t hi => lo < hi ∧ (Parser.nameOf t).text ≠ "" := by
  intro c d t lo hi hrun hl
  simp only [Parser.token] at hrun
  split at hrun
  · next t' rest hc =>
    split at hrun
    · next ht =>
      cases hrun
      have hword := htest _ ht
      rw [hc] at hl hword
      cases hl with
      | @word _ _ pos raw name _ hname hpos hrest =>
        have hspelled : Tree.spelled raw name ≠ "" := by
          cases raw <;> simp [Tree.spelled, hname]
        exact ⟨pos + 1, by omega, hrest, by omega, hspelled⟩
      | mark => cases hword
      | literal => cases hword
      | group => cases hword
    · cases hrun
  · cases hrun

theorem inside {d : Delimiter} {p : Parser α} (hp : Gives text p P) :
    Gives text (Parser.inside d p) fun lo r hi => lo ≤ r.1.start ∧ r.1.start < r.1.stop ∧
      r.1.stop = hi ∧ Boundary text r.1.stop ∧
      (d = .brace → IsBlock text r.1.start (r.1.stop - 1)) ∧
      ∃ mid, mid ≤ r.1.stop ∧ P r.1.start r.2 mid := by
  intro c e r lo hi hrun hl
  simp only [Parser.inside] at hrun
  split at hrun
  · next d' start stop trees rest hc =>
    split at hrun
    · next hd =>
      split at hrun
      · next a i hin =>
        cases hrun
        subst hd
        rw [hc] at hl
        cases hl with
        | group hstart hlt hlaid hstop hblock hrest =>
          obtain ⟨mid, -, hleft, hP⟩ := hp hin hlaid
          exact ⟨stop, by omega, hrest, hstart, hlt, rfl, hstop, hblock, mid, hleft.le, hP⟩
      · cases hrun
    · cases hrun
  · cases hrun

/-- What is read inside a group stands where the group does. -/
theorem within [Widens P] {d : Delimiter} {p : Parser α} (hp : Gives text p P) :
    Gives text (Parser.inside d p) fun lo r hi => P lo r.2 hi :=
  (inside hp).imp fun _ _ _ _ h => by
    obtain ⟨hstart, -, rfl, -, -, mid, hmid, hP⟩ := h
    exact widen hP hstart hmid

/-- An invariant of a step, between the state and the offset, is one of the loop. -/
theorem loop {step : σ → Parser (σ × Bool)} {I : σ → Nat → Prop}
    (hs : ∀ s, Gives text (step s) fun lo r hi => I s lo → I r.1 hi) (fuel : Nat) (s : σ) :
    Gives text (Parser.loop step fuel s) fun lo s' hi => I s lo → I s' hi := by
  induction fuel generalizing s with
  | zero => exact fail
  | succ fuel ih =>
    refine (hs s).bind fun r => ?_
    obtain ⟨s', more⟩ := r
    cases more with
    | true => exact (ih s').imp fun _ _ _ _ h _ _ hI hs => h (hI hs)
    | false => exact pure fun mid lo _ hI hs => hI hs

/-- Values that are collected, last first, by a step that adds at most one of them. -/
theorem collected [Widens P] {step : List α → Parser (List α × Bool)}
    (hs : ∀ as, Gives text (step as) fun lo r hi =>
      r.1 = as ∨ ∃ a, P lo a hi ∧ r.1 = a :: as) :
    Gives text (Parser.repeating [] step >>= fun as => Pure.pure as.reverse) (InOrder P) := by
  intro c d as lo hi hrun hl
  -- What has been read so far stands between the beginning and the cursor.
  let read (as : List α) (pos : Nat) : Prop := InOrder P lo as.reverse pos
  have hstep (as : List α) : Gives text (step as) fun pos r pos' => read as pos → read r.1 pos' := by
    refine (hs as).imp fun pos r pos' hle h hread => ?_
    rcases h with h | ⟨a, ha, h⟩
    · rw [h]
      exact hread.upTo hle
    · simp only [read, h, List.reverse_cons]
      exact hread.append (.singleton hle ha)
  have hall : Gives text (Parser.repeating [] step) fun pos as pos' => read [] pos → read as pos' :=
    (any _).bind fun n => (loop hstep (n + 2) []).imp fun mid as pos' _ h pos hle _ h0 =>
      h (Nat.le_trans h0 hle)
  have hreversed : Gives text (Parser.repeating [] step >>= fun as => Pure.pure as.reverse)
      fun pos as pos' => read [] pos → read as.reverse pos' :=
    hall.map fun pos as pos' _ h h0 => by simpa [read] using h h0
  obtain ⟨mid, hmid, hrest, hread⟩ := hreversed hrun hl
  exact ⟨mid, hmid, hrest, by simpa [read] using hread (Nat.le_refl lo)⟩

/-- Values read one after the other. -/
theorem many [Widens P] {p : Parser α} (hp : Gives text p P) :
    Gives text (Parser.many p) (InOrder P) := by
  refine collected fun as => (any _).bind fun ended => ?_
  split
  · exact pure fun _ _ _ _ => .inl rfl
  · exact hp.map fun mid a hi _ ha lo hle _ => .inr ⟨a, widen ha hle (Nat.le_refl _), rfl⟩

end Gives

/-- At least one byte is passed over. -/
def Moves {α : Type} (lo : Nat) (_ : α) (hi : Nat) : Prop := lo < hi

instance {α : Type} : Widens (Moves (α := α)) where
  widen h hlo hhi := Nat.lt_of_le_of_lt hlo (Nat.lt_of_lt_of_le h hhi)

namespace Gives

variable {text : List Char} {α β : Type}

theorem before {p : Parser α} (h : Gives text p Moves) (f : α → Parser β) :
    Gives text (p >>= f) Moves :=
  h.bind fun a => (any (f a)).imp fun _ _ _ hle _ _ _ hlt => Nat.lt_of_lt_of_le hlt hle

theorem keyword (k : String) : Gives text (Parser.keyword k) Moves := by
  refine before ((token fun ts h => ?_).imp fun _ _ _ _ h => h.1) _
  cases ts with
  | nil => cases h
  | cons t ts => cases t <;> first | rfl | cases h

theorem ident : Gives text Parser.ident fun _ name _ => name.text ≠ "" := by
  refine map (token fun ts h => ?_) fun _ _ _ _ h => h.2
  cases ts with
  | nil => cases h
  | cons t ts => cases t <;> first | rfl | cases h

theorem anyWord : Gives text Parser.anyWord fun _ name _ => name.text ≠ "" :=
  map (token fun _ h => h) fun _ _ _ _ h => h.2

end Gives

end Instrumentation.Source
