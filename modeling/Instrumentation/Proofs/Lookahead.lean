import Instrumentation.Proofs.Lexes
import Mathlib.Data.List.TakeWhile

/-!
How far the reader looks ahead. What is read before the end of a group in brackets, or before a
comment that documents, does not depend on what comes after.
-/
namespace Instrumentation.Source

open Text (byteLength isWordStart isWordContinue)

/-- Texts that go on with the same end of a group, or both with a comment, and then as they like. -/
inductive SameStop : List Char → List Char → Prop
  | bracket (r r' : List Char) : SameStop (']' :: r) (']' :: r')
  | comment (r r' : List Char) : SameStop ('/' :: '*' :: '!' :: r) ('/' :: '*' :: '!' :: r')

/-- No number and no word goes on with this text. -/
inductive Ends : List Char → Prop
  | bracket (r : List Char) : Ends (']' :: r)
  | slash (r : List Char) : Ends ('/' :: r)
  | blank (r : List Char) : Ends (' ' :: r)
  | semicolon (r : List Char) : Ends (';' :: r)

namespace SameStop

variable {r r' : List Char}

theorem symm (h : SameStop r r') : SameStop r' r := by
  cases h with
  | bracket => exact .bracket _ _
  | comment => exact .comment _ _

theorem ends (h : SameStop r r') : Ends r := by
  cases h with
  | bracket => exact .bracket _
  | comment => exact .slash _

theorem ne_nil (h : SameStop r r') : r' ≠ [] := by
  cases h <;> simp

theorem head?_append (h : SameStop r r') (x : List Char) : (x ++ r).head? = (x ++ r').head? := by
  cases h <;> cases x <;> rfl

end SameStop

/-! ### Words and numbers -/

/-- A lexeme with more text behind what follows it. -/
def Split.before (r : List Char) (s : Split) : Split := (s.1, s.2 ++ r)

section

variable {r : List Char}

theorem Ends.takeWhile (h : Ends r) (x : List Char) :
    (x ++ r).takeWhile isWordContinue = x.takeWhile isWordContinue := by
  induction x with
  | nil => cases h <;> rfl
  | cons c x ih => simp only [List.cons_append, List.takeWhile_cons, ih]

theorem Ends.dropWhile (h : Ends r) (x : List Char) :
    (x ++ r).dropWhile isWordContinue = x.dropWhile isWordContinue ++ r := by
  induction x with
  | nil => cases h <;> rfl
  | cons c x ih =>
    simp only [List.cons_append, List.dropWhile_cons, ih]
    split <;> rfl

theorem readName_append (h : Ends r) (x : List Char) :
    readName (x ++ r) = (readName x).map (Split.before r) := by
  cases x with
  | nil => cases h <;> rfl
  | cons c x =>
    simp only [List.cons_append, readName, h.takeWhile, h.dropWhile]
    split <;> rfl

theorem readSuffix_append (h : Ends r) (x : List Char) :
    readSuffix (x ++ r) = (readSuffix x).before r := by
  rw [readSuffix, readSuffix, readName_append h]
  cases readName x <;> rfl

theorem withSuffix_before (h : Ends r) (s : Split) :
    withSuffix (s.before r) = (withSuffix s).before r := by
  simp only [withSuffix, Split.before, readSuffix_append h]

theorem endNumber_before (h : Ends r) (s : Split) :
    endNumber (s.before r) = (endNumber s).map (Split.before r) := by
  rw [endNumber, endNumber, withSuffix_before h]
  obtain ⟨lexeme, rest⟩ := withSuffix s
  cases rest with
  | nil => cases h <;> rfl
  | cons c rest =>
    simp only [Split.before, List.cons_append]
    split <;> rfl

theorem readMantissa_append (h : Ends r) (dot : Bool) (x : List Char) :
    readMantissa dot (x ++ r) =
      (readMantissa dot x).map fun (d, e, s) => (d, e, s.before r) := by
  induction x generalizing dot with
  | nil => cases h <;> cases dot <;> rfl
  | cons c x ih =>
    rw [List.cons_append, readMantissa.eq_def, readMantissa.eq_def dot (c :: x)]
    simp only
    split
    · rw [ih]
      cases readMantissa dot x <;> rfl
    · split
      · cases x with
        | nil => cases h <;> rfl
        | cons d x =>
          simp only [List.cons_append]
          split
          · rfl
          · rw [← List.cons_append, ih]
            cases readMantissa true (d :: x) <;> rfl
      · split <;> rfl

theorem readExponent_append (h : Ends r) (signed valued : Bool) (x : List Char) :
    readExponent signed valued (x ++ r) =
      (readExponent signed valued x).map fun (v, s) => (v, s.before r) := by
  induction x generalizing signed valued with
  | nil => cases h <;> rfl
  | cons c x ih =>
    rw [List.cons_append, readExponent, readExponent]
    split
    · split
      · rfl
      · split
        · rfl
        · rw [ih]
          cases readExponent true valued x <;> rfl
    · split
      · rw [ih]
        cases readExponent signed true x <;> rfl
      · split
        · rw [ih]
          cases readExponent signed valued x <;> rfl
        · rfl

theorem readFloatDigits_append (h : Ends r) (x : List Char) :
    readFloatDigits (x ++ r) = (readFloatDigits x).map (Split.before r) := by
  cases x with
  | nil => cases h <;> rfl
  | cons c x =>
    have hmantissa := readMantissa_append h false (c :: x)
    simp only [List.cons_append] at hmantissa
    simp only [List.cons_append, readFloatDigits, hmantissa]
    split
    · rfl
    · cases readMantissa false (c :: x) with
      | none => rfl
      | some m =>
        obtain ⟨dot, mark, lexeme, rest⟩ := m
        cases mark with
        | false => cases dot <;> rfl
        | true =>
          simp only [Option.map_some, Split.before, readExponent_append h]
          cases readExponent false false rest with
          | none => cases dot <;> simp [Split.before]
          | some e =>
            obtain ⟨valued, s⟩ := e
            cases valued with
            | true => rfl
            | false => cases dot <;> simp [Split.before]

theorem readDigits_append (h : Ends r) (base : Nat) (blank : Bool) (x : List Char) :
    readDigits base blank (x ++ r) =
      (readDigits base blank x).map fun (b, s) => (b, s.before r) := by
  induction x generalizing blank with
  | nil => cases h <;> rfl
  | cons c x ih =>
    rw [List.cons_append, readDigits, readDigits]
    split
    · split
      · rw [ih]
        cases readDigits base false x <;> rfl
      · rfl
    · split
      · rw [ih]
        cases readDigits base false x <;> rfl
      · split
        · split
          · rfl
          · rw [ih]
            cases readDigits base blank x <;> rfl
        · rfl

theorem readBase_append (h : Ends r) (x : List Char) :
    readBase (x ++ r) = ((readBase x).1, (readBase x).2.1, (readBase x).2.2 ++ r) := by
  match x with
  | [] => cases h <;> rfl
  | [c] =>
    have hone (d : Char) (hd : d ≠ 'x' ∧ d ≠ 'o' ∧ d ≠ 'b') (cs : List Char) :
        readBase (c :: d :: cs) = (10, [], c :: d :: cs) := by
      unfold readBase
      split <;> simp_all
    have hnone : readBase [c] = (10, [], [c]) := by
      unfold readBase
      split <;> simp_all
    cases h <;> rw [hnone, List.cons_append, List.nil_append, hone _ (by decide)]
  | c :: d :: x =>
    simp only [List.cons_append, readBase]
    split <;> simp_all

theorem readIntDigits_append (h : Ends r) (x : List Char) :
    readIntDigits (x ++ r) = (readIntDigits x).map (Split.before r) := by
  simp only [readIntDigits, readBase_append h, readDigits_append h]
  cases readDigits (readBase x).1 true (readBase x).2.2 with
  | none => rfl
  | some d =>
    obtain ⟨blank, s⟩ := d
    cases blank <;> rfl

theorem readNumber_append (h : Ends r) (x : List Char) :
    readNumber (x ++ r) = (readNumber x).map (Split.before r) := by
  have hend (o : Option Split) : (o.map (Split.before r)).bind endNumber =
      (o.bind endNumber).map (Split.before r) := by
    cases o with
    | none => rfl
    | some s => exact endNumber_before h s
  rw [readNumber, readNumber, readFloatDigits_append h, readIntDigits_append h, hend, hend]
  cases (readFloatDigits x).bind endNumber <;> rfl

end

/-! ### Quoted texts -/

section

variable {cs t z : List Char}

/-- What is left of a lexeme without the lead that a reader has put in front of it. -/
theorem exists_of_map_after {o : Option Split} {lead : List Char}
    (h : o.map (Split.after lead) = some (t, z)) : ∃ t', t = lead ++ t' ∧ o = some (t', z) := by
  obtain ⟨⟨t', z⟩, hb, heq⟩ := Option.map_eq_some_iff.mp h
  cases heq
  exact ⟨t', rfl, hb⟩

theorem readQuoted_local {kind : TextKind} {state : TextState}
    (h : readQuoted kind state cs = some (t, z)) (z' : List Char) :
    readQuoted kind state (t ++ z') = some (t, z') := by
  fun_induction readQuoted kind state cs generalizing t with
  | case1 => cases h
  | case2 state c cs hc =>
    cases h
    simp [readQuoted, hc]
  | case3 => cases h
  | case4 state c cs hc next hnext ih =>
    obtain ⟨t', rfl, h'⟩ := exists_of_map_after h
    simp [readQuoted, hc, hnext, ih h', Split.after]

theorem length_readRaw {kind : TextKind} {hashes : List Char} {returned : Bool} {s : Split}
    (h : readRaw kind hashes returned cs = some s) : hashes.length < s.1.length := by
  have hmore {c : Char} {o : Option Split} {s : Split} (ho : o.map (Split.after [c]) = some s)
      (ih : ∀ b, o = some b → hashes.length < b.1.length) : hashes.length < s.1.length := by
    obtain ⟨b, hb, rfl⟩ := Option.map_eq_some_iff.mp ho
    exact Nat.lt_succ_of_lt (ih b hb)
  fun_induction readRaw kind hashes returned cs generalizing s with
  | case1 => cases h
  | case2 => next ih => exact hmore h fun _ => ih
  | case3 => cases h
  | case4 =>
    cases h
    simp
  | case5 => next ih => exact hmore h fun _ => ih
  | case6 => cases h
  | case7 => next ih => exact hmore h fun _ => ih

theorem readRaw_local {kind : TextKind} {hashes : List Char} {returned : Bool}
    (h : readRaw kind hashes returned cs = some (t, z)) (z' : List Char) :
    readRaw kind hashes returned (t ++ z') = some (t, z') := by
  -- A quote that does not close the text does not do so before something else either.
  have hopen {c : Char} {returned : Bool} {cs t : List Char}
      (hc : ¬(c = '"' && hashes.isPrefixOf cs) = true)
      (h : readRaw kind hashes returned (t ++ z') = some (t, z')) (hcs : t ++ z = cs) :
      (c = '"' && hashes.isPrefixOf (t ++ z')) = false := by
    subst hcs
    have hlen := length_readRaw h
    rw [← Bool.not_eq_true]
    simp only [Bool.and_eq_true, List.isPrefixOf_iff_prefix, not_and] at hc ⊢
    intro hquote hpre
    exact hc hquote ((List.prefix_of_prefix_length_le hpre (List.prefix_append t z')
      (Nat.le_of_lt hlen)).trans (List.prefix_append t z))
  fun_induction readRaw kind hashes returned cs generalizing t with
  | case1 => cases h
  | case2 =>
    next ih =>
    obtain ⟨t', rfl, h'⟩ := exists_of_map_after h
    simp [readRaw, ih h', Split.after]
  | case3 => cases h
  | case4 returned c cs hr hc =>
    cases h
    have hquote : c = '"' := by simp_all
    simp [readRaw, hr, hquote]
  | case5 =>
    next hr hc ih =>
    obtain ⟨t', rfl, h'⟩ := exists_of_map_after h
    simp [readRaw, hr, ih h', Split.after]
  | case6 => cases h
  | case7 =>
    next hr hc hreturn hkind ih =>
    obtain ⟨t', rfl, h'⟩ := exists_of_map_after h
    have hc' := hopen hc (ih h') (cuts_readRaw h')
    simp only [List.cons_append, List.nil_append, readRaw, hr, hc', hreturn, hkind, ih h',
      Bool.false_eq_true, ↓reduceIte, Option.map_some, Split.after]

theorem readRawText_local {kind : TextKind} (h : readRawText kind cs = some (t, z))
    (z' : List Char) : readRawText kind (t ++ z') = some (t, z') := by
  simp only [readRawText] at h
  split at h
  · next rest hrest =>
    split at h
    · cases h
    · next hlen =>
      obtain ⟨t', rfl, h'⟩ := exists_of_map_after h
      have hall : ∀ c ∈ cs.takeWhile (· == '#'), (fun d => d == '#') c := fun _ hc =>
        List.mem_takeWhile_imp (p := fun d => d == '#') hc
      have htake : (cs.takeWhile (· == '#') ++ ['"'] ++ t' ++ z').takeWhile (· == '#') =
          cs.takeWhile (· == '#') := by
        simp [List.takeWhile_append_of_pos hall]
      simp only [readRawText, htake]
      simp [hlen, readRaw_local h' z', Split.after]
  · cases h

theorem textLexeme_local (h : TextLexeme cs (t, z)) (z' : List Char) :
    TextLexeme (t ++ z') (t, z') := by
  obtain ⟨s, hs⟩ : ∃ s, s = (t, z) := ⟨_, rfl⟩
  rw [← hs] at h
  cases h with
  | quoted kind hread =>
    cases hs
    simpa [Split.after] using TextLexeme.quoted kind (readQuoted_local hread z')
  | raw kind hread =>
    cases hs
    simpa [Split.after] using TextLexeme.raw kind (readRawText_local hread z')

/-- A text literal is read as far as its suffix whatever follows. -/
theorem readTextLiteral_local {s : Split} (h : readTextLiteral cs = some s) :
    ∃ t z, t ++ z = cs ∧ s = withSuffix (t, z) ∧
      ∀ z', readTextLiteral (t ++ z') = some (withSuffix (t, z')) := by
  obtain ⟨⟨t, z⟩, hs, rfl⟩ := readTextLiteral_eq_some_iff.mp h
  exact ⟨t, z, hs.cuts, rfl, fun z' => readTextLiteral_eq_some_iff.mpr ⟨_, textLexeme_local hs z', rfl⟩⟩

theorem readCharLiteral_local {s : Split} (h : readCharLiteral cs = some s) :
    ∃ t z, t ++ z = cs ∧ s = withSuffix (t, z) ∧
      ∀ z', readCharLiteral (t ++ z') = some (withSuffix (t, z')) := by
  obtain ⟨t, z, rfl, hlexeme, rfl⟩ := readCharLiteral_eq_some_iff.mp h
  exact ⟨t, z, rfl, rfl, fun z' => readCharLiteral_eq_some_iff.mpr ⟨t, z', rfl, hlexeme, rfl⟩⟩

end

/-! ### Tokens -/

section

variable {r r' x y : List Char}

/-- A split of a text that ends with `r`, which is not touched, is one of any text. -/
theorem eq_of_before {s : Split} {t : List Char} (h : s.before r = (t, y ++ r)) : s = (t, y) := by
  obtain ⟨t', z⟩ := s
  simp only [Split.before, Prod.mk.injEq, List.append_cancel_right_eq] at h
  exact Prod.ext h.1 h.2

/-- A lexeme of which only the suffix is looked for up to the end. -/
theorem withSuffix_carry {f : List Char → Option Split} (hr : Ends r) (hr' : Ends r')
    {t : List Char} (hlocal : ∀ {cs s}, f cs = some s → ∃ t z, t ++ z = cs ∧ s = withSuffix (t, z) ∧
      ∀ z', f (t ++ z') = some (withSuffix (t, z')))
    (h : f (x ++ r) = some (t, y ++ r)) : f (x ++ r') = some (t, y ++ r') := by
  obtain ⟨t', z, hcs, hs, hf⟩ := hlocal h
  have hcut : (readSuffix z).1 ++ (readSuffix z).2 = z := cuts_readSuffix z
  simp only [withSuffix, Prod.mk.injEq] at hs
  rw [← hs.2, ← List.append_assoc] at hcut
  -- The suffix ends before `r`, and so does what stands before the suffix.
  obtain ⟨z', rfl⟩ : ∃ z', z = z' ++ r := ⟨_, hcut.symm⟩
  obtain rfl : t' ++ z' = x := by
    rwa [← List.append_assoc, List.append_cancel_right_eq] at hcs
  have hsuffix : withSuffix (t', z') = (t, y) := by
    refine eq_of_before (r := r) ?_
    rw [← withSuffix_before hr]
    exact Prod.ext hs.1.symm hs.2.symm
  have hafter := withSuffix_before hr' (t', z')
  rw [hsuffix] at hafter
  rw [List.append_assoc, hf]
  exact congrArg some hafter

theorem readAnyWord_append (h : Ends r) (x : List Char) :
    readAnyWord (x ++ r) = (readAnyWord x).map fun w => (w.1, w.2.1, w.2.2 ++ r) := by
  have hname (x : List Char) : ((readName (x ++ r)).map fun s => (false, s.1, s.2)) =
      ((readName x).map fun s => (false, s.1, s.2)).map fun w => (w.1, w.2.1, w.2.2 ++ r) := by
    rw [readName_append h]
    cases readName x <;> rfl
  have hplain {cs : List Char} (hcs : ∀ rest, cs ≠ 'r' :: '#' :: rest) :
      readAnyWord cs = (readName cs).map fun s => (false, s.1, s.2) := by
    unfold readAnyWord
    split
    · exact absurd rfl (hcs _)
    · rfl
  match x with
  | [] => cases h <;> rfl
  | [c] =>
    rw [hplain (by cases h <;> simp), hplain (by simp), hname]
  | c :: d :: x =>
    by_cases hraw : c = 'r' ∧ d = '#'
    · obtain ⟨rfl, rfl⟩ := hraw
      simp only [List.cons_append, readAnyWord, readName_append h]
      cases readName x with
      | none => rfl
      | some s =>
        simp only [Option.map_some, Split.before]
        split <;> rfl
    · have hne (x : List Char) (rest : List Char) : c :: d :: x ≠ 'r' :: '#' :: rest := by
        intro heq
        simp only [List.cons.injEq] at heq
        exact hraw ⟨heq.1, heq.2.1⟩
      rw [List.cons_append, List.cons_append, hplain (hne (x ++ r)), hplain (hne x)]
      exact hname (c :: d :: x)

theorem Ends.exists_cons (h : Ends r) : ∃ c z, r = c :: z ∧ [']', '/', ' ', ';'].contains c := by
  cases h <;> exact ⟨_, _, rfl, by decide⟩

theorem isPrefixOf_append (h : Ends r) {q : List Char}
    (hq : ∀ c ∈ q, [']', '/', ' ', ';'].contains c = false) (x : List Char) :
    q.isPrefixOf (x ++ r) = q.isPrefixOf x := by
  induction x generalizing q with
  | nil =>
    cases q with
    | nil => rfl
    | cons c q =>
      obtain ⟨d, z, rfl, hd⟩ := h.exists_cons
      have hcd : (c == d) = false := beq_eq_false_iff_ne.mpr fun heq => by
        rw [← heq, hq c List.mem_cons_self] at hd
        cases hd
      simp [List.isPrefixOf, hcd]
  | cons c x ih =>
    cases q with
    | nil => rfl
    | cons d q => simp [List.isPrefixOf, ih fun c hc => hq c (List.mem_cons_of_mem d hc)]

/-- A mark is told by its character and the next one. -/
theorem readMark_cons (c : Char) (cs : List Char) : readMark (c :: cs) =
    if c = '/' ∧ (cs.head? = some '/' ∨ cs.head? = some '*') then none
    else if "~!@#$%^&*-=+|;:,<.>/?'".toList.contains c then some (c, cs) else none := by
  by_cases hslash : c = '/' ∧ (cs.head? = some '/' ∨ cs.head? = some '*')
  · rw [if_pos hslash]
    obtain ⟨rfl, hhead⟩ := hslash
    cases cs with
    | nil => simp at hhead
    | cons d cs => rcases hhead with h | h <;> cases h <;> rfl
  · rw [if_neg hslash]
    unfold readMark
    split <;> simp_all

theorem readMark_carry (h : SameStop r r') {c : Char} {rest : List Char}
    (hmark : readMark (x ++ r) = some (c, rest)) :
    ∃ x', x = c :: x' ∧ rest = x' ++ r ∧ readMark (x ++ r') = some (c, x' ++ r') := by
  have hmarks : ']' ∉ "~!@#$%^&*-=+|;:,<.>/?'".toList := by decide
  cases x with
  | nil =>
    cases h with
    | bracket => simp [readMark] at hmark
    | comment => cases hmark
  | cons c' x =>
    have hhead := h.head?_append x
    have heq := readMark_eq_some hmark
    simp only [List.cons_append, List.cons.injEq] at heq
    obtain ⟨rfl, rfl⟩ := heq
    refine ⟨x, rfl, rfl, ?_⟩
    simp only [List.cons_append] at hmark ⊢
    rw [readMark_cons] at hmark ⊢
    rw [← hhead]
    split at hmark
    · cases hmark
    · next hslash =>
      split at hmark
      · next hc => rw [if_neg hslash, if_pos hc]
      · cases hmark

theorem readMark_eq_none_iff (h : SameStop r r') :
    readMark (x ++ r) = none ↔ readMark (x ++ r') = none := by
  have hnone {r r' : List Char} (h : SameStop r r') (hn : readMark (x ++ r') = none) :
      readMark (x ++ r) = none := by
    by_contra hsome
    obtain ⟨⟨c, rest⟩, hmark⟩ := Option.ne_none_iff_exists'.mp hsome
    obtain ⟨x', -, -, hmark'⟩ := readMark_carry h hmark
    rw [hn] at hmark'
    cases hmark'
  exact ⟨hnone h.symm, hnone h⟩

theorem readRawText_head {kind : TextKind} {cs : List Char} {s : Split}
    (h : readRawText kind cs = some s) :
    ∃ w, cs = '"' :: w ∨ cs = '#' :: '"' :: w ∨ cs = '#' :: '#' :: w := by
  simp only [readRawText] at h
  split at h
  · next rest hrest =>
    rcases cs with _ | ⟨c, _ | ⟨d, w⟩⟩
    · simp at hrest
    · by_cases hc : c = '#' <;> simp_all
    · by_cases hc : c = '#' <;> by_cases hd : d = '#' <;> simp_all
  · cases h

/-- A quote or a raw mark is seen at once. -/
theorem readTextLiteral_head {cs : List Char} {s : Split} (h : readTextLiteral cs = some s) :
    cs.head? = some '"' ∨ (quoteStarts.any fun q => q.isPrefixOf cs) = true := by
  obtain ⟨s', hs', -⟩ := readTextLiteral_eq_some_iff.mp h
  cases hs' with
  | quoted kind =>
    cases kind with
    | chars => exact .inl rfl
    | bytes => exact .inr (by simp [TextKind.letter, quoteStarts, List.isPrefixOf])
    | zeroFree => exact .inr (by simp [TextKind.letter, quoteStarts, List.isPrefixOf])
  | raw kind hread =>
    refine .inr ?_
    obtain ⟨w, rfl | rfl | rfl⟩ := readRawText_head hread <;>
      cases kind <;> simp [TextKind.letter, quoteStarts, List.isPrefixOf]

theorem readCharLiteral_head {cs : List Char} {s : Split} (h : readCharLiteral cs = some s) :
    cs.head? = some '\'' ∨ ∃ w, cs = 'b' :: '\'' :: w := by
  unfold readCharLiteral at h
  split at h
  · exact .inr ⟨_, rfl⟩
  · exact .inl rfl
  · cases h

theorem isDigit_eq_false {c : Char} (h : isWordStart c) : c.isDigit = false := by
  unfold isWordStart Char.isAlpha Char.isUpper Char.isLower at h
  simp only [Char.toNat, Bool.or_eq_true, Bool.and_eq_true, beq_iff_eq, decide_eq_true_eq, ge_iff_le,
    UInt32.le_iff_toNat_le] at h
  simp only [Char.isDigit, Bool.and_eq_false_iff, decide_eq_false_iff_not, ge_iff_le,
    UInt32.le_iff_toNat_le]
  have h9 : '9'.val.toNat = 57 := rfl
  have hA : 'A'.val.toNat = 65 := rfl
  have ha : 'a'.val.toNat = 97 := rfl
  rcases h with (hletter | rfl) | hbeyond
  · omega
  · decide
  · omega

/-- A word that is not the start of a quoted text is no literal. -/
theorem readLiteral_eq_none_of_word {c : Char} {cs : List Char} (hc : isWordStart c)
    (hquote : (quoteStarts.any fun q => q.isPrefixOf (c :: cs)) = false) :
    readLiteral (c :: cs) = none := by
  have hdigit : c.isDigit = false := isDigit_eq_false hc
  have htext : readTextLiteral (c :: cs) = none := by
    by_contra hsome
    obtain ⟨s, hs⟩ := Option.ne_none_iff_exists'.mp hsome
    rcases readTextLiteral_head hs with h | h
    · cases h
      exact absurd hc (by decide)
    · rw [hquote] at h
      cases h
  have hchar : readCharLiteral (c :: cs) = none := by
    by_contra hsome
    obtain ⟨s, hs⟩ := Option.ne_none_iff_exists'.mp hsome
    rcases readCharLiteral_head hs with h | ⟨w, h⟩
    · cases h
      exact absurd hc (by decide)
    · cases h
      simp [quoteStarts, List.isPrefixOf] at hquote
  simp [readLiteral, htext, hchar, readNumber_eq_none cs hdigit]

theorem readTextLiteral_eq_none_of_char {cs : List Char} {s : Split}
    (h : readCharLiteral cs = some s) : readTextLiteral cs = none := by
  rcases readCharLiteral_head h with hhead | ⟨w, rfl⟩
  · cases cs with
    | nil => rfl
    | cons c cs =>
      cases hhead
      simp [readTextLiteral]
  · simp [readTextLiteral]

theorem startsText_eq_false {c : Char} (h : c.isDigit) : startsText c = false := by
  by_contra hstart
  simp only [startsText, List.contains_eq_mem, List.mem_cons, List.not_mem_nil, or_false,
    Bool.not_eq_false, decide_eq_true_eq] at hstart
  rcases hstart with rfl | rfl | rfl | rfl | rfl <;> exact absurd h (by decide)

theorem readLiteral_carry (h : SameStop r r') {t : List Char}
    (hlit : readLiteral (x ++ r) = some (t, y ++ r)) : readLiteral (x ++ r') = some (t, y ++ r') := by
  have hcut : t ++ y = x := by
    have hcs : t ++ (y ++ r) = x ++ r := cuts_readLiteral hlit
    rwa [← List.append_assoc, List.append_cancel_right_eq] at hcs
  have hne := readLiteral_ne_nil hlit
  simp only [readLiteral, Option.or_eq_some_iff] at hlit ⊢
  rcases hlit with htext | ⟨-, hchar | ⟨-, hnumber⟩⟩
  · exact .inl (withSuffix_carry h.ends h.symm.ends (fun h => readTextLiteral_local h) htext)
  · have hchar' := withSuffix_carry h.ends h.symm.ends (fun h => readCharLiteral_local h) hchar
    exact .inr ⟨readTextLiteral_eq_none_of_char hchar', .inl hchar'⟩
  · obtain ⟨c, x', rfl⟩ : ∃ c x', x = c :: x' := by
      cases t with
      | nil => exact absurd rfl hne
      | cons c t => exact ⟨c, t ++ y, hcut.symm⟩
    have hdigit : c.isDigit := by
      by_contra hno
      rw [List.cons_append, readNumber_eq_none _ (by simpa using hno)] at hnumber
      cases hnumber
    have hstart := startsText_eq_false hdigit
    refine .inr ⟨readTextLiteral_eq_none _ hstart, .inr ⟨readCharLiteral_eq_none _ hstart, ?_⟩⟩
    rw [readNumber_append h.ends, Option.map_eq_some_iff] at hnumber
    obtain ⟨s, hs, hbefore⟩ := hnumber
    rw [readNumber_append h.symm.ends, hs, eq_of_before hbefore]
    rfl

/-- A tick is a character literal if another tick stands behind the next character. -/
theorem readLiteral_tick {c : Char} (hc : c ≠ '\\') (cs : List Char) :
    readLiteral ('\'' :: c :: cs) = none ↔ cs.head? ≠ some '\'' := by
  have htext : readTextLiteral ('\'' :: c :: cs) = none := by simp [readTextLiteral]
  have hbody : readCharBody (c :: cs) = some ([c], cs) :=
    readCharBody_eq_some_iff.mpr ⟨rfl, .plain hc⟩
  simp only [readLiteral, htext, readNumber_eq_none _ (by decide : ('\'' : Char).isDigit = false),
    Option.or_none, Option.none_or, readCharLiteral, hbody]
  cases cs with
  | nil => simp [closeQuote]
  | cons d cs =>
    unfold closeQuote
    split <;> simp_all

theorem readAnyWord_head {cs : List Char} {w : Bool × List Char × List Char}
    (h : readAnyWord cs = some w) : ∃ c rest, cs = c :: rest ∧ isWordStart c := by
  cases cs with
  | nil => cases h
  | cons c cs =>
    refine ⟨c, cs, rfl, ?_⟩
    by_contra hc
    rw [readAnyWord_eq_none cs (by simpa using hc)] at h
    cases h

theorem any_quoteStarts_append (h : Ends r) (x : List Char) :
    (quoteStarts.any fun q => q.isPrefixOf (x ++ r)) = quoteStarts.any fun q => q.isPrefixOf x := by
  have hfree : (quoteStarts.all fun q => q.all fun c => !([']', '/', ' ', ';'].contains c)) =
      true := by
    decide
  rw [Bool.eq_iff_iff]
  simp only [List.any_eq_true]
  refine exists_congr fun q => and_congr_right fun hq => ?_
  have hchars := List.all_eq_true.mp (List.all_eq_true.mp hfree q hq)
  rw [isPrefixOf_append h (fun c hc => by simpa using hchars c hc) x]

/-- An operator other than a tick starts no literal. -/
theorem readLiteral_eq_none_of_mark {c : Char} {cs rest : List Char}
    (h : readMark (c :: cs) = some (c, rest)) (hc : c ≠ '\'') (cs' : List Char) :
    readLiteral (c :: cs') = none := by
  have hmarks : "~!@#$%^&*-=+|;:,<.>/?'".toList.contains c := by
    rw [readMark_cons] at h
    split at h
    · cases h
    · split at h
      · assumption
      · cases h
  have hall : ("~!@#$%^&*-=+|;:,<.>/?'".toList.all fun d =>
      d == '\'' || (!d.isDigit && !startsText d)) = true := by decide
  have hcases := List.all_eq_true.mp hall c (List.elem_iff.mp hmarks)
  simp only [beq_eq_false_iff_ne.mpr hc, Bool.false_or, Bool.and_eq_true, Bool.not_eq_true'] at hcases
  exact readLiteral_eq_none cs' hcases.1 hcases.2

/-- A quote before a word that is not closed is no literal whatever follows. -/
theorem readLiteral_tick_carry (h : SameStop r r') {w : Bool × List Char × List Char}
    (hword : readAnyWord x = some w) (hlit : readLiteral ('\'' :: x ++ r) = none) :
    readLiteral ('\'' :: x ++ r') = none := by
  obtain ⟨c, x, rfl, hc⟩ := readAnyWord_head hword
  have hplain : c ≠ '\\' := by
    rintro rfl
    exact absurd hc (by decide)
  have hnext := (readLiteral_tick hplain (x ++ r)).mp hlit
  rw [h.head?_append] at hnext
  exact (readLiteral_tick hplain _).mpr hnext

/-- A token that ends before the end of a group, or before a comment, is read there whatever
follows. -/
theorem readLeaf_carry (h : SameStop r r') {pos : Nat} {t : Tree} {taken : List Char}
    (hleaf : readLeaf pos (x ++ r) = some (t, taken, y ++ r)) :
    readLeaf pos (x ++ r') = some (t, taken, y ++ r') := by
  obtain ⟨z, hz⟩ : ∃ z, z = y ++ r := ⟨_, rfl⟩
  rw [← hz] at hleaf
  rw [readLeaf_eq_some_iff] at hleaf ⊢
  cases hleaf with
  | literal hlit =>
    subst hz
    exact .literal (readLiteral_carry h hlit)
  | @tick _ name after raw hlit hmark hword hfree =>
    obtain ⟨x, rfl, hx, hmark'⟩ := readMark_carry h hmark
    rw [hx, List.append_cancel_right_eq] at hz
    subst hx hz
    rw [readAnyWord_append h.ends] at hword
    obtain ⟨⟨raw, name, after⟩, hx, heq⟩ := Option.map_eq_some_iff.mp hword
    cases heq
    have hword' := readAnyWord_append h.symm.ends x
    rw [hx] at hword'
    rw [h.head?_append] at hfree
    exact .tick (readLiteral_tick_carry h hx hlit) hmark' hword' hfree
  | @mark c _ hlit hmark hc =>
    obtain ⟨x, rfl, hx, hmark'⟩ := readMark_carry h hmark
    rw [hx, List.append_cancel_right_eq] at hz
    subst hx hz
    have hjoint : (readMark (x ++ r)).isSome = (readMark (x ++ r')).isSome := by
      rw [Bool.eq_iff_iff, ← not_iff_not]
      simpa using readMark_eq_none_iff h
    rw [hjoint]
    exact .mark (readLiteral_eq_none_of_mark hmark' hc _) hmark' hc
  | @word raw name _ hlit hmark hquote hword =>
    rw [readAnyWord_append h.ends] at hword
    obtain ⟨⟨raw, name, after⟩, hx, heq⟩ := Option.map_eq_some_iff.mp hword
    cases heq
    rw [List.append_cancel_right_eq] at hz
    subst hz
    have hword' := readAnyWord_append h.symm.ends x
    rw [hx] at hword'
    have hquote' : (quoteStarts.any fun q => q.isPrefixOf (x ++ r')) = false := by
      rwa [any_quoteStarts_append h.symm.ends, ← any_quoteStarts_append h.ends]
    have hlit' : readLiteral (x ++ r') = none := by
      obtain ⟨c, x, rfl, hc⟩ := readAnyWord_head hx
      exact readLiteral_eq_none_of_word hc hquote'
    exact .word hlit' ((readMark_eq_none_iff h).mp hmark) hquote' hword'

end

end Instrumentation.Source
