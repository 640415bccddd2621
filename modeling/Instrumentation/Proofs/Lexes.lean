import Instrumentation.Proofs.Lexeme

/-!
Token trees as a relation. A run of trees is read with the characters that follow it in sight, so
that runs can be joined without cutting a lexeme, and a run in the middle of a text can be looked
at by itself.
-/
namespace Instrumentation.Source

open Text (byteLength)

/-! ### What starts a token -/

theorem openingOf?_eq_some {c : Char} {d : Delimiter} (h : openingOf? c = some d) :
    d.opening = c := by
  simpa using List.find?_some h

theorem closingOf?_eq_some {c : Char} {d : Delimiter} (h : closingOf? c = some d) :
    d.closing = c := by
  simpa using List.find?_some h

theorem readNumber_eq_none {c : Char} (cs : List Char) (h : c.isDigit = false) :
    readNumber (c :: cs) = none := by
  have hfloat : readFloatDigits (c :: cs) = none := by simp [readFloatDigits, h]
  have hbase : readBase (c :: cs) = (10, [], c :: cs) := by
    unfold readBase
    split <;> simp_all
  have hletter : (isHex c && decide (hexDigitValue c < 10)) = false := by
    simp only [hexDigitValue, h, Bool.false_eq_true, ↓reduceIte, Bool.and_eq_false_iff,
      decide_eq_false_iff_not]
    right
    split <;> omega
  have hint : readIntDigits (c :: cs) = none := by
    simp only [readIntDigits, hbase, readDigits, h, hletter, Bool.false_eq_true, ↓reduceIte]
    by_cases hc : c = '_' <;> simp [hc]
  simp [readNumber, hfloat, hint]

/-- The characters that literals other than numbers start with. -/
def startsText (c : Char) : Bool := ['"', '\'', 'r', 'b', 'c'].contains c

theorem readTextLiteral_eq_none {c : Char} (cs : List Char) (h : startsText c = false) :
    readTextLiteral (c :: cs) = none := by
  simp only [startsText, List.contains_eq_mem, List.mem_cons, List.not_mem_nil, or_false,
    decide_eq_false_iff_not, not_or] at h
  simp only [readTextLiteral, Option.map_eq_none_iff]
  split <;> simp_all

theorem readCharLiteral_eq_none {c : Char} (cs : List Char) (h : startsText c = false) :
    readCharLiteral (c :: cs) = none := by
  simp only [startsText, List.contains_eq_mem, List.mem_cons, List.not_mem_nil, or_false,
    decide_eq_false_iff_not, not_or] at h
  unfold readCharLiteral
  split <;> simp_all

theorem readLiteral_eq_none {c : Char} (cs : List Char) (hdigit : c.isDigit = false)
    (htext : startsText c = false) : readLiteral (c :: cs) = none := by
  simp [readLiteral, readTextLiteral_eq_none cs htext, readCharLiteral_eq_none cs htext,
    readNumber_eq_none cs hdigit]

theorem readAnyWord_eq_none {c : Char} (cs : List Char) (h : Text.isWordStart c = false) :
    readAnyWord (c :: cs) = none := by
  unfold readAnyWord
  split
  · simp_all
    exact absurd h (by decide)
  · simp [readName, h]

theorem any_quoteStarts_eq_false {c : Char} (cs : List Char) (h : startsText c = false) :
    (quoteStarts.any fun q => q.isPrefixOf (c :: cs)) = false := by
  simp only [startsText, List.contains_eq_mem, List.mem_cons, List.not_mem_nil, or_false,
    decide_eq_false_iff_not, not_or] at h
  simp [quoteStarts, List.isPrefixOf, Ne.symm h.2.2.1, Ne.symm h.2.2.2.1, Ne.symm h.2.2.2.2]

theorem readLeaf_eq_none {c : Char} {cs : List Char} (pos : Nat) (hdigit : c.isDigit = false)
    (htext : startsText c = false) (hword : Text.isWordStart c = false)
    (hmark : readMark (c :: cs) = none) : readLeaf pos (c :: cs) = none := by
  simp only [readLeaf, readLiteral_eq_none cs hdigit htext, hmark,
    any_quoteStarts_eq_false cs htext, readAnyWord_eq_none cs hword, Bool.false_eq_true, ↓reduceIte]

theorem readLeaf_delimiter {c : Char} {cs : List Char} (pos : Nat)
    (h : openingOf? c ≠ none ∨ closingOf? c ≠ none) : readLeaf pos (c :: cs) = none := by
  have hc : c ∈ ['(', '[', Char.ofNat 0x7B, ')', ']', Char.ofNat 0x7D] := by
    rcases h with h | h
    · obtain ⟨d, hd⟩ := Option.ne_none_iff_exists'.mp h
      rw [← openingOf?_eq_some hd]
      cases d <;> decide
    · obtain ⟨d, hd⟩ := Option.ne_none_iff_exists'.mp h
      rw [← closingOf?_eq_some hd]
      cases d <;> decide
  simp only [List.mem_cons, List.not_mem_nil, or_false] at hc
  obtain ⟨hdigit, htext, hword, hslash, hmarks⟩ : c.isDigit = false ∧ startsText c = false ∧
      Text.isWordStart c = false ∧ c ≠ '/' ∧
      ("~!@#$%^&*-=+|;:,<.>/?'".toList.contains c) = false := by
    rcases hc with rfl | rfl | rfl | rfl | rfl | rfl <;> decide
  refine readLeaf_eq_none pos hdigit htext hword ?_
  unfold readMark
  split <;> simp_all

/-- A comment is no token. -/
theorem readLeaf_comment {c : Char} (hc : c = '/' ∨ c = '*') (pos : Nat) (cs : List Char) :
    readLeaf pos ('/' :: c :: cs) = none := by
  have hmark : readMark ('/' :: c :: cs) = none := by
    rcases hc with rfl | rfl <;> rfl
  exact readLeaf_eq_none pos (by decide) (by decide) (by decide) hmark

theorem readDoc_eq_none {cs : List Char} (h : ∀ c rest, c = '/' ∨ c = '*' → cs ≠ '/' :: c :: rest) :
    readDoc cs = none := by
  unfold readDoc
  split <;> simp_all

theorem readDoc_of_readLeaf {pos : Nat} {cs : List Char} {r : Tree × Split}
    (h : readLeaf pos cs = some r) : readDoc cs = none := by
  refine readDoc_eq_none fun c rest hc hcs => ?_
  rw [hcs, readLeaf_comment hc] at h
  cases h

theorem readDoc_delimiter {c : Char} (h : openingOf? c ≠ none ∨ closingOf? c ≠ none)
    (cs : List Char) : readDoc (c :: cs) = none := by
  refine readDoc_eq_none fun _ _ _ hcs => ?_
  obtain ⟨rfl, -⟩ := List.cons.inj hcs
  revert h
  decide

@[simp] theorem openingOf?_opening (d : Delimiter) : openingOf? d.opening = some d := by
  cases d <;> decide

@[simp] theorem openingOf?_closing (d : Delimiter) : openingOf? d.closing = none := by
  cases d <;> decide

@[simp] theorem closingOf?_closing (d : Delimiter) : closingOf? d.closing = some d := by
  cases d <;> decide

theorem Split.ne_nil_of_map {α : Type} (split : α → Split) {o : Option α} {f : α → α} {a : α}
    {lead : List Char} (hlead : lead ≠ []) (hf : ∀ b, split (f b) = (split b).after lead)
    (h : o.map f = some a) : (split a).1 ≠ [] := by
  obtain ⟨b, -, rfl⟩ := Option.map_eq_some_iff.mp h
  rw [hf]
  exact Split.after_ne_nil hlead

theorem withSuffix_ne_nil {s : Split} (h : s.1 ≠ []) : (withSuffix s).1 ≠ [] := by
  simp [withSuffix, h]

theorem readTextLiteral_ne_nil {cs : List Char} {s : Split} (h : readTextLiteral cs = some s) :
    s.1 ≠ [] := by
  obtain ⟨s', hs', rfl⟩ := readTextLiteral_eq_some_iff.mp h
  refine withSuffix_ne_nil ?_
  cases hs' <;> exact Split.after_ne_nil (by simp)

theorem readCharLiteral_ne_nil {cs : List Char} {s : Split} (h : readCharLiteral cs = some s) :
    s.1 ≠ [] := by
  obtain ⟨t, z, -, hlexeme, rfl⟩ := readCharLiteral_eq_some_iff.mp h
  refine withSuffix_ne_nil ?_
  cases hlexeme <;> simp

theorem readDigits_ne_nil {base : Nat} {cs : List Char} {s : Split}
    (h : readDigits base true cs = some (false, s)) : s.1 ≠ [] := by
  cases cs with
  | nil => cases h
  | cons c cs =>
    have hmap {o : Option (Bool × Split)}
        (h : o.map (fun r => (r.1, r.2.after [c])) = some (false, s)) : s.1 ≠ [] :=
      Split.ne_nil_of_map Prod.snd (List.cons_ne_nil c []) (fun _ => rfl) h
    simp only [readDigits] at h
    split at h
    · split at h
      · exact hmap h
      · cases h
    · split at h
      · exact hmap h
      · split at h
        · split at h
          · cases h
          · exact hmap h
        · cases h

theorem readMantissa_exponent {dot mark : Bool} {cs : List Char} {s : Split}
    (h : readMantissa dot cs = some (mark, true, s)) : s.1 ≠ [] := by
  fun_induction readMantissa dot cs with
  | case1 => cases h
  | case2 => exact Split.ne_nil_of_map (·.2.2) (List.cons_ne_nil _ []) (fun _ => rfl) h
  | case3 => cases h
  | case4 => exact Split.ne_nil_of_map (·.2.2) (List.cons_ne_nil _ []) (fun _ => rfl) h
  | case5 => cases h
  | case6 => cases h; simp
  | case7 => cases h

theorem readFloatDigits_ne_nil {cs : List Char} {s : Split} (h : readFloatDigits cs = some s) :
    s.1 ≠ [] := by
  unfold readFloatDigits at h
  split at h
  · next c cs =>
    split at h
    · cases h
    · next hc =>
      have hc : c.isDigit := by simpa using hc
      have hdigit {r : Bool × Bool × Split} (h : readMantissa false (c :: cs) = some r) :
          ∃ r', readMantissa false cs = some r' ∧ r = (r'.1, r'.2.1, r'.2.2.after [c]) := by
        simp only [readMantissa, hc, Bool.true_or, ↓reduceIte, Option.map_eq_some_iff] at h
        obtain ⟨r', hr', rfl⟩ := h
        exact ⟨r', hr', rfl⟩
      split at h
      · cases h
      · next s' hm =>
        obtain ⟨r, -, hr⟩ := hdigit hm
        obtain ⟨-, -, rfl⟩ : _ ∧ _ ∧ s' = r.2.2.after [c] := by simpa using hr
        split at h <;> cases h
        exact Split.after_ne_nil (by simp)
      · next dot lexeme rest hm =>
        obtain ⟨⟨dot', mark, lexeme', rest'⟩, hr, hr'⟩ := hdigit hm
        obtain ⟨rfl, rfl, rfl, rfl⟩ : dot = dot' ∧ true = mark ∧ lexeme = c :: lexeme' ∧
          rest = rest' := by simpa [Split.after] using hr'
        have hne := readMantissa_exponent hr
        split at h
        · cases h
          exact Split.after_ne_nil (by simp)
        · split at h <;> cases h
          cases lexeme' with
          | nil => exact absurd rfl hne
          | cons d lexeme => simp
  · cases h

theorem readNumber_ne_nil {cs : List Char} {s : Split} (h : readNumber cs = some s) :
    s.1 ≠ [] := by
  have hend {s s' : Split} (hs : s.1 ≠ []) (h : endNumber s = some s') : s'.1 ≠ [] := by
    have hw := withSuffix_ne_nil hs
    simp only [endNumber] at h
    split at h
    · split at h
      · cases h
      · cases h; exact hw
    · cases h; exact hw
  simp only [readNumber, Option.or_eq_some_iff, Option.bind_eq_some_iff] at h
  rcases h with ⟨s', hs', h⟩ | ⟨-, s', hs', h⟩
  · exact hend (readFloatDigits_ne_nil hs') h
  · refine hend ?_ h
    simp only [readIntDigits] at hs'
    split at hs'
    · next hd =>
      cases hs'
      simp [Split.after, readDigits_ne_nil hd]
    · cases hs'

theorem readLiteral_ne_nil {cs : List Char} {s : Split} (h : readLiteral cs = some s) :
    s.1 ≠ [] := by
  simp only [readLiteral, Option.or_eq_some_iff] at h
  rcases h with h | ⟨-, h | ⟨-, h⟩⟩
  · exact readTextLiteral_ne_nil h
  · exact readCharLiteral_ne_nil h
  · exact readNumber_ne_nil h

/-- A token is not empty. -/
theorem readLeaf_ne_nil {pos : Nat} {cs : List Char} {t : Tree} {s : Split}
    (h : readLeaf pos cs = some (t, s)) : s.1 ≠ [] := by
  cases readLeaf_eq_some_iff.mp h with
  | literal hlit => exact readLiteral_ne_nil hlit
  | tick => simp
  | mark => simp
  | word _ _ _ hword => simp [(cuts_readAnyWord hword).2]

/-! ### Runs of trees -/

theorem byteLength_opening (d : Delimiter) : byteLength [d.opening] = 1 := by
  cases d <;> rfl

theorem byteLength_closing (d : Delimiter) : byteLength [d.closing] = 1 := by
  cases d <;> rfl

/-- One step of the reader, behind the blanks: it is at the end of the text with no group open, or
takes a comment that documents, a token that is no group, or a delimiter, and goes on behind it. -/
inductive TreesStep (fuel pos : Nat) (done : List Tree) (cs : List Char) (ts : List Tree) :
    List OpenGroup → Prop
  | finish {gap : List Char} (hgap : readGap (cs.length + 1) cs = (gap, []))
      (hts : ts = done.reverse) : TreesStep fuel pos done cs ts []
  | doc {opened : List OpenGroup} {gap cs₁ words taken cs₂ : List Char} {inner : Bool}
      (hgap : readGap (cs.length + 1) cs = (gap, cs₁))
      (hdoc : readDoc cs₁ = some (words, inner, taken, cs₂)) (hpaired : returnsPaired words)
      (hrest : readTrees fuel (pos + byteLength gap + byteLength taken) opened
        ((docTrees words inner (pos + byteLength gap)
          (pos + byteLength gap + byteLength taken)).reverse ++ done) cs₂ = .ok ts) :
      TreesStep fuel pos done cs ts opened
  | leaf {opened : List OpenGroup} {gap cs₁ taken cs₂ : List Char} {t : Tree}
      (hgap : readGap (cs.length + 1) cs = (gap, cs₁))
      (hleaf : readLeaf (pos + byteLength gap) cs₁ = some (t, taken, cs₂))
      (hrest : readTrees fuel (pos + byteLength gap + byteLength taken) opened (t :: done) cs₂ =
        .ok ts) : TreesStep fuel pos done cs ts opened
  | opening {opened : List OpenGroup} {gap cs₁ : List Char} {d : Delimiter}
      (hgap : readGap (cs.length + 1) cs = (gap, d.opening :: cs₁))
      (hrest : readTrees fuel (pos + byteLength gap + 1) (⟨d, pos + byteLength gap, done⟩ :: opened)
        [] cs₁ = .ok ts) : TreesStep fuel pos done cs ts opened
  | closing {g : OpenGroup} {outer : List OpenGroup} {gap cs₁ : List Char}
      (hgap : readGap (cs.length + 1) cs = (gap, g.delim.closing :: cs₁))
      (hrest : readTrees fuel (pos + byteLength gap + 1) outer
        (.group g.delim g.start (pos + byteLength gap + 1) done.reverse :: g.before) cs₁ = .ok ts) :
      TreesStep fuel pos done cs ts (g :: outer)

theorem step_of_readTrees {fuel pos : Nat} {opened : List OpenGroup} {done ts : List Tree}
    {cs : List Char} (h : readTrees (fuel + 1) pos opened done cs = .ok ts) :
    TreesStep fuel pos done cs ts opened := by
  obtain ⟨⟨gap, cs₁⟩, hgap⟩ : ∃ s, readGap (cs.length + 1) cs = s := ⟨_, rfl⟩
  unfold readTrees at h
  simp only [hgap] at h
  cases hdoc : readDoc cs₁ with
  | some doc =>
    obtain ⟨words, inner, taken, cs₂⟩ := doc
    simp only [hdoc] at h
    split at h
    · next hpaired => exact .doc hgap hdoc hpaired h
    · cases h
  | none =>
    simp only [hdoc] at h
    cases cs₁ with
    | nil =>
      cases opened with
      | nil =>
        cases h
        exact .finish hgap rfl
      | cons g outer => cases h
    | cons c cs₁ =>
      simp only at h
      split at h
      · next d hopen =>
        obtain rfl := openingOf?_eq_some hopen
        exact .opening hgap h
      · next d hnone hclose =>
        obtain rfl := closingOf?_eq_some hclose
        cases opened with
        | nil => cases h
        | cons g outer =>
          simp only at h
          split at h
          · next hd =>
            subst hd
            exact .closing hgap h
          · cases h
      · split at h
        · next hleaf => exact .leaf hgap hleaf h
        · cases h

/-- `Lexes pos cs ts stop rest`: the text `cs` at the offset `pos` starts with the trees `ts`, and
goes on with `rest` at the offset `stop`. -/
inductive Lexes : (pos : Nat) → List Char → List Tree → (stop : Nat) → List Char → Prop
  | done {pos : Nat} {cs : List Char} : Lexes pos cs [] pos cs
  | doc {pos stop : Nat} {cs gap cs₁ words taken cs₂ rest : List Char} {inner : Bool}
      {ts : List Tree} (hgap : readGap (cs.length + 1) cs = (gap, cs₁))
      (hdoc : readDoc cs₁ = some (words, inner, taken, cs₂)) (hpaired : returnsPaired words)
      (hrest : Lexes (pos + byteLength gap + byteLength taken) cs₂ ts stop rest) :
      Lexes pos cs (docTrees words inner (pos + byteLength gap)
        (pos + byteLength gap + byteLength taken) ++ ts) stop rest
  | leaf {pos stop : Nat} {cs gap cs₁ taken cs₂ rest : List Char} {t : Tree} {ts : List Tree}
      (hgap : readGap (cs.length + 1) cs = (gap, cs₁))
      (hleaf : readLeaf (pos + byteLength gap) cs₁ = some (t, taken, cs₂))
      (hrest : Lexes (pos + byteLength gap + byteLength taken) cs₂ ts stop rest) :
      Lexes pos cs (t :: ts) stop rest
  | group {pos mid stop : Nat} {cs gap cs₁ cs₂ gap' cs₃ rest : List Char} {d : Delimiter}
      {inside ts : List Tree} (hgap : readGap (cs.length + 1) cs = (gap, d.opening :: cs₁))
      (hinside : Lexes (pos + byteLength gap + 1) cs₁ inside mid cs₂)
      (hgap' : readGap (cs₂.length + 1) cs₂ = (gap', d.closing :: cs₃))
      (hrest : Lexes (mid + byteLength gap' + 1) cs₃ ts stop rest) :
      Lexes pos cs (.group d (pos + byteLength gap) (mid + byteLength gap' + 1) inside :: ts)
        stop rest

section

variable {fuel pos : Nat} {opened outer : List OpenGroup} {done : List Tree}
  {cs gap cs₁ cs₂ words taken : List Char}

theorem readTrees_doc {inner : Bool} (hgap : readGap (cs.length + 1) cs = (gap, cs₁))
    (hdoc : readDoc cs₁ = some (words, inner, taken, cs₂)) (hpaired : returnsPaired words) :
    readTrees (fuel + 1) pos opened done cs =
      readTrees fuel (pos + byteLength gap + byteLength taken) opened
        ((docTrees words inner (pos + byteLength gap)
          (pos + byteLength gap + byteLength taken)).reverse ++ done) cs₂ := by
  rw [readTrees.eq_def]
  simp only [hgap, hdoc, hpaired, ↓reduceIte]

theorem readTrees_leaf {t : Tree} (hgap : readGap (cs.length + 1) cs = (gap, cs₁))
    (hleaf : readLeaf (pos + byteLength gap) cs₁ = some (t, taken, cs₂)) :
    readTrees (fuel + 1) pos opened done cs =
      readTrees fuel (pos + byteLength gap + byteLength taken) opened (t :: done) cs₂ := by
  have hdoc := readDoc_of_readLeaf hleaf
  cases cs₁ with
  | nil => cases hleaf
  | cons c cs₁ =>
    have hno : openingOf? c = none ∧ closingOf? c = none := by
      refine Classical.byContradiction fun hc => ?_
      rw [readLeaf_delimiter _ (Classical.not_and_iff_not_or_not.mp hc)] at hleaf
      cases hleaf
    rw [readTrees.eq_def]
    simp only [hgap, hdoc, hno.1, hno.2, hleaf]

theorem readTrees_opening {d : Delimiter}
    (hgap : readGap (cs.length + 1) cs = (gap, d.opening :: cs₁)) :
    readTrees (fuel + 1) pos opened done cs =
      readTrees fuel (pos + byteLength gap + 1) (⟨d, pos + byteLength gap, done⟩ :: opened) [] cs₁ := by
  rw [readTrees.eq_def]
  simp only [hgap, readDoc_delimiter (.inl (by simp : openingOf? d.opening ≠ none)),
    openingOf?_opening]

theorem readTrees_closing {g : OpenGroup}
    (hgap : readGap (cs.length + 1) cs = (gap, g.delim.closing :: cs₁)) :
    readTrees (fuel + 1) pos (g :: outer) done cs =
      readTrees fuel (pos + byteLength gap + 1) outer
        (.group g.delim g.start (pos + byteLength gap + 1) done.reverse :: g.before) cs₁ := by
  rw [readTrees.eq_def]
  simp only [hgap, readDoc_delimiter (.inr (by simp : closingOf? g.delim.closing ≠ none)),
    openingOf?_closing, closingOf?_closing, ↓reduceIte]

theorem readTrees_end (hgap : readGap (cs.length + 1) cs = (gap, [])) :
    readTrees (fuel + 1) pos [] done cs = .ok done.reverse := by
  rw [readTrees.eq_def]
  simp only [hgap]
  rfl

end

namespace Lexes

theorem append {pos mid stop : Nat} {cs cs₁ rest : List Char} {ts us : List Tree}
    (h : Lexes pos cs ts mid cs₁) (h' : Lexes mid cs₁ us stop rest) :
    Lexes pos cs (ts ++ us) stop rest := by
  induction h with
  | done => exact h'
  | doc hgap hdoc hpaired _ ih =>
    rw [List.append_assoc]
    exact .doc hgap hdoc hpaired (ih h')
  | leaf hgap hleaf _ ih => exact .leaf hgap hleaf (ih h')
  | group hgap hinside hgap' _ _ ih => exact .group hgap hinside hgap' (ih h')

/-- What is left is the end of what there was. -/
theorem cuts {pos stop : Nat} {cs rest : List Char} {ts : List Tree}
    (h : Lexes pos cs ts stop rest) :
    ∃ taken, taken ++ rest = cs ∧ pos + byteLength taken = stop := by
  induction h with
  | done => exact ⟨[], rfl, rfl⟩
  | @doc pos stop cs gap cs₁ words taken cs₂ rest _ _ hgap hdoc _ _ ih =>
    obtain ⟨taken', rfl, rfl⟩ := ih
    obtain rfl : taken ++ (taken' ++ rest) = cs₁ := (cuts_readDoc hdoc).1
    obtain rfl := append_of_readGap hgap
    exact ⟨gap ++ taken ++ taken', by simp, by simp; omega⟩
  | @leaf pos stop cs gap cs₁ taken cs₂ rest _ _ hgap hleaf _ ih =>
    obtain ⟨taken', rfl, rfl⟩ := ih
    obtain rfl : taken ++ (taken' ++ rest) = cs₁ := cuts_readLeaf hleaf
    obtain rfl := append_of_readGap hgap
    exact ⟨gap ++ taken ++ taken', by simp, by simp; omega⟩
  | @group pos mid stop cs gap cs₁ cs₂ gap' cs₃ rest d _ _ hgap _ hgap' _ ih ih' =>
    obtain ⟨inside, rfl, rfl⟩ := ih
    obtain ⟨taken', rfl, rfl⟩ := ih'
    obtain rfl := append_of_readGap hgap'
    obtain rfl := append_of_readGap hgap
    have hopen : d.opening.utf8Size = 1 := byteLength_opening d
    have hclose : d.closing.utf8Size = 1 := byteLength_closing d
    refine ⟨gap ++ d.opening :: (inside ++ gap' ++ d.closing :: taken'), by simp, ?_⟩
    simp [hopen, hclose]
    omega

/-- The reader passes over a run of trees. -/
theorem readTrees_eq {pos stop : Nat} {cs rest : List Char} {ts : List Tree}
    (h : Lexes pos cs ts stop rest) : ∃ n, n + rest.length ≤ cs.length ∧
      ∀ fuel opened done, readTrees (n + fuel) pos opened done cs =
        readTrees fuel stop opened (ts.reverse ++ done) rest := by
  induction h with
  | done => exact ⟨0, by simp, by simp⟩
  | @doc pos stop cs gap cs₁ words taken cs₂ rest _ _ hgap hdoc hpaired _ ih =>
    obtain ⟨n, hn, hread⟩ := ih
    obtain ⟨hcut, hne⟩ := cuts_readDoc hdoc
    obtain rfl : taken ++ cs₂ = cs₁ := hcut
    obtain rfl := append_of_readGap hgap
    have hpos := List.length_pos_iff.mpr hne
    refine ⟨n + 1, by simp only [List.length_append] at hpos ⊢; omega, fun fuel opened done => ?_⟩
    rw [Nat.add_right_comm, readTrees_doc hgap hdoc hpaired, hread]
    simp
  | @leaf pos stop cs gap cs₁ taken cs₂ rest _ _ hgap hleaf _ ih =>
    obtain ⟨n, hn, hread⟩ := ih
    obtain rfl : taken ++ cs₂ = cs₁ := cuts_readLeaf hleaf
    obtain rfl := append_of_readGap hgap
    have hpos := List.length_pos_iff.mpr (readLeaf_ne_nil hleaf)
    refine ⟨n + 1, by simp only [List.length_append] at hpos ⊢; omega, fun fuel opened done => ?_⟩
    rw [Nat.add_right_comm, readTrees_leaf hgap hleaf, hread]
    simp
  | @group pos mid stop cs gap cs₁ cs₂ gap' cs₃ rest d _ _ hgap _ hgap' _ ih ih' =>
    obtain ⟨n, hn, hread⟩ := ih
    obtain ⟨n', hn', hread'⟩ := ih'
    obtain rfl := append_of_readGap hgap'
    obtain rfl := append_of_readGap hgap
    refine ⟨n + n' + 2, by simp at hn hn' ⊢; omega, fun fuel opened done => ?_⟩
    have hfuel : n + n' + 2 + fuel = n + (n' + fuel + 1) + 1 := by omega
    rw [hfuel, readTrees_opening hgap, hread, readTrees_closing hgap', hread']
    simp

end Lexes

/-- What becomes of the trees that have been read where a run ends: with no group open they are
those of the text, else those of the innermost open group, and the reader goes on behind it. -/
def LeavesOff (fuel : Nat) (opened : List OpenGroup) (inside ts : List Tree) (stop : Nat)
    (rest : List Char) : Prop :=
  match opened with
  | [] => ∃ gap, readGap (rest.length + 1) rest = (gap, []) ∧ ts = inside
  | g :: outer => ∃ gap rest', ∃ fuel' < fuel,
    readGap (rest.length + 1) rest = (gap, g.delim.closing :: rest') ∧
      readTrees fuel' (stop + byteLength gap + 1) outer
        (.group g.delim g.start (stop + byteLength gap + 1) inside :: g.before) rest' = .ok ts

theorem LeavesOff.mono {fuel fuel' stop : Nat} {opened : List OpenGroup} {inside ts : List Tree}
    {rest : List Char} (h : LeavesOff fuel opened inside ts stop rest) (hle : fuel ≤ fuel') :
    LeavesOff fuel' opened inside ts stop rest := by
  cases opened with
  | nil => exact h
  | cons g outer =>
    obtain ⟨gap, rest', n, hn, hgap, hread⟩ := h
    exact ⟨gap, rest', n, by omega, hgap, hread⟩

/-- What the reader still has to read starts with a run of trees, up to the end of the text or of
the innermost open group. -/
theorem exists_of_readTrees {fuel pos : Nat} {opened : List OpenGroup} {done ts : List Tree}
    {cs : List Char} (h : readTrees fuel pos opened done cs = .ok ts) :
    ∃ us stop rest, Lexes pos cs us stop rest ∧
      LeavesOff fuel opened (done.reverse ++ us) ts stop rest := by
  induction fuel using Nat.strongRecOn generalizing pos opened done cs with
  | ind fuel ih =>
    cases fuel with
    | zero => cases h
    | succ fuel =>
      -- One step of the reader, and then the same for what it leaves.
      cases step_of_readTrees h with
      | finish hgap hts => exact ⟨[], pos, cs, .done, _, hgap, by simp [hts]⟩
      | doc hgap hdoc hpaired hrest =>
        obtain ⟨us, stop, rest, hus, hleft⟩ := ih fuel (Nat.lt_succ_self _) hrest
        refine ⟨_, stop, rest, .doc hgap hdoc hpaired hus, ?_⟩
        simpa using hleft.mono (Nat.le_succ fuel)
      | leaf hgap hleaf hrest =>
        obtain ⟨us, stop, rest, hus, hleft⟩ := ih fuel (Nat.lt_succ_self _) hrest
        refine ⟨_, stop, rest, .leaf hgap hleaf hus, ?_⟩
        simpa using hleft.mono (Nat.le_succ fuel)
      | opening hgap hrest =>
        -- The group is read to its end, and then what stands behind it.
        obtain ⟨us, mid, cs₂, hus, gap, cs₃, n, hn, hgap', hread⟩ := ih fuel (Nat.lt_succ_self _) hrest
        obtain ⟨vs, stop, rest, hvs, hleft⟩ := ih n (Nat.lt_succ_of_lt hn) hread
        refine ⟨_, stop, rest, .group hgap hus hgap' hvs, ?_⟩
        simpa using hleft.mono (by omega : n ≤ fuel + 1)
      | closing hgap hrest =>
        exact ⟨[], pos, cs, .done, _, _, fuel, Nat.lt_succ_self _, hgap, by simpa using hrest⟩

/-- The trees of a text are the run that ends where only blanks are left. -/
theorem treesFrom_eq_ok_iff {pos : Nat} {cs : List Char} {ts : List Tree}
    (hmark : withoutMark cs = (0, cs)) : treesFrom pos cs = .ok ts ↔
      ∃ stop rest gap, Lexes pos cs ts stop rest ∧ readGap (rest.length + 1) rest = (gap, []) := by
  have htrees : treesFrom pos cs = readTrees (cs.length + 1) pos [] [] cs := by
    simp [treesFrom, hmark]
  rw [htrees]
  constructor
  · intro h
    obtain ⟨us, stop, rest, hus, gap, hgap, rfl⟩ := exists_of_readTrees h
    exact ⟨stop, rest, gap, hus, hgap⟩
  · rintro ⟨stop, rest, gap, hts, hgap⟩
    obtain ⟨n, hn, hread⟩ := hts.readTrees_eq
    have hfuel : cs.length + 1 = n + (cs.length - n + 1) := by omega
    rw [hfuel, hread, readTrees_end hgap]
    simp

end Instrumentation.Source
