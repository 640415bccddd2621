import Instrumentation.Proofs.CrateLines
import Instrumentation.Source.Spelling

/-!
The tokens of trees. Without blanks the text of some trees is the row of their tokens, and the row
tells the tokens if none of them goes on, with the characters behind it, as a longer token.
-/
namespace Instrumentation.Source

open Text (isBlank isWordStart isWordContinue squeezed)

/-! ### How tokens are spelled -/

/-- How a token is spelled: a single character, a documentation comment's text, another literal, or
a word. -/
inductive Spelling : List Char → Prop
  | single (c : Char) : Spelling [c]
  | doc (words : List Char) : Spelling ('"' :: (words ++ ['"']))
  | literal {l rest : List Char} (h : readLiteral (l ++ rest) = some (l, rest)) : Spelling l
  | word (raw : Bool) {c : Char} {tail : List Char} (hc : isWordStart c)
      (htail : ∀ d ∈ tail, isWordContinue d) :
      Spelling ((if raw then ['r', '#'] else []) ++ c :: tail)

/-! ### The tokens of trees -/

mutual
/-- The tokens of a tree as they are spelled: words, characters of operators, literals and
delimiters. -/
def Tree.lexemes : Tree → List (List Char)
  | .word raw name _ => [(Tree.spelled raw name).toList]
  | .mark c _ _ => [[c]]
  | .literal text _ => [text.toList]
  | .group d _ _ inside => [d.opening] :: (lexemesIn inside ++ [[d.closing]])

def lexemesIn : List Tree → List (List Char)
  | [] => []
  | t :: ts => t.lexemes ++ lexemesIn ts
end

theorem lexemesIn_eq_flatMap (ts : List Tree) : lexemesIn ts = ts.flatMap Tree.lexemes := by
  induction ts with
  | nil => rfl
  | cons t ts ih => rw [lexemesIn, ih, List.flatMap_cons]

theorem mem_lexemesIn {ts : List Tree} {l : List Char} :
    l ∈ lexemesIn ts ↔ ∃ t ∈ ts, l ∈ t.lexemes := by
  rw [lexemesIn_eq_flatMap, List.mem_flatMap]

theorem squeezed_blank : squeezed " " = "" := by decide

mutual
theorem Tree.squeezed_text (t : Tree) :
    squeezed t.text = squeezed (String.ofList t.lexemes.flatten) := by
  cases t with
  | word | literal => simp [Tree.text, Tree.lexemes]
  | mark => simp [Tree.text, Tree.lexemes, Char.toString_eq_singleton]
  | group d start stop inside =>
    have hinside := squeezed_textOf inside
    have hends : (Tree.group d start stop inside).lexemes.flatten =
        [d.opening] ++ (lexemesIn inside).flatten ++ [d.closing] := by
      simp [Tree.lexemes]
    rw [hends, String.ofList_append, String.ofList_append, Text.squeezed_append,
      Text.squeezed_append, ← hinside]
    cases d with
    | paren | bracket =>
      simp only [Tree.text, Text.squeezed_append]
      rfl
    | brace =>
      cases inside with
      | nil =>
        simp only [Tree.text, textOf]
        decide
      | cons t ts =>
        have hopening : squeezed "\x7b " = squeezed (String.ofList [Delimiter.brace.opening]) := by
          decide
        have hclosing : squeezed " \x7d" = squeezed (String.ofList [Delimiter.brace.closing]) := by
          decide
        simp only [Tree.text, Text.squeezed_append, hopening, hclosing]

/-- Without blanks, trees are spelled token by token. -/
theorem squeezed_textOf (ts : List Tree) :
    squeezed (textOf ts) = squeezed (String.ofList (lexemesIn ts).flatten) := by
  cases ts with
  | nil => rfl
  | cons t ts =>
    have ht := t.squeezed_text
    rw [lexemesIn, List.flatten_append, String.ofList_append, Text.squeezed_append, ← ht]
    cases ts with
    | nil => simp [textOf, lexemesIn, squeezed]
    | cons u rest =>
      rw [← squeezed_textOf (u :: rest)]
      cases t with
      | mark c joint p =>
        cases joint <;> simp [textOf, Text.squeezed_append, squeezed_blank]
      | _ => simp [textOf, Text.squeezed_append, squeezed_blank]
end

/-! ### The tokens of texts -/

/-- A token of some text. -/
def IsToken (l : List Char) : Prop :=
  ∃ pos cs ts, treesFrom pos cs = .ok ts ∧ l ∈ lexemesIn ts

theorem exists_of_readAnyWord {cs name rest : List Char} {raw : Bool}
    (h : readAnyWord cs = some (raw, name, rest)) :
    ∃ c tail, name = c :: tail ∧ isWordStart c ∧ ∀ d ∈ tail, isWordContinue d := by
  obtain ⟨_, -, hname⟩ := exists_readName_of_readAnyWord h
  exact exists_of_readName hname

theorem toList_spelled (raw : Bool) (name : List Char) :
    (Tree.spelled raw (String.ofList name)).toList =
      (if raw then ['r', '#'] else []) ++ name := by
  cases raw with
  | false => simp [Tree.spelled]
  | true =>
    have hraw : "r#".toList = ['r', '#'] := by decide
    simp [Tree.spelled, hraw]

theorem spelling_of_readLeaf {pos : Nat} {cs taken rest l : List Char} {t : Tree}
    (h : readLeaf pos cs = some (t, taken, rest)) (hl : l ∈ t.lexemes) : Spelling l := by
  cases readLeaf_eq_some_iff.mp h with
  | literal hlit =>
    obtain rfl : l = taken := by simpa [Tree.lexemes] using hl
    have hcut : l ++ rest = cs := cuts_readLiteral hlit
    rw [← hcut] at hlit
    exact .literal hlit
  | tick =>
    obtain rfl : l = ['\''] := by simpa [Tree.lexemes] using hl
    exact .single _
  | mark =>
    obtain rfl := List.mem_singleton.mp hl
    exact .single _
  | @word raw name _ _ _ _ hword =>
    obtain rfl := List.mem_singleton.mp hl
    obtain ⟨c, tail, rfl, hc, htail⟩ := exists_of_readAnyWord hword
    rw [toList_spelled]
    exact .word raw hc htail

theorem spelling_of_docTrees {words l : List Char} {inner : Bool} {start stop : Nat}
    (h : l ∈ lexemesIn (docTrees words inner start stop)) : Spelling l := by
  have hmem : l ∈ [['#'], ['!'], ['['], "doc".toList, ['='],
      '"' :: (docLiteral words ++ ['"']), [']']] := by
    cases inner <;>
      simp [docTrees, lexemesIn, Tree.lexemes, Tree.spelled, Delimiter.opening,
        Delimiter.closing] at h ⊢ <;>
      tauto
  have hletters : ∀ d ∈ ['o', 'c'], isWordContinue d := by simp [isWordContinue]
  have hword : Spelling "doc".toList := .word false (by decide : isWordStart 'd') hletters
  simp only [List.mem_cons, List.not_mem_nil, or_false] at hmem
  rcases hmem with rfl | rfl | rfl | rfl | rfl | rfl | rfl
  all_goals first
    | exact .single _
    | exact hword
    | exact .doc _

theorem Lexes.spelling {pos stop : Nat} {cs rest l : List Char} {ts : List Tree}
    (h : Lexes pos cs ts stop rest) (hl : l ∈ lexemesIn ts) : Spelling l := by
  induction h with
  | done => cases hl
  | doc _ _ _ _ ih =>
    rw [lexemesIn_eq_flatMap, List.flatMap_append, List.mem_append, ← lexemesIn_eq_flatMap,
      ← lexemesIn_eq_flatMap] at hl
    exact hl.elim spelling_of_docTrees ih
  | leaf _ hleaf _ ih => exact (List.mem_append.mp hl).elim (spelling_of_readLeaf hleaf) ih
  | group _ _ _ _ ih ih' =>
    rcases List.mem_append.mp hl with hl | hl
    · simp only [Tree.lexemes, List.mem_cons, List.mem_append, List.not_mem_nil, or_false] at hl
      rcases hl with rfl | hl | rfl
      · exact .single _
      · exact ih hl
      · exact .single _
    · exact ih' hl

theorem IsToken.spelling {l : List Char} (h : IsToken l) : Spelling l := by
  obtain ⟨pos, cs, ts, htrees, hl⟩ := h
  obtain ⟨us, stop, rest, hus, gap, -, rfl⟩ := exists_of_readTrees htrees
  exact hus.spelling hl

theorem IsToken.ne_nil {l : List Char} (h : IsToken l) : l ≠ [] := by
  cases h.spelling with
  | single | doc => simp
  | literal hlit => exact readLiteral_ne_nil hlit
  | word raw => cases raw <;> simp

/-- A token is one of the text that it spells. -/
theorem isToken_of_readLeaf {c : Char} {cs : List Char} {t : Tree}
    (hgap : gapOf (c :: cs) = ([], c :: cs)) (hmark : c ≠ byteOrderMark)
    (h : readLeaf 0 (c :: cs) = some (t, c :: cs, [])) (hl : c :: cs ∈ t.lexemes) :
    IsToken (c :: cs) := by
  have hbegin : withoutMark (c :: cs) = (0, c :: cs) := if_neg hmark
  refine ⟨0, c :: cs, [t], (treesFrom_eq_ok_iff hbegin).mpr ?_, mem_lexemesIn.mpr ⟨t, by simp, hl⟩⟩
  exact ⟨_, [], [], .leaf hgap h .done, rfl⟩

theorem isToken_comma : IsToken [','] :=
  isToken_of_readLeaf (gapOf_of_none (by decide)) (by decide) rfl (.head [])

theorem isToken_dot : IsToken ['.'] :=
  isToken_of_readLeaf (gapOf_of_none (by decide)) (by decide) rfl (.head [])

section

variable {c : Char} {cs : List Char}

theorem readMantissa_digits (h : ∀ d ∈ cs, d.isDigit) (dot : Bool) :
    readMantissa dot cs = some (dot, false, cs, []) := by
  induction cs with
  | nil => rfl
  | cons c cs ih =>
    obtain ⟨hc, hcs⟩ := List.forall_mem_cons.mp h
    simp [readMantissa, hc, ih hcs, Split.after]

theorem hexDigitValue_lt_ten (h : c.isDigit) : hexDigitValue c < 10 := by
  simp only [hexDigitValue, h, ↓reduceIte]
  simp only [Char.isDigit, Bool.and_eq_true, decide_eq_true_eq, ge_iff_le,
    UInt32.le_iff_toNat_le] at h
  have hzero : '0'.toNat = 48 := rfl
  have hnine : '9'.val.toNat = 57 := rfl
  have hc : c.toNat = c.val.toNat := rfl
  omega

theorem readDigits_digits (h : ∀ d ∈ cs, d.isDigit) (blank : Bool) :
    readDigits 10 blank cs = some (blank && cs.isEmpty, cs, []) := by
  induction cs generalizing blank with
  | nil => simp [readDigits]
  | cons c cs ih =>
    obtain ⟨hc, hcs⟩ := List.forall_mem_cons.mp h
    simp [readDigits, hc, hexDigitValue_lt_ten hc, ih hcs, Split.after]

/-- Digits are read as one number. -/
theorem readNumber_digits (h : ∀ d ∈ c :: cs, d.isDigit) :
    readNumber (c :: cs) = some (c :: cs, []) := by
  have hc := h c List.mem_cons_self
  have hfloat : readFloatDigits (c :: cs) = none := by
    simp [readFloatDigits, hc, readMantissa_digits h]
  have hbase : readBase (c :: cs) = (10, [], c :: cs) := by
    have hletter (d : Char) (hd : d.isDigit = false) : d ∉ cs := fun hmem => by
      rw [h d (List.mem_cons_of_mem c hmem)] at hd
      cases hd
    unfold readBase
    split
    · next heq => exact absurd (by simp [(List.cons.inj heq).2]) (hletter 'x' (by decide))
    · next heq => exact absurd (by simp [(List.cons.inj heq).2]) (hletter 'o' (by decide))
    · next heq => exact absurd (by simp [(List.cons.inj heq).2]) (hletter 'b' (by decide))
    · rfl
  have hint : readIntDigits (c :: cs) = some (c :: cs, []) := by
    simp [readIntDigits, hbase, readDigits_digits h, Split.after]
  simp [readNumber, hfloat, hint, endNumber, withSuffix, readSuffix, readName]

theorem isToken_digits (h : ∀ d ∈ c :: cs, d.isDigit) : IsToken (c :: cs) := by
  have hc := h c List.mem_cons_self
  have htext := startsText_eq_false hc
  have hlit : readLiteral (c :: cs) = some (c :: cs, []) := by
    simp [readLiteral, readTextLiteral_eq_none cs htext, readCharLiteral_eq_none cs htext,
      readNumber_digits h]
  have hgap : gapOf (c :: cs) = ([], c :: cs) := by
    have hdigits : c.toNat ∈ List.range' 48 10 := by
      simp only [Char.isDigit, Bool.and_eq_true, decide_eq_true_eq, ge_iff_le,
        UInt32.le_iff_toNat_le] at hc
      have hzero : '0'.val.toNat = 48 := rfl
      have hnine : '9'.val.toNat = 57 := rfl
      have hpoint : c.toNat = c.val.toNat := rfl
      exact List.mem_range'_1.mpr (by omega)
    have hall : ((List.range' 48 10).all fun n =>
        !isGap (Char.ofNat n) && Char.ofNat n != '/') = true := by decide
    have hclear := List.all_eq_true.mp hall c.toNat hdigits
    simp only [Char.ofNat_toNat, Bool.and_eq_true, Bool.not_eq_true', bne_iff_ne] at hclear
    refine gapOf_of_none ?_
    simp [readBlank, opensLine, opensBlock, List.isPrefixOf, hclear.1,
      beq_eq_false_iff_ne.mpr (Ne.symm hclear.2)]
  have hmark : c ≠ byteOrderMark := by
    rintro rfl
    exact absurd hc (by decide)
  exact isToken_of_readLeaf (t := .literal (String.ofList (c :: cs)) 0) hgap hmark
    (by simp [readLeaf, hlit]) (by simp [Tree.lexemes])

end

/-! ### Tokens in a row -/

/-- A token, with some of the characters behind it, is spelled like a longer token. -/
def GoesOnAs (l after m : List Char) : Prop :=
  IsToken m ∧ l.length < m.length ∧ m <+: l ++ after

/-- A token goes on as some longer token. -/
def RunsInto (l after : List Char) : Prop := ∃ m, GoesOnAs l after m

/-- No token of a row goes on as a longer one. -/
def Apart : List (List Char) → Prop
  | [] => True
  | l :: ls => ¬ RunsInto l ls.flatten ∧ Apart ls

/-- Behind the same tokens one row has a token that goes on as a longer token, which the other row
has in its place. -/
def Blurred (ls ms : List (List Char)) : Prop :=
  ∃ start l m rest rest', ls = start ++ l :: rest ∧ ms = start ++ m :: rest' ∧
    (GoesOnAs l rest.flatten m ∨ GoesOnAs m rest'.flatten l)

theorem Blurred.cons {ls ms : List (List Char)} (h : Blurred ls ms) (l : List Char) :
    Blurred (l :: ls) (l :: ms) := by
  obtain ⟨start, k, m, rest, rest', rfl, rfl, hgoes⟩ := h
  exact ⟨l :: start, k, m, rest, rest', rfl, rfl, hgoes⟩

/-- Rows of tokens with the same characters are the same, or blurred. -/
theorem eq_or_blurred {ls ms : List (List Char)} (hls : ∀ l ∈ ls, IsToken l)
    (hms : ∀ m ∈ ms, IsToken m) (h : ls.flatten = ms.flatten) : ls = ms ∨ Blurred ls ms := by
  induction ls generalizing ms with
  | nil =>
    cases ms with
    | nil => exact .inl rfl
    | cons m ms =>
      exact absurd (List.append_eq_nil_iff.mp h.symm).1 (hms m List.mem_cons_self).ne_nil
  | cons l ls ih =>
    cases ms with
    | nil => exact absurd (List.append_eq_nil_iff.mp h).1 (hls l List.mem_cons_self).ne_nil
    | cons m ms =>
      obtain ⟨hl, htail⟩ := List.forall_mem_cons.mp hls
      obtain ⟨hm, htail'⟩ := List.forall_mem_cons.mp hms
      have hrow : l ++ ls.flatten = m ++ ms.flatten := h
      -- The shorter of two first tokens goes on as the longer one.
      rcases Nat.lt_trichotomy l.length m.length with hlt | heq | hlt
      · have hgoes : GoesOnAs l ls.flatten m := ⟨hm, hlt, hrow ▸ List.prefix_append m _⟩
        exact .inr ⟨[], l, m, ls, ms, rfl, rfl, .inl hgoes⟩
      · obtain ⟨rfl, hrest⟩ := List.append_inj hrow heq
        exact (ih htail htail' hrest).imp (congrArg _) (Blurred.cons · l)
      · have hgoes : GoesOnAs m ms.flatten l := ⟨hl, hlt, hrow ▸ List.prefix_append l _⟩
        exact .inr ⟨[], l, m, ls, ms, rfl, rfl, .inr hgoes⟩

theorem Apart.of_append {ls ms : List (List Char)} (h : Apart (ls ++ ms)) : Apart ms := by
  induction ls with
  | nil => exact h
  | cons l ls ih => exact ih h.2

theorem not_blurred {ls ms : List (List Char)} (hl : Apart ls) (hm : Apart ms) :
    ¬ Blurred ls ms := by
  rintro ⟨start, l, m, rest, rest', rfl, rfl, hgoes | hgoes⟩
  · exact hl.of_append.1 ⟨m, hgoes⟩
  · exact hm.of_append.1 ⟨l, hgoes⟩

/-- Where a character stands behind a word, the word may go on as a longer token. -/
def joinsWord (c : Char) : Bool := isWordStart c || isWordContinue c || ['"', '\'', '#'].contains c

/-- A token of one character that starts no other token, or a word before a character that does
not go on with it. -/
def isSetOff (l after : List Char) : Bool :=
  match l with
  | [] => false
  | c :: cs =>
    if isWordStart c then cs.all isWordContinue && !after.head?.any joinsWord
    else cs.isEmpty && !c.isDigit && !startsText c

def areSetOff : List (List Char) → Bool
  | [] => true
  | l :: ls => isSetOff l ls.flatten && areSetOff ls

/-- A word is not the start of a quoted text if the character behind it does not go on with it. -/
theorem any_quoteStarts_setOff {cs after : List Char}
    (hcs : ∀ d ∈ cs, (isWordStart d || isWordContinue d) = true)
    (hafter : after.head?.any joinsWord = false) :
    (quoteStarts.any fun q => q.isPrefixOf (cs ++ after)) = false := by
  let inWord (d : Char) := isWordStart d || isWordContinue d
  -- Each start of a quoted text goes on with a quote or a hash behind its letters.
  have hquotes : (quoteStarts.all fun q => (q.dropWhile inWord).head?.any joinsWord) = true := by
    decide
  rw [Bool.eq_false_iff, ne_eq, List.any_eq_true]
  rintro ⟨q, hq, hpre⟩
  obtain ⟨rest, hrest⟩ := List.isPrefixOf_iff_prefix.mp hpre
  have hstart := List.all_eq_true.mp hquotes q hq
  have hdrop : (q ++ rest).dropWhile inWord = after.dropWhile inWord := by
    rw [hrest, List.dropWhile_append_of_pos hcs]
  rw [List.dropWhile_append] at hdrop
  cases hletters : q.dropWhile inWord with
  | nil => simp [hletters] at hstart
  | cons d ds =>
    simp only [hletters, List.isEmpty_cons, Bool.false_eq_true, ↓reduceIte] at hdrop hstart
    cases after with
    | nil => cases hdrop
    | cons x after =>
      have hx : inWord x = false := by
        simp only [List.head?_cons, Option.any_some, joinsWord, Bool.or_eq_false_iff] at hafter
        exact Bool.or_eq_false_iff.mpr hafter.1
      rw [List.dropWhile_cons_of_neg (by simp [hx])] at hdrop
      obtain ⟨rfl, -⟩ := List.cons.inj hdrop
      exact absurd hstart (by simpa using hafter)

/-- No longer token starts with a mark or a delimiter. -/
theorem length_eq_one_of_token {c : Char} {cs : List Char} (h : IsToken (c :: cs))
    (hword : isWordStart c = false) (hdigit : c.isDigit = false) (htext : startsText c = false) :
    cs = [] := by
  generalize hl : c :: cs = l at h
  cases h.spelling with
  | single => exact (List.cons.inj hl).2
  | doc =>
    obtain ⟨rfl, -⟩ := List.cons.inj hl
    exact absurd htext (by decide)
  | literal hlit =>
    rw [← hl, List.cons_append, readLiteral_eq_none _ hdigit htext] at hlit
    cases hlit
  | word raw hc =>
    cases raw with
    | false =>
      obtain ⟨rfl, -⟩ := List.cons.inj hl
      rw [hword] at hc
      cases hc
    | true =>
      obtain ⟨rfl, -⟩ := List.cons.inj hl
      exact absurd hword (by decide)

/-- A longer token that starts with a word goes on with a character of a word, a quote or a
hash. -/
theorem joinsWord_of_token {c x : Char} {cs tail : List Char}
    (h : IsToken (c :: (cs ++ x :: tail))) (hc : isWordStart c = true)
    (hcs : ∀ d ∈ cs, isWordContinue d = true) : joinsWord x = true := by
  by_contra hx
  generalize hl : c :: (cs ++ x :: tail) = l at h
  cases h.spelling with
  | single => simp at hl
  | doc =>
    obtain ⟨rfl, -⟩ := List.cons.inj hl
    exact absurd hc (by decide)
  | @literal _ rest hlit =>
    have hletters : ∀ d ∈ c :: cs, (isWordStart d || isWordContinue d) = true :=
      List.forall_mem_cons.mpr ⟨by simp [hc], fun d hd => by simp [hcs d hd]⟩
    have hquote : (quoteStarts.any fun q => q.isPrefixOf (c :: (cs ++ x :: (tail ++ rest)))) =
        false := any_quoteStarts_setOff hletters (by simpa using hx)
    have hall : l ++ rest = c :: (cs ++ x :: (tail ++ rest)) := by simp [← hl]
    rw [hall, readLiteral_eq_none_of_word hc hquote] at hlit
    cases hlit
  | @word raw c' tail' hc' htail' =>
    have hmem : x ∈ cs ++ x :: tail := by simp
    cases raw with
    | false =>
      obtain ⟨-, hrest⟩ := List.cons.inj hl
      rw [hrest] at hmem
      exact hx (by simp [joinsWord, htail' x hmem])
    | true =>
      -- The second character of a raw word is a hash, which is in no other word.
      cases cs with
      | nil =>
        obtain ⟨-, hrest⟩ := List.cons.inj hl
        obtain ⟨rfl, -⟩ := List.cons.inj hrest
        exact hx (by decide)
      | cons d cs =>
        obtain ⟨-, hrest⟩ := List.cons.inj hl
        obtain ⟨rfl, -⟩ := List.cons.inj hrest
        exact absurd (hcs '#' List.mem_cons_self) (by decide)

theorem not_runsInto_of_isSetOff {l after : List Char} (h : isSetOff l after = true) :
    ¬ RunsInto l after := by
  rintro ⟨m, hm, hlt, hpre⟩
  cases l with
  | nil => cases h
  | cons c cs =>
    obtain ⟨more, rfl⟩ : c :: cs <+: m :=
      List.prefix_of_prefix_length_le (List.prefix_append _ after) hpre hlt.le
    have hmore : more <+: after := (List.prefix_append_right_inj _).mp hpre
    cases more with
    | nil => simp at hlt
    | cons x tail =>
      obtain ⟨rest, rfl⟩ := hmore
      simp only [isSetOff] at h
      split at h
      · next hc =>
        obtain ⟨hcs, hx⟩ := Bool.and_eq_true_iff.mp h
        have hjoins := joinsWord_of_token hm hc (List.all_eq_true.mp hcs)
        simp [hjoins] at hx
      · next hc =>
        simp only [Bool.and_eq_true, Bool.not_eq_true', List.isEmpty_iff] at h
        have hnil := length_eq_one_of_token hm (by simpa using hc) h.1.2 h.2
        simp at hnil

/-- A row in which each token is set off is kept apart. -/
theorem apart_of_areSetOff {ls : List (List Char)} (h : areSetOff ls = true) : Apart ls := by
  induction ls with
  | nil => trivial
  | cons l ls ih =>
    obtain ⟨hl, hls⟩ := Bool.and_eq_true_iff.mp h
    exact ⟨not_runsInto_of_isSetOff hl, ih hls⟩

end Instrumentation.Source
