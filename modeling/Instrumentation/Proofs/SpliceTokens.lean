import Instrumentation.Rule.Definition
import Instrumentation.Splice.Text
import Mathlib.Data.List.Basic

/-!
The tokens of generated text: words, texts in quotes, and marks. Texts are put together so that no
word runs over from one to the next; then the tokens of the whole are those of its parts. Of the
tokens, two things are asked: where a name stands, and whether the delimiters are balanced.
-/
namespace Instrumentation.Splice

open Source (Delimiter openingOf? closingOf?)

inductive Token where
  | word (name : List Char)
  | quoted
  | mark (c : Char)
  deriving DecidableEq, Repr

def isWordChar (c : Char) : Bool := Text.isLetterOrNumber c || c == '_'

/-- What a reader of tokens is in: code, after the start of a word, last character first; a text in
quotes; or such a text, after a backslash. -/
inductive Reader where
  | code (word : List Char)
  | text
  | escaped

def wordToken : List Char → List Token
  | [] => []
  | w => [.word w.reverse]

theorem wordToken_of_ne {w : List Char} (h : w ≠ []) : wordToken w = [.word w.reverse] := by
  cases w with
  | nil => exact absurd rfl h
  | cons c w => rfl

/-- The tokens that are left to read, if the last text in quotes ends. -/
def tokensFrom : Reader → List Char → Option (List Token)
  | .code w, [] => some (wordToken w)
  | .text, [] => none
  | .escaped, [] => none
  | .code w, c :: cs =>
    if isWordChar c then tokensFrom (.code (c :: w)) cs
    else if c = '"' then (tokensFrom .text cs).map (wordToken w ++ ·)
    else if c.isWhitespace then (tokensFrom (.code []) cs).map (wordToken w ++ ·)
    else (tokensFrom (.code []) cs).map (wordToken w ++ Token.mark c :: ·)
  | .text, c :: cs =>
    if c = '"' then (tokensFrom (.code []) cs).map (.quoted :: ·)
    else if c = '\\' then tokensFrom .escaped cs
    else tokensFrom .text cs
  | .escaped, _ :: cs => tokensFrom .text cs

def tokens? (cs : List Char) : Option (List Token) := tokensFrom (.code []) cs

def opensWord (cs : List Char) : Bool := cs.head?.any isWordChar

def endsWord (cs : List Char) : Bool := cs.getLast?.any isWordChar

theorem endsWord_cons {c : Char} {cs : List Char} (h : cs ≠ []) :
    endsWord (c :: cs) = endsWord cs := by
  obtain ⟨d, cs, rfl⟩ := List.exists_cons_of_ne_nil h
  rw [endsWord, List.getLast?_cons_cons, endsWord]

/-- A word ends where no other one goes on. -/
theorem tokensFrom_code {w b : List Char} (h : opensWord b = false) :
    tokensFrom (.code w) b = (tokens? b).map (wordToken w ++ ·) := by
  cases b with
  | nil => simp [tokens?, tokensFrom, wordToken]
  | cons c b =>
    have hc : isWordChar c = false := by simpa [opensWord] using h
    simp only [tokens?, tokensFrom, hc, Bool.false_eq_true, ↓reduceIte]
    split
    · simp [wordToken]
    · split <;> simp [wordToken, Function.comp_def]

/-- The tokens that end at a character, and what the reader is in behind it. -/
def Reader.next (r : Reader) (c : Char) : List Token × Reader :=
  match r with
  | .code w =>
    if isWordChar c then ([], .code (c :: w))
    else if c = '"' then (wordToken w, .text)
    else if c.isWhitespace then (wordToken w, .code [])
    else (wordToken w ++ [.mark c], .code [])
  | .text =>
    if c = '"' then ([.quoted], .code [])
    else if c = '\\' then ([], .escaped)
    else ([], .text)
  | .escaped => ([], .text)

theorem tokensFrom_cons (r : Reader) (c : Char) (cs : List Char) :
    tokensFrom r (c :: cs) = (tokensFrom (r.next c).2 cs).map ((r.next c).1 ++ ·) := by
  cases r with
  | code w =>
    simp only [tokensFrom, Reader.next]
    split
    · simp
    · split
      · rfl
      · split <;> simp
  | text =>
    simp only [tokensFrom, Reader.next]
    split
    · simp
    · split <;> simp
  | escaped => simp [tokensFrom, Reader.next]

/-- Behind a character that is no part of a word no word has begun. -/
theorem Reader.eq_nil_of_next {r : Reader} {c : Char} {w : List Char} (hc : isWordChar c = false)
    (h : (r.next c).2 = .code w) : w = [] := by
  cases r with
  | code w' =>
    simp only [next, hc, Bool.false_eq_true, ↓reduceIte] at h
    split at h
    · cases h
    · split at h <;> cases h <;> rfl
  | text =>
    simp only [next] at h
    split at h
    · cases h
      rfl
    · split at h <;> cases h
  | escaped => cases h

/-- What the reader is in after the last character must end there: no word runs on into what
follows. -/
theorem tokensFrom_append {a b : List Char} {ts : List Token} {r : Reader}
    (h : tokensFrom r a = some ts)
    (hapart : opensWord b = false ∨ endsWord a = false ∧ (a = [] → r = .code [])) :
    tokensFrom r (a ++ b) = (tokens? b).map (ts ++ ·) := by
  induction a generalizing r ts with
  | nil =>
    cases r with
    | text => cases h
    | escaped => cases h
    | code w =>
      obtain rfl : wordToken w = ts := Option.some.inj h
      rcases hapart with hopens | ⟨-, hend⟩
      · exact tokensFrom_code hopens
      · cases hend rfl
        simp [tokens?, wordToken]
  | cons c a ih =>
    rw [tokensFrom_cons] at h
    obtain ⟨us, hus, rfl⟩ := Option.map_eq_some_iff.mp h
    have hrest : opensWord b = false ∨ endsWord a = false ∧ (a = [] → (r.next c).2 = .code []) := by
      refine hapart.imp_right fun hends => ?_
      by_cases ha : a = []
      · -- The last character is no part of a word, so none is cut off before it began.
        subst ha
        have hc : isWordChar c = false := by simpa [endsWord] using hends.1
        refine ⟨rfl, fun _ => ?_⟩
        cases hnext : (r.next c).2 with
        | code w => rw [Reader.eq_nil_of_next hc hnext]
        | text => rw [hnext] at hus; cases hus
        | escaped => rw [hnext] at hus; cases hus
      · exact ⟨(endsWord_cons ha).symm.trans hends.1, fun hnil => absurd hnil ha⟩
    rw [List.cons_append, tokensFrom_cons, ih hus hrest]
    simp [Function.comp_def]

/-- Two texts of which no word runs over from one to the other. -/
def Apart (a b : List Char) : Prop := endsWord a = false ∨ opensWord b = false

theorem tokens?_append {a b : List Char} {ts us : List Token} (ha : tokens? a = some ts)
    (hb : tokens? b = some us) (h : Apart a b) : tokens? (a ++ b) = some (ts ++ us) := by
  have hread : tokens? (a ++ b) = (tokens? b).map (ts ++ ·) :=
    tokensFrom_append ha (h.symm.imp_right fun hends => ⟨hends, fun _ => rfl⟩)
  rw [hread, hb, Option.map_some]

/-! ### Words, quoted texts and paths -/

theorem tokensFrom_word {w rest : List Char} (h : ∀ c ∈ rest, isWordChar c = true) :
    tokensFrom (.code w) rest = some (wordToken (rest.reverse ++ w)) := by
  induction rest generalizing w with
  | nil => rfl
  | cons c rest ih =>
    rw [tokensFrom, if_pos (h c List.mem_cons_self), ih fun d hd => h d (List.mem_cons_of_mem c hd)]
    simp

theorem tokens?_word {w : List Char} (h : ∀ c ∈ w, isWordChar c = true) (hne : w ≠ []) :
    tokens? w = some [.word w] := by
  rw [tokens?, tokensFrom_word h, List.append_nil, wordToken_of_ne (by simpa using hne),
    List.reverse_reverse]

/-- A character that stands for itself in a text in quotes, on the same line. -/
def isPlain (c : Char) : Bool := c != '"' && c != '\\' && c != '\n'

theorem tokensFrom_text {cs : List Char} (h : ∀ c ∈ cs, isPlain c = true) (rest : List Char) :
    tokensFrom .text (cs ++ rest) = tokensFrom .text rest := by
  induction cs with
  | nil => rfl
  | cons c cs ih =>
    have hc : (c ≠ '"' ∧ c ≠ '\\') ∧ c ≠ '\n' := by simpa [isPlain] using h c List.mem_cons_self
    rw [List.cons_append, tokensFrom, if_neg hc.1.1, if_neg hc.1.2]
    exact ih fun d hd => h d (List.mem_cons_of_mem c hd)

theorem isPlain_hexDigits {n : Nat} : ∀ c ∈ Text.hexDigits n, isPlain c = true := by
  have hdigit : ∀ d < 16, isPlain (Nat.digitChar d) = true := by decide
  have hcore (fuel m : Nat) (ds : List Char) (hds : ∀ c ∈ ds, isPlain c = true) :
      ∀ c ∈ Nat.toDigitsCore 16 fuel m ds, isPlain c = true := by
    induction fuel generalizing m ds with
    | zero => exact hds
    | succ fuel ih =>
      have hcons : ∀ c ∈ Nat.digitChar (m % 16) :: ds, isPlain c = true :=
        List.forall_mem_cons.mpr ⟨hdigit _ (Nat.mod_lt m (by decide)), hds⟩
      unfold Nat.toDigitsCore
      dsimp only
      split
      · exact hcons
      · exact ih _ _ hcons
  exact hcore _ n [] (List.forall_mem_nil _)

theorem isPlain_codePoint {c : Char} : ∀ d ∈ (Text.codePoint c).drop 2, isPlain d = true := by
  have hdrop : (Text.codePoint c).drop 2 =
      Char.ofNat 0x7B :: (Text.hexDigits c.toNat ++ [Char.ofNat 0x7D]) := rfl
  rw [hdrop]
  refine List.forall_mem_cons.mpr ⟨by decide, List.forall_mem_append.mpr ⟨isPlain_hexDigits, ?_⟩⟩
  exact List.forall_mem_singleton.mpr (by decide)

/-- An escaped character does not end the text in quotes that it is in. -/
theorem tokensFrom_escapeChar (c : Char) (rest : List Char) :
    tokensFrom .text (Text.escapeChar '"' c ++ rest) = tokensFrom .text rest := by
  unfold Text.escapeChar
  split_ifs with h₁ h₂ h₃ h₄ h₅ h₆
  any_goals rfl
  · simp only [Bool.or_eq_true, decide_eq_true_eq, not_or] at h₅
    exact tokensFrom_text (List.forall_mem_singleton.mpr (by simp [isPlain, h₄, h₅])) rest
  · exact tokensFrom_text isPlain_codePoint rest

theorem newline_notMem_escapeChar (c : Char) : '\n' ∉ Text.escapeChar '"' c := by
  unfold Text.escapeChar
  split_ifs with h₁ h₂ h₃ h₄ h₅ h₆
  any_goals decide
  · simp [Ne.symm h₄]
  · simp [Ne.symm h₄]
  · intro hmem
    have hsplit : Text.codePoint c = '\\' :: 'u' :: (Text.codePoint c).drop 2 := rfl
    rw [hsplit] at hmem
    rcases List.mem_cons.mp hmem with h | hmem
    · cases h
    · rcases List.mem_cons.mp hmem with h | hmem
      · cases h
      · exact absurd (isPlain_codePoint _ hmem) (by decide)

theorem newline_notMem_quoted (s : String) : '\n' ∉ (Text.quoted s).toList := by
  intro hmem
  rw [Text.quoted, String.toList_ofList] at hmem
  rcases List.mem_cons.mp hmem with h | hmem
  · cases h
  · rcases List.mem_append.mp hmem with hmem | hmem
    · obtain ⟨c, -, hc⟩ := List.mem_flatMap.mp hmem
      exact newline_notMem_escapeChar c hc
    · cases List.mem_singleton.mp hmem

theorem tokens?_quoted (s : String) : tokens? (Text.quoted s).toList = some [.quoted] := by
  have hread (cs : List Char) : tokensFrom .text (cs.flatMap (Text.escapeChar '"') ++ ['"']) =
      some [.quoted] := by
    induction cs with
    | nil => rfl
    | cons c cs ih =>
      rw [List.flatMap_cons, List.append_assoc, tokensFrom_escapeChar]
      exact ih
  have hquote : isWordChar '"' = false := by decide
  rw [Text.quoted, String.toList_ofList, tokens?, List.cons_append, tokensFrom, hquote]
  simp [hread, wordToken]

/-! ### Names -/

/-- A word that the name of a static or variable comes right after, where it is declared. -/
def Token.declares : Token → Bool
  | .word w => w == "static".toList || w == "mut".toList
  | _ => false

/-- Where the word `x` stands among tokens: for each place, whether it is declared there. -/
def mentions (x : List Char) : (declares : Bool) → List Token → List Bool
  | _, [] => []
  | declares, t :: ts => (if t = Token.word x then [declares] else []) ++ mentions x t.declares ts

/-- Whether the last token declares what comes next. -/
def declaresNext (declares : Bool) (ts : List Token) : Bool :=
  (ts.getLast?.map Token.declares).getD declares

theorem mentions_append (x : List Char) (declares : Bool) (ts us : List Token) :
    mentions x declares (ts ++ us) =
      mentions x declares ts ++ mentions x (declaresNext declares ts) us := by
  induction ts generalizing declares with
  | nil => rfl
  | cons t ts ih =>
    have hlast : declaresNext declares (t :: ts) = declaresNext t.declares ts := by
      cases ts with
      | nil => rfl
      | cons u ts =>
        rw [declaresNext, List.getLast?_cons_cons, declaresNext]
        cases hlast : (u :: ts).getLast? with
        | none => exact absurd (List.getLast?_eq_none_iff.mp hlast) (List.cons_ne_nil u ts)
        | some v => rfl
    rw [List.cons_append, mentions, ih, mentions, List.append_assoc, hlast]

theorem mentions_of_not_mem {x : List Char} {ts : List Token} (h : Token.word x ∉ ts)
    (declares : Bool) : mentions x declares ts = [] := by
  induction ts generalizing declares with
  | nil => rfl
  | cons t ts ih =>
    obtain ⟨ht, hts⟩ := not_or.mp (mt List.mem_cons.mpr h)
    rw [mentions, ih hts, if_neg fun heq => ht heq.symm]
    rfl

/-! ### Delimiters -/

/-- The delimiters among tokens. -/
def delimiters (ts : List Token) : List Char :=
  ts.filterMap fun
    | .mark c => if (openingOf? c).isSome || (closingOf? c).isSome then some c else none
    | _ => none

theorem delimiters_append (ts us : List Token) :
    delimiters (ts ++ us) = delimiters ts ++ delimiters us := List.filterMap_append

/-- The groups that are open after some delimiters, innermost first. -/
def nest : List Delimiter → List Char → Option (List Delimiter)
  | opened, [] => some opened
  | opened, c :: cs =>
    match openingOf? c, opened with
    | some d, _ => nest (d :: opened) cs
    | none, d :: opened => if closingOf? c = some d then nest opened cs else none
    | none, [] => none

theorem nest_append (opened : List Delimiter) (cs ds : List Char) :
    nest opened (cs ++ ds) = (nest opened cs).bind fun opened => nest opened ds := by
  induction cs generalizing opened with
  | nil => rfl
  | cons c cs ih =>
    simp only [List.cons_append, nest]
    split
    · exact ih _
    · split
      · exact ih _
      · rfl
    · rfl

/-- Groups that were open before stay so. -/
theorem nest_outer {opened later outer : List Delimiter} {cs : List Char}
    (h : nest opened cs = some later) : nest (opened ++ outer) cs = some (later ++ outer) := by
  induction cs generalizing opened with
  | nil =>
    obtain rfl := Option.some.inj h
    rfl
  | cons c cs ih =>
    simp only [nest] at h
    split at h
    · next d hopening =>
      have hnext := ih h
      simp only [nest, hopening]
      exact hnext
    · next d opened hopening =>
      split at h
      · next hclosing =>
        simp only [List.cons_append, nest, hopening, if_pos hclosing]
        exact ih h
      · cases h
    · cases h

/-- A character of a path: one of a word, or one that stands between words. -/
def isPathChar (c : Char) : Bool := isWordChar c || c == ':' || c == '#'

/-- A path has no quotes and no delimiters. -/
theorem exists_tokensFrom_path {cs : List Char} (h : ∀ c ∈ cs, isPathChar c = true)
    (w : List Char) : ∃ ts, tokensFrom (.code w) cs = some ts ∧ delimiters ts = [] := by
  have hword (w : List Char) : delimiters (wordToken w) = [] := by
    cases w <;> rfl
  induction cs generalizing w with
  | nil => exact ⟨wordToken w, rfl, hword w⟩
  | cons c cs ih =>
    have hrest := fun d hd => h d (List.mem_cons_of_mem c hd)
    by_cases hc : isWordChar c = true
    · rw [tokensFrom, if_pos hc]
      exact ih hrest (c :: w)
    · obtain ⟨ts, hts, hnone⟩ := ih hrest []
      have hmark : c = ':' ∨ c = '#' := by
        simpa [isPathChar, hc] using h c List.mem_cons_self
      refine ⟨wordToken w ++ Token.mark c :: ts, ?_, ?_⟩
      · rcases hmark with rfl | rfl <;> simp [tokensFrom, hc, hts]
      · rw [delimiters_append, hword]
        rcases hmark with rfl | rfl <;> exact hnone

/-- Text whose delimiters outside of quotes are balanced. -/
def Balanced (cs : List Char) : Prop :=
  ∃ ts, tokens? cs = some ts ∧ nest [] (delimiters ts) = some []

end Instrumentation.Splice
