import Instrumentation.Proofs.FileHead

/-!
The line for the system's loader. Whether a text has one is seen from what follows `#!`, and that
may run on, through comments, behind the inner attributes of the file. What is put behind them does
not make such a line an attribute.
-/
namespace Instrumentation.Source

open Text (byteLength)

section

/-- A text that can stand in a comment or a line without ending it or starting another. -/
def Neutral (w : List Char) : Prop := ∀ c ∈ w, c ≠ '/' ∧ c ≠ '*' ∧ c ≠ '\n'

variable {w z a : List Char}

/-- What opens a comment is seen before the text ends. -/
theorem isPrefixOf_endsWell (h : EndsWell a) (hne : a ≠ []) {q : List Char}
    (hq : q ∈ [['/', '/'], ['/', '/', '!'], ['/', '/', '/'], ['/', '/', '/', '/'], ['/', '*'],
      ['/', '*', '!'], ['/', '*', '*'], ['/', '*', '*', '*'], ['/', '*', '*', '/']])
    (z z' : List Char) : q.isPrefixOf (a ++ z) = q.isPrefixOf (a ++ z') := by
  have hends {b c : Char} (h : EndsWell [b, c]) : c = ']' ∨ b = '*' ∧ c = '/' := by
    rcases h.of_cons with h | h | h
    · cases h
    · exact .inr (by simpa using h)
    · rcases h.1.of_cons with h | h | h
      · exact .inl (by simpa using h)
      · cases h
      · exact absurd rfl h.2
  simp only [List.mem_cons, List.not_mem_nil, or_false] at hq
  match a with
  | [] => exact absurd rfl hne
  | [b] =>
    rcases h.of_cons with h | h | h
    · cases h
      rcases hq with rfl | rfl | rfl | rfl | rfl | rfl | rfl | rfl | rfl <;> rfl
    · cases h
    · exact absurd rfl h.2
  | [b, c] =>
    rcases hends h with rfl | ⟨rfl, rfl⟩ <;>
      rcases hq with rfl | rfl | rfl | rfl | rfl | rfl | rfl | rfl | rfl <;> simp [List.isPrefixOf]
  | [b, c, d] =>
    have hends' : d = ']' ∨ c = '*' ∧ d = '/' := by
      rcases h.of_cons with h | h | h
      · cases h
      · cases h
      · exact hends h.1
    rcases hends' with rfl | ⟨rfl, rfl⟩ <;>
      rcases hq with rfl | rfl | rfl | rfl | rfl | rfl | rfl | rfl | rfl <;> simp [List.isPrefixOf]
  | b :: c :: d :: e :: a =>
    rcases hq with rfl | rfl | rfl | rfl | rfl | rfl | rfl | rfl | rfl <;> simp [List.isPrefixOf]

theorem opens_endsWell (h : EndsWell a) (hne : a ≠ []) (z z' : List Char) :
    opensLine (a ++ z) = opensLine (a ++ z') ∧ opensBlock (a ++ z) = opensBlock (a ++ z') := by
  simp only [opensLine, opensBlock]
  refine ⟨?_, ?_⟩
  · rw [isPrefixOf_endsWell h hne (by simp) z z', isPrefixOf_endsWell h hne (by simp) z z',
      isPrefixOf_endsWell h hne (by simp) z z', isPrefixOf_endsWell h hne (by simp) z z']
  · rw [isPrefixOf_endsWell h hne (by simp) z z', isPrefixOf_endsWell h hne (by simp) z z',
      isPrefixOf_endsWell h hne (by simp) z z', isPrefixOf_endsWell h hne (by simp) z z',
      isPrefixOf_endsWell h hne (by simp) z z']

end

/-! ### Comments -/

/-- A text inside `depth` comments, which goes on with `rest` behind the last of them. -/
inductive Closes : (depth : Nat) → List Char → (rest : List Char) → Prop
  | opening {depth : Nat} {cs rest : List Char} (h : Closes (depth + 1) cs rest) :
    Closes depth ('/' :: '*' :: cs) rest
  | last {cs : List Char} : Closes 1 ('*' :: '/' :: cs) cs
  | closing {depth : Nat} {cs rest : List Char} (hdepth : depth ≠ 1) (h : Closes (depth - 1) cs rest) :
    Closes depth ('*' :: '/' :: cs) rest
  | other {depth : Nat} {c : Char} {cs rest : List Char} (hopen : ¬(c = '/' ∧ cs.head? = some '*'))
      (hclose : ¬(c = '*' ∧ cs.head? = some '/')) (h : Closes depth cs rest) :
    Closes depth (c :: cs) rest

theorem closes_of_readBlockComment {fuel depth : Nat} {cs taken rest : List Char}
    (h : readBlockComment fuel depth cs = some (taken, rest)) : Closes depth cs rest := by
  fun_induction readBlockComment fuel depth cs generalizing taken with
  | case1 => cases h
  | case2 fuel depth rest' ih =>
    obtain ⟨t, rfl, h'⟩ := exists_of_map_after h
    exact .opening (ih h')
  | case3 fuel rest' =>
    cases h
    exact .last
  | case4 fuel depth rest' hdepth ih =>
    obtain ⟨t, rfl, h'⟩ := exists_of_map_after h
    exact .closing hdepth (ih h')
  | case5 fuel depth c rest' hopen hclose ih =>
    obtain ⟨t, rfl, h'⟩ := exists_of_map_after h
    refine .other ?_ ?_ (ih h')
    · rintro ⟨rfl, hhead⟩
      obtain ⟨t, rfl⟩ := List.head?_eq_some_iff.mp hhead
      exact hopen t rfl rfl
    · rintro ⟨rfl, hhead⟩
      obtain ⟨t, rfl⟩ := List.head?_eq_some_iff.mp hhead
      exact hclose t rfl rfl
  | case6 => cases h

theorem Closes.exists_read {depth : Nat} {cs rest : List Char} (h : Closes depth cs rest) :
    ∃ fuel taken, readBlockComment fuel depth cs = some (taken, rest) := by
  induction h with
  | opening _ ih =>
    obtain ⟨fuel, taken, h⟩ := ih
    exact ⟨fuel + 1, _, by rw [readBlockComment, h]; rfl⟩
  | last => exact ⟨1, _, rfl⟩
  | closing hdepth _ ih =>
    obtain ⟨fuel, taken, h⟩ := ih
    exact ⟨fuel + 1, _, by rw [readBlockComment, if_neg hdepth, h]; rfl⟩
  | @other depth c cs rest hopen hclose _ ih =>
    obtain ⟨fuel, taken, h⟩ := ih
    refine ⟨fuel + 1, c :: taken, ?_⟩
    rw [readBlockComment.eq_def]
    simp only
    split
    · simp_all
    · simp_all
    · next heq =>
      cases heq
      rw [h]
      rfl
    · next heq => cases heq

theorem readComment_iff {cs rest : List Char} :
    (∃ taken, readComment cs = some (taken, rest)) ↔ Closes 0 cs rest := by
  constructor
  · rintro ⟨taken, h⟩
    exact closes_of_readBlockComment h
  · intro h
    obtain ⟨fuel, taken, hread⟩ := h.exists_read
    have hcut : taken ++ rest = cs := cuts_readBlockComment hread
    have hfuel : taken.length < cs.length + 1 := by
      rw [← hcut, List.length_append]
      omega
    have hlocal := readBlockComment_local hread hfuel rest
    rw [hcut] at hlocal
    exact ⟨taken, hlocal⟩

section

variable {w z a r : List Char}

/-- A comment that goes on behind what is put in goes on without it. -/
theorem Closes.skip (hw : Neutral w) {depth : Nat} (h : Closes depth (w ++ z) r) :
    Closes depth z r := by
  induction w with
  | nil => exact h
  | cons c w ih =>
    have hc := hw c List.mem_cons_self
    have hrest := fun h => ih (fun d hd => hw d (List.mem_cons_of_mem c hd)) h
    rw [List.cons_append] at h
    generalize hcs : w ++ z = cs at h hrest
    cases h with
    | opening => exact absurd rfl hc.1
    | last => exact absurd rfl hc.2.1
    | closing => exact absurd rfl hc.2.1
    | other _ _ h => exact hrest h

/-- The end of a text that ends well, looked at from within a comment: it may be the slash of a mark
that ends the text. -/
def EndsInside (a : List Char) : Prop := EndsWell a ∨ a = ['/']

theorem EndsInside.opening (h : EndsInside ('/' :: '*' :: a)) : EndsInside a := by
  rcases h with h | h
  · rcases h.of_cons with h | h | h
    · cases h
    · cases h
    · rcases h.1.of_cons with h | h | h
      · cases h
      · exact .inr (by simpa using h)
      · exact .inl h.1
  · cases h

theorem EndsInside.closing (h : EndsInside ('*' :: '/' :: a)) : EndsWell a := by
  rcases h with h | h
  · rcases h.of_cons with h | h | h
    · cases h
    · exact .inl (by simpa using h)
    · rcases h.1.of_cons with h | h | h
      · cases h
      · cases h
      · exact h.1
  · cases h

/-- Behind a character that closes no comment, which is no asterisk if it is the last one. -/
theorem EndsInside.other {c : Char} (h : EndsInside (c :: a))
    (hclose : ¬(c = '*' ∧ (a ++ z).head? = some '/')) : EndsInside a ∧ (a = [] → c ≠ '*') := by
  rcases h with h | h
  · rcases h.of_cons with h | h | h
    · cases h
      exact ⟨.inl (.inl rfl), fun _ => by decide⟩
    · cases h
      exact absurd ⟨rfl, rfl⟩ hclose
    · exact ⟨.inl h.1, fun hnil => absurd hnil h.2⟩
  · cases h
    exact ⟨.inl (.inl rfl), fun _ => by decide⟩

/-- A mark of two characters before what is put in is one of the text. -/
theorem Neutral.exists_mark (hw : Neutral w) (hne : w ≠ []) {c d : Char} {cs : List Char}
    (hc : c = '/' ∨ c = '*') (hd : d = '/' ∨ d = '*') (h : a ++ (w ++ z) = c :: d :: cs) :
    ∃ a', a = c :: d :: a' ∧ a' ++ (w ++ z) = cs := by
  obtain ⟨x, w, rfl⟩ := List.exists_cons_of_ne_nil hne
  have hx := hw x List.mem_cons_self
  match a with
  | [] =>
    simp only [List.nil_append, List.cons_append, List.cons.injEq] at h
    rw [h.1] at hx
    rcases hc with h | h
    · exact absurd h hx.1
    · exact absurd h hx.2.1
  | [b] =>
    simp only [List.cons_append, List.nil_append, List.cons.injEq] at h
    rw [h.2.1] at hx
    rcases hd with h | h
    · exact absurd h hx.1
    · exact absurd h hx.2.1
  | b :: b' :: a' =>
    cases h
    exact ⟨a', rfl, rfl⟩

/-- No mark of two characters is made where what is put in is left out. -/
theorem not_mark_without {x c d : Char} (hno : ¬(x = c ∧ (a ++ (w ++ z)).head? = some d))
    (hend : a = [] → x = c → z.head? ≠ some d) : ¬(x = c ∧ (a ++ z).head? = some d) := by
  rintro ⟨rfl, hd⟩
  cases a with
  | nil => exact hend rfl rfl hd
  | cons e a => exact hno ⟨rfl, hd⟩

/-- The rest of a text, and the rest of the text without what is put in: they are the same, or what
is put in is still to come. -/
def Without (w z r r' : List Char) : Prop :=
  r' = r ∨ ∃ b, EndsWell b ∧ r = b ++ (w ++ z) ∧ r' = b ++ z

/-- A comment that ends before what is put in, or goes on over it, does so without it. -/
theorem Closes.put (hw : Neutral w) (hne : w ≠ []) (hz : z.head? ≠ some '*') {depth : Nat}
    (ha : EndsInside a) (h : Closes depth (a ++ (w ++ z)) r) :
    ∃ r', Closes depth (a ++ z) r' ∧ Without w z r r' := by
  generalize hcs : a ++ (w ++ z) = cs at h
  induction h generalizing a with
  | opening h ih =>
    obtain ⟨a, rfl, hrest⟩ := hw.exists_mark hne (.inl rfl) (.inr rfl) hcs
    obtain ⟨r', hput, hr⟩ := ih ha.opening hrest
    exact ⟨r', .opening hput, hr⟩
  | last =>
    obtain ⟨a, rfl, hrest⟩ := hw.exists_mark hne (.inr rfl) (.inl rfl) hcs
    exact ⟨a ++ z, .last, .inr ⟨a, ha.closing, hrest.symm, rfl⟩⟩
  | closing hdepth h ih =>
    obtain ⟨a, rfl, hrest⟩ := hw.exists_mark hne (.inr rfl) (.inl rfl) hcs
    obtain ⟨r', hput, hr⟩ := ih (.inl ha.closing) hrest
    exact ⟨r', .closing hdepth hput, hr⟩
  | @other depth c cs rest hopen hclose h ih =>
    cases a with
    | nil =>
      have hcomment := Closes.other hopen hclose h
      rw [← hcs] at hcomment
      exact ⟨rest, hcomment.skip hw, .inl rfl⟩
    | cons d a =>
      simp only [List.cons_append, List.cons.injEq] at hcs
      obtain ⟨rfl, rfl⟩ := hcs
      obtain ⟨ha', hlast⟩ := ha.other hclose
      obtain ⟨r', hput, hr⟩ := ih ha' rfl
      refine ⟨r', .other ?_ ?_ hput, hr⟩
      · exact not_mark_without hopen fun _ _ => hz
      · exact not_mark_without hclose fun hnil hd => absurd hd (hlast hnil)

/-! ### Blanks -/

/-- A line goes up to its line feed. -/
theorem readLine_rest (cs : List Char) : (readLine cs).2.2 = cs.dropWhile (· != '\n') := by
  fun_induction readLine cs with
  | case1 => rfl
  | case2 => rfl
  | case3 => rfl
  | case4 c rest hfeed hreturn line s hline ih =>
    have hc : c ≠ '\n' := fun h => hfeed h
    simp only [hline] at ih
    simp [Split.after, hc, ih]

theorem dropWhile_line {w : List Char} (hw : ∀ c ∈ w, c ≠ '\n') (z : List Char) :
    (w ++ z).dropWhile (· != '\n') = z.dropWhile (· != '\n') := by
  induction w with
  | nil => rfl
  | cons c w ih =>
    have hc : (c != '\n') = true := by simpa using hw c List.mem_cons_self
    simp only [List.cons_append, List.dropWhile_cons, hc, ↓reduceIte]
    exact ih fun d hd => hw d (List.mem_cons_of_mem c hd)

/-- The rest of a line that ends within a text, or behind it. -/
theorem EndsWell.dropWhile (ha : EndsWell a) :
    (∃ b, EndsWell b ∧ ∀ z, (a ++ z).dropWhile (· != '\n') = b ++ z) ∨ ∀ c ∈ a, c ≠ '\n' := by
  by_cases hfeed : '\n' ∈ a
  · left
    obtain ⟨x, y, rfl, hx⟩ := List.eq_append_cons_of_mem hfeed
    have hx' : ∀ c ∈ x, c ≠ '\n' := fun c hc heq => hx (heq ▸ hc)
    refine ⟨'\n' :: y, ha.of_suffix (List.suffix_append _ _) (by decide), fun z => ?_⟩
    rw [List.append_assoc, dropWhile_line hx']
    rfl
  · exact .inr fun c hc heq => hfeed (heq ▸ hc)

/-- A blank that starts before what is put in starts the text without it, and what is left behind it
is the same without what is put in. -/
theorem readBlank_put (hw : Neutral w) (hne : w ≠ []) (hz : z.head? ≠ some '*') (ha : EndsWell a)
    (hnil : a ≠ []) {taken rest : List Char} (h : readBlank (a ++ (w ++ z)) = some (taken, rest)) :
    ∃ taken' rest', readBlank (a ++ z) = some (taken', rest') ∧ Without w z rest rest' := by
  obtain ⟨hline, hblock⟩ := opens_endsWell ha hnil (w ++ z) z
  cases hopen : opensLine (a ++ (w ++ z)) with
  | true =>
    simp only [readBlank, ← hline, hopen, ↓reduceIte, Option.some.injEq] at h ⊢
    refine ⟨_, _, rfl, ?_⟩
    have hrest : rest = (a ++ (w ++ z)).dropWhile (· != '\n') := by rw [← readLine_rest, h]
    rw [readLine_rest, hrest]
    rcases ha.dropWhile with ⟨b, hb, hdrop⟩ | hfree
    · exact .inr ⟨b, hb, hdrop (w ++ z), hdrop z⟩
    · rw [dropWhile_line hfree, dropWhile_line hfree, dropWhile_line fun c hc => (hw c hc).2.2]
      exact .inl rfl
  | false =>
    cases hopen' : opensBlock (a ++ (w ++ z)) with
    | true =>
      simp only [readBlank, ← hline, ← hblock, hopen, hopen', Bool.false_eq_true, ↓reduceIte] at h ⊢
      obtain ⟨rest', hput, hr⟩ := (readComment_iff.mp ⟨taken, h⟩).put hw hne hz (.inl ha)
      obtain ⟨taken', hread⟩ := readComment_iff.mpr hput
      exact ⟨taken', rest', hread, hr⟩
    | false =>
      rw [readBlank_char hopen hopen'] at h
      rw [readBlank_char (hline ▸ hopen) (hblock ▸ hopen')]
      obtain ⟨c, a, rfl⟩ := List.exists_cons_of_ne_nil hnil
      simp only [List.cons_append] at h ⊢
      split at h
      · next hgap =>
        cases h
        have ha' : EndsWell a := by
          rcases ha.of_cons with heq | heq | heq
          · cases heq
            exact absurd hgap (by decide)
          · cases heq
            exact absurd hgap (by decide)
          · exact heq.1
        exact ⟨[c], a ++ z, by rw [if_pos hgap], .inr ⟨a, ha', rfl, rfl⟩⟩
      · cases h

/-- What is put in behind a text does not make the blanks of the text end before a bracket. -/
theorem head_gapOf_put (hw : Neutral w) (hlead : ∃ c w', w = ' ' :: c :: w' ∧ Text.isWordStart c)
    (hz : z.head? ≠ some '*') (ha : EndsWell a)
    (h : (gapOf (a ++ (w ++ z))).2.head? = some '[') : (gapOf (a ++ z)).2.head? = some '[' := by
  generalize hcs : a ++ (w ++ z) = cs at h
  induction cs using gapOf_induction generalizing a with
  | hnone cs hnone =>
    subst hcs
    rw [gapOf_of_none hnone] at h
    cases a with
    | nil =>
      obtain ⟨c, w', rfl, -⟩ := hlead
      simp at h
    | cons c a =>
      obtain rfl : c = '[' := by simpa using h
      rw [gapOf_of_none]
      · rfl
      · simp [readBlank, opensLine, opensBlock, List.isPrefixOf, isGap, Text.isBlank]
  | hsome cs taken rest hsome ih =>
    subst hcs
    by_cases hnil : a = []
    · -- Behind the blank that is put in there is a word.
      subst hnil
      obtain ⟨c, w', rfl, hc⟩ := hlead
      simp only [List.nil_append, List.cons_append] at h
      rw [gapOf_blank, gapOf_word hc] at h
      obtain rfl : c = '[' := by simpa [Split.after] using h
      exact absurd hc (by decide)
    · have hne : w ≠ [] := by
        obtain ⟨c, w', rfl, -⟩ := hlead
        simp
      obtain ⟨taken', rest', hblank, hrest⟩ := readBlank_put hw hne hz ha hnil hsome
      rw [gapOf_of_blank hsome] at h
      rw [gapOf_of_blank hblank]
      rcases hrest with rfl | ⟨b, hb, rfl, rfl⟩
      · exact h
      · exact ih hb rfl h

end

/-! ### The line -/

theorem hasLoaderLine_eq (cs : List Char) : Grammar.hasLoaderLine ('#' :: '!' :: cs) =
    ((gapOf cs).2.head? != some '[') := rfl

theorem exists_of_hasLoaderLine {cs : List Char} (h : Grammar.hasLoaderLine cs) :
    ∃ rest, cs = '#' :: '!' :: rest := by
  unfold Grammar.hasLoaderLine at h
  split at h
  · exact ⟨_, rfl⟩
  · cases h

theorem gapOf_mark {c : Char} (hc : c = '#' ∨ c = '!') (cs : List Char) :
    gapOf (c :: cs) = ([], c :: cs) := by
  refine gapOf_of_none ?_
  rcases hc with rfl | rfl <;>
    simp [readBlank, opensLine, opensBlock, List.isPrefixOf, isGap, Text.isBlank]

theorem readLeaf_mark {c : Char} (hc : c = '#' ∨ c = '!' ∨ c = '*') (pos : Nat) (cs : List Char) :
    readLeaf pos (c :: cs) = some (.mark c (readMark cs).isSome pos, [c], cs) := by
  have hmark : readMark (c :: cs) = some (c, cs) := by
    rw [readMark_cons]
    rcases hc with rfl | rfl | rfl <;> rfl
  have htick : c ≠ '\'' := by rcases hc with rfl | rfl | rfl <;> decide
  exact readLeaf_eq_some_iff.mpr (.mark (readLiteral_eq_none_of_mark hmark htick cs) hmark htick)

/-- Behind the one operator that is read there is the rest of the text. -/
theorem Lexes.rest_mark {pos stop : Nat} {c m : Char} {joint : Bool} {p : Nat} {cs rest : List Char}
    (hc : c = '#' ∨ c = '!') (h : Lexes pos (c :: cs) [.mark m joint p] stop rest) : rest = cs := by
  obtain ⟨us, hus⟩ : ∃ us, us = [Tree.mark m joint p] := ⟨_, rfl⟩
  rw [← hus] at h
  cases h with
  | done => cases hus
  | @doc _ _ _ _ _ _ _ _ _ inner _ hgap hdoc hpaired hts =>
    cases inner <;> simp [docTrees] at hus
  | leaf hgap hleaf hts =>
    cases hus
    have hgap' : gapOf (c :: cs) = _ := hgap
    rw [gapOf_mark hc] at hgap'
    cases hgap'
    rw [readLeaf_mark (by tauto)] at hleaf
    cases hleaf
    cases hts
    rfl
  | group => cases hus

/-- A text that starts with an inner attribute has no line for the loader. -/
theorem hasLoaderLine_of_inner {pos stop : Nat} {cs rest : List Char} {head : List Tree}
    {stops : List Nat} (hhead : Grammar.InnerTrees head stops) (hne : stops ≠ [])
    (h : Lexes pos cs head stop rest) : Grammar.hasLoaderLine cs = false := by
  by_contra hloader
  rw [Bool.not_eq_false] at hloader
  obtain ⟨cs, rfl⟩ := exists_of_hasLoaderLine hloader
  cases hhead with
  | nil => exact absurd rfl hne
  | cons hrest =>
    obtain ⟨cs', hinner, -⟩ := h.cases_inner
    generalize hcs : '#' :: '!' :: cs = text at hinner
    cases hinner with
    | doc hgap hdoc hpaired hstart =>
      rw [← hcs, gapOf_mark (.inl rfl)] at hgap
      cases hgap
      cases hdoc
    | spelled hmarks hgap hstart hinside hgap' =>
      rw [← hcs] at hmarks
      rcases hmarks.cases_mark with ⟨_, _, _, inner, _, _, _, -, -, -, htrees, -⟩ | ⟨_, _, hhash, hbang⟩
      · cases inner <;> simp [docTrees] at htrees
      · obtain rfl := hhash.rest_mark (.inl rfl)
        obtain rfl := hbang.rest_mark (.inr rfl)
        rw [hasLoaderLine_eq, hgap] at hloader
        cases hloader

/-- What is put in behind the head of a file does not make its line for the loader an attribute. -/
theorem hasLoaderLine_put {w a z : List Char} (hw : Neutral w)
    (hlead : ∃ c w', w = ' ' :: c :: w' ∧ Text.isWordStart c) (hz : z.head? ≠ some '*')
    (ha : EndsWell a) (hlen : 2 ≤ a.length) (h : Grammar.hasLoaderLine (a ++ z)) :
    Grammar.hasLoaderLine (a ++ (w ++ z)) := by
  obtain ⟨cs, hcs⟩ := exists_of_hasLoaderLine h
  obtain ⟨a, rfl⟩ : ∃ a', a = '#' :: '!' :: a' := by
    match a with
    | [] | [_] => simp at hlen
    | b :: c :: a =>
      simp only [List.cons_append, List.cons.injEq] at hcs
      exact ⟨a, by rw [hcs.1, hcs.2.1]⟩
  have ha' : EndsWell a := by
    rcases ha.of_cons with h | h | h
    · cases h
    · cases h
    · rcases h.1.of_cons with h | h | h
      · cases h
      · cases h
      · exact h.1
  simp only [List.cons_append, hasLoaderLine_eq, bne_iff_ne, ne_eq] at h ⊢
  exact fun hput => h (head_gapOf_put hw hlead hz ha' hput)

end Instrumentation.Source
