import Instrumentation.Proofs.Lookahead

/-!
Blanks and comments. A comment is read up to its own end, and the blanks before a token do not
depend on what follows the group, or comment, that ends the part of a text looked at.
-/
namespace Instrumentation.Source

open Text (byteLength)

/-! ### Comments -/

section

variable {cs t z : List Char}

theorem readBlockComment_local {fuel depth : Nat} (h : readBlockComment fuel depth cs = some (t, z))
    {fuel' : Nat} (hfuel : t.length < fuel') (z' : List Char) :
    readBlockComment fuel' depth (t ++ z') = some (t, z') := by
  fun_induction readBlockComment fuel depth cs generalizing t fuel' with
  | case1 => cases h
  | case2 fuel depth rest ih =>
    obtain ⟨t', rfl, h'⟩ := exists_of_map_after h
    obtain ⟨n, rfl⟩ := Nat.exists_eq_succ_of_ne_zero (Nat.ne_zero_of_lt hfuel)
    have hlen : t'.length < n := by simp at hfuel; omega
    simp [readBlockComment, ih h' hlen, Split.after]
  | case3 fuel rest =>
    cases h
    obtain ⟨n, rfl⟩ := Nat.exists_eq_succ_of_ne_zero (Nat.ne_zero_of_lt hfuel)
    simp [readBlockComment]
  | case4 fuel depth rest hdepth ih =>
    obtain ⟨t', rfl, h'⟩ := exists_of_map_after h
    obtain ⟨n, rfl⟩ := Nat.exists_eq_succ_of_ne_zero (Nat.ne_zero_of_lt hfuel)
    have hlen : t'.length < n := by simp at hfuel; omega
    simp [readBlockComment, hdepth, ih h' hlen, Split.after]
  | case5 fuel depth c rest hopen hclose ih =>
    obtain ⟨t', rfl, h'⟩ := exists_of_map_after h
    obtain ⟨n, rfl⟩ := Nat.exists_eq_succ_of_ne_zero (Nat.ne_zero_of_lt hfuel)
    have hlen : t'.length < n := by simp at hfuel; omega
    -- More of the comment follows, so the next character is the one that was looked at.
    obtain ⟨d, t', rfl⟩ := List.exists_cons_of_ne_nil (readBlockComment_ne_nil h')
    have hcut : d :: t' ++ z = rest := cuts_readBlockComment h'
    have hread := ih h' hlen
    simp only [List.cons_append, List.nil_append] at hread hcut ⊢
    subst hcut
    rw [readBlockComment.eq_def]
    simp only
    split <;> simp_all [Split.after]
  | case6 => cases h

theorem readComment_local (h : readComment cs = some (t, z)) (z' : List Char) :
    readComment (t ++ z') = some (t, z') := by
  have hfuel : t.length < (t ++ z').length + 1 := by
    rw [List.length_append]
    omega
  exact readBlockComment_local h hfuel z'

/-- A character that is part of a line. -/
theorem readLine_cons {c : Char} {rest : List Char} (hfeed : c ≠ '\n')
    (hreturn : c = '\r' → rest.head? ≠ some '\n') :
    readLine (c :: rest) = (c :: (readLine rest).1, (readLine rest).2.after [c]) := by
  cases rest with
  | nil => rw [readLine.eq_def]; split <;> simp_all [readLine]
  | cons d rest => rw [readLine.eq_def]; split <;> simp_all

end

section

variable {r r' x y : List Char}

theorem readComment_carry {taken : List Char} (h : readComment (x ++ r) = some (taken, y ++ r)) :
    readComment (x ++ r') = some (taken, y ++ r') := by
  obtain rfl : taken ++ y = x := by
    have hcut : taken ++ (y ++ r) = x ++ r := cuts_readBlockComment h
    rwa [← List.append_assoc, List.append_cancel_right_eq] at hcut
  rw [List.append_assoc]
  exact readComment_local h _

/-- The end of a group, or a comment, is no end of a line. -/
theorem Ends.readLine (h : Ends r) : ∃ c rest, r = c :: rest ∧ c ≠ '\n' ∧
    readLine r = (c :: (readLine rest).1, (readLine rest).2.after [c]) := by
  cases h with
  | bracket rest => exact ⟨_, rest, rfl, by decide, readLine_cons (by decide) (by simp)⟩
  | slash rest => exact ⟨_, rest, rfl, by decide, readLine_cons (by decide) (by simp)⟩
  | blank rest => exact ⟨_, rest, rfl, by decide, readLine_cons (by decide) (by simp)⟩
  | semicolon rest => exact ⟨_, rest, rfl, by decide, readLine_cons (by decide) (by simp)⟩

/-- A line that ends before `r` ends there whatever follows. -/
theorem readLine_carry (hr : Ends r) (hr' : Ends r') {words taken : List Char}
    (h : readLine (x ++ r) = (words, taken, y ++ r)) :
    readLine (x ++ r') = (words, taken, y ++ r') := by
  induction x generalizing words taken with
  | nil =>
    -- The line would take the end that it has to stop before.
    have hcut : taken ++ (y ++ r) = r := by
      have hcuts := cuts_readLine ([] ++ r)
      rwa [h] at hcuts
    obtain ⟨rfl, -⟩ : taken = [] ∧ y = [] := by simpa [← List.append_assoc] using hcut
    obtain ⟨c, rest, -, -, hline⟩ := hr.readLine
    rw [List.nil_append, hline] at h
    cases h
  | cons c x ih =>
    have hhead {r : List Char} (hr : Ends r) : (x ++ r).head? = some '\n' ↔ x.head? = some '\n' := by
      cases x with
      | nil => cases hr <;> simp
      | cons => simp
    by_cases hfeed : c = '\n'
    · subst hfeed
      simp only [List.cons_append, readLine, Prod.mk.injEq] at h ⊢
      obtain ⟨rfl, rfl, h⟩ := h
      rw [← List.cons_append, List.append_cancel_right_eq] at h
      simp [← h]
    · by_cases hreturn : c = '\r' ∧ x.head? = some '\n'
      · obtain ⟨rfl, hx⟩ := hreturn
        obtain ⟨x, rfl⟩ : ∃ x', x = '\n' :: x' := by
          cases x with
          | nil => simp at hx
          | cons d x => exact ⟨x, by simpa using hx⟩
        simp only [List.cons_append, readLine, Prod.mk.injEq] at h ⊢
        obtain ⟨rfl, rfl, h⟩ := h
        rw [← List.cons_append, List.append_cancel_right_eq] at h
        simp [← h]
      · have hjoined {r : List Char} (hr : Ends r) : ¬(c = '\r' ∧ (x ++ r).head? = some '\n') :=
          fun h => hreturn ⟨h.1, (hhead hr).mp h.2⟩
        have hstep {r : List Char} (hr : Ends r) :=
          readLine_cons hfeed fun hc hx => hjoined hr ⟨hc, hx⟩
        rw [List.cons_append, hstep hr] at h
        rw [List.cons_append, hstep hr']
        obtain ⟨⟨words', taken', rest⟩, hline⟩ : ∃ l, readLine (x ++ r) = l := ⟨_, rfl⟩
        simp only [hline, Split.after, Prod.mk.injEq] at h
        obtain ⟨rfl, rfl, rfl⟩ := h
        rw [ih hline]
        rfl

end

/-! ### Blanks -/

/-- A comment to the end of its line that documents nothing starts here. -/
def opensLine (cs : List Char) : Bool :=
  ['/', '/'].isPrefixOf cs && !(['/', '/', '!'].isPrefixOf cs) &&
    (!(['/', '/', '/'].isPrefixOf cs) || ['/', '/', '/', '/'].isPrefixOf cs)

/-- A comment with an end of its own that documents nothing starts here. -/
def opensBlock (cs : List Char) : Bool :=
  ['/', '*'].isPrefixOf cs && !(['/', '*', '!'].isPrefixOf cs) &&
    (!(['/', '*', '*'].isPrefixOf cs) || ['/', '*', '*', '*'].isPrefixOf cs ||
      ['/', '*', '*', '/'].isPrefixOf cs)

/-- The blank or the plain comment at the start of a text. -/
def readBlank (cs : List Char) : Option Split :=
  if opensLine cs then some (readLine cs).2
  else if opensBlock cs then readComment cs
  else match cs with
    | c :: rest => if isGap c then some ([c], rest) else none
    | [] => none

theorem readComment_empty (rest : List Char) :
    readComment ('/' :: '*' :: '*' :: '/' :: rest) = some (['/', '*', '*', '/'], rest) := by
  simp [readComment, readBlockComment, Split.after]

theorem opensBlock_cons (rest : List Char) : (∀ t, rest ≠ '*' :: '/' :: t) →
    opensBlock ('/' :: '*' :: rest) = !(match rest with
      | '!' :: _ => true
      | '*' :: '*' :: _ => false
      | '*' :: _ => true
      | _ => false) := by
  split
  · exact fun _ => rfl
  · simp [opensBlock, List.isPrefixOf]
  · next tail hstar =>
    intro hne
    have hslash : ∀ t, tail ≠ ['/'] ++ t := fun t h => hne t (by rw [h]; rfl)
    have hstar' : ∀ t, tail ≠ ['*'] ++ t := hstar
    rw [← isPrefixOf_eq_false_iff] at hslash hstar'
    simp only [opensBlock, List.isPrefixOf, hslash, hstar']
    rfl
  · next hbang _ hstar =>
    intro hne
    have hbang' : ∀ t, rest ≠ ['!'] ++ t := hbang
    have hstar' : ∀ t, rest ≠ ['*'] ++ t := hstar
    rw [← isPrefixOf_eq_false_iff] at hbang' hstar'
    simp only [opensBlock, List.isPrefixOf, hbang', hstar']
    rfl

theorem readGap_succ (fuel : Nat) (cs : List Char) : readGap (fuel + 1) cs =
    match readBlank cs with
    | some (taken, rest) => (readGap fuel rest).after taken
    | none => ([], cs) := by
  have hslash : isGap '/' = false := by decide
  rw [readGap.eq_def]
  simp only
  split
  · next rest =>
    have hblock : opensBlock ('/' :: '/' :: rest) = false := rfl
    split
    · next tail =>
      have hline : opensLine ('/' :: '/' :: '!' :: tail) = false := rfl
      simp [readBlank, hline, hblock, hslash]
    · next tail =>
      have hline : opensLine ('/' :: '/' :: '/' :: '/' :: tail) = true := rfl
      simp [readBlank, hline]
    · next tail htail =>
      have hline : opensLine ('/' :: '/' :: '/' :: tail) = false := by
        simpa [opensLine, isPrefixOf_eq_false_iff] using htail
      simp [readBlank, hline, hblock, hslash]
    · next hbang _ htail =>
      have hline : opensLine ('/' :: '/' :: rest) = true := by
        simpa [opensLine, isPrefixOf_eq_false_iff] using ⟨hbang, .inl htail⟩
      simp [readBlank, hline]
  · next rest =>
    have hline : opensLine ('/' :: '*' :: '*' :: '/' :: rest) = false := rfl
    have hblock : opensBlock ('/' :: '*' :: '*' :: '/' :: rest) = true := by
      simp [opensBlock, List.isPrefixOf]
    simp [readBlank, hline, hblock, readComment_empty]
  · next rest hne =>
    have hblock := opensBlock_cons rest fun t h => hne t h
    have hline : opensLine ('/' :: '*' :: rest) = false := rfl
    simp only [readBlank, hline, hblock, hslash, Bool.not_eq_true', Bool.false_eq_true, ↓reduceIte]
    generalize readComment ('/' :: '*' :: rest) = comment
    cases comment <;> split <;> simp_all
  · next c rest hline hempty hblock =>
    have hline' : opensLine (c :: rest) = false := by
      simp only [opensLine, Bool.and_eq_false_iff, isPrefixOf_eq_false_iff]
      exact .inl (.inl fun t h => by cases h; exact hline _ rfl rfl)
    have hblock' : opensBlock (c :: rest) = false := by
      simp only [opensBlock, Bool.and_eq_false_iff, isPrefixOf_eq_false_iff]
      exact .inl (.inl fun t h => by cases h; exact hblock _ rfl rfl)
    simp only [readBlank, hline', hblock', Bool.false_eq_true, ↓reduceIte]
    split <;> simp_all
  · rfl

theorem cuts_readBlank {cs : List Char} {s : Split} (h : readBlank cs = some s) :
    s.Cuts cs ∧ s.1 ≠ [] := by
  unfold readBlank at h
  split at h
  · next hline =>
    cases h
    refine ⟨cuts_readLine cs, ?_⟩
    obtain ⟨rest, rfl⟩ : ∃ rest, cs = '/' :: '/' :: rest := by
      simp only [opensLine, Bool.and_eq_true, List.isPrefixOf_iff_prefix] at hline
      obtain ⟨rest, rfl⟩ := hline.1.1
      exact ⟨rest, rfl⟩
    rw [readLine_cons (by decide) (by simp)]
    exact Split.after_ne_nil (by simp)
  · split at h
    · exact ⟨cuts_readBlockComment h, readBlockComment_ne_nil h⟩
    · split at h
      · split at h <;> cases h
        exact ⟨rfl, by simp⟩
      · cases h

theorem length_lt_of_readBlank {cs : List Char} {s : Split} (h : readBlank cs = some s) :
    s.2.length < cs.length := by
  obtain ⟨hcut, hne⟩ := cuts_readBlank h
  have hlen : s.1.length + s.2.length = cs.length := by rw [← List.length_append, hcut]
  have hpos := List.length_pos_iff.mpr hne
  omega

theorem readGap_fuel {fuel fuel' : Nat} {cs : List Char} (h : cs.length < fuel)
    (h' : cs.length < fuel') : readGap fuel cs = readGap fuel' cs := by
  induction fuel generalizing fuel' cs with
  | zero => omega
  | succ fuel ih =>
    cases fuel' with
    | zero => omega
    | succ fuel' =>
      rw [readGap_succ, readGap_succ]
      cases hblank : readBlank cs with
      | none => rfl
      | some s =>
        have hlt := length_lt_of_readBlank hblank
        simp only
        have hrest : readGap fuel s.2 = readGap fuel' s.2 := ih (by omega) (by omega)
        rw [hrest]

/-- The blanks and plain comments at the start of a text. -/
def gapOf (cs : List Char) : Split := readGap (cs.length + 1) cs

/-- The blanks at the start of a text are the first one and those behind it. -/
theorem gapOf_eq (cs : List Char) : gapOf cs =
    match readBlank cs with
    | some (taken, rest) => (gapOf rest).after taken
    | none => ([], cs) := by
  rw [gapOf, readGap_succ]
  cases hblank : readBlank cs with
  | none => rfl
  | some s =>
    simp only [gapOf]
    have hrest : readGap cs.length s.2 = readGap (s.2.length + 1) s.2 :=
      readGap_fuel (length_lt_of_readBlank hblank) (Nat.lt_succ_self _)
    rw [hrest]

theorem gapOf_of_blank {cs taken rest : List Char} (h : readBlank cs = some (taken, rest)) :
    gapOf cs = (gapOf rest).after taken := by
  rw [gapOf_eq, h]

theorem gapOf_of_none {cs : List Char} (h : readBlank cs = none) : gapOf cs = ([], cs) := by
  rw [gapOf_eq, h]

/-- A property of a text that has one for what stands behind the blanks, and before a blank if
behind it. -/
theorem gapOf_induction {P : List Char → Prop} (hnone : ∀ cs, readBlank cs = none → P cs)
    (hsome : ∀ cs taken rest, readBlank cs = some (taken, rest) → P rest → P cs) (cs : List Char) :
    P cs := by
  induction hn : cs.length using Nat.strongRecOn generalizing cs with
  | ind n ih =>
    cases hblank : readBlank cs with
    | none => exact hnone cs hblank
    | some s =>
      have hlt := length_lt_of_readBlank hblank
      exact hsome cs s.1 s.2 hblank (ih _ (hn ▸ hlt) s.2 rfl)

/-- Behind the blanks there is none. -/
theorem readBlank_gapOf (cs : List Char) : readBlank (gapOf cs).2 = none := by
  induction cs using gapOf_induction with
  | hnone cs h => rw [gapOf_of_none h, h]
  | hsome cs taken rest h ih => rwa [gapOf_of_blank h]

section

variable {r r' x y : List Char}

/-- No comment is told by what follows the end of a group, or the start of a comment. -/
theorem isPrefixOf_carry (h : SameStop r r') {q : List Char} (hq : ']' ∉ q ∧ '!' ∉ q.dropLast)
    (x : List Char) : q.isPrefixOf (x ++ r) = q.isPrefixOf (x ++ r') := by
  induction x generalizing q with
  | nil =>
    cases h with
    | bracket =>
      cases q with
      | nil => rfl
      | cons c q =>
        have hc : (c == ']') = false := beq_eq_false_iff_ne.mpr fun h => hq.1 (by simp [h])
        simp [List.isPrefixOf, hc]
    | comment =>
      match q with
      | [] | [_] | [_, _] | [_, _, _] => simp [List.isPrefixOf]
      | a :: b :: c :: d :: q =>
        have hc : (c == '!') = false := beq_eq_false_iff_ne.mpr fun h => hq.2 (by simp [h])
        simp [List.isPrefixOf, hc]
  | cons c x ih =>
    cases q with
    | nil => rfl
    | cons d q =>
      have hlast : '!' ∉ q.dropLast := fun h => hq.2 (by
        cases q with
        | nil => simp at h
        | cons e q => simpa using .inr h)
      simp only [List.cons_append, List.isPrefixOf]
      rw [ih ⟨fun h => hq.1 (List.mem_cons_of_mem d h), hlast⟩]

theorem opensLine_carry (h : SameStop r r') (x : List Char) :
    opensLine (x ++ r) = opensLine (x ++ r') := by
  unfold opensLine
  rw [isPrefixOf_carry h (by decide), isPrefixOf_carry h (by decide), isPrefixOf_carry h (by decide),
    isPrefixOf_carry h (by decide)]

theorem opensBlock_carry (h : SameStop r r') (x : List Char) :
    opensBlock (x ++ r) = opensBlock (x ++ r') := by
  unfold opensBlock
  rw [isPrefixOf_carry h (by decide), isPrefixOf_carry h (by decide), isPrefixOf_carry h (by decide),
    isPrefixOf_carry h (by decide), isPrefixOf_carry h (by decide)]

/-- A blank that is no comment is one character. -/
theorem readBlank_char {cs : List Char} : opensLine cs = false → opensBlock cs = false →
    readBlank cs = match cs with
      | c :: rest => if isGap c then some ([c], rest) else none
      | [] => none := by
  intro hline hblock
  simp only [readBlank, hline, hblock, Bool.false_eq_true, ↓reduceIte]

theorem opensLine_of_none {cs : List Char} (h : readBlank cs = none) : opensLine cs = false := by
  cases hline : opensLine cs with
  | false => rfl
  | true => simp [readBlank, hline] at h

theorem SameStop.exists_cons (h : SameStop r r') :
    ∃ c z z', r = c :: z ∧ r' = c :: z' ∧ isGap c = false := by
  cases h with
  | bracket => exact ⟨_, _, _, rfl, rfl, by decide⟩
  | comment => exact ⟨_, _, _, rfl, rfl, by decide⟩

/-- Where no comment starts, a blank is one character, and it does not matter what follows. -/
theorem readBlank_char_carry (h : SameStop r r') (hline : opensLine (x ++ r) = false)
    (hblock : opensBlock (x ++ r) = false) :
    readBlank (x ++ r) = none ∧ readBlank (x ++ r') = none ∨ ∃ c y, x = c :: y ∧
      readBlank (x ++ r) = some ([c], y ++ r) ∧ readBlank (x ++ r') = some ([c], y ++ r') := by
  rw [readBlank_char hline hblock]
  rw [opensLine_carry h] at hline
  rw [opensBlock_carry h] at hblock
  rw [readBlank_char hline hblock]
  cases x with
  | nil =>
    obtain ⟨c, z, z', rfl, rfl, hc⟩ := h.exists_cons
    simp [hc]
  | cons c x =>
    cases hc : isGap c with
    | true => exact .inr ⟨c, x, rfl, by simp [hc], by simp [hc]⟩
    | false => exact .inl ⟨by simp [hc], by simp [hc]⟩

theorem readBlank_carry (h : SameStop r r') {taken : List Char}
    (hblank : readBlank (x ++ r) = some (taken, y ++ r)) :
    readBlank (x ++ r') = some (taken, y ++ r') := by
  cases hline : opensLine (x ++ r) with
  | true =>
    have hline' := hline
    rw [opensLine_carry h] at hline'
    simp only [readBlank, hline, hline', ↓reduceIte, Option.some.injEq] at hblank ⊢
    exact congrArg Prod.snd (readLine_carry h.ends h.symm.ends
      (Prod.ext rfl hblank : readLine (x ++ r) = ((readLine (x ++ r)).1, taken, y ++ r)))
  | false =>
    have hline' := hline
    rw [opensLine_carry h] at hline'
    cases hblock : opensBlock (x ++ r) with
    | true =>
      have hblock' := hblock
      rw [opensBlock_carry h] at hblock'
      simp only [readBlank, hline, hline', hblock, hblock', Bool.false_eq_true, ↓reduceIte] at hblank ⊢
      exact readComment_carry hblank
    | false =>
      rcases readBlank_char_carry h hline hblock with ⟨hnone, -⟩ | ⟨c, z, rfl, hchar, hchar'⟩
      · rw [hnone] at hblank
        cases hblank
      · rw [hchar] at hblank
        simp only [Option.some.injEq, Prod.mk.injEq, List.append_cancel_right_eq] at hblank
        obtain ⟨rfl, rfl⟩ := hblank
        exact hchar'

theorem readBlank_none_carry (h : SameStop r r') (hblock : opensBlock (x ++ r) = false)
    (hblank : readBlank (x ++ r) = none) : readBlank (x ++ r') = none := by
  rcases readBlank_char_carry h (opensLine_of_none hblank) hblock with ⟨-, hnone⟩ | ⟨c, z, -, hchar, -⟩
  · exact hnone
  · rw [hchar] at hblank
    cases hblank

/-- The blanks before something that is no comment without an end. -/
theorem gapOf_carry (h : SameStop r r') {gap : List Char} (hgap : gapOf (x ++ r) = (gap, y ++ r))
    (hblock : opensBlock (y ++ r) = false) : gapOf (x ++ r') = (gap, y ++ r') := by
  generalize hcs : x ++ r = cs at hgap
  induction cs using gapOf_induction generalizing x gap with
  | hnone cs hnone =>
    subst hcs
    rw [gapOf_of_none hnone] at hgap
    simp only [Prod.mk.injEq, List.append_cancel_right_eq] at hgap
    obtain ⟨rfl, rfl⟩ := hgap
    rw [gapOf_of_none (readBlank_none_carry h hblock hnone)]
  | hsome cs taken rest hsome ih =>
    subst hcs
    rw [gapOf_of_blank hsome] at hgap
    obtain ⟨⟨gap', rest'⟩, hrest⟩ : ∃ s, gapOf rest = s := ⟨_, rfl⟩
    simp only [hrest, Split.after, Prod.mk.injEq] at hgap
    obtain ⟨rfl, rfl⟩ := hgap
    obtain rfl : gap' ++ y ++ r = rest := by
      rw [List.append_assoc]
      exact append_of_readGap hrest
    have hsome' := readBlank_carry h hsome
    rw [gapOf_of_blank hsome', ih rfl hrest]
    rfl

/-! ### Documentation -/

/-- A comment that documents is no plain comment without an end. -/
theorem opensBlock_of_readDoc {cs : List Char} {d : List Char × Bool × Split}
    (hblank : readBlank cs = none) (hdoc : readDoc cs = some d) : opensBlock cs = false := by
  by_contra hblock
  rw [Bool.not_eq_false] at hblock
  have hline := opensLine_of_none hblank
  have hcomment : readComment cs = none := by
    simpa [readBlank, hline, hblock] using hblank
  obtain ⟨inner, ⟨hopens, -⟩ | ⟨-, hdoc⟩⟩ := readDoc_eq_some_iff.mp hdoc
  · obtain ⟨third, rest, rfl⟩ := exists_cons_of_opensDoc hopens
    cases hblock
  · simp [blockDoc?, hcomment] at hdoc

/-- The first two slashes or the slash and the asterisk, and what tells that the comment documents. -/
theorem length_readDoc {cs words taken rest : List Char} {inner : Bool}
    (h : readDoc cs = some (words, inner, taken, rest)) : 3 ≤ taken.length := by
  obtain ⟨inner, ⟨hopens, hdoc⟩ | ⟨hopens, hdoc⟩⟩ := readDoc_eq_some_iff.mp h
  · obtain ⟨third, cs, rfl⟩ := exists_cons_of_opensDoc hopens
    cases hdoc
    simp
  · obtain ⟨third, cs, rfl⟩ := exists_cons_of_opensDoc hopens
    obtain ⟨⟨taken', rest'⟩, hread, heq⟩ := Option.map_eq_some_iff.mp hdoc
    obtain ⟨t, rfl, ht⟩ : ∃ t, taken' = ['/', '*'] ++ t ∧ _ := exists_of_map_after hread
    cases heq
    have hpos := List.length_pos_iff.mpr (readBlockComment_ne_nil ht)
    simp at hpos ⊢
    omega

theorem opensDoc_carry (h : SameStop r r') {second : Char} (hsecond : second = '/' ∨ second = '*')
    (inner : Bool) (x : List Char) :
    opensDoc second inner (x ++ r) = opensDoc second inner (x ++ r') := by
  unfold opensDoc
  rcases hsecond with rfl | rfl
  · rw [isPrefixOf_carry h (by decide), isPrefixOf_carry h (by decide),
      isPrefixOf_carry h (by decide)]
  · rw [isPrefixOf_carry h (by decide), isPrefixOf_carry h (by decide),
      isPrefixOf_carry h (by decide)]

/-- A documenting comment that ends before `r` ends there whatever follows. -/
theorem readDoc_carry (h : SameStop r r') {words taken : List Char} {inner : Bool}
    (hdoc : readDoc (x ++ r) = some (words, inner, taken, y ++ r)) :
    readDoc (x ++ r') = some (words, inner, taken, y ++ r') := by
  obtain rfl : taken ++ y = x := by
    have hcut : taken ++ (y ++ r) = x ++ r := (cuts_readDoc hdoc).1
    rwa [← List.append_assoc, List.append_cancel_right_eq] at hcut
  obtain ⟨inner', ⟨hopens, hread⟩ | ⟨hopens, hread⟩⟩ := readDoc_eq_some_iff.mp hdoc
  · obtain ⟨a, b, c, t, rfl⟩ : ∃ a b c t, taken = a :: b :: c :: t := by
      have hlen := length_readDoc hdoc
      match taken with
      | [] | [_] | [_, _] => simp at hlen
      | a :: b :: c :: t => exact ⟨a, b, c, t, rfl⟩
    rw [opensDoc_carry h (.inl rfl)] at hopens
    refine readDoc_eq_some_iff.mpr ⟨inner', .inl ⟨hopens, ?_⟩⟩
    -- The line starts behind the three characters that open the comment.
    change ((readLine (t ++ y ++ r)).1, inner', (readLine (t ++ y ++ r)).2.after [a, b, c]) = _ at hread
    obtain ⟨⟨words', taken', rest⟩, hline⟩ : ∃ l, readLine (t ++ y ++ r) = l := ⟨_, rfl⟩
    simp only [hline, Split.after, List.cons_append, List.nil_append, Prod.mk.injEq, List.cons.injEq,
      true_and] at hread
    obtain ⟨rfl, rfl, rfl, rfl⟩ := hread
    change ((readLine (taken' ++ y ++ r')).1, inner',
      (readLine (taken' ++ y ++ r')).2.after [a, b, c]) = _
    rw [readLine_carry h.ends h.symm.ends hline]
    rfl
  · rw [opensDoc_carry h (.inr rfl)] at hopens
    refine readDoc_eq_some_iff.mpr ⟨inner', .inr ⟨hopens, ?_⟩⟩
    obtain ⟨⟨taken', rest⟩, hcomment, heq⟩ := Option.map_eq_some_iff.mp hread
    cases heq
    rw [blockDoc?, readComment_carry hcomment]
    rfl

end

end Instrumentation.Source
