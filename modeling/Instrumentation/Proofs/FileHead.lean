import Instrumentation.Proofs.CrateItems

/-!
The head of a file: its inner attributes, and where they end. They are read in the same way
whatever items follow.
-/
namespace Instrumentation.Source

open Text (byteLength)

namespace Grammar

open Source.Parser

/-- An inner attribute starts here. -/
def startsInner (ts : List Tree) : Bool := isOp "#" ts && second (isOp "!") ts

/-- The trees of inner attributes, and the offsets just past each of them. -/
inductive InnerTrees : List Tree → List Nat → Prop
  | nil : InnerTrees [] []
  | cons {joint joint' : Bool} {p q start stop : Nat} {inside ts : List Tree} {stops : List Nat}
      (hrest : InnerTrees ts stops) :
      InnerTrees (.mark '#' joint p :: .mark '!' joint' q :: .group .bracket start stop inside :: ts)
        (stop :: stops)

/-- One more inner attribute, if there is one. -/
def innerStep (g : Grammar) (attrs : List Attribute) : Parser (List Attribute × Bool) := do
  if ← peek startsInner then
    op "#"
    op "!"
    return ((← attributeBody g) :: attrs, true)
  else return (attrs, false)

theorem innerAttributes_eq (g : Grammar) :
    innerAttributes g = do return (← repeating [] (innerStep g)).reverse := rfl

theorem exists_of_isOp {o : String} {m : Char} (ho : o.toList = [m]) {ts : List Tree}
    (h : isOp o ts) : ∃ joint p rest, ts = .mark m joint p :: rest := by
  unfold isOp at h
  rw [ho] at h
  match ts with
  | [] => cases h
  | .mark c joint p :: rest =>
    simp only [isMark, Bool.and_eq_true, beq_iff_eq] at h
    exact ⟨joint, p, rest, by rw [h.1]⟩
  | .word .. :: _ => cases h
  | .literal .. :: _ => cases h
  | .group .. :: _ => cases h

theorem exists_of_startsInner {ts : List Tree} (h : startsInner ts) :
    ∃ joint joint' p q rest, ts = .mark '#' joint p :: .mark '!' joint' q :: rest := by
  simp only [startsInner, Bool.and_eq_true] at h
  obtain ⟨joint, p, rest, rfl⟩ := exists_of_isOp (by decide : "#".toList = ['#']) h.1
  have hpast : past (.mark '#' joint p :: rest) = rest := by
    unfold past
    split <;> simp_all
  have hsecond : isOp "!" rest := by
    have := h.2
    simp only [second, hpast, List.isEmpty_cons, Bool.not_false, Bool.true_and] at this
    exact this
  obtain ⟨joint', q, rest, rfl⟩ := exists_of_isOp (by decide : "!".toList = ['!']) hsecond
  exact ⟨joint, joint', p, q, rest, rfl⟩

theorem startsInner_cons (joint joint' : Bool) (p q : Nat) (rest : List Tree) :
    startsInner (.mark '#' joint p :: .mark '!' joint' q :: rest) = true := by
  have hpast : past (.mark '#' joint p :: .mark '!' joint' q :: rest) = .mark '!' joint' q :: rest := by
    unfold past
    split <;> simp_all
  simp [startsInner, second, hpast, isOp, isMark]

/-- What a group is read as does not depend on what follows it. -/
theorem run_inside_local {α : Type} {d : Delimiter} {p : Parser α} {span : GroupSpan} {a : α}
    {c c' : Cursor} (h : (inside d p).run c = .ok ((span, a), c')) :
    ∃ start stop trees, c.rest = .group d start stop trees :: c'.rest ∧ span = ⟨d, start, stop⟩ ∧
      isBrace c'.printed = (.brace == d) ∧
      ∀ rest, (inside d p).run { c with rest := .group d start stop trees :: rest } =
        .ok ((span, a), { c' with rest }) := by
  simp only [inside] at h
  split at h
  · next e start stop trees rest hc =>
    split at h
    · next hd =>
      subst hd
      split at h
      · next i hi =>
        cases h
        exact ⟨start, stop, trees, hc, rfl, rfl, fun rest' => by simp [inside, hi]⟩
      · cases h
    · cases h
  · cases h

theorem run_attributeBody_local {g : Grammar} {a : Attribute} {c c' : Cursor}
    (h : (attributeBody g).run c = .ok (a, c')) :
    ∃ start trees, c.rest = .group .bracket start a.stop trees :: c'.rest ∧
      isBrace c'.printed = false ∧
      ∀ rest, (attributeBody g).run { c with rest := .group .bracket start a.stop trees :: rest } =
        .ok (a, { c' with rest }) := by
  rw [attributeBody] at h
  obtain ⟨⟨span, path, value⟩, d, hinside, hpure⟩ := exists_of_run_bind h
  cases hpure
  obtain ⟨start, stop, trees, hc, rfl, hbrace, hlocal⟩ := run_inside_local hinside
  refine ⟨start, trees, hc, hbrace, fun rest => ?_⟩
  rw [attributeBody, run_bind (hlocal rest)]
  rfl

/-- One step reads an inner attribute, or stops before what is none. -/
theorem run_innerStep {g : Grammar} {xs ys : List Attribute} {more : Bool} {c c' : Cursor}
    (h : (innerStep g xs).run c = .ok ((ys, more), c')) :
    (more = false ∧ ys = xs ∧ c' = c ∧ startsInner c.rest = false) ∨
    ∃ a joint joint' p q start trees, more = true ∧ ys = a :: xs ∧ isBrace c'.printed = false ∧
      c.rest = .mark '#' joint p :: .mark '!' joint' q ::
        .group .bracket start a.stop trees :: c'.rest ∧
      ∀ rest, (innerStep g xs).run { c with rest := (.mark '#' joint p :: .mark '!' joint' q ::
        .group .bracket start a.stop trees :: rest) } = .ok ((ys, true), { c' with rest }) := by
  have hhash : "#".toList = ['#'] := by decide
  have hbang : "!".toList = ['!'] := by decide
  rw [innerStep, run_bind (run_peek _ _)] at h
  cases hinner : startsInner c.rest with
  | false =>
    rw [hinner] at h
    cases h
    exact .inl ⟨rfl, rfl, rfl, rfl⟩
  | true =>
    obtain ⟨joint, joint', p, q, rest, hc⟩ := exists_of_startsInner hinner
    simp only [hinner, ↓reduceIte] at h
    rw [run_bind (run_op hhash (by decide) hc), run_bind (run_op hbang (by decide) rfl)] at h
    obtain ⟨a, d, hbody, hpure⟩ := exists_of_run_bind h
    cases hpure
    obtain ⟨start, trees, hrest, hbrace, hlocal⟩ := run_attributeBody_local hbody
    obtain rfl : rest = _ := hrest
    refine .inr ⟨a, joint, joint', p, q, start, trees, rfl, rfl, hbrace, hc, fun rest' => ?_⟩
    rw [innerStep, run_bind (run_peek _ _)]
    simp only [startsInner_cons, ↓reduceIte]
    rw [run_bind (run_op hhash (by decide) rfl), run_bind (run_op hbang (by decide) rfl),
      run_bind (hlocal rest')]
    rfl

/-- The inner attributes are read from trees of their own, and in the same way before anything that
is none. -/
theorem run_innerLoop {g : Grammar} {fuel : Nat} {xs ys : List Attribute} {c d : Cursor}
    (h : (loop (innerStep g) fuel xs).run c = .ok (ys, d)) (hbrace : isBrace c.printed = false) :
    ∃ head, ∃ new : List Attribute, InnerTrees head (new.map Attribute.stop) ∧ ys = new.reverse ++ xs ∧
      c.rest = head ++ d.rest ∧ isBrace d.printed = false ∧
      ∀ rest, startsInner rest = false → ∀ fuel', head.length < fuel' →
        (loop (innerStep g) fuel' xs).run { c with rest := head ++ rest } =
          .ok (ys, { d with rest }) := by
  induction fuel generalizing xs c with
  | zero => cases h
  | succ fuel ih =>
    obtain ⟨⟨xs', more⟩, c', hstep, hrest⟩ := exists_of_run_bind h
    rcases run_innerStep hstep with ⟨rfl, rfl, rfl, hinner⟩ |
      ⟨a, joint, joint', p, q, start, trees, rfl, rfl, hbrace', hc, hlocal⟩
    · cases hrest
      refine ⟨[], [], .nil, rfl, rfl, hbrace, fun rest hrest fuel' hfuel => ?_⟩
      cases fuel' with
      | zero => cases hfuel
      | succ fuel' =>
        refine run_loop_done ?_ fuel'
        rw [innerStep, run_bind (run_peek _ _)]
        simp only [List.nil_append, hrest]
        rfl
    · obtain ⟨head, new, hhead, hys, hc', hbrace'', hlocal'⟩ := ih hrest hbrace'
      refine ⟨_, a :: new, .cons hhead, by simp [hys], by rw [hc, hc']; rfl, hbrace'',
        fun rest hrest' fuel' hfuel => ?_⟩
      cases fuel' with
      | zero => cases hfuel
      | succ fuel' =>
        simp only [List.cons_append]
        rw [run_loop_more (hlocal (head ++ rest))]
        exact hlocal' rest hrest' fuel' (by simp at hfuel; omega)

theorem run_innerAttributes {g : Grammar} {attrs : List Attribute} {c d : Cursor}
    (h : (innerAttributes g).run c = .ok (attrs, d)) (hbrace : isBrace c.printed = false) :
    ∃ head, InnerTrees head (attrs.map Attribute.stop) ∧ c.rest = head ++ d.rest ∧
      isBrace d.printed = false ∧ ∀ rest, startsInner rest = false →
        (innerAttributes g).run { c with rest := head ++ rest } = .ok (attrs, { d with rest }) := by
  have hleft (c : Cursor) : left.run c = .ok (c.rest.length, c) := rfl
  rw [innerAttributes_eq] at h
  obtain ⟨ys, d', hloop, hpure⟩ := exists_of_run_bind h
  cases hpure
  rw [repeating, run_bind (hleft c)] at hloop
  obtain ⟨head, new, hhead, rfl, hc, hbrace', hlocal⟩ := run_innerLoop hloop hbrace
  refine ⟨head, by simpa using hhead, hc, hbrace', fun rest hrest => ?_⟩
  have hloop' : (repeating [] (innerStep g)).run { c with rest := head ++ rest } =
      .ok (new.reverse ++ [], { d with rest }) := by
    rw [repeating, run_bind (hleft _)]
    exact hlocal rest hrest _ (by simp; omega)
  rw [innerAttributes_eq, run_bind hloop']
  rfl

end Grammar
/-- A text that ends with the end of a group or of a comment, or is empty. -/
def EndsWell (cs : List Char) : Prop := cs = [] ∨ [']'] <:+ cs ∨ ['*', '/'] <:+ cs

/-- What is left of such a text behind its first character. -/
theorem EndsWell.of_cons {c : Char} {cs : List Char} (h : EndsWell (c :: cs)) :
    c :: cs = [']'] ∨ c :: cs = ['*', '/'] ∨ EndsWell cs ∧ cs ≠ [] := by
  rcases h with h | h | h
  · cases h
  · rcases List.suffix_cons_iff.mp h with h | h
    · exact .inl h.symm
    · refine .inr (.inr ⟨.inr (.inl h), ?_⟩)
      rintro rfl
      simp at h
  · rcases List.suffix_cons_iff.mp h with h | h
    · exact .inr (.inl h.symm)
    · refine .inr (.inr ⟨.inr (.inr h), ?_⟩)
      rintro rfl
      simp at h

theorem EndsWell.prepend {cs : List Char} (h : EndsWell cs) (hne : cs ≠ []) (lead : List Char) :
    EndsWell (lead ++ cs) := by
  rcases h with h | h | h
  · exact absurd h hne
  · exact .inr (.inl (h.trans (List.suffix_append _ _)))
  · exact .inr (.inr (h.trans (List.suffix_append _ _)))

/-- The part of such a text from a character on that is part of no end. -/
theorem EndsWell.of_suffix {c : Char} {cs ds : List Char} (h : EndsWell cs) (hs : c :: ds <:+ cs)
    (hc : c ≠ '/') : EndsWell (c :: ds) := by
  rcases h with rfl | h | h
  · simp at hs
  · exact .inr (.inl (List.suffix_of_suffix_length_le h hs (by simp)))
  · refine .inr (.inr (List.suffix_of_suffix_length_le h hs ?_))
    cases ds with
    | nil =>
      have hone := List.suffix_of_suffix_length_le hs h (by simp)
      rcases List.suffix_cons_iff.mp hone with h | h
      · cases h
      · rcases List.suffix_cons_iff.mp h with h | h
        · cases h
          exact absurd rfl hc
        · simp at h
    | cons => simp

theorem endsWell_readBlockComment {fuel depth : Nat} {cs taken rest : List Char}
    (h : readBlockComment fuel depth cs = some (taken, rest)) : ['*', '/'] <:+ taken := by
  fun_induction readBlockComment fuel depth cs generalizing taken with
  | case1 => cases h
  | case2 fuel depth rest ih =>
    obtain ⟨t, rfl, h'⟩ := exists_of_map_after h
    exact (ih h').trans (List.suffix_append _ _)
  | case3 =>
    cases h
    exact List.suffix_rfl
  | case4 fuel depth rest hdepth ih =>
    obtain ⟨t, rfl, h'⟩ := exists_of_map_after h
    exact (ih h').trans (List.suffix_append _ _)
  | case5 fuel depth c rest _ _ ih =>
    obtain ⟨t, rfl, h'⟩ := exists_of_map_after h
    exact (ih h').trans (List.suffix_append _ _)
  | case6 => cases h

theorem readLeaf_ne_group {pos start stop : Nat} {cs : List Char} {d : Delimiter} {inside : List Tree}
    {s : Split} : readLeaf pos cs ≠ some (.group d start stop inside, s) := by
  intro h
  cases readLeaf_eq_some_iff.mp h

namespace Lexes

variable {pos stop : Nat} {cs rest : List Char} {ts : List Tree}

/-- A run that starts with an operator starts with the token, or with a comment that documents. -/
theorem cases_mark {c : Char} {joint : Bool} {p : Nat}
    (h : Lexes pos cs (.mark c joint p :: ts) stop rest) :
    (∃ gap cs₁ words inner taken cs₂ ts', gapOf cs = (gap, cs₁) ∧
      readDoc cs₁ = some (words, inner, taken, cs₂) ∧ returnsPaired words ∧
      .mark c joint p :: ts = docTrees words inner (pos + byteLength gap)
        (pos + byteLength gap + byteLength taken) ++ ts' ∧
      Lexes (pos + byteLength gap + byteLength taken) cs₂ ts' stop rest) ∨
    ∃ mid cs', Lexes pos cs [.mark c joint p] mid cs' ∧ Lexes mid cs' ts stop rest := by
  obtain ⟨us, hus⟩ : ∃ us, us = Tree.mark c joint p :: ts := ⟨_, rfl⟩
  rw [← hus] at h
  cases h with
  | done => cases hus
  | doc hgap hdoc hpaired hts => exact .inl ⟨_, _, _, _, _, _, _, hgap, hdoc, hpaired, hus.symm, hts⟩
  | leaf hgap hleaf hts =>
    cases hus
    exact .inr ⟨_, _, .leaf hgap hleaf .done, hts⟩
  | group => cases hus

theorem cases_group {d : Delimiter} {start stop' : Nat} {inside : List Tree}
    (h : Lexes pos cs (.group d start stop' inside :: ts) stop rest) :
    ∃ gap cs₁ mid cs₂ gap' cs₃, gapOf cs = (gap, d.opening :: cs₁) ∧ start = pos + byteLength gap ∧
      Lexes (pos + byteLength gap + 1) cs₁ inside mid cs₂ ∧ gapOf cs₂ = (gap', d.closing :: cs₃) ∧
      stop' = mid + byteLength gap' + 1 ∧ Lexes stop' cs₃ ts stop rest := by
  obtain ⟨us, hus⟩ : ∃ us, us = Tree.group d start stop' inside :: ts := ⟨_, rfl⟩
  rw [← hus] at h
  cases h with
  | done => cases hus
  | doc hgap hdoc hpaired hts =>
    simp [docTrees] at hus
  | leaf hgap hleaf hts =>
    cases hus
    exact absurd hleaf readLeaf_ne_group
  | group hgap hinside hgap' hts =>
    cases hus
    exact ⟨_, _, _, _, _, _, hgap, rfl, hinside, hgap', rfl, hts⟩

/-- An inner attribute, as it is written. -/
inductive Inner (pos : Nat) (cs : List Char) (start : Nat) :
    (trees : List Tree) → (stop : Nat) → List Char → Prop
  | doc {gap cs₁ words taken cs₂ : List Char} (hgap : gapOf cs = (gap, cs₁))
      (hdoc : readDoc cs₁ = some (words, true, taken, cs₂)) (hpaired : returnsPaired words)
      (hstart : start = pos + byteLength gap) :
      Inner pos cs start (docTrees words true start (start + byteLength taken))
        (start + byteLength taken) cs₂
  | spelled {joint joint' : Bool} {p q mid mid' : Nat} {cs₁ gap cs₂ cs₃ gap' cs₄ : List Char}
      {inside : List Tree}
      (hmarks : Lexes pos cs [.mark '#' joint p, .mark '!' joint' q] mid cs₁)
      (hgap : gapOf cs₁ = (gap, '[' :: cs₂)) (hstart : start = mid + byteLength gap)
      (hinside : Lexes (start + 1) cs₂ inside mid' cs₃) (hgap' : gapOf cs₃ = (gap', ']' :: cs₄)) :
      Inner pos cs start [.mark '#' joint p, .mark '!' joint' q,
        .group .bracket start (mid' + byteLength gap' + 1) inside] (mid' + byteLength gap' + 1) cs₄

theorem cases_inner {joint joint' : Bool} {p q start stop' : Nat} {inside : List Tree}
    (h : Lexes pos cs (.mark '#' joint p :: .mark '!' joint' q ::
      .group .bracket start stop' inside :: ts) stop rest) :
    ∃ cs', Inner pos cs start [.mark '#' joint p, .mark '!' joint' q,
      .group .bracket start stop' inside] stop' cs' ∧ Lexes stop' cs' ts stop rest := by
  rcases h.cases_mark with ⟨gap, cs₁, words, inner, taken, cs₂, ts', hgap, hdoc, hpaired, htrees, hts⟩ |
    ⟨mid, cs₁, hhash, hrest⟩
  · cases inner with
    | false => simp [docTrees] at htrees
    | true =>
      simp only [docTrees, ↓reduceIte, List.cons_append, List.nil_append, List.cons.injEq,
        Tree.mark.injEq, Tree.group.injEq, true_and] at htrees
      obtain ⟨⟨rfl, rfl⟩, ⟨rfl, rfl⟩, ⟨rfl, rfl, rfl⟩, rfl⟩ := htrees
      exact ⟨cs₂, .doc hgap hdoc hpaired rfl, hts⟩
  · rcases hrest.cases_mark with ⟨gap, cs₁, words, inner, taken, cs₂, ts', -, -, -, htrees, -⟩ |
      ⟨mid', cs₂, hbang, hrest⟩
    · simp [docTrees] at htrees
    · obtain ⟨gap, cs₃, mid'', cs₄, gap', cs₅, hgap, rfl, hinside, hgap', rfl, hts⟩ :=
        hrest.cases_group
      exact ⟨cs₅, .spelled (hhash.append hbang) hgap rfl hinside hgap', hts⟩

theorem Inner.lexes {start : Nat} {trees : List Tree} (h : Inner pos cs start trees stop rest) :
    Lexes pos cs trees stop rest := by
  cases h with
  | doc hgap hdoc hpaired hstart =>
    subst hstart
    rw [← List.append_nil (docTrees ..)]
    exact .doc hgap hdoc hpaired .done
  | spelled hmarks hgap hstart hinside hgap' =>
    subst hstart
    exact hmarks.append (.group (d := .bracket) hgap hinside hgap' .done)

/-- What documents what it stands in is a line or a comment with an end of its own. -/
theorem exists_of_readDoc {cs words : List Char} {s : Split}
    (h : readDoc cs = some (words, true, s)) :
    ∃ rest, cs = '/' :: '/' :: '!' :: rest ∨ cs = '/' :: '*' :: '!' :: rest := by
  obtain ⟨inner, ⟨hopens, hdoc⟩ | ⟨hopens, hdoc⟩⟩ := readDoc_eq_some_iff.mp h
  · cases hdoc
    obtain ⟨rest, rfl⟩ := List.isPrefixOf_iff_prefix.mp hopens
    exact ⟨rest, .inl rfl⟩
  · obtain ⟨b, -, heq⟩ := Option.map_eq_some_iff.mp hdoc
    cases heq
    obtain ⟨rest, rfl⟩ := List.isPrefixOf_iff_prefix.mp hopens
    exact ⟨rest, .inr rfl⟩

/-- A comment with an end of its own that documents what it stands in is read whatever follows. -/
theorem readDoc_local {cs words taken rest : List Char} {inner : Bool}
    (h : readDoc ('/' :: '*' :: '!' :: cs) = some (words, inner, taken, rest)) :
    ∃ t, taken = '/' :: '*' :: '!' :: t ∧ EndsWell taken ∧
      ∀ rest', readDoc (taken ++ rest') = some (words, inner, taken, rest') := by
  have hcut : taken ++ rest = '/' :: '*' :: '!' :: cs := (cuts_readDoc h).1
  obtain ⟨t, rfl⟩ : ∃ t, taken = '/' :: '*' :: '!' :: t := by
    have hlen := length_readDoc h
    match taken with
    | [] | [_] | [_, _] => simp at hlen
    | a :: b :: c :: t =>
      simp only [List.cons_append, List.cons.injEq] at hcut
      exact ⟨t, by rw [hcut.1, hcut.2.1, hcut.2.2.1]⟩
  simp only [readDoc] at h
  obtain ⟨⟨taken', rest''⟩, hread, heq⟩ := Option.map_eq_some_iff.mp h
  cases heq
  refine ⟨t, rfl, .inr (.inr (endsWell_readBlockComment hread)), fun rest' => ?_⟩
  have hread' := readComment_local hread rest'
  simp only [List.cons_append] at hread' ⊢
  simp only [readDoc, hread']
  rfl

/-- An inner attribute that is no comment to the end of its line ends with the end of a group or is
a comment with an end of its own, and is read in the same way whatever follows. -/
theorem Inner.carry {start : Nat} {trees : List Tree} (h : Inner pos cs start trees stop rest)
    (hline : ∀ gap cs', gapOf cs = (gap, '/' :: '/' :: '!' :: cs') → start ≠ pos + byteLength gap) :
    ∃ y k, cs = y ++ (k ++ rest) ∧ EndsWell (y ++ k) ∧
      (∀ rest', SameStop (k ++ rest) (k ++ rest')) ∧
      ∀ rest', Lexes pos (y ++ (k ++ rest')) trees stop rest' := by
  cases h with
  | @doc gap cs₁ words taken _ hgap hdoc hpaired hstart =>
    subst hstart
    obtain ⟨cs₂, rfl | rfl⟩ := exists_of_readDoc hdoc
    · exact absurd rfl (hline _ _ hgap)
    · obtain ⟨t, rfl, hends, hlocal⟩ := readDoc_local hdoc
      have hcut : '/' :: '*' :: '!' :: t ++ rest = _ := (cuts_readDoc hdoc).1
      have hblock := opensBlock_of_readDoc (by
        have hnone := readBlank_gapOf cs
        rwa [hgap] at hnone) hdoc
      obtain rfl := append_of_readGap hgap
      have hstop (rest' : List Char) :
          SameStop ('/' :: '*' :: '!' :: t ++ rest) ('/' :: '*' :: '!' :: t ++ rest') :=
        .comment _ _
      refine ⟨gap, '/' :: '*' :: '!' :: t, by rw [hcut], hends.prepend (by simp) gap, hstop,
        fun rest' => ?_⟩
      rw [← hcut] at hgap hblock
      have hgap' := gapOf_carry (y := []) (hstop rest') hgap hblock
      exact (Inner.doc hgap' (hlocal rest') hpaired rfl).lexes
  | spelled hmarks hgap hstart hinside hgap' =>
    have hstop (rest' : List Char) : SameStop (']' :: rest) (']' :: rest') := .bracket _ _
    obtain ⟨x₃, rfl⟩ := exists_append_gapOf (y := []) hgap' rfl
    obtain ⟨x₂, rfl⟩ := hinside.exists_append rfl
    rw [← List.cons_append] at hgap
    obtain ⟨x₁, rfl⟩ := exists_append_gapOf hgap rfl
    obtain ⟨x, rfl⟩ := hmarks.exists_append rfl
    refine ⟨x, [']'], rfl, .inr (.inl (List.suffix_append _ _)), hstop, fun rest' => ?_⟩
    have hmarks' := hmarks.carry (hstop rest') rfl rfl
    have hgap₁ := gapOf_carry (hstop rest') hgap (opensBlock_opening .bracket _)
    have hinside' := hinside.carry (hstop rest') rfl rfl
    have hgap₂ := gapOf_carry (y := []) (hstop rest') hgap' (opensBlock_closing .bracket _)
    exact (Inner.spelled hmarks' hgap₁ hstart hinside' hgap₂).lexes

/-- The inner attributes of a file whose last one is no comment to the end of its line are read in
the same way whatever follows. -/
theorem carry_inner {text : List Char} {head : List Tree} {stops : List Nat}
    (hhead : Grammar.InnerTrees head stops) (hne : stops ≠ []) (h : Lexes pos cs head stop rest)
    (hat : Text.At text pos cs)
    (hline : ∀ start inside cs', .group .bracket start stop inside ∈ head →
      ¬Text.At text start ('/' :: '/' :: '!' :: cs')) :
    stops.getLast? = some stop ∧ ∃ y k, cs = y ++ (k ++ rest) ∧ EndsWell (y ++ k) ∧
      (∀ rest', SameStop (k ++ rest) (k ++ rest')) ∧
      ∀ rest', Lexes pos (y ++ (k ++ rest')) head stop rest' := by
  induction hhead generalizing pos cs with
  | nil => exact absurd rfl hne
  | @cons joint joint' p q start stop' inside ts stops hrest ih =>
    obtain ⟨cs', hinner, hts⟩ := h.cases_inner
    cases hrest with
    | nil =>
      cases hts with
      | done =>
        refine ⟨rfl, hinner.carry fun gap cs' hgap hstart => hline start inside cs' (by simp) ?_⟩
        rw [← append_of_readGap hgap] at hat
        rw [hstart]
        exact hat.advance
    | @cons _ _ _ _ _ next _ ts stops hrest =>
      obtain ⟨taken, hcut, hstop⟩ := hinner.lexes.cuts
      have hat' : Text.At text stop' cs' := by
        rw [← hcut] at hat
        rw [← hstop]
        exact hat.advance
      obtain ⟨hlast, y, k, rfl, hends, hsame, hlexes⟩ :=
        ih (by simp) hts hat' fun start inside cs' hmem =>
        hline start inside cs' (List.mem_cons_of_mem _ (List.mem_cons_of_mem _
          (List.mem_cons_of_mem _ hmem)))
      obtain ⟨before, hbefore, -⟩ := hinner.lexes.cuts
      obtain rfl : before ++ y ++ (k ++ rest) = cs := by rw [List.append_assoc, hbefore]
      have hends' : EndsWell (before ++ y ++ k) := by
        rw [List.append_assoc]
        refine hends.prepend ?_ before
        have hne := (hsame []).ne_nil
        rw [List.append_nil] at hne
        exact List.append_ne_nil_of_right_ne_nil y hne
      refine ⟨by rw [List.getLast?_cons_cons, hlast], before ++ y, k, rfl, hends', hsame,
        fun rest' => ?_⟩
      exact (hinner.lexes.carry (hsame rest') rfl rfl).append (hlexes rest')

/-- A run that starts with inner attributes is one of inner attributes and one behind them. -/
theorem split_inner {head us : List Tree} {stops : List Nat} (hhead : Grammar.InnerTrees head stops)
    (h : Lexes pos cs (head ++ us) stop rest) :
    ∃ mid cs', Lexes pos cs head mid cs' ∧ Lexes mid cs' us stop rest := by
  induction hhead generalizing pos cs with
  | nil => exact ⟨pos, cs, .done, h⟩
  | cons hrest ih =>
    obtain ⟨cs', hinner, hts⟩ := h.cases_inner
    obtain ⟨mid, cs'', hhead, hus⟩ := ih hts
    exact ⟨mid, cs'', hinner.lexes.append hhead, hus⟩

end Lexes

end Instrumentation.Source
