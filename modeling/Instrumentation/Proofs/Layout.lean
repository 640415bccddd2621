import Instrumentation.Proofs.Lexes
import Instrumentation.Proofs.Offset

/-!
Where the trees of a text stand. Words and groups come one after the other, the inside of a group
between its ends, and a group in braces is a block of the text.
-/
namespace Instrumentation.Source

open Text (At Boundary byteLength)

/-- A block of a text, by the offsets of its braces: what the text goes on with at the first one
is read as one group, which ends in the second one. -/
def IsBlock (text : List Char) (opening closing : Nat) : Prop :=
  ∃ mid after inside,
    let block := Delimiter.brace.opening :: (mid ++ Delimiter.brace.closing :: after)
    At text opening block ∧ closing = opening + 1 + byteLength mid ∧
      Lexes opening block [.group .brace opening (closing + 1) inside] (closing + 1) after

theorem IsBlock.lt {text : List Char} {opening closing : Nat} (h : IsBlock text opening closing) :
    opening < closing := by
  obtain ⟨mid, after, inside, -, hclosing, -⟩ := h
  omega

/-- A pair of braces of a text: the offset of the first, and the offset past the second. -/
structure Braces (text : List Char) (start stop : Nat) : Prop where
  opens : ∃ rest, At text start (Delimiter.brace.opening :: rest)
  closes : ∃ rest, At text (stop - 1) (Delimiter.brace.closing :: rest)
  lt : start + 1 < stop

theorem Braces.boundary_open {text : List Char} {start stop : Nat} (h : Braces text start stop) :
    Boundary text start := by
  obtain ⟨rest, hopens⟩ := h.opens
  exact ⟨_, hopens⟩

theorem Braces.boundary_close {text : List Char} {start stop : Nat} (h : Braces text start stop) :
    Boundary text (stop - 1) := by
  obtain ⟨rest, hcloses⟩ := h.closes
  exact ⟨_, hcloses⟩

theorem Braces.boundary_stop {text : List Char} {start stop : Nat} (h : Braces text start stop) :
    Boundary text stop := by
  obtain ⟨rest, hcloses⟩ := h.closes
  have hlt := h.lt
  have hstop : stop - 1 + Delimiter.brace.closing.utf8Size = stop := by
    have hsize : Delimiter.brace.closing.utf8Size = 1 := rfl
    omega
  have hadvance := At.advance (show At text (stop - 1) ([Delimiter.brace.closing] ++ rest) from hcloses)
  exact ⟨rest, by simpa [hstop] using hadvance⟩

/-- The text up to the end of a pair of braces ends in a brace. -/
theorem Braces.getLast? {before rest : List Char} {start : Nat}
    (h : Braces (before ++ rest) start (byteLength before)) :
    before.getLast? = some Delimiter.brace.closing := by
  obtain ⟨rest', before', htext, hlen⟩ := h.closes
  have hlt := h.lt
  have hstop : byteLength before = byteLength (before' ++ [Delimiter.brace.closing]) := by
    have hsize : byteLength [Delimiter.brace.closing] = 1 := rfl
    rw [Text.byteLength_append, hsize]
    omega
  have hsplit : before ++ rest = (before' ++ [Delimiter.brace.closing]) ++ rest' := by
    simpa using htext
  rw [(Text.prefix_unique hsplit hstop).1]
  simp

theorem IsBlock.braces {text : List Char} {start stop : Nat} (h : IsBlock text start (stop - 1)) :
    Braces text start stop := by
  have hlt := h.lt
  obtain ⟨mid, after, inside, hopens, hclosing, -⟩ := h
  have hsize : Delimiter.brace.opening.utf8Size = 1 := rfl
  have hcloses := At.advance (show At text start ((Delimiter.brace.opening :: mid) ++
    Delimiter.brace.closing :: after) from hopens)
  rw [Text.byteLength_cons, hsize, ← Nat.add_assoc, ← hclosing] at hcloses
  exact ⟨⟨_, hopens⟩, ⟨after, hcloses⟩, by omega⟩

/-- Trees that stand in a text one after the other, between two offsets. Operators and literals
take no room here: those that a documentation comment stands for are nowhere in the text. -/
inductive Laid (text : List Char) : (lo : Nat) → List Tree → (hi : Nat) → Prop
  | nil {lo hi : Nat} (h : lo ≤ hi) : Laid text lo [] hi
  | word {lo hi pos : Nat} {raw : Bool} {name : String} {ts : List Tree} (hname : name ≠ "")
    (h : lo ≤ pos) (rest : Laid text (pos + 1) ts hi) : Laid text lo (.word raw name pos :: ts) hi
  | mark {lo hi pos : Nat} {c : Char} {joint : Bool} {ts : List Tree} (rest : Laid text lo ts hi) :
    Laid text lo (.mark c joint pos :: ts) hi
  | literal {lo hi pos : Nat} {t : String} {ts : List Tree} (rest : Laid text lo ts hi) :
    Laid text lo (.literal t pos :: ts) hi
  | group {lo hi start stop : Nat} {d : Delimiter} {inside ts : List Tree} (h : lo ≤ start)
    (hlt : start < stop) (hin : Laid text start inside stop) (hstop : Boundary text stop)
    (hblock : d = .brace → IsBlock text start (stop - 1)) (rest : Laid text stop ts hi) :
    Laid text lo (.group d start stop inside :: ts) hi

namespace Laid

variable {text : List Char}

theorem le {lo hi : Nat} {ts : List Tree} (h : Laid text lo ts hi) : lo ≤ hi := by
  induction h with
  | nil h => exact h
  | word hname h rest ih => omega
  | mark rest ih => exact ih
  | literal rest ih => exact ih
  | group h hlt hin hstop hblock rest ihin ih => omega

theorem lower {lo lo' hi : Nat} {ts : List Tree} (h : Laid text lo ts hi) (hlo : lo' ≤ lo) :
    Laid text lo' ts hi := by
  induction h generalizing lo' with
  | nil h => exact .nil (Nat.le_trans hlo h)
  | word hname h rest ih => exact .word hname (Nat.le_trans hlo h) rest
  | mark rest ih => exact .mark (ih hlo)
  | literal rest ih => exact .literal (ih hlo)
  | group h hlt hin hstop hblock rest ihin ih =>
    exact .group (Nat.le_trans hlo h) hlt hin hstop hblock rest

theorem append {lo mid hi : Nat} {ts us : List Tree} (h : Laid text lo ts mid)
    (h' : Laid text mid us hi) : Laid text lo (ts ++ us) hi := by
  induction h with
  | nil h => exact h'.lower h
  | word hname h rest ih => exact .word hname h (ih h')
  | mark rest ih => exact .mark (ih h')
  | literal rest ih => exact .literal (ih h')
  | group h hlt hin hstop hblock rest ihin ih => exact .group h hlt hin hstop hblock (ih h')

/-- What is left of trees begins no earlier than they did. -/
theorem suffix {lo hi : Nat} {ts us : List Tree} (h : Laid text lo ts hi) (hs : us <:+ ts) :
    ∃ mid, lo ≤ mid ∧ Laid text mid us hi := by
  obtain ⟨lead, rfl⟩ := hs
  induction lead generalizing lo with
  | nil => exact ⟨lo, Nat.le_refl lo, h⟩
  | cons t lead ih =>
    cases h with
    | word hname h rest =>
      obtain ⟨mid, hmid, hus⟩ := ih rest
      exact ⟨mid, by omega, hus⟩
    | mark rest => exact ih rest
    | literal rest => exact ih rest
    | group h hlt hin hstop hblock rest =>
      obtain ⟨mid, hmid, hus⟩ := ih rest
      exact ⟨mid, by omega, hus⟩

end Laid

theorem laid_docTrees {text words : List Char} {inner : Bool} {start stop : Nat}
    (hlt : start < stop) (hstop : Boundary text stop) :
    Laid text start (docTrees words inner start stop) stop := by
  have hgroup : Laid text start [.group .bracket start stop
      [.word false "doc" start, .mark '=' false start,
        .literal (String.ofList ('"' :: docLiteral words ++ ['"'])) start]] stop :=
    .group (Nat.le_refl _) hlt (.word (by decide) (Nat.le_refl _) (.mark (.literal (.nil hlt))))
      hstop (by simp) (.nil (Nat.le_refl _))
  cases inner with
  | false => exact .mark hgroup
  | true => exact .mark (.mark hgroup)

theorem laid_readLeaf {text cs : List Char} {pos : Nat} {tree : Tree} {s : Split}
    (h : readLeaf pos cs = some (tree, s)) : Laid text pos [tree] (pos + byteLength s.1) := by
  cases readLeaf_eq_some_iff.mp h with
  | literal => exact .literal (.nil (Nat.le_add_right _ _))
  | tick => exact .mark (.nil (Nat.le_add_right _ _))
  | mark => exact .mark (.nil (Nat.le_add_right _ _))
  | word _ _ _ hword =>
    have hne := (cuts_readAnyWord hword).2
    have hpos := Text.byteLength_pos hne
    refine .word (by simpa using hne) (Nat.le_refl _) (.nil ?_)
    simp only [Text.byteLength_append]
    omega

/-- A group in braces that a text goes on with is a block. -/
theorem Lexes.isBlock {text cs cs' gap after : List Char} {inside : List Tree} {start mid : Nat}
    (hat : At text start (Delimiter.brace.opening :: cs))
    (hinside : Lexes (start + 1) cs inside mid cs')
    (hgap : readGap (cs'.length + 1) cs' = (gap, Delimiter.brace.closing :: after)) :
    IsBlock text start (mid + byteLength gap) := by
  have hopen : readGap ((Delimiter.brace.opening :: cs).length + 1)
      (Delimiter.brace.opening :: cs) = ([], Delimiter.brace.opening :: cs) := rfl
  have hblock : Lexes start (Delimiter.brace.opening :: cs)
      [.group .brace start (mid + byteLength gap + 1) inside] (mid + byteLength gap + 1) after :=
    .group hopen hinside hgap .done
  obtain ⟨taken, rfl, rfl⟩ := hinside.cuts
  obtain rfl := append_of_readGap hgap
  rw [← List.append_assoc] at hat hblock
  exact ⟨taken ++ gap, after, inside, hat, by rw [Text.byteLength_append, Nat.add_assoc], hblock⟩

/-- The trees that a text goes on with at some offset stand there. -/
theorem Lexes.laid {text cs rest : List Char} {pos stop : Nat} {ts : List Tree}
    (h : Lexes pos cs ts stop rest) (hat : At text pos cs) : Laid text pos ts stop := by
  induction h with
  | done => exact .nil (Nat.le_refl _)
  | @doc pos stop cs gap cs₁ words taken cs₂ rest inner ts hgap hdoc _ _ ih =>
    obtain ⟨hcut, hne⟩ := cuts_readDoc hdoc
    obtain rfl : taken ++ cs₂ = cs₁ := hcut
    obtain rfl := append_of_readGap hgap
    have hpos : 0 < byteLength taken := Text.byteLength_pos hne
    have hbehind := hat.advance.advance
    have hdoc : Laid text (pos + byteLength gap) (docTrees words inner _ _) _ :=
      laid_docTrees (Nat.lt_add_of_pos_right hpos) ⟨cs₂, hbehind⟩
    exact (hdoc.append (ih hbehind)).lower (Nat.le_add_right _ _)
  | @leaf pos stop cs gap cs₁ taken cs₂ rest t ts hgap hleaf _ ih =>
    obtain rfl : taken ++ cs₂ = cs₁ := cuts_readLeaf hleaf
    obtain rfl := append_of_readGap hgap
    have hleaf : Laid text (pos + byteLength gap) _ _ := laid_readLeaf hleaf
    exact (hleaf.append (ih hat.advance.advance)).lower (Nat.le_add_right _ _)
  | @group pos mid stop cs gap cs₁ cs₂ gap' cs₃ rest d inside ts hgap hinside hgap' _ ihin ih =>
    obtain rfl := append_of_readGap hgap
    have hopens := hat.advance
    have hwithin := At.advance (show At text (pos + byteLength gap) ([d.opening] ++ cs₁) from hopens)
    rw [byteLength_opening] at hwithin
    have hlaid := ihin hwithin
    -- The group ends behind its closing delimiter.
    obtain ⟨taken, rfl, rfl⟩ := id hinside.cuts
    obtain rfl := append_of_readGap hgap'
    have hcloses := hwithin.advance.advance
    have hbehind := At.advance (show At text _ ([d.closing] ++ cs₃) from hcloses)
    rw [byteLength_closing] at hbehind
    have hin := hlaid.append (.nil (Nat.le_add_right _ (byteLength gap' + 1)))
    rw [List.append_nil, ← Nat.add_assoc] at hin
    refine .group (Nat.le_add_right _ _) hin.le (hin.lower (Nat.le_succ _)) ⟨cs₃, hbehind⟩ ?_
      (ih hbehind)
    rintro rfl
    exact hinside.isBlock hopens hgap'

/-- The trees of a text, read from some offset on, stand there. -/
theorem laid_treesFrom {text cs : List Char} {pos : Nat} {ts : List Tree} (hat : At text pos cs)
    (h : treesFrom pos cs = .ok ts) : Laid text pos ts (byteLength text) := by
  have hmark : At text (pos + (withoutMark cs).1) (withoutMark cs).2 := by
    cases cs with
    | nil => exact hat
    | cons c cs =>
      simp only [withoutMark]
      split
      · simpa using At.advance (show At text pos ([c] ++ cs) from hat)
      · exact hat
  obtain ⟨us, stop, rest, hus, gap, -, hts⟩ := exists_of_readTrees h
  obtain rfl : ts = us := hts
  have hlaid : Laid text _ ts stop := hus.laid hmark
  obtain ⟨taken, htaken, rfl⟩ := hus.cuts
  have hrest : At text _ (taken ++ rest) := htaken ▸ hmark
  have hend := hrest.advance.add_length
  have hle : pos + (withoutMark cs).1 + byteLength taken ≤ byteLength text := by
    rw [← hend]
    exact Nat.le_add_right _ _
  have hall := hlaid.append (.nil hle)
  rw [List.append_nil] at hall
  exact hall.lower (Nat.le_add_right _ _)

end Instrumentation.Source
