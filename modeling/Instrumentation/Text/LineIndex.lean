import Instrumentation.BinarySearch
import Instrumentation.Text.Pieces

/-!
Lines and columns of a text. Offsets count bytes, lines count from one, and columns count
characters, so that a place in a text has one offset and one pair of line and column. An index of
the offsets at which lines start leads from one to the other.
-/
namespace Instrumentation.Text

/-- The characters from one byte offset to another. -/
def slice (text : List Char) (start stop : Nat) : List Char :=
  go 0 text
where
  go : Nat → List Char → List Char
    | _, [] => []
    | pos, c :: cs =>
      if pos < start then go (pos + c.utf8Size) cs
      else if pos < stop then c :: go (pos + c.utf8Size) cs
      else []

/-- Whether an offset falls between two characters of a text, or at an end. -/
def isBoundary : List Char → Nat → Bool
  | [], offset => offset == 0
  | c :: cs, offset =>
    offset == 0 || (decide (c.utf8Size ≤ offset) && isBoundary cs (offset - c.utf8Size))

/-- The characters from one byte offset to another, unless one of them is inside a character. -/
def slice? (text : List Char) (start stop : Nat) : Option (List Char) :=
  if start ≤ stop && isBoundary text start && isBoundary text stop then
    some (slice text start stop)
  else none

/-- The offset after `count` more characters, or the end of the text. -/
def advance : (pos count : Nat) → List Char → Nat
  | pos, 0, _ => pos
  | pos, _ + 1, [] => pos
  | pos, n + 1, c :: cs => advance (pos + c.utf8Size) n cs

/-- The offsets behind the line ends of a text that starts at `pos`. -/
def startsFrom : (pos : Nat) → List Char → List Nat
  | _, [] => []
  | pos, c :: cs =>
    if c = '\n' then (pos + 1) :: startsFrom (pos + 1) cs else startsFrom (pos + c.utf8Size) cs

/-- The offsets at which the lines of a text start. -/
structure LineIndex where
  starts : List Nat
  deriving DecidableEq, Repr

namespace LineIndex

def ofText (text : List Char) : LineIndex := ⟨0 :: startsFrom 0 text⟩

/-- The line that an offset is on, counted from zero. Nothing is on a line before the first. -/
def line? (index : LineIndex) (offset : Nat) : Option (Fin index.starts.length) :=
  (BinarySearch.search (fun start => compare start offset) index.starts).floor?

/-- The line and column, both from one, of a byte offset. Past the end of the text the end is meant;
inside a character, the start of its line. -/
def lineCol? (index : LineIndex) (text : List Char) (offset : Nat) : Option (Nat × Nat) :=
  (index.line? offset).map fun line =>
    let taken := slice? text (index.starts.get line) (min offset (byteLength text))
    (line.val + 1, (taken.map List.length).getD 0 + 1)

/-- The byte offset of a line, from one, and a column, from zero. A column past the end of the
line goes on in the next one; a line past the end of the text is its end. -/
def offset (index : LineIndex) (text : List Char) (line col : Nat) : Nat :=
  match index.starts[line - 1]? with
  | none => byteLength text
  | some start => advance start col (slice text start (byteLength text))

end LineIndex

theorem bounds_of_mem_startsFrom {pos start : Nat} {cs : List Char}
    (h : start ∈ startsFrom pos cs) :
    pos < start ∧ start ≤ pos + byteLength cs := by
  induction cs generalizing pos with
  | nil => simp [startsFrom] at h
  | cons c cs ih =>
    have hc := c.utf8Size_pos
    rw [byteLength_cons]
    by_cases hn : c = '\n'
    · rw [startsFrom, if_pos hn, List.mem_cons] at h
      rcases h with rfl | h
      · omega
      · have := ih h
        omega
    · rw [startsFrom, if_neg hn] at h
      have := ih h
      omega

theorem pairwise_startsFrom (pos : Nat) (cs : List Char) :
    (startsFrom pos cs).Pairwise (· < ·) := by
  induction cs generalizing pos with
  | nil => exact .nil
  | cons c cs ih =>
    by_cases hn : c = '\n'
    · rw [startsFrom, if_pos hn]
      exact .cons (fun start h => (bounds_of_mem_startsFrom h).1) (ih _)
    · rw [startsFrom, if_neg hn]
      exact ih _

namespace LineIndex

/-- Lines start one after the other. -/
theorem pairwise_starts (text : List Char) : (ofText text).starts.Pairwise (· < ·) :=
  .cons (fun _ h => (bounds_of_mem_startsFrom h).1) (pairwise_startsFrom 0 text)

/-- Every offset is on the last line that does not start behind it. -/
theorem line?_ofText (text : List Char) (offset : Nat) :
    ((ofText text).line? offset).map Fin.val = some ((startsFrom 0 text).countP (· ≤ offset)) := by
  have hle := (pairwise_starts text).imp fun {a b} h => Nat.le_of_lt h
  have hfloor := BinarySearch.floor?_search_key (f := id) (k := offset) hle
  simp only [id] at hfloor
  rw [line?, hfloor]
  simp [ofText]

theorem isSome_lineCol? (text : List Char) (offset : Nat) :
    ((ofText text).lineCol? text offset).isSome := by
  obtain ⟨line, hline, -⟩ := Option.map_eq_some_iff.mp (line?_ofText text offset)
  simp [lineCol?, hline]

end LineIndex

/-- The line and column of an offset, by the index of the text itself. -/
def lineCol (text : List Char) (offset : Nat) : Nat × Nat :=
  ((LineIndex.ofText text).lineCol? text offset).get (LineIndex.isSome_lineCol? text offset)

/-- The offset of a line and column, by the index of the text itself. -/
def offsetAt (text : List Char) (line col : Nat) : Nat :=
  (LineIndex.ofText text).offset text line col

end Instrumentation.Text
