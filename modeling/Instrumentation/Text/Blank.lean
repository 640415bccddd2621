import Instrumentation.Text.Pieces

/-!
Blank characters: the characters with the `White_Space` property of the Unicode standard, and
trimming a text by them.
-/
namespace Instrumentation.Text

/-- Whether a character has the `White_Space` property. -/
def isBlank (c : Char) : Bool :=
  let n := c.toNat
  (9 ≤ n && n ≤ 13) || n == 0x20 || n == 0x85 || n == 0xA0 || n == 0x1680
    || (0x2000 ≤ n && n ≤ 0x200A) || n == 0x2028 || n == 0x2029 || n == 0x202F
    || n == 0x205F || n == 0x3000

/-- A text without the blanks at its end. -/
def trimEnd (cs : List Char) : List Char :=
  (cs.reverse.dropWhile isBlank).reverse

/-- A text without the blanks at its two ends. -/
def trim (cs : List Char) : List Char :=
  trimEnd (cs.dropWhile isBlank)

/-- `trim` on strings. -/
def trimmed (s : String) : String :=
  String.ofList (trim s.toList)

/-- A text without any blank. -/
def squeezed (s : String) : String :=
  String.ofList (s.toList.filter fun c => !isBlank c)

theorem squeezed_append (s t : String) : squeezed (s ++ t) = squeezed s ++ squeezed t := by
  simp [squeezed]

end Instrumentation.Text
