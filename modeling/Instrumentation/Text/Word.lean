import Instrumentation.Text.WordTable

/-!
Which characters may start and continue an identifier.
-/
namespace Instrumentation.Text

/-- Whether a code point lies in one of the ranges. -/
def inRanges (ranges : List (Nat × Nat)) (n : Nat) : Bool :=
  ranges.any fun (lo, hi) => lo ≤ n && n ≤ hi

/-- Letters, the underscore, and what the standard lets start an identifier. -/
def isWordStart (c : Char) : Bool :=
  c.isAlpha || c == '_' || (c.toNat ≥ 0x80 && inRanges wordStartRanges c.toNat)

/-- Letters, digits, the underscore, and what the standard lets continue an identifier. -/
def isWordContinue (c : Char) : Bool :=
  c.isAlphanum || c == '_' || (c.toNat ≥ 0x80 && inRanges wordContinueRanges c.toNat)

end Instrumentation.Text
