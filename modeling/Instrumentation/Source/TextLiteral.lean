import Instrumentation.Source.Literal
import Instrumentation.Text.Blank

/-!
The value of a text literal.
-/
namespace Instrumentation.Source

/-- The characters that quoted text stands for, up to its closing quote. -/
def unescape : (fuel : Nat) → List Char → List Char
  | 0, _ => []
  | fuel + 1, cs =>
    match cs with
    | [] => []
    | '"' :: _ => []
    | '\\' :: 'x' :: a :: b :: rest =>
      Char.ofNat (16 * hexDigitValue a + hexDigitValue b) :: unescape fuel rest
    | '\\' :: 'u' :: rest => match readCodeEscape rest with
      | some (value, (_, rest)) => Char.ofNat value :: unescape fuel rest
      | none => []
    | '\\' :: 'n' :: rest => '\n' :: unescape fuel rest
    | '\\' :: 'r' :: rest => '\r' :: unescape fuel rest
    | '\\' :: 't' :: rest => '\t' :: unescape fuel rest
    | '\\' :: '0' :: rest => '\x00' :: unescape fuel rest
    | '\\' :: c :: rest =>
      if c = '\n' || c = '\r' then unescape fuel (rest.dropWhile Text.isBlank)
      else c :: unescape fuel rest
    | '\r' :: '\n' :: rest => '\n' :: unescape fuel rest
    | c :: rest => c :: unescape fuel rest

/-- The text that a text literal stands for; other literals stand for none. -/
def textValue? (literal : String) : Option String :=
  match literal.toList with
  | '"' :: rest => some (String.ofList (unescape (rest.length + 1) rest))
  | 'r' :: rest =>
    let hashes := rest.takeWhile (· == '#')
    match readRaw .chars hashes false (rest.drop (hashes.length + 1)) with
    | some (inside, _) => some (String.ofList (inside.take (inside.length - hashes.length - 1)))
    | none => none
  | _ => none

end Instrumentation.Source
