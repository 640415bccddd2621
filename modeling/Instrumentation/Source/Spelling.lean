import Instrumentation.Source.Token

/-!
Token trees as text: one blank between tokens, none after a mark that is joined to the next one.
Braces are padded inside; an empty pair of braces holds one blank.
-/
namespace Instrumentation.Source

mutual
def Tree.text : Tree → String
  | .word raw name _ => Tree.spelled raw name
  | .mark c _ _ => c.toString
  | .literal t _ => t
  | .group .brace _ _ [] => "\x7b \x7d"
  | .group .brace _ _ (t :: ts) => "\x7b " ++ textOf (t :: ts) ++ " \x7d"
  | .group d _ _ inside => d.opening.toString ++ textOf inside ++ d.closing.toString

/-- The text of a list of trees. -/
def textOf : List Tree → String
  | [] => ""
  | [t] => t.text
  | t :: u :: rest =>
    t.text ++ (match t with
      | .mark _ true _ => ""
      | _ => " ") ++ textOf (u :: rest)
end

end Instrumentation.Source
