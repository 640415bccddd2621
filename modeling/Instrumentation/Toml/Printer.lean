import Instrumentation.Json.Printer
import Instrumentation.Toml.Scalar

/-!
Writing configuration documents: one line for each key of the table, with everything below it on
that line.
-/
namespace Instrumentation.Toml

/-- A character inside double quotes. -/
def escape (c : Char) : List Char :=
  if isPlain c then Json.escape c
  else if c.toNat = 0x7F then "\\u007f".toList
  else Json.escape c

/-- A text or key in double quotes. -/
def quote (s : String) : String := String.ofList ('"' :: s.toList.flatMap escape ++ ['"'])

/-- The text of a date, if the value is one. -/
def date? : Json → Option String
  | .obj [("$__toml_private_datetime", .str text)] => some text
  | _ => none

mutual
/-- A value on one line. -/
def inline : Json → String
  | .null => "\"\""
  | .bool b => if b then "true" else "false"
  | .int n => toString n
  | .decimal t => t
  | .str s => quote s
  | .arr xs => "[" ++ inlineItems xs ++ "]"
  | .obj ms => match date? (.obj ms) with
    | some text => text
    | none => Json.openBrace ++ inlineMembers ms ++ Json.closeBrace

def inlineItems : List Json → String
  | [] => ""
  | [x] => inline x
  | x :: y :: rest => inline x ++ ", " ++ inlineItems (y :: rest)

def inlineMembers : List (String × Json) → String
  | [] => ""
  | [(name, x)] => quote name ++ " = " ++ inline x
  | (name, x) :: m :: rest => quote name ++ " = " ++ inline x ++ ", " ++ inlineMembers (m :: rest)
end

/-- The lines of a table. -/
def document (members : List (String × Json)) : String :=
  String.join (members.map fun m => quote m.1 ++ " = " ++ inline m.2 ++ "\n")

end Instrumentation.Toml
