import Instrumentation.Json.Basic

/-!
Writing JSON: on one line, or over several lines with two blanks a level. Quotes, backslashes and
control characters are escaped and every other character stands for itself.
-/
namespace Instrumentation.Json

def hexDigit (n : Nat) : Char := "0123456789abcdef".toList.getD n '0'

def escape (c : Char) : List Char :=
  if c = '"' then ['\\', '"']
  else if c = '\\' then ['\\', '\\']
  else if c = '\n' then ['\\', 'n']
  else if c = '\r' then ['\\', 'r']
  else if c = '\t' then ['\\', 't']
  else if c = '\x08' then ['\\', 'b']
  else if c = '\x0c' then ['\\', 'f']
  else if c.toNat < 0x20 then
    ['\\', 'u', '0', '0', hexDigit (c.toNat / 16), hexDigit (c.toNat % 16)]
  else [c]

def quote (s : String) : String :=
  String.ofList ('"' :: s.toList.flatMap escape ++ ['"'])

def openBrace : String := "\x7b"

def closeBrace : String := "\x7d"

mutual
/-- A value on one line. -/
def compact : Json → String
  | null => "null"
  | bool true => "true"
  | bool false => "false"
  | int n => toString n
  | decimal t => t
  | str s => quote s
  | arr xs => "[" ++ compactItems xs ++ "]"
  | obj ms => openBrace ++ compactMembers ms ++ closeBrace

def compactItems : List Json → String
  | [] => ""
  | [x] => compact x
  | x :: y :: rest => compact x ++ "," ++ compactItems (y :: rest)

def compactMembers : List (String × Json) → String
  | [] => ""
  | [(name, x)] => quote name ++ ":" ++ compact x
  | (name, x) :: m :: rest => quote name ++ ":" ++ compact x ++ "," ++ compactMembers (m :: rest)
end

def indent (level : Nat) : String := String.ofList (List.replicate (2 * level) ' ')

mutual
/-- A value over several lines; an empty array or object stays on its line. -/
def prettyAt (level : Nat) : Json → String
  | arr [] => "[]"
  | arr (x :: xs) =>
    "[\n" ++ prettyItems (level + 1) (x :: xs) ++ "\n" ++ indent level ++ "]"
  | obj [] => openBrace ++ closeBrace
  | obj (m :: ms) =>
    openBrace ++ "\n" ++ prettyMembers (level + 1) (m :: ms) ++ "\n" ++ indent level ++ closeBrace
  | j => compact j

def prettyItems (level : Nat) : List Json → String
  | [] => ""
  | [x] => indent level ++ prettyAt level x
  | x :: y :: rest => indent level ++ prettyAt level x ++ ",\n" ++ prettyItems level (y :: rest)

def prettyMembers (level : Nat) : List (String × Json) → String
  | [] => ""
  | [(name, x)] => indent level ++ quote name ++ ": " ++ prettyAt level x
  | (name, x) :: m :: rest =>
    indent level ++ quote name ++ ": " ++ prettyAt level x ++ ",\n"
      ++ prettyMembers level (m :: rest)
end

/-- A value over several lines. -/
def pretty (j : Json) : String := prettyAt 0 j

end Instrumentation.Json
