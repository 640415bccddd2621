/-!
Token trees of a source text. Every leaf carries the byte offset it was read from, and a group
the offsets of its two ends, so that whatever is found in the trees can be placed in the text.
-/
namespace Instrumentation.Source

inductive Delimiter where
  | paren | bracket | brace
  deriving DecidableEq, Repr

def Delimiter.opening : Delimiter → Char
  | paren => '('
  | bracket => '['
  | brace => Char.ofNat 0x7B

def Delimiter.closing : Delimiter → Char
  | paren => ')'
  | bracket => ']'
  | brace => Char.ofNat 0x7D

inductive Tree where
  /-- An identifier or keyword; a raw one is written with `r#` before it. -/
  | word (raw : Bool) (name : String) (pos : Nat)
  /-- One character of an operator; `joint` when the next character belongs to an operator too. -/
  | mark (c : Char) (joint : Bool) (pos : Nat)
  | literal (text : String) (pos : Nat)
  /-- A delimited group; `stop` is the offset just past its closing delimiter. -/
  | group (delim : Delimiter) (start stop : Nat) (inside : List Tree)
  deriving Repr, Inhabited

namespace Tree

/-- The offset a tree starts at. -/
def start : Tree → Nat
  | word _ _ p => p
  | mark _ _ p => p
  | literal _ p => p
  | group _ s _ _ => s

/-- A word as it is written. -/
def spelled (raw : Bool) (name : String) : String := if raw then "r#" ++ name else name

mutual
/-- All names of identifiers and keywords in a tree, without `r#`. -/
def names : Tree → List String
  | word _ name _ => [name]
  | mark _ _ _ => []
  | literal _ _ => []
  | group _ _ _ inside => namesIn inside

def namesIn : List Tree → List String
  | [] => []
  | t :: ts => names t ++ namesIn ts
end

mutual
/-- The number of leaves and groups of a tree. -/
def size : Tree → Nat
  | group _ _ _ inside => sizeIn inside + 1
  | _ => 1

def sizeIn : List Tree → Nat
  | [] => 0
  | t :: ts => size t + sizeIn ts
end

end Tree
end Instrumentation.Source
