import Instrumentation.Source.Grammar.Item
import Instrumentation.Source.Lexer

/-!
The grammar as a whole. The parsers of the nonterminals call each other, so they are built in
layers: layer `n + 1` calls layer `n`, and trees of some size are read by a layer deep enough that
the bottom is never met. How deep is decided where a nonterminal is read, by the trees that are
left there, so that what came before plays no part.
-/
namespace Instrumentation.Source
namespace Grammar

open Source.Parser

/-- The parser of a nonterminal, in terms of all parsers. -/
def rule (g : Grammar) : Grammar
  | .type plus => typeBody g plus
  | .expr braces => exprBody g braces
  | .unary braces => unaryBody g braces
  | .early => earlyBody g
  | .pattern => patternBody g
  | .bound capture constant => boundBody g capture constant
  | .statements => statementsBody g
  | .item => itemBody g
  | .useTree root => useTreeBody g root

/-- The layers of the grammar. -/
def layer : Nat → Grammar
  | 0 => fun _ => fail
  | n + 1 => fun s => rule (layer n) s

/-- Layers enough for some trees. -/
def depthFor (ts : List Tree) : Nat := 4 * Tree.sizeIn ts + 16

/-- The parsers of all nonterminals. -/
def parsers : Grammar := fun s => {
  run := fun c => (layer (depthFor c.rest) s).run c
  forward := (layer _ s).forward }

theorem parsers_run (s : Nonterminal) (c : Cursor) :
    (parsers s).run c = (layer (depthFor c.rest) s).run c := rfl

/-- Reads all trees of a text. -/
def readAll {α : Type} (p : Grammar → Parser α) (ts : List Tree) : Except Blame α :=
  match (p parsers).run { rest := ts, close := none } with
  | .error e => .error e
  | .ok (a, c) =>
    match c.stray.or (c.rest.head?.map Tree.start) with
    | some place => .error (some place)
    | none => .ok a

end Grammar

/-- A source file: where its inner attributes end, and its items. -/
structure File where
  innerAttrs : List Attribute
  items : List Item

namespace Grammar

open Source.Parser

def file (g : Grammar) : Parser File := do
  let innerAttrs ← innerAttributes g
  return { innerAttrs, items := ← many (g .item) }

/-- Whether a text starts with a line for the system's loader, and not with an attribute. -/
def hasLoaderLine : List Char → Bool
  | '#' :: '!' :: rest => (readGap (rest.length + 1) rest).2.head? != some '['
  | _ => false

end Grammar

/-- The line for the loader that a text starts with, up to its end, or nothing. -/
def loaderLine (cs : List Char) : List Char :=
  if Grammar.hasLoaderLine cs then cs.takeWhile (· != '\n') else []

/-- Reads a source file. A line for the loader is taken off before. -/
def File.read (cs : List Char) : Except Blame File :=
  match treesFrom (Text.byteLength (loaderLine cs)) (cs.drop (loaderLine cs).length) with
  | .error place => .error (some place)
  | .ok trees => Grammar.readAll Grammar.file trees

/-- Reads a text that is one type. -/
def WrittenType.read (text : String) : Except Blame WrittenType :=
  match treesFrom 0 text.toList with
  | .error place => .error (some place)
  | .ok trees => Grammar.readAll (fun g => Grammar.writtenType g true) trees

end Instrumentation.Source
