import Instrumentation.Source.Parser

/-!
What is kept of the grammar's nodes. Items are kept with all that instrumentation asks about
them; of types, patterns and expressions only the form is kept, since their trees say the rest.
-/
namespace Instrumentation.Source

/-- A path segment: its name as written, and whether it has generic arguments. -/
structure Segment where
  name : String
  hasArgs : Bool := false
  deriving DecidableEq, Repr

structure PathNode where
  /-- The path starts with a type in angle brackets. -/
  qualified : Bool := false
  /-- The path starts with `::`. -/
  leading : Bool := false
  segments : List Segment
  deriving DecidableEq, Repr

namespace PathNode

/-- No segment has generic arguments. -/
def isPlain (p : PathNode) : Bool := p.segments.all fun s => !s.hasArgs

/-- The path is the one name `name`. -/
def isName (p : PathNode) (name : String) : Bool :=
  !p.leading && p.segments == [⟨name, false⟩]

def last? (p : PathNode) : Option String := p.segments.getLast?.map Segment.name

end PathNode

inductive TypeNode where
  | path (p : PathNode)
  | reference (target : TypeNode)
  | paren (inside : TypeNode)
  | unit
  /-- Trait bounds, with `dyn` or without; `single` when there is one and no trailing `+`. -/
  | bounds (hasDyn single : Bool)
  | other
  deriving DecidableEq, Repr

/-- A type with the trees that it prints. -/
structure WrittenType where
  node : TypeNode
  trees : List Tree
  /-- The type can be spelled in a closure signature. -/
  spellable : Bool
  deriving Repr

inductive PatternNode where
  /-- A plain binding of that name. -/
  | binding (name : String)
  /-- A range with an open end, and where its dots stand. -/
  | openRange (dots : Blame)
  | other
  deriving DecidableEq, Repr

inductive ExprNode where
  | range
  | comparison
  /-- Ends a statement or match arm by itself. -/
  | block
  | macroCall (delim : Delimiter)
  | other
  deriving DecidableEq, Repr

/-- A bound of a type is a trait, or a lifetime or set of captures. -/
inductive BoundNode where
  | trait | other
  deriving DecidableEq, Repr

structure Attribute where
  path : PathNode
  /-- The literal in `name = literal`. -/
  value : Option String
  /-- The offset just past the attribute. -/
  stop : Nat
  deriving DecidableEq, Repr

/-- How a function takes `self`. -/
inductive SelfKind where
  | none | byRef | byValue | typed
  deriving DecidableEq, Repr

structure Param where
  /-- The name, when the pattern is a plain binding. -/
  name : Option String
  type : WrittenType
  deriving Repr

structure Signature where
  name : Parser.Name
  isConst : Bool
  isAsync : Bool
  receiver : SelfKind
  params : List Param
  output : Option WrittenType
  deriving Repr

/-- A body in braces: the offsets of its two ends and the trees that it prints. -/
structure Body where
  start : Nat
  stop : Nat
  trees : List Tree
  deriving Repr

structure Function where
  attrs : List Attribute
  isPub : Bool
  sig : Signature
  body : Body
  deriving Repr

inductive Item where
  | function (f : Function)
  | implementation (target : WrittenType) (traitName : Option String) (methods : List Function)
  /-- A trait with the methods that have a body. -/
  | trait (name : String) (methods : List Function)
  /-- A module in another file. -/
  | outline (attrs : List Attribute) (isPub : Bool) (name : String)
  | inline (isPub : Bool) (name : String) (items : List Item)
  /-- The inside of a macro definition, or the value of a constant or static. -/
  | evaluated (trees : List Tree)
  | other
  deriving Repr

/-- What the parsers call each other for. -/
inductive Nonterminal where
  /-- A type; `plus` when it may go on with `+ Bound`. -/
  | type (plus : Bool)
  /-- An expression; `braces` when a struct literal may stand in it. -/
  | expr (braces : Bool)
  /-- An operand with its leading operators. -/
  | unary (braces : Bool)
  /-- An expression that ends early after a block, as in a statement or match arm. -/
  | early
  | pattern
  /-- A bound of a type; `capture` allows `use<..>` and `constant` allows `const`. -/
  | bound (capture constant : Bool)
  /-- The inside of a block. -/
  | statements
  | item
  | useTree (root : Bool)

abbrev Nonterminal.Result : Nonterminal → Type
  | type _ => TypeNode
  | expr _ => ExprNode
  | unary _ => ExprNode
  | early => ExprNode
  | pattern => PatternNode
  | bound _ _ => BoundNode
  | statements => Unit
  | item => Item
  | useTree _ => Unit

/-- A parser for each nonterminal. -/
abbrev Grammar := (n : Nonterminal) → Parser n.Result

end Instrumentation.Source
