import Instrumentation.Source.Grammar.File
import Instrumentation.Source.Spelling
import Instrumentation.Source.TextLiteral
import Instrumentation.Text.LineIndex
import Instrumentation.Text.SortedSet

/-!
What instrumentation needs to know of a source file: the functions that rules may target, the
modules that live in other files, and for each function the names that its body mentions.
-/
namespace Instrumentation
namespace Source

/-- The receiver type of a method: the last segment of its path, and the whole type. -/
structure Receiver where
  last : String
  full : String
  deriving DecidableEq, Repr

/-- A parameter with its type, spelled without blanks. -/
structure ParamSite where
  name : Option String
  type : String
  deriving DecidableEq, Repr

/-- A function with a body that rules may target. -/
structure Declaration where
  /-- The modules inside the file that enclose it. -/
  scope : List String
  name : String
  receiver : Option Receiver
  traitName : Option String
  selfKind : SelfKind
  params : List ParamSite
  /-- The result type, spelled without blanks, unless it is unit. -/
  results : List String
  /-- The result type as it can be compiled, unless it is unit. -/
  returnType : Option String
  /-- The result type can be written in a closure signature. -/
  annotatable : Bool
  returnsResult : Bool
  isAsync : Bool
  /-- Offset of the body's opening brace. -/
  bodyOpen : Nat
  /-- Offset of the body's closing brace. -/
  bodyClose : Nat
  line : Nat
  deriving DecidableEq, Repr

/-- A module that lives in another file. -/
structure OutlineModule where
  scope : List String
  name : String
  /-- The file that an attribute names for it. -/
  path : Option String
  isPub : Bool
  hasCfg : Bool
  deriving DecidableEq, Repr

/-- What the call graph needs to know of a function. -/
structure FunctionSummary where
  scope : List String
  name : String
  receiver : Option String
  isPub : Bool
  isTest : Bool
  isAsync : Bool
  /-- It can be called without being mentioned. -/
  alwaysLive : Bool
  bodyOpen : Nat
  line : Nat
  /-- The names its body mentions, in increasing order. -/
  mentions : List String
  deriving DecidableEq, Repr

/-- A scanned file. -/
structure Scan where
  text : List Char
  /-- The bytes of a byte order mark, if the text starts with one. -/
  bom : Nat
  /-- Offset just past the last inner attribute. -/
  innerAttrsEnd : Nat
  declarations : List Declaration
  modules : List OutlineModule
  functions : List FunctionSummary
  /-- Names mentioned by macro definitions and by the values of constants and statics. -/
  itemMentions : List String

namespace Declaration

/-- The name with its receiver before it. -/
def qualifiedName (d : Declaration) : String :=
  match d.receiver with
  | some r => r.last ++ "::" ++ d.name
  | none => d.name

def param? (d : Declaration) (name : String) : Option ParamSite :=
  d.params.find? fun p => p.name == some name

end Declaration

/-- The spelling of a type without blanks, by which types are compared. -/
def WrittenType.key (t : WrittenType) : String := Text.squeezed (textOf t.trees)

/-- The comparison key of a type written as text. -/
def typeKey? (text : String) : Option String :=
  match WrittenType.read text with
  | .ok t => some t.key
  | .error _ => none

/-- The trees of a reference type after its mark, lifetime and `mut`. -/
def pastReference (ts : List Tree) : List Tree :=
  let ts := ts.drop 1
  let ts := if isLifetime ts then ts.drop 2 else ts
  if isKeyword "mut" ts then ts.drop 1 else ts

/-- The last path segment of a type; other types are spelled in full. -/
def lastSegment : TypeNode → List Tree → String
  | .path p, ts => p.last?.getD (Text.squeezed (textOf ts))
  | .reference target, ts => lastSegment target (pastReference ts)
  | _, ts => Text.squeezed (textOf ts)

def WrittenType.receiver (t : WrittenType) : Receiver := ⟨lastSegment t.node t.trees, t.key⟩

/-- Whether a type's last path segment is `Result`. -/
def endsInResult : TypeNode → Bool
  | .path p => p.last? == some "Result"
  | .paren inside => endsInResult inside
  | _ => false

def hasAttribute (attrs : List Attribute) (name : String) : Bool :=
  attrs.any fun a => a.path.isName name

/-- Whether an attribute's path ends in `test`. -/
def isTest (attrs : List Attribute) : Bool :=
  attrs.any fun a => a.path.last? == some "test"

/-- The file named by a `path` attribute. -/
def pathAttribute? (attrs : List Attribute) : Option String :=
  attrs.findSome? fun a => if a.path.isName "path" then a.value.bind textValue? else none

/-- What a scan has found so far. -/
structure Found where
  declarations : List Declaration := []
  modules : List OutlineModule := []
  functions : List FunctionSummary := []
  itemNames : List String := []

namespace Found

def append (a b : Found) : Found :=
  ⟨a.declarations ++ b.declarations, a.modules ++ b.modules, a.functions ++ b.functions,
    a.itemNames ++ b.itemNames⟩

instance : Append Found := ⟨append⟩

end Found

/-- Where places of the text that is read lie in the file: their lines and offsets. -/
structure Places where
  line : Nat → Nat
  offset : Nat → Nat

section

variable (places : Places)

def summary (scope : List String) (f : Function) (receiver : Option String)
    (isPub alwaysLive : Bool) : FunctionSummary where
  scope := scope
  name := f.sig.name.text
  receiver := receiver
  isPub := isPub
  isTest := isTest f.attrs
  isAsync := f.sig.isAsync
  alwaysLive := alwaysLive
  bodyOpen := places.offset f.body.start
  line := places.line f.sig.name.pos
  mentions := Text.sortedSet (Tree.namesIn f.body.trees)

def declaration (scope : List String) (f : Function) (receiver : Option Receiver)
    (traitName : Option String) : Declaration :=
  let output : Option WrittenType := match f.sig.output with
    | some t => if t.node = .unit then none else some t
    | none => none
  { scope
    name := f.sig.name.text
    receiver
    traitName
    selfKind := f.sig.receiver
    params := f.sig.params.map fun p => ⟨p.name, p.type.key⟩
    results := (output.map WrittenType.key).toList
    returnType := output.map fun t => textOf t.trees
    annotatable := output.all WrittenType.spellable
    returnsResult := output.any fun t => endsInResult t.node
    isAsync := f.sig.isAsync
    bodyOpen := places.offset f.body.start
    bodyClose := places.offset (f.body.stop - 1)
    line := places.line f.sig.name.pos }

/-- A function that is no method. -/
def scanFunction (scope : List String) (f : Function) : Found where
  functions := [summary places scope f none f.isPub
    (hasAttribute f.attrs "no_mangle" || hasAttribute f.attrs "export_name")]
  declarations := if f.sig.isConst then [] else [declaration places scope f none none]

/-- A method of an implementation; a trait's methods are public and always live. -/
def scanMethod (scope : List String) (receiver : Receiver) (traitName : Option String)
    (f : Function) : Found where
  functions := [summary places scope f (some receiver.last) (f.isPub || traitName.isSome)
    traitName.isSome]
  declarations :=
    if f.sig.isConst then [] else [declaration places scope f (some receiver) traitName]

mutual
def scanItem (scope : List String) : Item → Found
  | .function f => scanFunction places scope f
  | .implementation target traitName methods =>
    (methods.map (scanMethod places scope target.receiver traitName)).foldl (· ++ ·) {}
  | .trait name methods =>
    { functions := methods.map fun f => summary places scope f (some name) true true }
  | .outline attrs isPub name =>
    { modules := [⟨scope, name, pathAttribute? attrs, isPub, hasAttribute attrs "cfg"⟩] }
  | .inline _ name items => scanItems (scope ++ [name]) items
  | .evaluated trees => { itemNames := Tree.namesIn trees }
  | .other => {}

def scanItems (scope : List String) : List Item → Found
  | [] => {}
  | item :: items => scanItem scope item ++ scanItems scope items
end

end

/-- A place in a text that cannot be read: its line and column, or the start of the text if the
fault is that the text ends. -/
structure ParseError where
  line : Nat
  column : Nat
  deriving DecidableEq, Repr

/-- The line and column by which the reader names a place of the code. It does not see a line for the
loader and counts from the end of that line on. -/
def readerPlace (code : List Char) (offset : Nat) : Nat × Nat :=
  Text.lineCol (code.drop (loaderLine code).length) (offset - Text.byteLength (loaderLine code))

/-- The places of a text after `bom` bytes of a file. The lines and columns that the reader names are
looked up in the text. It passes over a second mark, which takes a column of the first line then; of
a line for the loader it sees the end, so that the places behind it are on their lines. -/
def Places.after (bom : Nat) (body : List Char) : Places :=
  let (_, code) := withoutMark body
  { line := fun offset => (readerPlace code offset).1
    offset := fun offset =>
      let (line, column) := readerPlace code offset
      bom + Text.offsetAt body line (column - 1) }

/-- Scans a source text. -/
def Scan.read (text : List Char) : Except ParseError Scan :=
  let (bom, body) := withoutMark text
  let (_, code) := withoutMark body
  match File.read code with
  | .error none => .error ⟨1, 1⟩
  | .error (some offset) =>
    let (line, column) := readerPlace code offset
    .error ⟨line, column⟩
  | .ok file =>
    let places := Places.after bom body
    let found := scanItems places [] file.items
    .ok {
      text
      bom
      innerAttrsEnd := (file.innerAttrs.getLast?.map fun a => places.offset a.stop).getD bom
      declarations := sortedBy (fun a b => a.bodyOpen ≤ b.bodyOpen) found.declarations
      modules := found.modules
      functions := found.functions
      itemMentions := Text.sortedSet found.itemNames }

end Source
end Instrumentation
