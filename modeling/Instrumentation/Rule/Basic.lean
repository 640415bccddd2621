import Instrumentation.Path
import Instrumentation.Source.Scan
import Instrumentation.Version.Range

/-!
Hook rules: which declarations to wrap, and with which hooks. A rule selects declarations by
module, receiver, function name and the shapes of parameters and results.
-/
namespace Instrumentation

/-- How a rule selects the receiver of a method. -/
inductive ReceiverSelector where
  /-- Only functions without receiver. -/
  | none
  /-- Any receiver. -/
  | any
  /-- A receiver by its last segment, or in full if the type has generic arguments. -/
  | exact (type : String)
  deriving DecidableEq, Repr

/-- Which parameter or result types a rule selects; `_` stands for any one type. -/
inductive Shape where
  | any
  | exact (types : List String)
  deriving DecidableEq, Repr

inductive CaptureMode where
  | debug | display | clone
  deriving DecidableEq, Repr

/-- A parameter, or `return`, that a rule wants to see. -/
structure Capture where
  param : String
  mode : CaptureMode
  /-- The type that the rule expects, spelled without blanks. -/
  type : Option String
  deriving DecidableEq, Repr

/-- A function of a hook crate. -/
structure HookRef where
  hookCrate : String
  path : String
  deriving DecidableEq, Repr

structure HookCrate where
  name : String
  dir : Path
  deriving DecidableEq, Repr

/-- A package that a rule needs in the program besides its target. -/
structure RequiredPackage where
  package : String
  range : VersionRange
  deriving DecidableEq, Repr

structure Rule where
  id : String
  /-- Position in the order of registration, by which hooks nest. -/
  order : Nat
  source : String
  importPath : String
  receiver : ReceiverSelector
  function : String
  params : Shape
  results : Shape
  onEnter : Option HookRef
  onExit : Option HookRef
  version : VersionRange
  rustc : Option VersionRange
  requires : List RequiredPackage
  fusible : Bool
  captures : List Capture
  hookCrate : HookCrate
  deriving DecidableEq, Repr

namespace ReceiverSelector

def accepts : ReceiverSelector → Option Source.Receiver → Bool
  | none, r => r.isNone
  | any, r => r.isSome
  | exact _, .none => false
  | exact type, some r => if type.toList.contains '<' then type == r.full else type == r.last

end ReceiverSelector

namespace Shape

/-- Each expected type is `_` or the type itself. -/
def acceptsTypes : (expected types : List String) → Bool
  | [], [] => true
  | e :: es, t :: ts => (e == t || e == "_") && acceptsTypes es ts
  | _, _ => false

def accepts : Shape → List String → Bool
  | any, _ => true
  | exact expected, types => acceptsTypes expected types

end Shape

def Capture.isReturn (c : Capture) : Bool := c.param == "return"

/-- The path of a hook from any crate that depends on its hook crate. -/
def HookRef.absolute (h : HookRef) : String := "::" ++ h.hookCrate ++ "::" ++ h.path

/-- The pieces of a path between double colons. -/
def pathSegments : List Char → List (List Char)
  | [] => [[]]
  | ':' :: ':' :: rest => [] :: pathSegments rest
  | c :: rest => match pathSegments rest with
    | [] => [[c]]
    | s :: ss => (c :: s) :: ss

namespace Rule

/-- The first segment of the import path: the crate a rule aims at. -/
def targetCrate (r : Rule) : String :=
  match pathSegments r.importPath.toList with
  | s :: _ => String.ofList s
  | [] => r.importPath

def capturesReturn (r : Rule) : Bool := r.captures.any Capture.isReturn

def paramCaptures (r : Rule) : List Capture := r.captures.filter fun c => !c.isReturn

/-- The selected declaration, for messages. -/
def selector (r : Rule) : String :=
  match r.receiver with
  | .none => r.importPath ++ "::" ++ r.function
  | .any => r.importPath ++ "::*::" ++ r.function
  | .exact t => r.importPath ++ "::" ++ t ++ "::" ++ r.function

/-- Whether a rule selects a declaration in the module `importPath`. -/
def selects (r : Rule) (importPath : String) (d : Source.Declaration) : Bool :=
  r.importPath == importPath && r.function == d.name && r.receiver.accepts d.receiver
    && r.params.accepts (d.params.map Source.ParamSite.type) && r.results.accepts d.results

end Rule
end Instrumentation
