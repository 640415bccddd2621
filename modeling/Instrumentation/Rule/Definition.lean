import Instrumentation.Json.Decode
import Instrumentation.Rule.Basic
import Instrumentation.Text.Letter

/-!
Rule definitions as rule files hold them, and what makes one a rule.
-/
namespace Instrumentation

inductive ShapeDefinition where
  | text (s : String)
  | list (types : List String)
  deriving DecidableEq, Repr

structure RequirementDefinition where
  package : String
  version : Option String
  deriving DecidableEq, Repr

structure CaptureDefinition where
  param : String
  mode : String
  type : Option String
  deriving DecidableEq, Repr

structure RuleDefinition where
  id : String
  importPath : String
  receiver : Option String
  function : String
  params : Option ShapeDefinition
  results : Option ShapeDefinition
  onEnter : Option String
  onExit : Option String
  version : Option String
  rustc : Option String
  requires : List RequirementDefinition
  fusible : Bool
  captures : List CaptureDefinition
  deriving DecidableEq, Repr

/-- A rule file: the hook crate and the rules that call into it. -/
structure RuleFile where
  hookCrate : String
  hookPath : String
  rules : List RuleDefinition
  deriving DecidableEq, Repr

open Json (Fields fields? listOf?)

def ShapeDefinition.decode? : Json → Option ShapeDefinition
  | .str s => some (.text s)
  | j => (listOf? Json.str? j).map .list

def RequirementDefinition.decode? (j : Json) : Option RequirementDefinition := do
  let fs ← fields? ["package", "version"] j
  return ⟨← Fields.required Json.str? fs "package", ← Fields.optional Json.str? fs "version"⟩

def CaptureDefinition.decode? (j : Json) : Option CaptureDefinition := do
  let fs ← fields? ["param", "as", "ty"] j
  return ⟨← Fields.required Json.str? fs "param", ← Fields.defaulted "debug" Json.str? fs "as",
    ← Fields.optional Json.str? fs "ty"⟩

def RuleDefinition.decode? (j : Json) : Option RuleDefinition := do
  let fs ← fields? ["id", "import_path", "receiver", "function", "params", "results", "on_enter",
    "on_exit", "version", "rustc", "requires", "fusible", "captures"] j
  return {
    id := ← Fields.required Json.str? fs "id"
    importPath := ← Fields.required Json.str? fs "import_path"
    receiver := ← Fields.optional Json.str? fs "receiver"
    function := ← Fields.required Json.str? fs "function"
    params := ← Fields.optional ShapeDefinition.decode? fs "params"
    results := ← Fields.optional ShapeDefinition.decode? fs "results"
    onEnter := ← Fields.optional Json.str? fs "on_enter"
    onExit := ← Fields.optional Json.str? fs "on_exit"
    version := ← Fields.optional Json.str? fs "version"
    rustc := ← Fields.optional Json.str? fs "rustc"
    requires := ← Fields.defaulted [] (listOf? RequirementDefinition.decode?) fs "requires"
    fusible := ← Fields.defaulted false Json.bool? fs "fusible"
    captures := ← Fields.defaulted [] (listOf? CaptureDefinition.decode?) fs "captures" }

def RuleFile.decode? (j : Json) : Option RuleFile := do
  let fs ← fields? ["hooks", "rule"] j
  let (hookCrate, hookPath) ← Fields.required (fun j => do
    let fs ← fields? ["crate", "path"] j
    return (← Fields.required Json.str? fs "crate", ← Fields.required Json.str? fs "path")) fs "hooks"
  return {
    hookCrate, hookPath
    rules := ← Fields.defaulted [] (listOf? RuleDefinition.decode?) fs "rule" }

/-- Why a definition is no rule. -/
inductive RuleFault where
  | id (written : String)
  | importPath (written : String)
  | function (written : String)
  | receiver (type : String)
  | shapeText (what written : String)
  | shapeType (what type : String)
  | hookPath (what path : String)
  | noHook
  | range (e : RangeError)
  | requiredPackage (name : String)
  | selfCapture
  | capture (written : String)
  | captureMode (mode param : String)
  | captureType (param type : String)
  | capturedTwice (param : String)
  deriving DecidableEq, Repr

/-- What is said of a text that is no type. -/
def notAType : String := "not a type"

def RuleFault.message : RuleFault → String
  | id s => "invalid rule id '" ++ s ++ "'"
  | importPath s => "malformed import_path '" ++ s ++ "'"
  | function s => "malformed function name '" ++ s ++ "'"
  | receiver t => "receiver '" ++ t ++ "': " ++ notAType
  | shapeText what s => what ++ " must be \"*\" or a list of types, got \"" ++ s ++ "\""
  | shapeType what t => what ++ " type '" ++ t ++ "': " ++ notAType
  | hookPath what p => what ++ " '" ++ p ++ "' is not a function path"
  | noHook => "rule declares neither on_enter nor on_exit"
  | range e => e.message
  | requiredPackage p => "malformed required package '" ++ p ++ "'"
  | selfCapture => "the receiver is captured automatically; remove the 'self' capture"
  | capture s => "malformed capture '" ++ s ++ "'"
  | captureMode mode param => "unknown capture mode '" ++ mode ++ "' for '" ++ param ++ "'"
  | captureType param t => "capture '" ++ param ++ "' type '" ++ t ++ "': " ++ notAType
  | capturedTwice param => "'" ++ param ++ "' is captured twice"

/-- Whether a fault quotes what a reader of types has to say. -/
def RuleFault.quotesReader : RuleFault → Bool
  | receiver _ => true
  | shapeType _ _ => true
  | captureType _ _ => true
  | _ => false

/-- An identifier of any script; `r#` may stand before it. -/
def isIdentifier (cs : List Char) : Bool :=
  match (Text.after? ['r', '#'] cs).getD cs with
  | [] => false
  | c :: rest =>
    (Text.isLetter c || c == '_') && !(c == '_' && rest.isEmpty)
      && rest.all fun c => Text.isLetterOrNumber c || c == '_'

/-- Identifiers joined by double colons. -/
def isPathText (s : String) : Bool := (pathSegments s.toList).all isIdentifier

def isRuleId (s : String) : Bool :=
  !s.isEmpty && s.toList.all fun c => c.isAlphanum || c == '-' || c == '_' || c == '.'

def isPackageName (s : String) : Bool :=
  !s.isEmpty && s.toList.all fun c => c.isAlphanum || c == '-' || c == '_'

/-- A type in a shape; `_` stands for any type. -/
def readShapeType (what type : String) : Except RuleFault String :=
  if Text.trimmed type == "_" then .ok "_"
  else match Source.typeKey? type with
    | some key => .ok key
    | none => .error (.shapeType what type)

/-- The shape that a definition stands for. Unit alone is the same as nothing. -/
def readShape (what : String) : Option ShapeDefinition → Except RuleFault Shape
  | none => .ok .any
  | some (.text s) => if Text.trimmed s == "*" then .ok .any else .error (.shapeText what s)
  | some (.list types) => do
    let types ← types.mapM (readShapeType what)
    return .exact (if types = ["()"] then [] else types)

/-- A hook by its path, which may start with the name of the hook crate. -/
def readHook (hookCrate what : String) : Option String → Except RuleFault (Option HookRef)
  | none => .ok none
  | some written =>
    let cs := Text.trim written.toList
    let path := String.ofList ((Text.after? (hookCrate ++ "::").toList cs).getD cs)
    if isPathText path then .ok (some ⟨hookCrate, path⟩) else .error (.hookPath what path)

def readReceiver : Option String → Except RuleFault ReceiverSelector
  | none => .ok .none
  | some written =>
    let type := Text.trimmed written
    if type == "*" then .ok .any
    else match Source.typeKey? type with
      | some key => .ok (.exact key)
      | none => .error (.receiver type)

def readRange (s : String) : Except RuleFault VersionRange :=
  match VersionRange.read s with
  | .ok r => .ok r
  | .error e => .error (.range e)

def readRequirement (d : RequirementDefinition) : Except RuleFault RequiredPackage := do
  if !isPackageName d.package then throw (.requiredPackage d.package)
  match d.version with
  | some v => return ⟨d.package, ← readRange v⟩
  | none => return ⟨d.package, .any⟩

def CaptureMode.ofName? : String → Option CaptureMode
  | "debug" => some .debug
  | "display" => some .display
  | "clone" => some .clone
  | _ => none

def readCapture (d : CaptureDefinition) : Except RuleFault Capture := do
  let param := Text.trimmed d.param
  if param == "self" then throw .selfCapture
  if param != "return" && !isIdentifier param.toList then throw (.capture d.param)
  let mode ← match CaptureMode.ofName? d.mode with
    | some mode => pure mode
    | none => throw (.captureMode d.mode param)
  let type ← match d.type with
    | none => pure none
    | some t => match Source.typeKey? t with
      | some key => pure (some key)
      | none => throw (.captureType param t)
  return ⟨param, mode, type⟩

/-- Captures in order; none of them twice. -/
def readCaptures : (done : List Capture) → List CaptureDefinition → Except RuleFault (List Capture)
  | done, [] => .ok done
  | done, d :: ds => do
    let c ← readCapture d
    if done.any fun e => e.param == c.param then throw (.capturedTwice c.param)
    readCaptures (done ++ [c]) ds

/-- A fault with the id of the rule it is in, if the id itself is sound. -/
structure InvalidRule where
  id : Option String
  fault : RuleFault
  deriving DecidableEq, Repr

/-- All of a rule after its id. -/
def RuleDefinition.check (d : RuleDefinition) (id : String) (order : Nat) (source : String)
    (hookCrate : HookCrate) : Except RuleFault Rule := do
  if !isPathText d.importPath then throw (.importPath d.importPath)
  if !isIdentifier d.function.toList then throw (.function d.function)
  let receiver ← readReceiver d.receiver
  let params ← readShape "params" d.params
  let results ← readShape "results" d.results
  let onEnter ← readHook hookCrate.name "on_enter" d.onEnter
  let onExit ← readHook hookCrate.name "on_exit" d.onExit
  if onEnter.isNone && onExit.isNone then throw .noHook
  let version ← match d.version with
    | some v => readRange v
    | none => pure .any
  let rustc ← match d.rustc with
    | some v => pure (some (← readRange v))
    | none => pure none
  let requires ← d.requires.mapM readRequirement
  let captures ← readCaptures [] d.captures
  return {
    id, order, source, importPath := d.importPath, receiver, function := d.function, params
    results, onEnter, onExit, version, rustc, requires, fusible := d.fusible, captures, hookCrate }

/-- The rule that a definition stands for. -/
def RuleDefinition.toRule (d : RuleDefinition) (order : Nat) (source : String)
    (hookCrate : HookCrate) : Except InvalidRule Rule :=
  let id := Text.trimmed d.id
  if !isRuleId id then .error ⟨none, .id d.id⟩
  else match d.check id order source hookCrate with
    | .ok r => .ok r
    | .error fault => .error ⟨some id, fault⟩

end Instrumentation
