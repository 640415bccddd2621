import Instrumentation.Json.Reader
import Instrumentation.ModuleFile
import Instrumentation.Package.Basic
import Instrumentation.Rule.Definition
import Instrumentation.Rule.Index
import Instrumentation.Toml.Reader

/-!
The registry of rules: rules are read from rule files in order, every rule has an id of its own,
and every hook is a public function of its hook crate.
-/
namespace Instrumentation

inductive RuleFormat where
  | toml | json
  deriving DecidableEq, Repr

/-- The text of a rule file, and the directory that its paths are seen from. -/
structure RuleSource where
  name : String
  format : RuleFormat
  text : String
  baseDir : Path
  deriving DecidableEq, Repr

structure Registry where
  /-- The rules in the order of registration. -/
  rules : List Rule
  hookCrates : List HookCrate
  /-- Where the rules stand, by the module that they aim at. -/
  byPath : RuleIndex := .of (rules.map Rule.importPath)
  /-- Where the rules stand, by the crate that they aim at. -/
  byCrate : RuleIndex := .of (rules.map Rule.targetCrate)
  byPath_eq : byPath = .of (rules.map Rule.importPath) := by rfl
  byCrate_eq : byCrate = .of (rules.map Rule.targetCrate) := by rfl

namespace RuleSource

/-- Reads a rule file. -/
def ofFile (t : FileTree) (path : Path) : Except Failure RuleSource :=
  let format := match path.extension? with
    | some "toml" => some RuleFormat.toml
    | some "json" => some .json
    | _ => none
  match format with
  | none => .error (.ruleDefinition path.text none ⟨"rule files must end in .toml or .json", false⟩)
  | some format => match t.readText path with
    | .error fault => .error (.io .registry path fault)
    | .ok text => .ok ⟨path.text, format, text, (path.parent?).getD ⟨""⟩⟩

def document? (s : RuleSource) : Option Json :=
  match s.format with
  | .toml => Toml.read? s.text
  | .json => Json.read? s.text

/-- The definitions in a rule file. -/
def definitions (s : RuleSource) : Except Failure RuleFile :=
  match s.document?.bind RuleFile.decode? with
  | some f => .ok f
  | none => .error (.ruleDefinition s.name none ⟨"", true⟩)

end RuleSource

namespace Registry

/-- The registry of rules, with their positions. -/
def ofRules (rules : List Rule) (hookCrates : List HookCrate) : Registry := { rules, hookCrates }

/-- A path from the root, without detours if it leads to something. -/
def absolute (t : FileTree) (p : Path) : Path :=
  let p := if p.isAbsolute then p else (FileTree.pathOf t.cwd).join p.text
  match t.canonical p with
  | .ok q => q
  | .error _ => p

/-- The root file of a hook crate: what its manifest names, else the usual place. -/
def hookCrateRoot (t : FileTree) (dir : Path) : Path :=
  let manifest := (t.readText (dir / "Cargo.toml")).toOption.bind Toml.read?
  match ((manifest.bind (Json.member? "lib")).bind (Json.member? "path")).bind Json.str? with
  | some p => dir / p
  | none => dir / "src" / "lib.rs"

/-- The path of a function of a hook crate, seen from the crate. -/
def hookPath (m : ModuleFile) (crate function : String) : String :=
  match Text.after? (crate ++ "::").toList m.modulePath.toList with
  | some rest => if rest.isEmpty then function else String.ofList rest ++ "::" ++ function
  | none => function

/-- The public functions of a hook crate. -/
def exportedFunctions (t : FileTree) (h : HookCrate) : Except Failure (List String) :=
  let root := hookCrateRoot t h.dir
  let fault (m : Message) := .error (.ruleDefinition h.dir.text none m)
  if !t.isFile root then
    fault ⟨"hook crate '" ++ h.name ++ "' has no library root at " ++ root.text, false⟩
  else match ModuleFile.walk t h.name root with
    | .error e =>
      fault ⟨"hook crate '" ++ h.name ++ "' does not parse: " ++ e.text, e.quotesReader⟩
    | .ok files => .ok <| (files.filter ModuleFile.isExported).flatMap fun m =>
      (m.file.scan.functions.filter fun f => f.isPub && f.receiver.isNone && f.scope.isEmpty).map
        fun f => hookPath m h.name f.name

/-- The hooks of a rule with the names of their fields. -/
def hooksOf (r : Rule) : List (String × HookRef) :=
  (r.onEnter.map fun h => ("on_enter", h)).toList ++ (r.onExit.map fun h => ("on_exit", h)).toList

/-- Every hook has to be a public function of its hook crate. -/
def checkHooks (exported : List (String × List String)) (r : Rule) : Except Failure Unit :=
  let isFound (h : HookRef) := exported.any fun e => e.1 == h.hookCrate && e.2.contains h.path
  match (hooksOf r).find? fun h => !isFound h.2 with
  | none => .ok ()
  | some (what, h) => .error (.ruleDefinition r.source (some r.id)
      ⟨what ++ " '" ++ h.path ++ "' is not a public function of hook crate '" ++ h.hookCrate ++ "'",
        false⟩)

/-- What has been read of the rule files so far. -/
structure Loading where
  rules : List Rule := []
  hookCrates : List HookCrate := []

/-- A hook crate has one place. -/
def addHookCrate (source : String) (known : List HookCrate) (h : HookCrate) :
    Except Failure (List HookCrate) :=
  match known.find? fun k => k.name == h.name with
  | none => .ok (known ++ [h])
  | some k =>
    if k.dir.same h.dir then .ok known
    else .error (.ruleDefinition source none ⟨"hook crate '" ++ h.name ++ "' is declared at both "
      ++ k.dir.text ++ " and " ++ h.dir.text, false⟩)

/-- The rules of one file after those before it. -/
def addRules (source : String) (h : HookCrate) : List Rule → List RuleDefinition →
    Except Failure (List Rule)
  | rules, [] => .ok rules
  | rules, d :: rest =>
    match d.toRule rules.length source h with
    | .error e => .error (.ruleDefinition source e.id ⟨e.fault.message, e.fault.quotesReader⟩)
    | .ok r => match rules.find? fun k => k.id == r.id with
      | some first => .error (.ruleDefinition source (some r.id)
          ⟨"duplicate rule id '" ++ r.id ++ "' (first defined in " ++ first.source ++ ")", false⟩)
      | none => addRules source h (rules ++ [r]) rest

def addSource (t : FileTree) (l : Loading) (s : RuleSource) : Except Failure Loading := do
  let f ← s.definitions
  let h : HookCrate := ⟨underscored f.hookCrate, absolute t (s.baseDir / f.hookPath)⟩
  let hookCrates ← addHookCrate s.name l.hookCrates h
  let rules ← addRules s.name h l.rules f.rules
  return ⟨rules, hookCrates⟩

/-- The registry of the rules in rule files, in order. -/
def load (t : FileTree) (sources : List RuleSource) : Except Failure Registry := do
  let l ← sources.foldlM (addSource t) {}
  let used := l.hookCrates.filter fun h => l.rules.any fun r => r.hookCrate.name == h.name
  let exported ← used.mapM fun h => (exportedFunctions t h).map fun fs => (h.name, fs)
  l.rules.forM (checkHooks exported)
  return ofRules l.rules l.hookCrates

def loadFiles (t : FileTree) (paths : List Path) : Except Failure Registry := do
  load t (← paths.mapM (RuleSource.ofFile t))

/-- The rules at some positions. -/
def indexed (g : Registry) (positions : List Nat) : List Rule :=
  positions.filterMap fun i => g.rules[i]?

/-- The positions under a text lead to the rules with that text. -/
theorem indexed_of (g : Registry) (text : Rule → String) (key : String) :
    g.indexed ((RuleIndex.of (g.rules.map text)).get key) =
      g.rules.filter fun r => text r == key := by
  -- The rules that are still to come stand behind as many as have gone before.
  have htail (rest before : List Rule) (h : before ++ rest = g.rules) :
      g.indexed ((((rest.map text).zipIdx before.length).filter fun p => p.1 == key).map Prod.snd) =
        rest.filter fun r => text r == key := by
    induction rest generalizing before with
    | nil => rfl
    | cons r rest ih =>
      have hr : g.rules[before.length]? = some r := by simp [← h]
      have hrest := ih (before ++ [r]) (by simpa using h)
      rw [List.length_append, List.length_singleton] at hrest
      rw [List.map_cons, List.zipIdx_cons, List.filter_cons, List.filter_cons]
      by_cases hkey : text r = key
      · simpa [hkey, indexed, hr] using hrest
      · simpa [hkey] using hrest
  rw [RuleIndex.get_of]
  exact htail g.rules [] rfl

/-- The rules for a module. -/
def lookup (g : Registry) (importPath : String) : List Rule := g.indexed (g.byPath.get importPath)

/-- The rules for any module of a crate. -/
def forCrate (g : Registry) (crate : String) : List Rule := g.indexed (g.byCrate.get crate)

theorem lookup_eq (g : Registry) (importPath : String) :
    g.lookup importPath = g.rules.filter fun r => r.importPath == importPath := by
  rw [lookup, g.byPath_eq, indexed_of]

theorem forCrate_eq (g : Registry) (crate : String) :
    g.forCrate crate = g.rules.filter fun r => r.targetCrate == crate := by
  rw [forCrate, g.byCrate_eq, indexed_of]

def get? (g : Registry) (id : String) : Option Rule := g.rules.find? (·.id == id)

/-- The registry of some of the rules; they keep their order. -/
def retain (g : Registry) (keep : Rule → Bool) : Registry :=
  ofRules (g.rules.filter keep) g.hookCrates

@[simp] theorem rules_retain (g : Registry) (keep : Rule → Bool) :
    (g.retain keep).rules = g.rules.filter keep := rfl

@[simp] theorem hookCrates_retain (g : Registry) (keep : Rule → Bool) :
    (g.retain keep).hookCrates = g.hookCrates := rfl

end Registry
end Instrumentation
