import Instrumentation.Package.Graph
import Instrumentation.Registry

/-!
Selection: which rules apply to a program. A rule whose target is not there is passed over; a rule
whose requirements cannot be met, and rules that require what cannot be together, end the run.
-/
namespace Instrumentation
namespace Selection

/-- The versions of the packages that the program needs, among those given. -/
def versionsAt (g : PackageGraph) (reachable : List Bool) (is : List Nat) : List Version :=
  (is.filter fun i => (reachable[i]?).getD false).filterMap fun i => (g.packages[i]?).map (·.version)

/-- The versions of the crate that a rule aims at. -/
def targets (g : PackageGraph) (reachable : List Bool) (r : Rule) : List Version :=
  versionsAt g reachable (g.byCrate r.targetCrate)

/-- Whether the compiler is one that a rule allows; an unknown one is. -/
def allowsCompiler (g : PackageGraph) (r : Rule) : Bool :=
  match r.rustc, g.rustc with
  | some range, some v => range.contains v
  | _, _ => true

/-- Whether the requirements are all there; it is a failure if one is there in no version that the
rule can use. -/
def requirementsMet (g : PackageGraph) (reachable : List Bool) (r : Rule) :
    List RequiredPackage → Except Failure Bool
  | [] => .ok true
  | q :: rest =>
    let present := versionsAt g reachable (g.byName q.package)
    if present.isEmpty then .ok false
    else if present.any q.range.contains then requirementsMet g reachable r rest
    else .error (.versionConflict q.package [r.id] ⟨"rule '" ++ r.id ++ "' requires "
      ++ q.range.text ++ " but the program resolves "
      ++ Text.joined ", " (present.map Version.text), false⟩)

/-- Whether a rule applies to the program. -/
def applies (g : PackageGraph) (reachable : List Bool) (r : Rule) : Except Failure Bool :=
  if (targets g reachable r).any r.version.contains && allowsCompiler g r then
    requirementsMet g reachable r r.requires
  else .ok false

/-- A range that a rule puts on a package. -/
structure Constraint where
  package : String
  rule : String
  range : VersionRange
  /-- The package is the target of the rule. -/
  isTarget : Bool

def constraints (r : Rule) : List Constraint :=
  ⟨underscored r.targetCrate, r.id, r.version, true⟩
    :: r.requires.map fun q => ⟨underscored q.package, r.id, q.range, false⟩

/-- Two constraints on one package that no version meets. Two targets may be two versions. -/
def clashes (a b : Constraint) : Bool :=
  !(a.isTarget && b.isTarget) && a.rule != b.rule && a.range.isDisjoint b.range

/-- The first pair of neighbours and non-neighbours that clash. -/
def firstClash? : List Constraint → Option (Constraint × Constraint)
  | [] => none
  | a :: rest => match rest.find? (clashes a) with
    | some b => some (a, b)
    | none => firstClash? rest

/-- The first clash, package by package in the order of their names. -/
def clash? (rules : List Rule) : Option (Constraint × Constraint) :=
  let all := rules.flatMap constraints
  (Text.sortedSet (all.map Constraint.package)).findSome? fun p =>
    firstClash? (all.filter fun c => c.package == p)

/-- The rules that apply, unless rules contradict the program or each other. -/
def select (g : PackageGraph) (registry : Registry) : Except Failure Registry := do
  let reachable := g.reachable
  let selected ← registry.rules.filterM (applies g reachable)
  match clash? selected with
  | some (a, b) => throw (.versionConflict a.package [a.rule, b.rule] ⟨"rule '" ++ a.rule
      ++ "' needs " ++ a.range.text ++ " but rule '" ++ b.rule ++ "' needs " ++ b.range.text, false⟩)
  | none => return registry.retain fun r => selected.any (·.id == r.id)

end Selection
end Instrumentation
