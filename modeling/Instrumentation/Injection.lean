import Instrumentation.InstrumentedFile

/-!
Injection: the rules that match a declaration become its stages, except those whose captures the
declaration, or an earlier rule on it, contradicts.
-/
namespace Instrumentation

/-- What to do about conflicts. -/
inductive ConflictPolicy where
  /-- Fail with all conflicts. -/
  | abort
  /-- Leave out the rules in conflict. -/
  | skip
  deriving DecidableEq, Repr

namespace Injection

/-- A type that borrows cannot be kept. -/
def isBorrowed (type : String) : Bool := type.toList.any fun c => c == '&' || c == '\''

/-- The type of what a capture looks at, if the declaration has it. -/
def capturedType? (d : Source.Declaration) (c : Capture) : Option String :=
  if c.isReturn then some (d.results.head?.getD "()") else (d.param? c.param).map (·.type)

/-- Why a capture cannot be made of a declaration. -/
def captureFault? (d : Source.Declaration) (c : Capture) : Option String :=
  match capturedType? d c with
  | none => some ("the declaration has no parameter named '" ++ c.param ++ "'")
  | some type =>
    match c.type.filter (· != type) with
    | some expected =>
      some ("'" ++ c.param ++ "' is declared as " ++ type ++ ", the rule expects " ++ expected)
    | none =>
      if c.mode == .clone && (isBorrowed type || (c.isReturn && !d.annotatable)) then
        some ("'" ++ c.param ++ "' of type " ++ type ++ " cannot be captured by clone")
      else none

/-- A capture of an accepted rule: what it captures, for which rule, and the expected type. -/
structure Accepted where
  param : String
  rule : String
  type : Option String
  deriving DecidableEq, Repr

/-- What a rule says of a capture that contradicts an accepted one. -/
def clash? (accepted : List Accepted) (c : Capture) : Option (String × String) := do
  let type ← c.type
  let a ← accepted.find? fun a => a.param == c.param
  let other ← a.type
  if type == other then none
  else some (a.rule, "'" ++ c.param ++ "' is captured as " ++ type ++ " here but as " ++ other
    ++ " by the earlier rule")

/-- The first thing that speaks against a rule: for each capture first earlier rules, then the
declaration. -/
def ruleFault? (d : Source.Declaration) (accepted : List Accepted) :
    List Capture → Option (Option String × String)
  | [] => none
  | c :: cs =>
    match clash? accepted c with
    | some (other, reason) => some (some other, reason)
    | none => match captureFault? d c with
      | some reason => some (none, reason)
      | none => ruleFault? d accepted cs

/-- A capture joins the accepted ones; the first that expects a type counts. -/
def accept (rule : String) (accepted : List Accepted) (c : Capture) : List Accepted :=
  match accepted with
  | [] => [⟨c.param, rule, c.type⟩]
  | a :: rest =>
    if a.param == c.param then
      (if a.type.isNone then ⟨c.param, rule, c.type⟩ else a) :: rest
    else a :: accept rule rest c

/-- The stages of the accepted rules, and the conflicts of the others. -/
def injectRules (file : Path) (m : DeclMatches) :
    (accepted : List Accepted) → List Rule → List Stage × List Conflict
  | _, [] => ([], [])
  | accepted, r :: rest =>
    match ruleFault? m.decl accepted r.captures with
    | some (against, reason) =>
      let (stages, conflicts) := injectRules file m accepted rest
      (stages, ⟨m.importPath ++ "::" ++ m.decl.qualifiedName, file, r.id, against, reason⟩
        :: conflicts)
    | none =>
      let (stages, conflicts) := injectRules file m (r.captures.foldl (accept r.id) accepted) rest
      ({ rule := r } :: stages, conflicts)

def injectDecl (file : Path) (m : DeclMatches) : InstrumentedDecl × List Conflict :=
  let (stages, conflicts) := injectRules file m [] m.rules
  (.ofStages m.importPath m.decl stages, conflicts)

/-- A file with the stages of its matches, and the conflicts. -/
def injectFile (m : FileMatches) : InstrumentedFile × List Conflict :=
  let injected := m.decls.map (injectDecl m.file.path)
  ({ package := m.package, source := m.file
     decls := sortedBy (fun a b => decide (a.decl.bodyOpen ≤ b.decl.bodyOpen))
      (injected.map Prod.fst) },
    injected.flatMap Prod.snd)

/-- All files, unless the policy is to fail and there are conflicts. -/
def injectAll (files : List FileMatches) (policy : ConflictPolicy) :
    Except Failure (List InstrumentedFile) :=
  let injected := files.map injectFile
  let conflicts := injected.flatMap Prod.snd
  if !conflicts.isEmpty && policy == .abort then .error (.conflicts conflicts)
  else .ok (injected.map Prod.fst)

end Injection
end Instrumentation
