import Instrumentation.Rule.Basic

/-!
Stages: the rules applied to one declaration, outermost first, and how stages share guards.
-/
namespace Instrumentation

/-- A rule applied to a declaration. -/
structure Stage where
  rule : Rule
  /-- The stage asks the switch, at each call, whether its rule is on. -/
  toggled : Bool := true
  deriving DecidableEq, Repr

/-- The stages behind one guard. -/
inductive Group where
  | single (stage : Nat)
  /-- The stages from `start` to before `stop`. -/
  | fused (start stop : Nat)
  deriving DecidableEq, Repr

/-- The shape that a body takes. -/
inductive BodyForm where
  /-- The body stays a block, and exits see no value. -/
  | guard
  /-- The value of the body is looked at before it is returned. -/
  | observing
  deriving DecidableEq, Repr

namespace Group

def members : Group → List Nat
  | single k => [k]
  | fused start stop => List.range' start (stop - start)

/-- One guard for each of the first `n` stages. -/
def singles (n : Nat) : List Group := (List.range n).map single

end Group

namespace Stage

/-- A stage can share a guard if its rule allows it and nothing has to be asked at the call. -/
def isFusible (s : Stage) : Bool := s.rule.fusible && !s.toggled

/-- A run of `run` fusible stages that ends before stage `stop`, as groups: alone, a stage keeps a
guard of its own. -/
def closeRun (run stop : Nat) : List Group :=
  match run with
  | 0 => []
  | 1 => [.single (stop - 1)]
  | n + 2 => [.fused (stop - (n + 2)) stop]

/-- The groups of the stages from number `next` on, after a run of `run` fusible stages. -/
def fuseFrom : (run next : Nat) → List Stage → List Group
  | run, next, [] => closeRun run next
  | run, next, s :: rest =>
    if s.isFusible then fuseFrom (run + 1) (next + 1) rest
    else closeRun run next ++ .single next :: fuseFrom 0 (next + 1) rest

/-- The groups in which every longest run of two or more fusible stages shares a guard. -/
def fuse (stages : List Stage) : List Group := fuseFrom 0 0 stages

/-- A body is observed if its result is known to be a success or a failure, if a rule captures
it, or if it can be dropped half way. -/
def bodyForm (d : Source.Declaration) (stages : List Stage) : BodyForm :=
  if d.isAsync || d.returnsResult || stages.any (fun s => s.rule.capturesReturn) then .observing
  else .guard

end Stage
end Instrumentation
