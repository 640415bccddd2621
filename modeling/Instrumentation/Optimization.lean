import Instrumentation.InstrumentedFile

/-!
Optimization: stages of disabled rules go, stages settle whether they ask the switch, runs of
fusible stages share a guard, and declarations that never run lose their instrumentation.
-/
namespace Instrumentation

/-- The name that stands for every rule. -/
def allRules : String := "all"

/-- Whether a list of rule names speaks of a rule. -/
def namesRule (names : List String) (rule : String) : Bool :=
  names.contains allRules || names.contains rule

structure Optimization where
  /-- The rules that are off in this build. -/
  disabled : List String := []
  /-- The rules that can be switched off later. -/
  runtimeToggle : List String := []
  /-- Whether a declaration may run, by package, file and place; all may if nothing is known. -/
  isLive : Nat → Path → Nat → Bool := fun _ _ _ => true

namespace Optimization

def stages (o : Optimization) (ss : List Stage) : List Stage :=
  (ss.filter fun s => !namesRule o.disabled s.rule.id).map fun s =>
    { s with toggled := namesRule o.runtimeToggle s.rule.id }

def decl (o : Optimization) (f : InstrumentedFile) (d : InstrumentedDecl) : InstrumentedDecl :=
  let stages := o.stages d.stages
  { d with stages, groups := Stage.fuse stages
           pruned := d.pruned || !o.isLive f.package f.path d.decl.bodyOpen }

def file (o : Optimization) (f : InstrumentedFile) : InstrumentedFile :=
  { f with decls := f.decls.map (o.decl f) }

end Optimization
end Instrumentation
