import Instrumentation.Invocation.Chain
import Instrumentation.Invocation.Context

/-!
Guards: a guard is opened when an instrumented call begins, holds the context of one stage, and
runs the exit hook of the stage when it is finished, whichever way the call ends. A hook that
panics does no harm to the call.
-/
namespace Instrumentation.Invocation

/-- How a call ended. -/
inductive Outcome where
  | succeeded
  | failed (errorType : String)
  /-- It returned a value that is neither a success nor a failure. -/
  | returned
  | panicked
  /-- Its body was dropped before it came to an end. -/
  | cancelled
  deriving DecidableEq, Repr

namespace Outcome

def isFailure : Outcome → Bool
  | failed _ => true
  | panicked => true
  | _ => false

def debugText : Outcome → String
  | succeeded => "Succeeded"
  | failed e => "Failed \x7b error_type: " ++ Text.quoted e ++ " \x7d"
  | returned => "Returned"
  | panicked => "Panicked"
  | cancelled => "Cancelled"

end Outcome

/-- What guards and hooks can see and change: a thread, with the ids that the process hands out,
and the events `ε` that hooks leave. -/
structure Thread (ε : Type) where
  /-- The id of the next call, shared by all threads. Programs count in 64 bits: as long as no more
  than `2 ^ 64` calls are made, what is said of these ids is said of theirs (`Process.nodup_ids`). -/
  nextId : Nat := 1
  chain : Chain := []
  /-- A panic is on its way out. -/
  isUnwinding : Bool := false
  events : List ε := []

/-- A hook: the value it returns, unless it panics, and what it leaves behind either way. -/
abbrev Hook (ε α : Type) := CallContext → Thread ε → Option α × CallContext × Thread ε

/-- An enter hook with its captures. -/
abbrev EnterHook (ε : Type) := Hook ε Value

/-- An exit hook, which is told how the call ended. -/
abbrev ExitHook (ε : Type) := Outcome → Hook ε Unit

/-- Where a guard is linked to: the enclosing call, and whether the guard goes on the chain. -/
structure Link where
  parent : Option Nat
  isChained : Bool
  deriving DecidableEq, Repr

structure Guard (ε : Type) where
  context : CallContext
  isActive : Bool
  isChained : Bool
  isObserving : Bool := false
  /-- It was opened while a panic was on its way out. -/
  openedUnwinding : Bool
  /-- What a guard inside this one takes for its parent. -/
  linkId : Option Nat
  exit : Option (ExitHook ε) := none
  outcome : Option Outcome := none

/-- The guards of several stages behind one. -/
structure Fused (ε : Type) where
  stages : List (Guard ε)
  link : Link

/-- What a variable holds: the guard of one stage, or of several. -/
inductive Held (ε : Type) where
  | single (guard : Guard ε)
  | fused (guards : Fused ε)

variable {ε : Type}

namespace Thread

def current (t : Thread ε) : Option Nat := t.chain.current

/-- The link of a call on this thread. -/
def link (t : Thread ε) : Link := ⟨t.current, true⟩

/-- The link of a call that may go on on another thread. -/
def detachedLink (t : Thread ε) : Link := ⟨t.current, false⟩

def log (t : Thread ε) (e : ε) : Thread ε := { t with events := t.events ++ [e] }

end Thread

namespace Guard

/-- Opens the guard of a stage. An inactive one takes an id too, but stays off the chain. -/
def openAt (site : CallSite) (link : Link) (active : Bool) (t : Thread ε) : Guard ε × Thread ε :=
  let id := t.nextId
  let guard : Guard ε := {
    context := { site, id, parent := link.parent }
    isActive := active
    isChained := link.isChained
    openedUnwinding := t.isUnwinding
    linkId := if active then some id else link.parent }
  (guard, { t with
    nextId := id + 1
    chain := if active && link.isChained then id :: t.chain else t.chain })

/-- The link of a guard inside this one. -/
def link (g : Guard ε) : Link := ⟨g.linkId, g.isChained⟩

/-- The guard expects to be told how its body ended. -/
def observing (g : Guard ε) : Guard ε := { g with isObserving := true }

def setExit (g : Guard ε) (hook : ExitHook ε) : Guard ε := { g with exit := some hook }

/-- Runs the enter hook of an active guard and keeps what it returns. -/
def enter (g : Guard ε) (hook : EnterHook ε) (t : Thread ε) : Guard ε × Thread ε :=
  if g.isActive then
    match hook g.context t with
    | (some v, c, t) => ({ g with context := c.attach v }, t)
    | (none, c, t) => ({ g with context := c }, t)
  else (g, t)

/-- Runs a closure on the context of an active guard. -/
def record (g : Guard ε) (closure : EnterHook ε) (t : Thread ε) : Guard ε × Thread ε :=
  if g.isActive then
    let (_, c, t) := closure g.context t
    ({ g with context := c }, t)
  else (g, t)

/-- Tells the guard how its body ended. -/
def complete (g : Guard ε) (o : Outcome) : Guard ε := { g with outcome := some o }

/-- The outcome that the exit hook is told. A panic that was on its way out before the guard was
opened is none of its own. -/
def ending (g : Guard ε) (t : Thread ε) : Outcome :=
  g.outcome.getD <|
    if t.isUnwinding && !g.openedUnwinding then .panicked
    else if g.isObserving then .cancelled
    else .returned

/-- The end of a guard: its exit hook runs, and its call leaves the chain. -/
def finish (g : Guard ε) (t : Thread ε) : Thread ε :=
  if g.isActive then
    let t := match g.exit with
      | some hook => (hook (g.ending t) g.context t).2.2
      | none => t
    if g.isChained then { t with chain := t.chain.leave g.context.id } else t
  else t

end Guard

namespace Fused

/-- Opens the guards of further stages, each inside the one before it. -/
def openStages : Link → List CallSite → Thread ε → List (Guard ε) × Thread ε
  | _, [], t => ([], t)
  | link, site :: rest, t =>
    let (g, t) := Guard.openAt site link true t
    let (gs, t) := openStages g.link rest t
    (g :: gs, t)

def openAt (sites : List CallSite) (link : Link) (t : Thread ε) : Fused ε × Thread ε :=
  let (stages, t) := openStages link sites t
  (⟨stages, link⟩, t)

/-- The link of a guard inside the innermost stage. -/
def innerLink (f : Fused ε) : Link := (f.stages.getLast?.map Guard.link).getD f.link

def observing (f : Fused ε) : Fused ε := { f with stages := f.stages.map Guard.observing }

def complete (f : Fused ε) (o : Outcome) : Fused ε :=
  { f with stages := f.stages.map (Guard.complete · o) }

/-- The stages end in reverse order. -/
def finish (f : Fused ε) (t : Thread ε) : Thread ε := f.stages.foldr Guard.finish t

end Fused

namespace Held

def finish : Held ε → Thread ε → Thread ε
  | single g, t => g.finish t
  | fused f, t => f.finish t

/-- The link of a guard inside this one. -/
def link : Held ε → Link
  | single g => g.link
  | fused f => f.innerLink

def observing : Held ε → Held ε
  | single g => single g.observing
  | fused f => fused f.observing

def complete (o : Outcome) : Held ε → Held ε
  | single g => single (g.complete o)
  | fused f => fused (f.complete o)

/-- A stage of a guard, and the guard with another one in its place. -/
def stage? : Held ε → Nat → Option (Guard ε × (Guard ε → Held ε))
  | single g, _ => some (g, single)
  | fused f, i => (f.stages[i]?).map fun g =>
    (g, fun g => fused { f with stages := f.stages.set i g })

end Held
end Instrumentation.Invocation
