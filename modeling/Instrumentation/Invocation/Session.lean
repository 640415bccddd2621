import Instrumentation.Invocation.Guard
import Instrumentation.Invocation.Switch
import Instrumentation.Report.Context

/-!
Sessions: guards that are opened, used and finished by name, in scopes that close as the blocks of
a program do, by returning or by unwinding. A session answers each step with its result, the events
that hooks have left, and the innermost call.
-/
namespace Instrumentation.Invocation

open Json (nat list opt)

/-- What an enter hook does with its context. -/
inductive Action where
  | capture (mode : CaptureMode) (name : String) (value : Value)
  | receiver (type : String)
  | attach (value : Value)
  | take (kind : Kind)
  | param (name : String)
  | paramValue (name : String) (kind : Kind)
  | current
  | look
  | panic

/-- What an exit hook does besides leaving an event. -/
inductive ExitKind where
  | log
  | panic
  /-- Takes attachments first. -/
  | take
  /-- Makes an instrumented call. -/
  | nested

inductive OpenSites where
  | single (site : CallSite) (toggled : Bool)
  | fused (sites : List CallSite)

inductive OpenLink where
  | thread
  | detached
  | outer (guard : String)

inductive Step where
  | openGuard (name : String) (sites : OpenSites) (link : OpenLink) (observing : Bool)
  | drop (name : String)
  /-- The guard is lost without an end. -/
  | forget (name : String)
  | current
  | context (name : String) (stage : Nat)
  | setExit (name : String) (stage : Nat) (kind : ExitKind)
  | enter (name : String) (stage : Nat) (actions : List Action) (returns : Value)
  | record (name : String) (stage : Nat) (actions : List Action)
  /-- Tells a guard, or one stage of it, how its body ended. -/
  | complete (name : String) (stage : Option Nat) (outcome : Outcome)
  /-- Steps in a scope of their own, which is left by returning or by unwinding. -/
  | scope (steps onDrop : List Step) (panics : Bool)
  | thread (steps : List Step)
  /-- Anything else that is asked of a guard. -/
  | unknown (name : String)
  deriving Inhabited

namespace Session

/-- The site of calls made by hooks. -/
def nestedSite : CallSite := ⟨"nested", "pkg", "f"⟩

/-- Leaves an event about the end of a call. -/
def logExit (o : Outcome) (c : CallContext) (t : Thread Json) : Thread Json :=
  t.log (.obj [("exit", c.toJson), ("how", o.toJson), ("current", opt nat t.current)])

def exitHook : ExitKind → ExitHook Json
  | .log, o, c, t => (some (), c, logExit o c t)
  | .panic, o, c, t => (none, c, logExit o c t)
  | .take, o, c, t =>
    let (n, c) := c.takeAttachment .int
    let (s, c) := c.takeAttachment .text
    let t := t.log (.obj [("took", .arr [opt Value.toJson n, opt Value.toJson s])])
    (some (), c, logExit o c t)
  | .nested, o, c, t =>
    let (g, t) := Guard.openAt nestedSite (logExit o c t).link true (logExit o c t)
    (some (), c, (g.setExit fun o c t => (some (), c, logExit o c t)).finish t)

/-- The actions of a hook up to the first that panics; whether none does. -/
def act : List Action → CallContext → Thread Json → Bool × CallContext × Thread Json
  | [], c, t => (true, c, t)
  | a :: rest, c, t =>
    match a with
    | .capture mode name v => act rest (c.capture mode name v) t
    | .receiver type => act rest { c with receiver := some type } t
    | .attach v => act rest (c.attach v) t
    | .take kind =>
      let (v, c) := c.takeAttachment kind
      act rest c (t.log (.obj [("took", opt Value.toJson v)]))
    | .param name => act rest c (t.log (.obj [("param", opt .str (c.param? name))]))
    | .paramValue name kind =>
      act rest c (t.log (.obj [("value", opt Value.toJson (c.paramValue? name kind))]))
    | .current => act rest c (t.log (.obj [("current", opt nat t.current)]))
    | .look => act rest c (t.log c.toJson)
    | .panic => (false, c, t)

def enterHook (actions : List Action) (returns : Value) : EnterHook Json := fun c t =>
  let (returned, c, t) := act actions c t
  (if returned then some returns else none, c, t)

/-- The guards of a scope, the latest first. -/
abbrev Scope := List (String × Held Json)

end Session

structure Session where
  switch : Switch
  thread : Thread Json := {}
  /-- The scopes, the innermost first. -/
  scopes : List Session.Scope := [[]]

namespace Session

def error (kind : String) : Json := .obj [("error", .str kind)]

def noGuard : Json := error "NoGuard"

def find? (s : Session) (name : String) : Option (Held Json) :=
  s.scopes.findSome? fun scope => (scope.find? fun h => h.1 == name).map Prod.snd

/-- Replaces the first guard of a name, or takes it away. -/
def replaceIn (name : String) (new : Option (Held Json)) : Scope → Option Scope
  | [] => none
  | h :: rest =>
    if h.1 == name then some ((new.map fun g => (name, g)).toList ++ rest)
    else (replaceIn name new rest).map (h :: ·)

/-- Replaces the guard that a name stands for, or takes it away. -/
def replace (name : String) (new : Option (Held Json)) : List Scope → List Scope
  | [] => []
  | scope :: rest =>
    match replaceIn name new scope with
    | some scope => scope :: rest
    | none => scope :: replace name new rest

def put (s : Session) (name : String) (new : Option (Held Json)) : Session :=
  { s with scopes := replace name new s.scopes }

def hold (s : Session) (name : String) (h : Held Json) : Session :=
  { s with scopes := match s.scopes with
      | [] => [[(name, h)]]
      | scope :: rest => ((name, h) :: scope) :: rest }

/-- Ends the guards of a scope, the latest first. -/
def close (scope : Scope) (t : Thread Json) : Thread Json :=
  scope.foldl (fun t h => h.2.finish t) t

/-- Leaves the innermost scope. -/
def leave (s : Session) : Session :=
  match s.scopes with
  | [] => s
  | scope :: rest => { s with thread := close scope s.thread, scopes := rest }

/-- A result with the events since the last one, which are taken away. -/
def answer (s : Session) (r : Json) : Json × Session :=
  (.obj [("r", r), ("events", .arr s.thread.events), ("current", opt nat s.thread.current)],
    { s with thread := { s.thread with events := [] } })

/-- What is left when a thread has ended. -/
def lastAnswer (s : Session) : Json :=
  .obj [("end", .arr s.thread.events), ("current", opt nat s.thread.current)]

/-- The guard of a name, if there is one. -/
def withGuard (s : Session) (name : String) (f : Held Json → Json × Session) : Json × Session :=
  match s.find? name with
  | some h => f h
  | none => (noGuard, s)

/-- A stage of the guard of a name; a shared guard may not have it. -/
def withStage (s : Session) (name : String) (stage : Nat)
    (f : Guard Json → (Guard Json → Held Json) → Json × Session) : Json × Session :=
  s.withGuard name fun h => match h.stage? stage with
    | some (g, back) => f g back
    | none => (error "Panic", s)

def ok : Json := .str "ok"

/-- Opens a guard and holds it in the innermost scope. -/
def openHeld (s : Session) (name : String) (sites : OpenSites) (link : Link) (observing : Bool) :
    Json × Session :=
  match sites with
  | .single site toggled =>
    let (g, t) := Guard.openAt site link (!toggled || s.switch.isOn site.rule) s.thread
    (ok, { s with thread := t }.hold name (.single (if observing then g.observing else g)))
  | .fused sites =>
    let (f, t) := Fused.openAt sites link s.thread
    (ok, { s with thread := t }.hold name (.fused (if observing then f.observing else f)))

/-- A step that has no steps inside it. -/
def runSimple (s : Session) : Step → Json × Session
  | .openGuard name sites link observing =>
    match link with
    | .thread => s.openHeld name sites s.thread.link observing
    | .detached => s.openHeld name sites s.thread.detachedLink observing
    | .outer outer => s.withGuard outer fun h => s.openHeld name sites h.link observing
  | .drop name => s.withGuard name fun h =>
    let s := s.put name none
    (ok, { s with thread := h.finish s.thread })
  | .forget name => s.withGuard name fun _ => (ok, s.put name none)
  | .current => (opt nat s.thread.current, s)
  | .context name stage => s.withStage name stage fun g _ =>
    (.obj [("active", .bool g.isActive), ("ctx", g.context.toJson)], s)
  | .setExit name stage kind => s.withStage name stage fun g back =>
    (ok, s.put name (some (back (g.setExit (exitHook kind)))))
  | .enter name stage actions returns => s.withStage name stage fun g back =>
    let (g, t) := g.enter (enterHook actions returns) s.thread
    (ok, { s with thread := t }.put name (some (back g)))
  | .record name stage actions => s.withStage name stage fun g back =>
    let (g, t) := g.record (enterHook actions .unit) s.thread
    (ok, { s with thread := t }.put name (some (back g)))
  | .complete name none o => s.withGuard name fun h => (ok, s.put name (some (h.complete o)))
  | .complete name (some stage) o => s.withStage name stage fun g back =>
    (ok, s.put name (some (back (g.complete o))))
  | .unknown name => s.withGuard name fun _ => (error "UnknownStep", s)
  | .scope .. => (error "UnknownStep", s)
  | .thread _ => (error "UnknownStep", s)

mutual

/-- One step: its result, without the events. -/
def run : Step → Session → Json × Session
  | .scope steps onDrop panics, s =>
    let (answers, s) := runAll steps { s with scopes := [] :: s.scopes }
    let before := s.thread.isUnwinding
    let s := { s with thread := { s.thread with isUnwinding := before || panics } }
    let s := (runOnDrop onDrop s).leave
    (.obj [("ops", .arr answers), ("panicked", .bool panics)],
      { s with thread := { s.thread with isUnwinding := before } })
  | .thread steps, s =>
    let inner : Session := { switch := s.switch, thread := { nextId := s.thread.nextId } }
    let (answers, inner) := runAll steps inner
    (.obj [("ops", .arr (answers ++ [inner.leave.lastAnswer]))],
      { s with thread := { s.thread with nextId := inner.leave.thread.nextId } })
  | step, s => s.runSimple step

/-- Steps in order, each with its answer. -/
def runAll : List Step → Session → List Json × Session
  | [], s => ([], s)
  | step :: rest, s =>
    let (r, s) := run step s
    let (a, s) := s.answer r
    let (as, s) := runAll rest s
    (a :: as, s)

/-- The steps that are taken while a scope is left, each in a scope that sees no other. -/
def runOnDrop : List Step → Session → Session
  | [], s => s
  | step :: rest, s =>
    let (r, inner) := run step { s with scopes := [[]] }
    let inner := { inner with thread := inner.thread.log (.obj [("on_drop", r)]) }.leave
    runOnDrop rest { inner with scopes := s.scopes }

end

/-- The answers to a whole script, with what is left at its end. -/
def script (switch : Switch) (steps : List Step) : List Json :=
  let (answers, s) := runAll steps { switch }
  answers ++ [s.leave.lastAnswer]

end Session
end Instrumentation.Invocation
