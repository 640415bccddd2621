import Instrumentation.InstrumentedFile
import Instrumentation.Invocation.Guard
import Instrumentation.Invocation.Switch

/-!
Frames: the calls around an instrumented body, run on a thread. The calls before the body open the
guards and run the enter hooks; after an observed body, every guard is told of the value; and
whichever way the body ends, the guards end in the reverse of the order they were opened in.
-/
namespace Instrumentation

/-- The site of a stage. -/
def InstrumentedDecl.site (d : InstrumentedDecl) (k : Nat) : Invocation.CallSite where
  rule := ((d.stages[k]?).map fun s => s.rule.id).getD ""
  package := d.importPath
  function := d.decl.qualifiedName

namespace Invocation

/-- How a body comes to its end. -/
inductive Ending where
  | returned
  | succeeded
  | failed (errorType : String)
  | unwound
  /-- An asynchronous body is dropped half way. -/
  | dropped
  deriving DecidableEq, Repr

/-- What the guards around an observed body are told, if it gave a value. -/
def Ending.told? (returnsResult : Bool) : Ending → Option Outcome
  | returned => some .returned
  | succeeded => some (if returnsResult then .succeeded else .returned)
  | failed e => some (if returnsResult then .failed e else .returned)
  | unwound => none
  | dropped => none

/-- The closures that the calls of a declaration pass on, by the numbers of their stages. -/
structure Hooks (ε : Type) where
  enter : Nat → EnterHook ε
  record : Nat → EnterHook ε
  exit : Nat → ExitHook ε

/-- A variable: its name, the number of the first stage of its guard, and the guard. -/
structure Slot (ε : Type) where
  name : Splice.Guard
  first : Nat
  held : Held ε

structure Frame (ε : Type) where
  thread : Thread ε
  /-- The variables, the latest first. -/
  slots : List (Slot ε) := []

variable {ε : Type}

/-- Does something to one stage of a guard, if there is such a stage. -/
def Held.onStage (h : Held ε) (i : Nat) (act : Guard ε → Thread ε → Guard ε × Thread ε)
    (t : Thread ε) : Held ε × Thread ε :=
  match h.stage? i with
  | some (g, back) =>
    let (g, t) := act g t
    (back g, t)
  | none => (h, t)

/-- Does something to the variable of a name, if there is one. -/
def Slot.onNamed (name : Splice.Guard) (act : Slot ε → Thread ε → Held ε × Thread ε) :
    List (Slot ε) → Thread ε → List (Slot ε) × Thread ε
  | [], t => ([], t)
  | s :: rest, t =>
    if s.name = name then
      let (h, t) := act s t
      ({ s with held := h } :: rest, t)
    else
      let (rest, t) := Slot.onNamed name act rest t
      (s :: rest, t)

namespace Frame

def onNamed (f : Frame ε) (name : Splice.Guard) (act : Slot ε → Thread ε → Held ε × Thread ε) :
    Frame ε :=
  let (slots, t) := Slot.onNamed name act f.slots f.thread
  ⟨t, slots⟩

/-- Does something to the stage that a call speaks to, by its number. -/
def onTarget (f : Frame ε) (target : Splice.Target)
    (act : (stage : Nat) → Guard ε → Thread ε → Guard ε × Thread ε) : Frame ε :=
  f.onNamed target.guard fun s => s.held.onStage target.index (act (s.first + target.index))

def link (f : Frame ε) : Splice.Link → Link
  | .thread => f.thread.link
  | .detached => f.thread.detachedLink
  | .outer name =>
    ((f.slots.find? fun s => s.name == name).map fun s => s.held.link).getD f.thread.link

/-- Holds a new guard. -/
def hold (f : Frame ε) (name : Splice.Guard) (first : Nat) (observing : Bool)
    (opened : Held ε × Thread ε) : Frame ε :=
  ⟨opened.2, ⟨name, first, if observing then opened.1.observing else opened.1⟩ :: f.slots⟩

section

variable (d : InstrumentedDecl) (switch : Switch) (hooks : Hooks ε)

/-- One call; `told` is what is known of the value of the body. -/
def call (told : Outcome) (f : Frame ε) : Splice.Call → Frame ε
  | .openSingle n k toggled link =>
    let isOn := !toggled || switch.isOn (d.site k).rule
    let (g, t) := Guard.openAt (d.site k) (f.link link) isOn f.thread
    f.hold (.single n) k (d.form == .observing) (.single g, t)
  | .openFused n ks link =>
    let (g, t) := Fused.openAt (ks.map d.site) (f.link link) f.thread
    f.hold (.fused n) (ks.headD 0) (d.form == .observing) (.fused g, t)
  | .setExit target _ => f.onTarget target fun k g t => (g.setExit (hooks.exit k), t)
  | .enter target _ => f.onTarget target fun k g t => g.enter (hooks.enter k) t
  | .record target _ => f.onTarget target fun k g t => g.record (hooks.record k) t
  | .complete name => f.onNamed name fun s t => (s.held.complete told, t)

def calls (told : Outcome) (f : Frame ε) (cs : List Splice.Call) : Frame ε :=
  cs.foldl (call d switch hooks told) f

/-- The frame in which the body begins. -/
def opened (t : Thread ε) : Frame ε :=
  calls d switch hooks .returned ⟨t, []⟩ (Splice.opening d.decl d.stages d.groups)

/-- The frame after the body: an observed value is told to the guards. -/
def observed (ending : Ending) (f : Frame ε) : Frame ε :=
  match d.form, ending.told? d.decl.returnsResult with
  | .observing, some o => calls d switch hooks o f (Splice.closing d.stages d.groups)
  | _, _ => f

/-- Ends the guards, the latest first. -/
def finish (f : Frame ε) : Thread ε := f.slots.foldl (fun t s => s.held.finish t) f.thread

/-- The thread on which the guards end. A body that returns leaves no panic of its own on its way
out; a body that is dropped is dropped by whatever thread comes by. -/
def leaving (ending : Ending) (before after : Thread ε) : Thread ε :=
  { after with isUnwinding := match ending with
      | .unwound => true
      | .dropped => after.isUnwinding
      | _ => before.isUnwinding }

/-- A whole call of the declaration. What becomes of a panic is up to the caller. -/
def perform (body : Thread ε → Ending × Thread ε) (t : Thread ε) : Thread ε :=
  let f := opened d switch hooks t
  let (ending, after) := body f.thread
  let f := observed d switch hooks ending { f with thread := leaving ending t after }
  { f.finish with isUnwinding := t.isUnwinding }

end

end Frame
end Invocation
end Instrumentation
