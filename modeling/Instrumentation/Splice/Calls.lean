import Instrumentation.Stage

/-!
The calls that wrap a body: guards are opened group by group, each stage sets its exit hook and
enters, and after an observed body each group is told how it ended. The calls are data, which the
text of a splice spells out and a machine can run.
-/
namespace Instrumentation
namespace Splice

/-- The variable that holds the guard of a group. -/
inductive Guard where
  | single (group : Nat)
  | fused (group : Nat)
  deriving DecidableEq, Repr

/-- The stage that a call speaks to: all of a guard, or one stage of a shared one. -/
inductive Target where
  | whole (guard : Guard)
  | stage (guard : Guard) (index : Nat)
  deriving DecidableEq, Repr

/-- Where a guard takes its parent from. -/
inductive Link where
  | thread
  | detached
  | outer (guard : Guard)
  deriving DecidableEq, Repr

/-- How the body can speak of its receiver. -/
inductive ReceiverAccess where
  | reborrow
  | borrow
  deriving DecidableEq, Repr

/-- What a stage does when its call begins. -/
structure Entry where
  captures : List Capture
  receiver : Option ReceiverAccess
  hook : Option HookRef
  deriving DecidableEq, Repr

inductive Call where
  | openSingle (group stage : Nat) (toggled : Bool) (link : Link)
  | openFused (group : Nat) (stages : List Nat) (link : Link)
  | setExit (target : Target) (hook : HookRef)
  | enter (target : Target) (entry : Entry)
  | record (target : Target) (mode : CaptureMode)
  | complete (guard : Guard)
  deriving DecidableEq, Repr

/-- The variable that a call speaks to. -/
def Target.guard : Target → Guard
  | .whole g => g
  | .stage g _ => g

/-- The position of a stage behind its guard. -/
def Target.index : Target → Nat
  | .whole _ => 0
  | .stage _ i => i

/-- The guard of a group by its number. -/
def Guard.ofGroup (number : Nat) : Group → Guard
  | .single _ => .single number
  | .fused _ _ => .fused number

/-- A stage of a group. -/
def Target.ofStage (number : Nat) (group : Group) (stage : Nat) : Target :=
  match group with
  | .single _ => .whole (.single number)
  | .fused start _ => .stage (.fused number) (stage - start)

def ReceiverAccess.ofSelf : Source.SelfKind → Option ReceiverAccess
  | .none => none
  | .byRef => some .reborrow
  | .typed => some .reborrow
  | .byValue => some .borrow

/-- The entry of a rule, if there is anything to do. -/
def Entry.of? (d : Source.Declaration) (r : Rule) : Option Entry :=
  let entry : Entry := ⟨r.paramCaptures, ReceiverAccess.ofSelf d.selfKind, r.onEnter⟩
  if entry.captures.isEmpty && entry.receiver.isNone && entry.hook.isNone then none else some entry

/-- The call that opens the guard of a group. -/
def openCall (stages : List Stage) (number : Nat) (link : Link) : Group → Call
  | .single k => .openSingle number k ((stages[k]?).any Stage.toggled) link
  | .fused start stop => .openFused number (Group.fused start stop).members link

/-- A stage sets its exit hook and enters. -/
def stageCalls (d : Source.Declaration) (target : Target) (r : Rule) : List Call :=
  (r.onExit.map (Call.setExit target)).toList ++ ((Entry.of? d r).map (Call.enter target)).toList

/-- The members of a group with their rules. -/
def rulesOf (stages : List Stage) (g : Group) : List (Nat × Rule) :=
  g.members.filterMap fun k => (stages[k]?).map fun s => (k, s.rule)

/-- The calls of one group before the body. -/
def groupOpening (d : Source.Declaration) (stages : List Stage) (number : Nat) (link : Link)
    (g : Group) : List Call :=
  openCall stages number link g ::
    (rulesOf stages g).flatMap fun (k, r) => stageCalls d (Target.ofStage number g k) r

/-- The calls before the body; each group links to the one before it. -/
def openingFrom (d : Source.Declaration) (stages : List Stage) :
    (number : Nat) → (link : Link) → List Group → List Call
  | _, _, [] => []
  | number, link, g :: rest =>
    groupOpening d stages number link g ++
      openingFrom d stages (number + 1) (.outer (Guard.ofGroup number g)) rest

/-- The calls before the body. An asynchronous body can move between threads, so that its
outermost guard is not put on a thread's chain. -/
def opening (d : Source.Declaration) (stages : List Stage) (groups : List Group) : List Call :=
  openingFrom d stages 0 (if d.isAsync then .detached else .thread) groups

/-- The calls of one group after an observed body: captures of the value, then its end. -/
def groupClosing (stages : List Stage) (number : Nat) (g : Group) : List Call :=
  ((rulesOf stages g).filterMap fun (k, r) =>
    (r.captures.find? Capture.isReturn).map fun c => .record (Target.ofStage number g k) c.mode)
  ++ [.complete (Guard.ofGroup number g)]

/-- The calls after an observed body. -/
def closing (stages : List Stage) (groups : List Group) : List Call :=
  groups.zipIdx.flatMap fun (g, number) => groupClosing stages number g

end Splice
end Instrumentation
