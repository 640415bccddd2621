import Instrumentation.Version.Requirement

/-!
Version ranges. A range is an interval of the total order of versions, open or closed at either
end, or without end. It is written as an interval, `[0.1.0,0.2.0)`, or as a requirement,
`>=1.20, <2`; both become one interval, so that two ranges are disjoint exactly when their
intersection has no room.
-/
namespace Instrumentation

inductive Bound where
  | unbounded
  | included (v : Version)
  | excluded (v : Version)
  deriving DecidableEq, Repr

structure VersionRange where
  lower : Bound := .unbounded
  upper : Bound := .unbounded
  deriving DecidableEq, Repr

namespace Bound

/-- Whether a version lies above this lower bound. -/
def admitsAbove : Bound → Version → Bool
  | unbounded, _ => true
  | included lo, v => lo.le v
  | excluded lo, v => lo.lt v

/-- Whether a version lies below this upper bound. -/
def admitsBelow : Bound → Version → Bool
  | unbounded, _ => true
  | included hi, v => v.le hi
  | excluded hi, v => v.lt hi

/-- The tighter of two lower bounds. -/
def tighterLower : Bound → Bound → Bound
  | unbounded, b => b
  | a, unbounded => a
  | included x, included y => included (x.max y)
  | excluded x, excluded y => excluded (x.max y)
  | included x, excluded y => if y.lt x then included x else excluded y
  | excluded x, included y => if x.lt y then included y else excluded x

/-- The tighter of two upper bounds. -/
def tighterUpper : Bound → Bound → Bound
  | unbounded, b => b
  | a, unbounded => a
  | included x, included y => included (x.min y)
  | excluded x, excluded y => excluded (x.min y)
  | included x, excluded y => if x.lt y then included x else excluded y
  | excluded x, included y => if y.lt x then included y else excluded x

end Bound

namespace VersionRange

/-- The range of all versions. -/
def any : VersionRange := {}

def isAny (r : VersionRange) : Bool := r == any

def contains (r : VersionRange) (v : Version) : Bool :=
  r.lower.admitsAbove v && r.upper.admitsBelow v

def intersect (a b : VersionRange) : VersionRange :=
  ⟨a.lower.tighterLower b.lower, a.upper.tighterUpper b.upper⟩

/-- Whether the bounds cross: no version can lie between them. -/
def isEmpty (r : VersionRange) : Bool :=
  match r.lower, r.upper with
  | .unbounded, _ => false
  | _, .unbounded => false
  | .included lo, .included hi => hi.lt lo
  | .included lo, .excluded hi => hi.le lo
  | .excluded lo, .included hi => hi.le lo
  | .excluded lo, .excluded hi => hi.le lo

def isDisjoint (a b : VersionRange) : Bool := (a.intersect b).isEmpty

/-- The written form of a range. -/
def text (r : VersionRange) : String :=
  if r.isAny then "*"
  else
    (match r.lower with
      | .unbounded => "[,"
      | .included v => "[" ++ v.text ++ ","
      | .excluded v => "(" ++ v.text ++ ",")
    ++ (match r.upper with
      | .unbounded => ")"
      | .included v => v.text ++ "]"
      | .excluded v => v.text ++ ")")

end VersionRange

namespace Comparator

/-- The number after a component, if it is still in bounds. -/
def next? (n : Nat) : Option Nat :=
  if n + 1 < componentBound then some (n + 1) else none

/-- The versions a comparator admits; `none` if a bound needs a number past the last one. -/
def range? (c : Comparator) : Option VersionRange := do
  let base : Version :=
    { major := c.major, minor := c.minor.getD 0, patch := c.patch.getD 0, pre := c.pre }
  let nextMajor : Version := ⟨← next? c.major, 0, 0, [], []⟩
  let afterMinor : Version ← match c.minor with
    | some minor => do pure ⟨c.major, ← next? minor, 0, [], []⟩
    | none => pure nextMajor
  let afterGiven : Version ← match c.minor, c.patch with
    | some minor, some patch => do pure ⟨c.major, minor, ← next? patch, [], []⟩
    | _, _ => pure afterMinor
  match c.op with
  | .exact => match c.patch with
    | some _ => return ⟨.included base, .included base⟩
    | none => return ⟨.included base, .excluded afterGiven⟩
  | .greater => match c.patch with
    | some _ => return ⟨.excluded base, .unbounded⟩
    | none => return ⟨.included afterGiven, .unbounded⟩
  | .greaterEq => return ⟨.included base, .unbounded⟩
  | .less => return ⟨.unbounded, .excluded base⟩
  | .lessEq => match c.patch with
    | some _ => return ⟨.unbounded, .included base⟩
    | none => return ⟨.unbounded, .excluded afterGiven⟩
  | .tilde => return ⟨.included base, .excluded afterMinor⟩
  | .caret =>
    let stop := match c.major, c.minor, c.patch with
      | 0, some 0, some _ => afterGiven
      | 0, some _, _ => afterMinor
      | _, _, _ => nextMajor
    return ⟨.included base, .excluded stop⟩
  | .wildcard => return ⟨.included base, .excluded afterGiven⟩

end Comparator

/-- Why a text is no range. -/
inductive RangeError where
  | requirement (text : String) (fault : VersionFault)
  | overflow
  | emptyRequirement (text : String)
  | unclosed (text : String)
  | noComma (text : String)
  | bound (fault : Version.LooseFault)
  | emptyInterval (text : String)
  deriving DecidableEq, Repr

def RangeError.message : RangeError → String
  | requirement text fault => "invalid version range '" ++ text ++ "': " ++ fault.message
  | overflow => "attempt to add with overflow"
  | emptyRequirement text => "version range '" ++ text ++ "' is empty"
  | unclosed text => "interval '" ++ text ++ "' is not closed"
  | noComma text => "interval '" ++ text ++ "' needs a ',' between bounds"
  | bound fault => fault.message
  | emptyInterval text => "interval '" ++ text ++ "' is empty"

namespace VersionRange

/-- A bound of an interval; blanks alone are no bound. -/
def readBound (closed : Bool) (cs : List Char) : Except RangeError Bound :=
  match Text.trim cs with
  | [] => .ok .unbounded
  | trimmed => match Version.readLoose (String.ofList trimmed) with
    | .ok v => .ok (if closed then .included v else .excluded v)
    | .error fault => .error (.bound fault)

/-- Reads an interval, brackets included. -/
def readInterval (cs : List Char) : Except RangeError VersionRange := do
  let text := String.ofList cs
  let close := cs.getLast?.getD ')'
  if close != ']' && close != ')' then throw (.unclosed text)
  match Text.cut ',' (cs.drop 1).dropLast with
  | none => throw (.noComma text)
  | some (lo, hi) =>
    let lower ← readBound (cs.head? == some '[') lo
    let upper ← readBound (close == ']') hi
    let range : VersionRange := ⟨lower, upper⟩
    if range.isEmpty then throw (.emptyInterval text)
    return range

/-- The versions that all comparators admit. -/
def ofRequirement? (req : Requirement) : Option VersionRange :=
  req.foldlM (fun range c => do return range.intersect (← c.range?)) any

/-- Reads a range, in either spelling. -/
def read (s : String) : Except RangeError VersionRange :=
  let cs := Text.trim s.toList
  let text := String.ofList cs
  match cs with
  | [] => .ok any
  | ['*'] => .ok any
  | c :: _ =>
    if c = '[' || c = '(' then readInterval cs
    else match Requirement.read cs with
      | .error fault => .error (.requirement text fault)
      | .ok req => match ofRequirement? req with
        | none => .error .overflow
        | some range => if range.isEmpty then .error (.emptyRequirement text) else .ok range

end VersionRange
end Instrumentation
