import Instrumentation.Text.Blank
import Instrumentation.Text.Quoted
import Instrumentation.Version.Basic

/-!
Reading versions. A full version has three numbers without leading zeros; a loose one may lack
minor and patch numbers, may have leading zeros and a leading `v`.
-/
namespace Instrumentation

/-- The part of a version text that a fault lies in. -/
inductive VersionPart where
  | major | minor | patch | pre | build
  deriving DecidableEq, Repr

def VersionPart.name : VersionPart → String
  | major => "major version number"
  | minor => "minor version number"
  | patch => "patch version number"
  | pre => "pre-release identifier"
  | build => "build metadata"

/-- Why a text is no version, or no requirement. -/
inductive VersionFault where
  | empty
  | unexpectedEnd (part : VersionPart)
  | unexpectedChar (part : VersionPart) (c : Char)
  | unexpectedCharAfter (part : VersionPart) (c : Char)
  | expectedComma (part : VersionPart) (found : Char)
  | leadingZero (part : VersionPart)
  | tooLarge (part : VersionPart)
  | emptySegment (part : VersionPart)
  | illegalCharacter (part : VersionPart)
  | wildcardNotAlone (c : Char)
  | afterWildcard
  | tooManyComparators
  deriving DecidableEq, Repr

def VersionFault.message : VersionFault → String
  | empty => "empty string, expected a semver version"
  | unexpectedEnd p => "unexpected end of input while parsing " ++ p.name
  | unexpectedChar p c =>
    "unexpected character " ++ Text.quotedChar c ++ " while parsing " ++ p.name
  | unexpectedCharAfter p c => "unexpected character " ++ Text.quotedChar c ++ " after " ++ p.name
  | expectedComma p c => "expected comma after " ++ p.name ++ ", found " ++ Text.quotedChar c
  | leadingZero p => "invalid leading zero in " ++ p.name
  | tooLarge p => "value of " ++ p.name ++ " exceeds u64::MAX"
  | emptySegment p => "empty identifier segment in " ++ p.name
  | illegalCharacter p => "unexpected character in " ++ p.name
  | wildcardNotAlone c =>
    "wildcard req (" ++ c.toString ++ ") must be the only comparator in the version req"
  | afterWildcard => "unexpected character after wildcard in version req"
  | tooManyComparators => "excessive number of version comparators"

namespace Version

/-- The value of a list of decimal digits. -/
def decimal (ds : List Char) : Nat :=
  ds.foldl (fun n d => 10 * n + (d.toNat - '0'.toNat)) 0

/-- A number at the start of a text: no leading zeros, below the bound of components. -/
def readNumber (part : VersionPart) (cs : List Char) : Except VersionFault (Nat × List Char) :=
  let ds := cs.takeWhile Char.isDigit
  let rest := cs.dropWhile Char.isDigit
  match ds with
  | [] => match rest with
    | [] => .error (.unexpectedEnd part)
    | c :: _ => .error (.unexpectedChar part c)
  | d :: more =>
    if d = '0' && !more.isEmpty then .error (.leadingZero part)
    else if decimal ds < componentBound then .ok (decimal ds, rest)
    else .error (.tooLarge part)

/-- The dot between two numbers. -/
def readDot (part : VersionPart) : List Char → Except VersionFault (List Char)
  | '.' :: rest => .ok rest
  | [] => .error (.unexpectedEnd part)
  | c :: _ => .error (.unexpectedCharAfter part c)

def isLabelChar (c : Char) : Bool := c.isAlphanum || c == '-'

def PreLabel.read (seg : List Char) : Except VersionFault PreLabel :=
  match seg with
  | [] => .error (.emptySegment .pre)
  | d :: more =>
    if seg.all Char.isDigit then
      if d = '0' && !more.isEmpty then .error (.leadingZero .pre) else .ok (.number (decimal seg))
    else .ok (.word (String.ofList seg))

def BuildLabel.read (seg : List Char) : Except VersionFault BuildLabel :=
  match seg with
  | [] => .error (.emptySegment .build)
  | _ :: _ =>
    if seg.all Char.isDigit then
      .ok (.number (seg.takeWhile (· == '0')).length (decimal seg))
    else .ok (.word (String.ofList seg))

/-- The labels at the start of a text; no label at all is an empty list. -/
def readLabels {α : Type} (label : List Char → Except VersionFault α) (cs : List Char) :
    Except VersionFault (List α × List Char) := do
  let run := cs.takeWhile fun c => isLabelChar c || c == '.'
  let rest := cs.dropWhile fun c => isLabelChar c || c == '.'
  if run.isEmpty then return ([], cs)
  let labels ← (Text.pieces '.' run).mapM label
  return (labels, rest)

/-- Prerelease labels after a hyphen that has been read. -/
def readPre (cs : List Char) : Except VersionFault (List PreLabel × List Char) := do
  let (labels, rest) ← readLabels PreLabel.read cs
  if labels.isEmpty then throw (.emptySegment .pre)
  return (labels, rest)

/-- Build labels after a plus that has been read. -/
def readBuild (cs : List Char) : Except VersionFault (List BuildLabel × List Char) := do
  let (labels, rest) ← readLabels BuildLabel.read cs
  if labels.isEmpty then throw (.emptySegment .build)
  return (labels, rest)

/-- Reads a full version. -/
def readFull (cs : List Char) : Except VersionFault Version := do
  if cs.isEmpty then throw .empty
  let (major, cs) ← readNumber .major cs
  let cs ← readDot .major cs
  let (minor, cs) ← readNumber .minor cs
  let cs ← readDot .minor cs
  let (patch, cs) ← readNumber .patch cs
  let (pre, part, cs) ← match cs with
    | '-' :: rest => do
      let (pre, rest) ← readPre rest
      pure (pre, VersionPart.pre, rest)
    | _ => pure ([], VersionPart.patch, cs)
  let (build, part, cs) ← match cs with
    | '+' :: rest => do
      let (build, rest) ← readBuild rest
      pure (build, VersionPart.build, rest)
    | _ => pure ([], part, cs)
  match cs with
  | [] => return { major, minor, patch, pre, build }
  | c :: _ => throw (.unexpectedCharAfter part c)

/-- The version a text is in full, if it is one. -/
def ofString? (s : String) : Option Version :=
  (readFull s.toList).toOption

/-- The version in what a compiler says of itself: the first line that speaks of its release. -/
def ofCompilerText? (text : String) : Option Version := do
  let release ← (Text.lines text.toList).findSome? (Text.after? "release: ".toList)
  ofString? (String.ofList (Text.trim release))

/-- Why a text is no loose version. -/
inductive LooseFault where
  | component (name text : String)
  | prerelease (text : String) (fault : VersionFault)
  deriving DecidableEq, Repr

def LooseFault.message : LooseFault → String
  | component name text => "invalid " ++ name ++ " component in version '" ++ text ++ "'"
  | prerelease text fault => "version '" ++ text ++ "': " ++ fault.message

/-- A decimal number below the bound of components; a plus may stand in front of it. -/
def readComponent? (cs : List Char) : Option Nat :=
  let ds := match cs with
    | '+' :: rest => rest
    | _ => cs
  if ds.isEmpty || !ds.all Char.isDigit then none
  else if decimal ds < componentBound then some (decimal ds) else none

/-- The prerelease labels that a text is, and nothing else. -/
def readPreOnly (cs : List Char) : Except VersionFault (List PreLabel) := do
  let (labels, rest) ← readLabels PreLabel.read cs
  if rest.isEmpty then return labels else throw (.illegalCharacter .pre)

/-- Reads a version that may lack minor and patch numbers or carry a leading `v`. -/
def readLoose (s : String) : Except LooseFault Version := do
  let trimmed := Text.trim s.toList
  let text := String.ofList trimmed
  let bare := match trimmed with
    | 'v' :: rest => rest
    | _ => trimmed
  match readFull bare with
  | .ok v => return v
  | .error _ =>
    let (core, pre) := match Text.cut '-' bare with
      | some (core, pre) => (core, some pre)
      | none => (bare, none)
    let parts := Text.pieces '.' core
    let component (name : String) (i : Nat) : Except LooseFault Nat :=
      match parts[i]? with
      | none => .ok 0
      | some p => match readComponent? p with
        | some n => .ok n
        | none => .error (.component name text)
    let major ← component "major" 0
    let minor ← component "minor" 1
    let patch ← component "patch" 2
    match pre with
    | none => return { major, minor, patch }
    | some pre => match readPreOnly pre with
      | .ok labels => return { major, minor, patch, pre := labels }
      | .error fault => throw (.prerelease text fault)

end Version
end Instrumentation
