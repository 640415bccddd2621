import Instrumentation.Version.Reader

/-!
Version requirements as package manifests write them: comparators separated by commas, each an
operator with a possibly incomplete version. A version without operator is read as a caret
requirement, one with a star or `x` in place of a number as a wildcard.
-/
namespace Instrumentation

inductive Operator where
  | exact | greater | greaterEq | less | lessEq | tilde | caret | wildcard
  deriving DecidableEq, Repr

structure Comparator where
  op : Operator
  major : Nat
  minor : Option Nat
  patch : Option Nat
  pre : List PreLabel
  deriving DecidableEq, Repr

namespace Comparator

/-- The operator at the start of a text, if one is written. -/
def readOperator : List Char → Option Operator × List Char
  | '=' :: rest => (some .exact, rest)
  | '>' :: '=' :: rest => (some .greaterEq, rest)
  | '>' :: rest => (some .greater, rest)
  | '<' :: '=' :: rest => (some .lessEq, rest)
  | '<' :: rest => (some .less, rest)
  | '~' :: rest => (some .tilde, rest)
  | '^' :: rest => (some .caret, rest)
  | cs => (none, cs)

def isWildcard (c : Char) : Bool := c == '*' || c == 'x' || c == 'X'

def dropSpaces (cs : List Char) : List Char := cs.dropWhile (· == ' ')

/-- The minor or patch number after its dot, or a wildcard in its place. -/
inductive Slot where
  | absent
  | wild
  | given (value : Nat)
  deriving DecidableEq, Repr

def Slot.value? : Slot → Option Nat
  | given n => some n
  | _ => none

def readSlot (part : VersionPart) (afterWild : Bool) :
    List Char → Except VersionFault (Slot × List Char)
  | '.' :: rest =>
    match rest with
    | c :: more =>
      if isWildcard c then .ok (.wild, more)
      else if afterWild then .error .afterWildcard
      else do
        let (n, rest) ← Version.readNumber part rest
        return (.given n, rest)
    | [] =>
      if afterWild then .error .afterWildcard
      else do
        let (n, rest) ← Version.readNumber part []
        return (.given n, rest)
  | cs => .ok (.absent, cs)

/-- The last part of a comparator that is written, for the messages. -/
def lastPart (minor patch : Slot) (pre build : Bool) : VersionPart :=
  if build then .build
  else if pre then .pre
  else if patch ≠ .absent then .patch
  else if minor ≠ .absent then .minor
  else .major

/-- Reads a comparator and the spaces after it. -/
def read (cs : List Char) : Except VersionFault (Comparator × VersionPart × List Char) := do
  let (written, cs) := readOperator cs
  let cs := dropSpaces cs
  let (major, cs) ← Version.readNumber .major cs
  let (minor, cs) ← readSlot .minor false cs
  let (patch, cs) ← readSlot .patch (minor == .wild) cs
  let op := match written with
    | some op => op
    | none => if minor = .wild || patch = .wild then .wildcard else .caret
  let full := patch.value?.isSome
  let (pre, cs) ← match full, cs with
    | true, '-' :: rest => Version.readPre rest
    | _, _ => pure ([], cs)
  let (build, cs) ← match full, cs with
    | true, '+' :: rest => Version.readBuild rest
    | _, _ => pure ([], cs)
  return ({ op, major, minor := minor.value?, patch := patch.value?, pre },
    lastPart minor patch (!pre.isEmpty) (!build.isEmpty), dropSpaces cs)

/-- The most comparators that one requirement may have. -/
def maxCount : Nat := 32

/-- Reads comparators separated by commas; `room` is how many more are allowed. -/
def readList : (room : Nat) → List Char → Except VersionFault (List Comparator)
  | 0, _ => .error .tooManyComparators
  | room + 1, cs =>
    match read cs with
    | .error fault => match cs with
      | c :: rest =>
        let rest := dropSpaces rest
        if isWildcard c && (rest.isEmpty || rest.head? == some ',') then
          .error (.wildcardNotAlone c)
        else .error fault
      | [] => .error fault
    | .ok (comparator, part, rest) => match rest with
      | [] => .ok [comparator]
      | ',' :: more => do
        let others ← readList room (dropSpaces more)
        return comparator :: others
      | c :: _ => .error (.expectedComma part c)

end Comparator

/-- A requirement is met when all its comparators are; a lone wildcard has none. -/
abbrev Requirement := List Comparator

/-- Reads a requirement. -/
def Requirement.read (cs : List Char) : Except VersionFault Requirement :=
  let cs := Comparator.dropSpaces cs
  match cs with
  | c :: rest =>
    if Comparator.isWildcard c then
      match Comparator.dropSpaces rest with
      | [] => .ok []
      | ',' :: _ => .error (.wildcardNotAlone c)
      | _ => .error .afterWildcard
    else Comparator.readList Comparator.maxCount cs
  | [] => Comparator.readList Comparator.maxCount cs

end Instrumentation
