/-!
Versions and their total order. A version is three numbers, a list of prerelease labels and a
list of build labels. Numbers are compared first; a release follows all its prereleases; build
labels take part last, so versions that differ only there are different versions.
-/
namespace Instrumentation

/-- A prerelease label is a number without leading zeros, or a word. -/
inductive PreLabel where
  | number (value : Nat)
  | word (text : String)
  deriving DecidableEq, Repr

/-- A build label is a number after some zeros, or a word. -/
inductive BuildLabel where
  | number (zeros value : Nat)
  | word (text : String)
  deriving DecidableEq, Repr

structure Version where
  major : Nat
  minor : Nat
  patch : Nat
  pre : List PreLabel := []
  build : List BuildLabel := []
  deriving DecidableEq, Repr

/-- Components of a version are below this bound. -/
def componentBound : Nat := 0x10000000000000000

namespace PreLabel

/-- Numbers come before words. -/
def cmp : PreLabel → PreLabel → Ordering
  | number m, number n => compare m n
  | number _, word _ => .lt
  | word _, number _ => .gt
  | word s, word t => compare s t

def text : PreLabel → String
  | number n => toString n
  | word s => s

end PreLabel

namespace BuildLabel

/-- Numbers come before words; of two equal numbers the one with fewer zeros comes first. -/
def cmp : BuildLabel → BuildLabel → Ordering
  | number z m, number y n => (compare m n).then (compare z y)
  | number _ _, word _ => .lt
  | word _, number _ _ => .gt
  | word s, word t => compare s t

def text : BuildLabel → String
  | number zeros value =>
    String.ofList (List.replicate zeros '0') ++ (if value = 0 then "" else toString value)
  | word s => s

end BuildLabel

namespace Version

/-- A release comes after all its prereleases. -/
def cmpPre : List PreLabel → List PreLabel → Ordering
  | [], [] => .eq
  | [], _ :: _ => .gt
  | _ :: _, [] => .lt
  | a, b => a.compareLex PreLabel.cmp b

/-- A version without build labels comes first. -/
def cmpBuild (a b : List BuildLabel) : Ordering :=
  a.compareLex BuildLabel.cmp b

/-- The total order of versions. -/
def cmp (a b : Version) : Ordering :=
  (compare a.major b.major).then <|
  (compare a.minor b.minor).then <|
  (compare a.patch b.patch).then <|
  (cmpPre a.pre b.pre).then <|
  cmpBuild a.build b.build

instance : Ord Version := ⟨cmp⟩

def lt (a b : Version) : Bool := a.cmp b == .lt

def le (a b : Version) : Bool := a.cmp b != .gt

/-- The greater of two versions. -/
def max (a b : Version) : Version := if a.le b then b else a

/-- The smaller of two versions. -/
def min (a b : Version) : Version := if a.le b then a else b

/-- Labels joined by dots. -/
def dotted : List String → String
  | [] => ""
  | [s] => s
  | s :: t :: rest => s ++ "." ++ dotted (t :: rest)

def preText (v : Version) : String := dotted (v.pre.map PreLabel.text)

def buildText (v : Version) : String := dotted (v.build.map BuildLabel.text)

/-- The written form of a version. -/
def text (v : Version) : String :=
  toString v.major ++ "." ++ toString v.minor ++ "." ++ toString v.patch
    ++ (if v.pre.isEmpty then "" else "-" ++ v.preText)
    ++ (if v.build.isEmpty then "" else "+" ++ v.buildText)

end Version
end Instrumentation
