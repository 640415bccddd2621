/-!
JSON values. Objects keep their members in the order they are written, repeated names included,
so that each reader can say what a repeated name means to it.
-/
namespace Instrumentation

inductive Json where
  | null
  | bool (value : Bool)
  | int (value : Int)
  /-- A number with a fraction or an exponent, as it is written. -/
  | decimal (text : String)
  | str (value : String)
  | arr (items : List Json)
  | obj (members : List (String × Json))
  deriving Repr, Inhabited

namespace Json

/-- Numbers of 32 bits are below this. -/
def halfBound : Nat := 0x100000000

/-- Numbers of 64 bits with a sign are below this. -/
def signedBound : Nat := 0x8000000000000000

/-- Numbers of 64 bits without a sign are below this. -/
def wordBound : Nat := 0x10000000000000000

def nat (n : Nat) : Json := int (Int.ofNat n)

def list {α : Type} (f : α → Json) (xs : List α) : Json := arr (xs.map f)

def strs (xs : List String) : Json := list str xs

def opt {α : Type} (f : α → Json) : Option α → Json
  | none => null
  | some x => f x

/-- The last member of that name. -/
def member? (name : String) : Json → Option Json
  | obj members => (members.reverse.find? fun m => m.1 == name).map Prod.snd
  | _ => none

/-- The last member of that name, unless it is null. -/
def field? (name : String) (j : Json) : Option Json :=
  match j.member? name with
  | some null => none
  | v => v

def str? : Json → Option String
  | str s => some s
  | _ => none

def bool? : Json → Option Bool
  | bool b => some b
  | _ => none

def nat? : Json → Option Nat
  | int (.ofNat n) => some n
  | _ => none

def arr? : Json → Option (List Json)
  | arr xs => some xs
  | _ => none

def obj? : Json → Option (List (String × Json))
  | obj ms => some ms
  | _ => none

end Json
end Instrumentation
