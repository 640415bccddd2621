import Instrumentation.Json.Basic

/-!
Decoding records. A record is written as an object whose members are all known and named once, or
as an array of its fields in order.
-/
namespace Instrumentation.Json

/-- The fields of a record by name; `none` if a member is unknown or repeated. -/
def fields? (names : List String) : Json → Option (List (String × Json))
  | obj ms =>
    let keys := ms.map Prod.fst
    if keys.all names.contains && decide keys.Nodup then some ms else none
  | arr xs => if xs.length ≤ names.length then some (names.zip xs) else none
  | _ => none

/-- The fields of a record that may have more members; `none` if a known one is repeated. -/
def knownFields? (names : List String) : Json → Option (List (String × Json))
  | obj ms => fields? names (obj (ms.filter fun m => names.contains m.1))
  | j => fields? names j

abbrev Fields := List (String × Json)

namespace Fields

def get? (fs : Fields) (name : String) : Option Json :=
  (fs.find? fun f => f.1 == name).map Prod.snd

/-- A field that must be there. -/
def required {α : Type} (decode : Json → Option α) (fs : Fields) (name : String) : Option α :=
  (fs.get? name).bind decode

/-- A field with a value of its own if it is missing; null is no such value. -/
def defaulted {α : Type} (default : α) (decode : Json → Option α) (fs : Fields) (name : String) :
    Option α :=
  match fs.get? name with
  | none => some default
  | some j => decode j

/-- A field that may be missing or null. -/
def optional {α : Type} (decode : Json → Option α) (fs : Fields) (name : String) :
    Option (Option α) :=
  match fs.get? name with
  | none => some none
  | some null => some none
  | some j => (decode j).map some

end Fields

/-- A number below a bound. -/
def below? (bound : Nat) (j : Json) : Option Nat := j.nat?.filter (· < bound)

/-- A list of values of one kind. -/
def listOf? {α : Type} (decode : Json → Option α) : Json → Option (List α)
  | arr xs => xs.mapM decode
  | _ => none

end Instrumentation.Json
