import Instrumentation.Json.Basic

/-!
Tables under construction. A table that a header or key brings into being on the way to another
one may be completed later; a table that was named by a header, or written with dotted keys, may
not be opened again.
-/
namespace Instrumentation.Toml

inductive Entry where
  | value (j : Json)
  /-- A table; `implicit` if no header has named it, `dotted` if a dotted key has. -/
  | table (implicit dotted : Bool) (entries : List (String × Entry))
  /-- A list of tables, last first. -/
  | tables (list : List (List (String × Entry)))
  deriving Inhabited

abbrev Entries := List (String × Entry)

namespace Entries

def get? (es : Entries) (name : String) : Option Entry :=
  (es.find? fun e => e.1 == name).map Prod.snd

/-- Replaces an entry, or puts it at the end. -/
def put (es : Entries) (name : String) (e : Entry) : Entries :=
  if es.any fun x => x.1 == name then es.map fun x => if x.1 == name then (name, e) else x
  else es ++ [(name, e)]

/-- Changes the table that headers find at a path, which is created where it is missing. -/
def inHeader (change : Entries → Option Entries) : (path : List String) → Entries → Option Entries
  | [], es => change es
  | name :: path, es =>
    match es.get? name with
    | none => (inHeader change path []).map fun t => es.put name (.table true false t)
    | some (.table implicit dotted t) =>
      (inHeader change path t).map fun t => es.put name (.table implicit dotted t)
    | some (.tables (t :: earlier)) =>
      (inHeader change path t).map fun t => es.put name (.tables (t :: earlier))
    | some _ => none

/-- Sets a value by a key, which may be dotted. Nothing is set twice. -/
def set (j : Json) : (key : List String) → Entries → Option Entries
  | [], _ => none
  | [name], es => if (es.get? name).isSome then none else some (es.put name (.value j))
  | name :: key, es =>
    match es.get? name with
    | none => (set j key []).map fun t => es.put name (.table true true t)
    | some (.table true dotted t) =>
      match key with
      | [_] =>
        if dotted then (set j key t).map fun t => es.put name (.table true dotted t) else none
      | _ => (set j key t).map fun t => es.put name (.table true dotted t)
    | some (.tables (t :: earlier)) =>
      match key with
      | [_] => none
      | _ => (set j key t).map fun t => es.put name (.tables (t :: earlier))
    | some _ => none

/-- Opens a table by a header that names it. -/
def openTable (name : String) (es : Entries) : Option Entries :=
  match es.get? name with
  | none => some (es.put name (.table false false []))
  | some (.table true false t) => some (es.put name (.table false false t))
  | some _ => none

/-- Adds a table to a list of tables. -/
def addTable (name : String) (es : Entries) : Option Entries :=
  match es.get? name with
  | none => some (es.put name (.tables [[]]))
  | some (.tables list) => some (es.put name (.tables ([] :: list)))
  | some _ => none

end Entries

mutual
def Entry.toJson : Entry → Json
  | .value j => j
  | .table _ _ es => .obj (membersOf es)
  | .tables list => .arr (tablesOf list).reverse

def membersOf : List (String × Entry) → List (String × Json)
  | [] => []
  | (name, e) :: es => (name, e.toJson) :: membersOf es

def tablesOf : List (List (String × Entry)) → List Json
  | [] => []
  | t :: ts => .obj (membersOf t) :: tablesOf ts
end

end Instrumentation.Toml
