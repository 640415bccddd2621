import Instrumentation.Toml.Scalar
import Instrumentation.Toml.Table

/-!
Reading configuration documents.
-/
namespace Instrumentation.Toml

/-- A comment up to the end of its line. -/
def dropComment (cs : List Char) : Option (List Char) :=
  match cs with
  | '#' :: rest =>
    let words := rest.takeWhile fun c => c != '\n' && c != '\r'
    if words.all isPlain then some (rest.drop words.length) else none
  | _ => some cs

/-- The end of a line, after spaces and maybe a comment. -/
def readLineEnd (cs : List Char) : Option (List Char) := do
  match ← dropComment (dropSpaces cs) with
  | [] => some []
  | '\n' :: rest => some rest
  | '\r' :: '\n' :: rest => some rest
  | _ => none

/-- Spaces, line ends and comments, as between the items of a list. -/
def dropGaps : (fuel : Nat) → List Char → Option (List Char)
  | 0, _ => none
  | fuel + 1, cs =>
    match dropSpaces cs with
    | '\n' :: rest => dropGaps fuel rest
    | '\r' :: '\n' :: rest => dropGaps fuel rest
    | '#' :: rest => (dropComment ('#' :: rest)).bind fun rest => dropGaps fuel rest
    | rest => some rest

mutual
/-- A value. -/
def readValue : (fuel : Nat) → List Char → Option (Json × List Char)
  | 0, _ => none
  | fuel + 1, cs =>
    match cs with
    | 't' :: 'r' :: 'u' :: 'e' :: rest => some (.bool true, rest)
    | 'f' :: 'a' :: 'l' :: 's' :: 'e' :: rest => some (.bool false, rest)
    | '[' :: rest => (readItems fuel rest).map fun (xs, rest) => (.arr xs, rest)
    | c :: rest =>
      if c == '"' || c == '\'' then (readText cs).map fun (s, rest) => (.str s, rest)
      else if c == Char.ofNat 0x7B then
        match dropSpaces rest with
        | d :: more =>
          if d == Char.ofNat 0x7D then some (.obj [], more)
          else (readPairs fuel [] (d :: more)).map fun (es, rest) => (.obj (membersOf es), rest)
        | [] => none
      else if looksDated cs then readDated cs
      else readNumber cs
    | [] => none

/-- The items of a list up to its closing bracket. -/
def readItems : (fuel : Nat) → List Char → Option (List Json × List Char)
  | 0, _ => none
  | fuel + 1, cs => do
    match ← dropGaps (cs.length + 1) cs with
    | ']' :: rest => return ([], rest)
    | cs =>
      let (x, rest) ← readValue fuel cs
      match ← dropGaps (rest.length + 1) rest with
      | ',' :: rest =>
        let (xs, rest) ← readItems fuel rest
        return (x :: xs, rest)
      | ']' :: rest => return ([x], rest)
      | _ => none

/-- The pairs of a table in braces, up to the closing one. -/
def readPairs : (fuel : Nat) → (done : Entries) → List Char → Option (Entries × List Char)
  | 0, _, _ => none
  | fuel + 1, done, cs => do
    let (key, rest) ← readKey (cs.length + 1) cs
    match rest with
    | '=' :: rest =>
      let (x, rest) ← readValue fuel (dropSpaces rest)
      let done ← done.set x key
      match dropSpaces rest with
      | ',' :: rest => readPairs fuel done rest
      | c :: rest => if c == Char.ofNat 0x7D then some (done, rest) else none
      | [] => none
    | _ => none
end

/-- A document so far: its tables, and the path of the table that keys belong to. -/
structure State where
  root : Entries := []
  current : List String := []

/-- Opens the table of a header. -/
def State.header (s : State) (list : Bool) (path : List String) : Option State := do
  let name ← path.getLast?
  let change := if list then Entries.addTable name else Entries.openTable name
  let root ← s.root.inHeader change path.dropLast
  return ⟨root, path⟩

/-- One line of a document. -/
def readLine (s : State) (cs : List Char) : Option (State × List Char) := do
  match dropSpaces cs with
  | '[' :: '[' :: rest =>
    let (path, rest) ← readKey (rest.length + 1) rest
    match rest with
    | ']' :: ']' :: rest => return (← s.header true path, ← readLineEnd rest)
    | _ => none
  | '[' :: rest =>
    let (path, rest) ← readKey (rest.length + 1) rest
    match rest with
    | ']' :: rest => return (← s.header false path, ← readLineEnd rest)
    | _ => none
  | '#' :: rest => return (s, ← readLineEnd ('#' :: rest))
  | '\n' :: rest => return (s, rest)
  | '\r' :: '\n' :: rest => return (s, rest)
  | [] => return (s, [])
  | cs =>
    let (key, rest) ← readKey (cs.length + 1) cs
    match rest with
    | '=' :: rest =>
      let rest := dropSpaces rest
      let (x, rest) ← readValue (2 * rest.length + 2) rest
      let root ← s.root.inHeader (Entries.set x key) s.current
      return ({ s with root }, ← readLineEnd rest)
    | _ => none

def readLines : (fuel : Nat) → State → List Char → Option State
  | 0, _, _ => none
  | fuel + 1, s, cs =>
    if cs.isEmpty then some s
    else (readLine s cs).bind fun (s, rest) => readLines fuel s rest

/-- The table that a document is. -/
def read? (text : String) : Option Json :=
  let cs := match text.toList with
    | '\ufeff' :: rest => rest
    | cs => cs
  (readLines (cs.length + 1) {} cs).map fun s => .obj (membersOf s.root)

end Instrumentation.Toml
