import Instrumentation.Sorting
import Instrumentation.Text.Pieces

/-!
File paths as texts. A path is what is written; two paths that differ only in repeated slashes or
in dots that stand for the directory itself have the same components, and are compared by them.
-/
namespace Instrumentation

structure Path where
  text : String
  deriving DecidableEq, Repr, Inhabited

/-- A component of a path, in the order by which paths are sorted. -/
inductive PathComponent where
  | root
  | here
  | up
  | name (text : String)
  deriving DecidableEq, Repr

namespace PathComponent

def text : PathComponent → String
  | root => "/"
  | here => "."
  | up => ".."
  | name s => s

def rank : PathComponent → Nat
  | root => 0
  | here => 1
  | up => 2
  | name _ => 3

def cmp (a b : PathComponent) : Ordering :=
  (compare a.rank b.rank).then (compare a.text b.text)

instance : Std.TransCmp cmp :=
  inferInstanceAs (Std.TransCmp (compareLex (compareOn rank) (compareOn text)))

end PathComponent

namespace Path

/-- A component with the part of the text before its end. -/
structure Located where
  component : PathComponent
  start : Nat
  stop : Nat

/-- The pieces between slashes, each with the index it starts at. -/
def piecesFrom : (start : Nat) → List (List Char) → List (Nat × List Char)
  | _, [] => []
  | start, p :: ps => (start, p) :: piecesFrom (start + p.length + 1) ps

/-- What a piece between slashes stands for; a dot stands for something only at the start. -/
def component? (first : Bool) (piece : List Char) : Option PathComponent :=
  match piece with
  | [] => none
  | ['.'] => if first then some .here else none
  | ['.', '.'] => some .up
  | cs => some (.name (String.ofList cs))

/-- The components of a path with the places they are written at. -/
def located (p : Path) : List Located :=
  let cs := p.text.toList
  let isRooted := cs.head? == some '/'
  (if isRooted then [⟨.root, 0, 1⟩] else []) ++
    (piecesFrom 0 (Text.pieces '/' cs)).filterMap fun (start, piece) =>
      (component? (start == 0 && !isRooted) piece).map fun c => ⟨c, start, start + piece.length⟩

def components (p : Path) : List PathComponent := p.located.map Located.component

/-- Paths are the same if their components are. -/
def same (p q : Path) : Bool := p.components == q.components

/-- Paths are sorted component by component. -/
def cmp (p q : Path) : Ordering := p.components.compareLex PathComponent.cmp q.components

instance : Std.TransCmp cmp := transCmp_on components (List.compareLex PathComponent.cmp)

def isAbsolute (p : Path) : Bool := p.text.toList.head? == some '/'

/-- The path `q` seen from `p`: an absolute path stays what it is, and an empty one leaves a
slash at the end. -/
def join (p : Path) (q : String) : Path :=
  if q.toList.head? == some '/' then ⟨q⟩
  else if p.text.isEmpty || p.text.toList.getLast? == some '/' then ⟨p.text ++ q⟩
  else ⟨p.text ++ "/" ++ q⟩

instance : HDiv Path String Path := ⟨join⟩

/-- The part of the text between two indices. -/
def between (p : Path) (start stop : Nat) : Path :=
  ⟨String.ofList ((p.text.toList.take stop).drop start)⟩

/-- The path without its last component, unless that is the root. -/
def parent? (p : Path) : Option Path :=
  match p.located.reverse with
  | [] => none
  | ⟨.root, _, _⟩ :: _ => none
  | _ :: [] => some ⟨""⟩
  | _ :: before :: _ => some (p.between 0 before.stop)

/-- The last component, if it is a name. -/
def fileName? (p : Path) : Option String :=
  match p.components.getLast? with
  | some (.name s) => some s
  | _ => none

/-- The part of the file name after its last dot, and the part before it. -/
def splitExtension (name : String) : String × Option String :=
  let cs := name.toList.reverse
  let ext := cs.takeWhile (· != '.')
  match cs.drop ext.length with
  | [] => (name, none)
  | _ :: before =>
    if before.isEmpty then (name, none)
    else (String.ofList before.reverse, some (String.ofList ext.reverse))

def extension? (p : Path) : Option String := p.fileName?.bind fun n => (splitExtension n).2

/-- Whether the components of `base` start those of `p`. -/
def startsWith (p base : Path) : Bool := base.components.isPrefixOf p.components

/-- What is left of `p` after the components of `base`. -/
def strip? (p base : Path) : Option Path :=
  if p.startsWith base then
    let rest := p.located.drop base.components.length
    match rest.head?, rest.getLast? with
    | some first, some last => some (p.between first.start last.stop)
    | _, _ => some ⟨""⟩
  else none

/-- The path written from its components. -/
def ofComponents (cs : List PathComponent) : Path :=
  cs.foldl (fun p c => p.join c.text) ⟨""⟩

/-- One component more: `..` takes the last component away, unless there is none but the root. -/
def step (done : List PathComponent) (c : PathComponent) : List PathComponent :=
  match c with
  | .here => done
  | .up => match done with
    | [] => [.up]
    | .root :: _ => .up :: done
    | _ :: rest => rest
  | c => c :: done

/-- The path without dots, and without names that `..` takes away again. -/
def normalize (p : Path) : Path :=
  ofComponents (p.components.foldl step []).reverse

end Path
end Instrumentation
