import Instrumentation.Failure

/-!
A file tree: what a run can read, and where its writing goes. Looking up a path follows it step by
step, as a file system does: every step but the last has to be a directory, and `..` leads from a
directory to the one that holds it.
-/
namespace Instrumentation

/-- What a file holds. -/
inductive Content where
  | text (text : String)
  /-- Bytes that are no text. -/
  | bytes (bytes : List UInt8)
  deriving DecidableEq, Repr

/-- The names that lead from the root to a file or directory. -/
abbrev Place := List String

structure FileTree where
  files : List (Place × Content) := []
  /-- Directories, also empty ones; the directories on the way to a file need not be listed. -/
  dirs : List Place := []
  /-- Where relative paths start. -/
  cwd : Place := []

namespace FileTree

def fileAt? (t : FileTree) (p : Place) : Option Content :=
  (t.files.find? fun f => f.1 == p).map Prod.snd

def hasFile (t : FileTree) (p : Place) : Bool := (t.fileAt? p).isSome

/-- The root, a listed directory, or a directory on the way to something. -/
def hasDir (t : FileTree) (p : Place) : Bool :=
  p.isEmpty || t.dirs.any p.isPrefixOf || t.files.any fun f => p.isPrefixOf f.1 && p != f.1

/-- A path has fewer bytes than this. -/
def pathLimit : Nat := 4096

/-- A name has no more bytes than this. -/
def nameLimit : Nat := 255

/-- One step from a place that exists. -/
def step (t : FileTree) (p : Place) (piece : String) : Except IoFault Place :=
  if !t.hasDir p then .error .notDirectory
  else if piece == "" || piece == "." then .ok p
  else if piece == ".." then .ok p.dropLast
  else if piece.utf8ByteSize > nameLimit then .error .nameTooLong
  else if t.hasFile (p ++ [piece]) || t.hasDir (p ++ [piece]) then .ok (p ++ [piece])
  else .error .notFound

/-- The names in a path, between its slashes. -/
def pieces (p : Path) : List String := (Text.pieces '/' p.text.toList).map String.ofList

/-- Where a path starts. -/
def start (t : FileTree) (p : Path) : Place := if p.isAbsolute then [] else t.cwd

/-- The place that a path leads to, if it exists. -/
def place (t : FileTree) (p : Path) : Except IoFault Place :=
  if p.text.isEmpty then .error .notFound
  else if p.text.utf8ByteSize ≥ pathLimit then .error .nameTooLong
  else (pieces p).foldlM t.step (t.start p)

/-- Whether a path leads to something. -/
def exists? (t : FileTree) (p : Path) : Bool :=
  match t.place p with
  | .ok _ => true
  | .error _ => false

def isFile (t : FileTree) (p : Path) : Bool :=
  match t.place p with
  | .ok place => t.hasFile place
  | .error _ => false

def isDir (t : FileTree) (p : Path) : Bool :=
  match t.place p with
  | .ok place => t.hasDir place
  | .error _ => false

/-- What a file holds. -/
def read (t : FileTree) (p : Path) : Except IoFault Content := do
  match t.fileAt? (← t.place p) with
  | some c => return c
  | none => throw .isDirectory

/-- The text of a file. -/
def readText (t : FileTree) (p : Path) : Except IoFault String := do
  match ← t.read p with
  | .text s => return s
  | .bytes _ => throw .notText

/-- A place written as a path. -/
def pathOf (p : Place) : Path := ⟨"/" ++ Text.joined "/" p⟩

/-- The path of what exists at a path, without detours. -/
def canonical (t : FileTree) (p : Path) : Except IoFault Path := (t.place p).map pathOf

end FileTree
end Instrumentation
