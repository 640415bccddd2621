import Instrumentation.Path
import Instrumentation.Version.Basic

/-!
Packages of a program.
-/
namespace Instrumentation

/-- Where a package comes from. -/
inductive PackageSource where
  /-- A directory of the program or beside it. -/
  | path
  | registry (id : String)
  | git (id : String)
  deriving DecidableEq, Repr

structure Package where
  id : String
  name : String
  /-- The name of the library, as it is written in code. -/
  crateName : String
  version : Version
  manifestPath : Path
  libRoot : Option Path
  binRoots : List Path
  edition : String
  source : PackageSource
  isMember : Bool
  deriving DecidableEq, Repr

/-- A text with underscores for its dashes. -/
def underscored (s : String) : String :=
  String.ofList (s.toList.map fun c => if c = '-' then '_' else c)

/-- Whether two package names differ in nothing but dashes and underscores. -/
def samePackageName (a b : String) : Bool := underscored a == underscored b

namespace PackageSource

/-- The text without all of its leading copies of `lead`. -/
def dropAll (lead : List Char) (fuel : Nat) (cs : List Char) : List Char :=
  match fuel with
  | 0 => cs
  | fuel + 1 => match Text.after? lead cs with
    | some rest => dropAll lead fuel rest
    | none => cs

/-- `dropAll` as often as it takes. -/
def without (lead : String) (cs : List Char) : List Char := dropAll lead.toList cs.length cs

/-- Whether a text holds another one. -/
def holds (part : List Char) : List Char → Bool
  | [] => part.isEmpty
  | c :: cs => part.isPrefixOf (c :: cs) || holds part cs

def ofText (s : String) : PackageSource :=
  if "git+".toList.isPrefixOf s.toList then git s
  else if "path+".toList.isPrefixOf s.toList then path
  else registry s

/-- A package without a source id is a directory. -/
def ofText? : Option String → PackageSource
  | none => path
  | some s => ofText s

/-- The name under which packages of a source are replaced; directories have none. -/
def patchKey? : PackageSource → Option String
  | path => none
  | registry id =>
    let cs := id.toList
    if holds "crates.io-index".toList cs || holds "index.crates.io".toList cs then
      some "crates-io"
    else some (String.ofList (without "sparse+" (without "registry+" cs)))
  | git id =>
    some (String.ofList ((without "git+" id.toList).takeWhile fun c => c != '?' && c != '#'))

end PackageSource

namespace Package

def rootDir (p : Package) : Path := (p.manifestPath.parent?).getD ⟨""⟩

def label (p : Package) : String := p.name ++ "@" ++ p.version.text

end Package
end Instrumentation
