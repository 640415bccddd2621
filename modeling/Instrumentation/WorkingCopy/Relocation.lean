import Instrumentation.Path

/-!
Relocations: which directory has which copy. Where one directory lies in another, the inner one
decides, so that each path has one place in the copy and leads back to where it came from.
-/
namespace Instrumentation

/-- A directory and its copy. -/
structure Relocation where
  source : Path
  copy : Path
  deriving DecidableEq, Repr

namespace Relocation

/-- The same, seen from the copy. -/
def reversed (r : Relocation) : Relocation := ⟨r.copy, r.source⟩

def depth (r : Relocation) : Nat := r.source.components.length

/-- The deeper of two relocations; of equally deep ones the second. -/
def deeper (a b : Relocation) : Relocation := if b.depth < a.depth then a else b

/-- The deepest of the relocations whose directory holds a path. -/
def covering? (rs : List Relocation) (p : Path) : Option Relocation :=
  match rs.filter fun r => p.startsWith r.source with
  | [] => none
  | r :: rest => some (rest.foldl deeper r)

/-- The place of a path in the copies. -/
def move? (rs : List Relocation) (p : Path) : Option Path := do
  let r ← covering? rs p
  let rest ← p.strip? r.source
  return r.copy.join rest.text

end Relocation
end Instrumentation
