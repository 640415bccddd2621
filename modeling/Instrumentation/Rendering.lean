import Instrumentation.Sorting
import Instrumentation.Text.LineIndex

/-!
Texts rendered from a source by insertions alone. A rendering is the list of its segments, each
copied from the source or inserted at an anchor. Written one after the other they give the text and
a map of it, in which every place of the text leads back to a place in the source.
-/
namespace Instrumentation

inductive Segment where
  /-- Text copied from the source, where it starts at the offset `start`. -/
  | copied (start : Nat) (text : List Char)
  /-- Text that stands for the offset `anchor` of the source. -/
  | inserted (anchor : Nat) (text : List Char)
  deriving DecidableEq, Repr

/-- An offset of the source, and whether inserted text led to it. -/
structure Mapped where
  offset : Nat
  generated : Bool
  deriving DecidableEq, Repr

abbrev Rendering := List Segment

namespace Segment

/-- What a segment stands for: the source from an offset on, or one offset of it. -/
inductive Kind where
  | copied (start : Nat)
  | inserted (anchor : Nat)
  deriving DecidableEq, Repr

def text : Segment → List Char
  | copied _ t => t
  | inserted _ t => t

def length (s : Segment) : Nat := Text.byteLength s.text

def kind : Segment → Kind
  | copied start _ => .copied start
  | inserted anchor _ => .inserted anchor

end Segment

/-- A segment without its text: the offset in the rendered text at which it starts, and how many
bytes of what it has. -/
structure Stretch where
  start : Nat
  length : Nat
  kind : Segment.Kind
  deriving DecidableEq, Repr

namespace Stretch

/-- The origin of an offset in a stretch; past its end, of the end. -/
def origin (s : Stretch) (offset : Nat) : Mapped :=
  match s.kind with
  | .copied start => ⟨start + min (offset - s.start) s.length, false⟩
  | .inserted anchor => ⟨anchor, true⟩

/-- The number of bytes that are not in the source. -/
def insertedBytes (s : Stretch) : Nat :=
  match s.kind with
  | .copied _ => 0
  | .inserted _ => s.length

end Stretch

/-- The stretches of a rendered text, in order. -/
structure PositionMap where
  stretches : List Stretch
  deriving DecidableEq, Repr

namespace PositionMap

/-- The origin of an offset of the rendered text, by the last stretch that does not start behind
it. -/
def toOriginal (m : PositionMap) (offset : Nat) : Mapped :=
  (BinarySearch.floor? (fun s : Stretch => compare s.start offset) m.stretches).elim ⟨0, false⟩
    fun s => s.origin offset

def insertedBytes (m : PositionMap) : Nat :=
  m.stretches.foldl (fun total s => total + s.insertedBytes) 0

end PositionMap

/-- A rendered text as far as it is written, and the map that leads back from it. -/
structure Renderer where
  out : List Char
  map : PositionMap
  deriving DecidableEq, Repr

namespace Renderer

def empty : Renderer := ⟨[], ⟨[]⟩⟩

/-- Writes a segment behind what is there. -/
def push (r : Renderer) (s : Segment) : Renderer where
  out := r.out ++ s.text
  map := ⟨r.map.stretches ++ [⟨Text.byteLength r.out, s.length, s.kind⟩]⟩

end Renderer

/-- A step in writing a rendered text. -/
inductive Edit where
  | copy (start stop : Nat)
  | insert (anchor : Nat) (text : List Char)
  deriving DecidableEq, Repr

namespace Rendering

/-- The source from one offset to another, as at most one segment. -/
def copy (source : List Char) (start stop : Nat) : Rendering :=
  if stop ≤ start then [] else [.copied start (Text.slice source start stop)]

/-- New text at an anchor, as at most one segment. -/
def insert (anchor : Nat) (text : List Char) : Rendering :=
  if text.isEmpty then [] else [.inserted anchor text]

def ofEdit (source : List Char) : Edit → Rendering
  | .copy start stop => copy source start stop
  | .insert anchor text => insert anchor text

/-- What the steps write, one after the other. -/
def ofEdits (source : List Char) (edits : List Edit) : Rendering := edits.flatMap (ofEdit source)

def text (r : Rendering) : List Char := r.flatMap Segment.text

/-- The text with its map, written segment by segment. -/
def renderer (r : Rendering) : Renderer := r.foldl Renderer.push .empty

def insertedBytes (r : Rendering) : Nat := r.renderer.map.insertedBytes

/-- The origin of an offset of the rendered text; past its end, of the end. -/
def origin (r : Rendering) (offset : Nat) : Mapped := r.renderer.map.toOriginal offset

/-- The offsets at which lines start. -/
def lineStarts : (offset : Nat) → List (List Char) → List Nat
  | _, [] => []
  | offset, l :: ls => offset :: lineStarts (offset + Text.byteLength l) ls

/-- Each rendered line with the line of the source that its start comes from. -/
def lineTable (r : Rendering) (source : List Char) : List (Nat × Nat) :=
  (lineStarts 0 (Text.linesWithEnds r.text)).zipIdx.map fun (start, i) =>
    (i + 1, (Text.lineCol source (r.origin start).offset).1)

/-- Text to be inserted before an offset, standing for an anchor. -/
structure Insertion where
  offset : Nat
  anchor : Nat
  text : List Char
  deriving DecidableEq, Repr

/-- The steps that write the source from `cursor` on with the insertions, which come in the order of
their offsets. -/
def editsFrom (source : List Char) : (cursor : Nat) → List Insertion → List Edit
  | cursor, [] => [.copy cursor (Text.byteLength source)]
  | cursor, i :: rest =>
    .copy cursor i.offset :: .insert i.anchor i.text :: editsFrom source i.offset rest

/-- The source from `cursor` on, with the insertions, which come in the order of their offsets. -/
def interleave (source : List Char) (cursor : Nat) (insertions : List Insertion) : Rendering :=
  ofEdits source (editsFrom source cursor insertions)

/-- The source with all insertions; those at one offset keep their order. -/
def ofInsertions (source : List Char) (insertions : List Insertion) : Rendering :=
  interleave source 0 (sortedBy (fun a b => decide (a.offset ≤ b.offset)) insertions)

theorem interleave_nil (source : List Char) (cursor : Nat) :
    interleave source cursor [] = copy source cursor (Text.byteLength source) := by
  simp [interleave, editsFrom, ofEdits, ofEdit]

theorem interleave_cons (source : List Char) (cursor : Nat) (i : Insertion)
    (insertions : List Insertion) : interleave source cursor (i :: insertions) =
      copy source cursor i.offset ++ insert i.anchor i.text ++
        interleave source i.offset insertions := by
  simp [interleave, editsFrom, ofEdits, ofEdit]

@[simp] theorem text_append (r s : Rendering) : (r ++ s).text = r.text ++ s.text := by
  simp [text]

@[simp] theorem text_insert (anchor : Nat) (t : List Char) : (insert anchor t).text = t := by
  unfold insert
  split <;> simp_all [text, Segment.text]

end Rendering
end Instrumentation
