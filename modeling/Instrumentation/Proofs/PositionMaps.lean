import Instrumentation.Rendering
import Instrumentation.Proofs.Offset
import Mathlib.Data.List.Basic
import Mathlib.Data.List.Induction

/-!
The map of a rendered text. Its stretches cover the text without a gap, so that the search among
their starts leads from each byte to where it was copied from, or to what it stands for.
-/
namespace Instrumentation

namespace Renderer

variable {r : Renderer}

/-- Stretches start one after the other, and not behind the text. -/
structure Ordered (r : Renderer) : Prop where
  starts : r.map.stretches.Pairwise fun a b => a.start ≤ b.start
  within : ∀ s ∈ r.map.stretches, s.start ≤ Text.byteLength r.out

theorem Ordered.push (h : r.Ordered) (s : Segment) : (r.push s).Ordered := by
  constructor
  · refine List.pairwise_append.mpr ⟨h.starts, List.pairwise_singleton _ _, fun a ha b hb => ?_⟩
    rw [List.mem_singleton.mp hb]
    exact h.within a ha
  · intro t ht
    have hout : Text.byteLength r.out ≤ Text.byteLength (r.push s).out := by simp [Renderer.push]
    rcases List.mem_append.mp ht with ht | ht
    · exact Nat.le_trans (h.within t ht) hout
    · rw [List.mem_singleton.mp ht]
      exact hout

theorem Ordered.toOriginal_eq (h : r.Ordered) (i : Nat) : r.map.toOriginal i =
    (r.map.stretches.filter (·.start ≤ i)).getLast?.elim ⟨0, false⟩ (·.origin i) := by
  rw [PositionMap.toOriginal, BinarySearch.floor?_key h.starts]

/-- What is written later does not change where the text before it comes from. -/
theorem Ordered.toOriginal_push (h : r.Ordered) (s : Segment) (i : Nat) :
    (r.push s).map.toOriginal i =
      if Text.byteLength r.out ≤ i then Stretch.origin ⟨Text.byteLength r.out, s.length, s.kind⟩ i
      else r.map.toOriginal i := by
  rw [(h.push s).toOriginal_eq, h.toOriginal_eq]
  by_cases hi : Text.byteLength r.out ≤ i
  · simp [Renderer.push, hi]
  · simp [Renderer.push, hi]

end Renderer

namespace Rendering

theorem renderer_concat (r : Rendering) (s : Segment) :
    renderer (r ++ [s]) = r.renderer.push s := by
  simp [renderer]

@[simp] theorem out_renderer (r : Rendering) : r.renderer.out = r.text := by
  induction r using List.reverseRecOn with
  | nil => rfl
  | append_singleton r s ih =>
    rw [renderer_concat, Renderer.push, ih, text_append]
    simp [text]

theorem ordered_renderer (r : Rendering) : r.renderer.Ordered := by
  induction r using List.reverseRecOn with
  | nil => exact ⟨.nil, fun s hs => absurd hs List.not_mem_nil⟩
  | append_singleton r s ih =>
    rw [renderer_concat]
    exact ih.push s

end Rendering

/-! ### Bytes and where they come from -/

namespace Text

/-- The bytes of a text in UTF-8. -/
def bytes (text : List Char) : List UInt8 := text.flatMap String.utf8EncodeChar

@[simp] theorem bytes_append (s t : List Char) : bytes (s ++ t) = bytes s ++ bytes t := by
  simp [bytes]

@[simp] theorem length_bytes (text : List Char) : (bytes text).length = byteLength text := by
  induction text with
  | nil => rfl
  | cons c cs ih =>
    rw [byteLength_cons, ← ih]
    simp [bytes]

end Text

/-- Stretches that cover the offsets from `start` to `stop`: one after the other, without a gap, and
none of them empty. -/
def Tiles : (start stop : Nat) → List Stretch → Prop
  | start, stop, [] => start = stop
  | start, stop, s :: rest => s.start = start ∧ 0 < s.length ∧ Tiles (start + s.length) stop rest

theorem Tiles.concat {start stop : Nat} {ss : List Stretch} (h : Tiles start stop ss) {s : Stretch}
    (hs : s.start = stop) (hpos : 0 < s.length) : Tiles start (stop + s.length) (ss ++ [s]) := by
  induction ss generalizing start with
  | nil =>
    obtain rfl : start = stop := h
    exact ⟨hs, hpos, rfl⟩
  | cons t ss ih =>
    obtain ⟨ht, hlen, hrest⟩ := h
    exact ⟨ht, hlen, ih hrest⟩

/-- The last stretch ends where the cover does. -/
theorem Tiles.stop_eq {start stop : Nat} {ss : List Stretch} (h : Tiles start stop ss) {s : Stretch}
    (hs : ss.getLast? = some s) : s.start + s.length = stop := by
  induction ss generalizing start with
  | nil => cases hs
  | cons t ss ih =>
    obtain ⟨rfl, -, hrest⟩ := h
    cases ss with
    | nil =>
      obtain rfl : t = s := by simpa using hs
      exact hrest
    | cons u ss => exact ih hrest (by simpa using hs)

/-- What lies past a stretch: the source behind what was copied, or what was inserted for. -/
def Stretch.past (s : Stretch) : Mapped :=
  match s.kind with
  | .copied start => ⟨start + s.length, false⟩
  | .inserted anchor => ⟨anchor, true⟩

theorem Stretch.origin_of_le {s : Stretch} {i : Nat} (h : s.start + s.length ≤ i) :
    s.origin i = s.past := by
  have hmin : min (i - s.start) s.length = s.length := by omega
  obtain ⟨start, length, kind⟩ := s
  cases kind with
  | copied n => exact congrArg (fun taken => Mapped.mk (n + taken) false) hmin
  | inserted anchor => rfl

namespace Segment

/-- The bytes of a segment, each with where it comes from. -/
def written : Segment → List (UInt8 × Mapped)
  | copied start t => ((Text.bytes t).zipIdx start).map fun x => (x.1, ⟨x.2, false⟩)
  | inserted anchor t => (Text.bytes t).map fun b => (b, ⟨anchor, true⟩)

def insertedText : Segment → List Char
  | copied _ _ => []
  | inserted _ t => t

@[simp] theorem map_fst_written (s : Segment) : s.written.map Prod.fst = Text.bytes s.text := by
  cases s with
  | copied start t =>
    rw [written, List.map_map]
    exact List.zipIdx_map_fst start (Text.bytes t)
  | inserted anchor t =>
    rw [written, List.map_map]
    exact List.map_id (Text.bytes t)

@[simp] theorem length_written (s : Segment) : s.written.length = s.length := by
  rw [← List.length_map (f := Prod.fst), map_fst_written, Text.length_bytes, length]

/-- Wherever a segment is written, the origin of a byte of it is where that byte comes from. -/
theorem origin_written {s : Segment} {i : Nat} {b : UInt8} {m : Mapped}
    (h : s.written[i]? = some (b, m)) (n : Nat) :
    Stretch.origin ⟨n, s.length, s.kind⟩ (n + i) = m := by
  have hlt : i < s.length := by
    rw [← length_written]
    exact (List.getElem?_eq_some_iff.mp h).1
  cases s with
  | copied start t =>
    simp only [written, List.getElem?_map, List.getElem?_zipIdx, Option.map_map,
      Option.map_eq_some_iff] at h
    obtain ⟨c, -, hm⟩ := h
    obtain ⟨-, rfl⟩ := Prod.mk.inj hm
    simp only [Stretch.origin, kind, Nat.add_sub_cancel_left, Nat.min_eq_left (Nat.le_of_lt hlt)]
  | inserted anchor t =>
    simp only [written, List.getElem?_map, Option.map_eq_some_iff] at h
    obtain ⟨c, -, hm⟩ := h
    exact (Prod.mk.inj hm).2

end Segment

namespace Renderer

variable {r : Renderer} {written : List (UInt8 × Mapped)}

/-- A text that consists of the bytes that were written, with a map that covers it and leads from
each byte to where it comes from. -/
structure Covers (r : Renderer) (written : List (UInt8 × Mapped)) : Prop where
  tiles : Tiles 0 (Text.byteLength r.out) r.map.stretches
  bytes : Text.bytes r.out = written.map Prod.fst
  origins : ∀ i b m, written[i]? = some (b, m) → r.map.toOriginal i = m

theorem Covers.push (h : r.Covers written) (hr : r.Ordered) {s : Segment} (hs : s.text ≠ []) :
    (r.push s).Covers (written ++ s.written) := by
  have hlength : written.length = Text.byteLength r.out := by
    rw [← Text.length_bytes, h.bytes, List.length_map]
  constructor
  · have htiles := h.tiles.concat (s := ⟨Text.byteLength r.out, s.length, s.kind⟩) rfl
      (Text.byteLength_pos hs)
    simpa [Renderer.push, Segment.length] using htiles
  · simp [Renderer.push, h.bytes]
  · intro i b m hi
    rw [hr.toOriginal_push]
    by_cases hle : Text.byteLength r.out ≤ i
    · rw [List.getElem?_append_right (hlength ▸ hle), hlength] at hi
      rw [if_pos hle]
      have horigin := Segment.origin_written hi (Text.byteLength r.out)
      rwa [Nat.add_sub_cancel' hle] at horigin
    · rw [List.getElem?_append_left (by omega)] at hi
      rw [if_neg hle]
      exact h.origins i b m hi

theorem insertedBytes_push (r : Renderer) (s : Segment) :
    (r.push s).map.insertedBytes = r.map.insertedBytes + Text.byteLength s.insertedText := by
  cases s <;> simp [push, PositionMap.insertedBytes, Stretch.insertedBytes, Segment.kind,
    Segment.insertedText, Segment.length, Segment.text]

/-- Past the end of a text, the end of its last stretch is meant. -/
theorem Covers.toOriginal_of_le (h : r.Covers written) (hr : r.Ordered) {i : Nat}
    (hi : Text.byteLength r.out ≤ i) :
    r.map.toOriginal i = r.map.stretches.getLast?.elim ⟨0, false⟩ Stretch.past := by
  have hall : r.map.stretches.filter (·.start ≤ i) = r.map.stretches := by
    rw [List.filter_eq_self]
    intro s hs
    simpa using Nat.le_trans (hr.within s hs) hi
  rw [hr.toOriginal_eq, hall]
  cases hlast : r.map.stretches.getLast? with
  | none => rfl
  | some s =>
    have hstop := h.tiles.stop_eq hlast
    exact Stretch.origin_of_le (hstop ▸ hi)

end Renderer

namespace Rendering

/-- Segments that are not empty are covered by the map of what they are written to. -/
theorem covers_renderer {r : Rendering} (h : ∀ s ∈ r, s.text ≠ []) :
    r.renderer.Covers (r.flatMap Segment.written) := by
  induction r using List.reverseRecOn with
  | nil => exact ⟨rfl, rfl, fun i b m hi => by cases hi⟩
  | append_singleton r s ih =>
    have hr := ih fun t ht => h t (List.mem_append_left [s] ht)
    rw [renderer_concat, List.flatMap_append, List.flatMap_singleton]
    exact hr.push (ordered_renderer r) (h s (List.mem_append_right r List.mem_cons_self))

/-- There is a stretch for each segment. -/
theorem map_stretches (r : Rendering) : r.renderer.map.stretches.map (fun s => (s.length, s.kind)) =
    r.map fun s => (s.length, s.kind) := by
  induction r using List.reverseRecOn with
  | nil => rfl
  | append_singleton r s ih =>
    rw [renderer_concat, Renderer.push, List.map_append, ih, List.map_append]
    rfl

theorem insertedBytes_eq (r : Rendering) :
    r.renderer.map.insertedBytes = Text.byteLength (r.flatMap Segment.insertedText) := by
  induction r using List.reverseRecOn with
  | nil => rfl
  | append_singleton r s ih =>
    rw [renderer_concat, Renderer.insertedBytes_push, ih, List.flatMap_append,
      List.flatMap_singleton, Text.byteLength_append]

end Rendering

/-! ### Steps of writing -/

namespace Edit

variable {source : List Char}

/-- What is copied stands between two characters of the source, unless nothing is copied. -/
def Within (source : List Char) : Edit → Prop
  | copy start stop => stop ≤ start ∨ Text.Boundary source start ∧ Text.Boundary source stop
  | insert _ _ => True

instance (source : List Char) : DecidablePred (Within source) := fun
  | copy _ _ => inferInstanceAs (Decidable (_ ∨ _))
  | insert _ _ => inferInstanceAs (Decidable True)

/-- The bytes that a step writes, each with where it comes from: bytes of the source with their own
offsets, or those of a new text with its anchor. -/
def written (source : List Char) : Edit → List (UInt8 × Mapped)
  | copy start stop => (((Text.bytes source).zipIdx.drop start).take (stop - start)).map
      fun x => (x.1, ⟨x.2, false⟩)
  | insert anchor text => (Text.bytes text).map fun b => (b, ⟨anchor, true⟩)

def insertedText : Edit → List Char
  | copy _ _ => []
  | insert _ text => text

/-- How long each segment of a step is and what it stands for; a step that writes nothing has
none. -/
def spans : Edit → List (Nat × Segment.Kind)
  | copy start stop => if stop ≤ start then [] else [(stop - start, .copied start)]
  | insert anchor text => if text.isEmpty then [] else [(Text.byteLength text, .inserted anchor)]

/-- What is copied is a stretch of the source of the length that the step says. -/
theorem Within.ofEdit_copy {start stop : Nat} (h : (copy start stop).Within source)
    (hlt : ¬stop ≤ start) : ∃ before mid rest, source = before ++ (mid ++ rest) ∧
      Text.byteLength before = start ∧ start + Text.byteLength mid = stop ∧
      Rendering.ofEdit source (copy start stop) = [.copied start mid] := by
  obtain ⟨hstart, hstop⟩ := h.resolve_left hlt
  obtain ⟨before, mid, rest, rfl, rfl, rfl⟩ :=
    Text.exists_between hstart hstop (Nat.le_of_not_le hlt)
  refine ⟨before, mid, rest, rfl, rfl, rfl, ?_⟩
  rw [Rendering.ofEdit, Rendering.copy, if_neg hlt,
    Text.slice_eq (Text.At.prefix_length before (mid ++ rest))]

theorem Within.map_ofEdit {e : Edit} (h : e.Within source) :
    (Rendering.ofEdit source e).map (fun s => (s.length, s.kind)) = e.spans := by
  cases e with
  | copy start stop =>
    by_cases hle : stop ≤ start
    · simp [Rendering.ofEdit, Rendering.copy, spans, hle]
    · obtain ⟨before, mid, rest, -, -, hstop, hcopied⟩ := h.ofEdit_copy hle
      have hlength : Text.byteLength mid = stop - start := by omega
      simp [hcopied, spans, hle, hlength, Segment.length, Segment.text, Segment.kind]
  | insert anchor text =>
    cases text <;> simp [Rendering.ofEdit, Rendering.insert, spans, Segment.length, Segment.text,
      Segment.kind]

/-- A step that stays within the source writes its bytes. -/
theorem Within.written_ofEdit {e : Edit} (h : e.Within source) :
    (Rendering.ofEdit source e).flatMap Segment.written = e.written source := by
  cases e with
  | copy start stop =>
    by_cases hle : stop ≤ start
    · simp [Rendering.ofEdit, Rendering.copy, hle, written, Nat.sub_eq_zero_of_le hle]
    · obtain ⟨before, mid, rest, rfl, rfl, rfl, hcopied⟩ := h.ofEdit_copy hle
      have hlength := Text.length_bytes before
      have hlength' := Text.length_bytes mid
      simp [hcopied, written, Segment.written, List.zipIdx_append, List.drop_left', List.take_left',
        hlength, hlength']
  | insert anchor text =>
    cases text with
    | nil => rfl
    | cons c cs => simp [Rendering.ofEdit, Rendering.insert, written, Segment.written]

/-- No step writes a segment that is empty. -/
theorem Within.text_ne_nil {e : Edit} (h : e.Within source) {s : Segment}
    (hs : s ∈ Rendering.ofEdit source e) : s.text ≠ [] := by
  cases e with
  | copy start stop =>
    by_cases hle : stop ≤ start
    · simp [Rendering.ofEdit, Rendering.copy, hle] at hs
    · obtain ⟨before, mid, rest, -, -, hstop, hcopied⟩ := h.ofEdit_copy hle
      rw [hcopied, List.mem_singleton] at hs
      rw [hs]
      rintro rfl
      exact hle (Nat.le_of_eq hstop.symm)
  | insert anchor text =>
    cases text with
    | nil => simp [Rendering.ofEdit, Rendering.insert] at hs
    | cons c cs =>
      obtain rfl : s = .inserted anchor (c :: cs) := by
        simpa [Rendering.ofEdit, Rendering.insert] using hs
      exact List.cons_ne_nil c cs

theorem insertedText_ofEdit (source : List Char) (e : Edit) :
    (Rendering.ofEdit source e).flatMap Segment.insertedText = e.insertedText := by
  cases e with
  | copy start stop =>
    by_cases hle : stop ≤ start <;>
      simp [Rendering.ofEdit, Rendering.copy, hle, insertedText, Segment.insertedText]
  | insert anchor text =>
    cases text <;> simp [Rendering.ofEdit, Rendering.insert, insertedText, Segment.insertedText]

end Edit

namespace Rendering

variable {source : List Char} {edits : List Edit}

theorem covers_ofEdits (h : ∀ e ∈ edits, e.Within source) :
    (ofEdits source edits).renderer.Covers (edits.flatMap (Edit.written source)) := by
  have hwritten : (ofEdits source edits).flatMap Segment.written =
      edits.flatMap (Edit.written source) := by
    rw [ofEdits, List.flatMap_assoc]
    exact List.flatMap_congr fun e he => (h e he).written_ofEdit
  rw [← hwritten]
  refine covers_renderer fun s hs => ?_
  obtain ⟨e, he, hs⟩ := List.mem_flatMap.mp hs
  exact (h e he).text_ne_nil hs

theorem map_stretches_ofEdits (h : ∀ e ∈ edits, e.Within source) :
    (ofEdits source edits).renderer.map.stretches.map (fun s => (s.length, s.kind)) =
      edits.flatMap Edit.spans := by
  rw [map_stretches, ofEdits, List.map_flatMap]
  exact List.flatMap_congr fun e he => (h e he).map_ofEdit

/-- The map of a text that is written step by step covers it from its start to its end with stretches
that are not empty, one for each step that writes anything. It leads from every byte to where that
was copied from, or to the anchor of what it was inserted with, and from past the end to what
follows the last stretch. -/
theorem map_covers_edits (h : ∀ e ∈ edits, e.Within source) :
    let r := (ofEdits source edits).renderer
    let written := edits.flatMap (Edit.written source)
    Tiles 0 (Text.byteLength r.out) r.map.stretches ∧
    r.map.stretches.map (fun s => (s.length, s.kind)) = edits.flatMap Edit.spans ∧
    Text.bytes r.out = written.map Prod.fst ∧
    (∀ i < Text.byteLength r.out, ∃ b, written[i]? = some (b, r.map.toOriginal i)) ∧
    (∀ i, Text.byteLength r.out ≤ i →
      r.map.toOriginal i = r.map.stretches.getLast?.elim ⟨0, false⟩ Stretch.past) ∧
    r.map.insertedBytes = Text.byteLength (edits.flatMap Edit.insertedText) := by
  intro r written
  have hcovers : r.Covers written := covers_ofEdits h
  refine ⟨hcovers.tiles, map_stretches_ofEdits h, hcovers.bytes, fun i hi => ?_,
    fun i hi => hcovers.toOriginal_of_le (ordered_renderer _) hi, ?_⟩
  · have hlength : i < written.length := by
      rwa [← Text.length_bytes, hcovers.bytes, List.length_map] at hi
    obtain ⟨⟨b, m⟩, hbyte⟩ : ∃ x, written[i]? = some x := ⟨_, List.getElem?_eq_getElem hlength⟩
    rw [hcovers.origins i b m hbyte]
    exact ⟨b, hbyte⟩
  · rw [insertedBytes_eq, ofEdits, List.flatMap_assoc]
    exact congrArg Text.byteLength
      (List.flatMap_congr fun e _ => Edit.insertedText_ofEdit source e)

/-- Text is inserted before anything is copied, nothing is copied or inserted in between, and the
second byte of the first character leads to its own offset. -/
theorem map_covers_edits_mixed :
    let source := "é\x7b\x7d\n".toList
    let edits := [.insert 2 ['a', 'b'], .copy 3 3, .copy 0 2, .insert 0 [], .copy 9 1, .copy 2 5,
      .insert 4 ['z']]
    (∀ e ∈ edits, e.Within source) ∧
    Tiles 0 8 (ofEdits source edits).renderer.map.stretches ∧
    (ofEdits source edits).origin 3 = ⟨1, false⟩ ∧
    (ofEdits source edits).origin 100 = ⟨4, true⟩ ∧
    (ofEdits source edits).insertedBytes = 3 := by
  intro source edits
  have hwithin : ∀ e ∈ edits, e.Within source := by decide +kernel
  obtain ⟨htiles, -, -, hinside, hpast, hinserted⟩ := map_covers_edits hwithin
  have hlength : Text.byteLength (ofEdits source edits).renderer.out = 8 := by decide +kernel
  rw [hlength] at htiles hinside hpast
  obtain ⟨b, hbyte⟩ := hinside 3 (by decide)
  have hwritten : (edits.flatMap (Edit.written source))[3]? = some (0xA9, ⟨1, false⟩) := by
    decide +kernel
  rw [hwritten] at hbyte
  have hlast : (ofEdits source edits).renderer.map.stretches.getLast? =
      some ⟨7, 1, .inserted 4⟩ := by decide +kernel
  have hend := hpast 100 (by decide)
  rw [hlast] at hend
  exact ⟨hwithin, htiles, (Prod.mk.inj (Option.some.inj hbyte)).2.symm, hend, hinserted⟩

end Rendering
end Instrumentation
