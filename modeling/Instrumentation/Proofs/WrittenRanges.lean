import Instrumentation.Proofs.LooseVersions
import Instrumentation.Proofs.RangeEnds

/-!
Ranges are read back from what is written of them: the written form of a range that is not empty is
read as that range, if versions can be written that stand at its ends (`text_reads_back`). All
ranges that are read are of this kind, and so are their intersections.
-/
namespace Instrumentation

namespace Bound

/-- The bracket that opens a range with this lower bound. -/
def opening : Bound → Char
  | unbounded => '['
  | included _ => '['
  | excluded _ => '('

/-- The bracket that closes a range with this upper bound. -/
def closing : Bound → Char
  | unbounded => ')'
  | included _ => ']'
  | excluded _ => ')'

/-- What stands for a bound between its bracket and the comma. -/
def written (b : Bound) : List Char :=
  match b.version? with
  | none => []
  | some v => v.text.toList

/-- A bound stands at a valid version, if at any. -/
def Valid (b : Bound) : Prop := ∀ v ∈ b.version?, v.Valid

variable {b : Bound}

theorem mem_written {c : Char} (h : c ∈ b.written) : ∃ v ∈ b.version?, c ∈ v.text.toList := by
  unfold written at h
  split at h
  · cases h
  · next v hv => exact ⟨v, hv, h⟩

theorem Valid.not_blank (hb : b.Valid) : ∀ c ∈ b.written, Text.isBlank c = false := by
  intro c hc
  obtain ⟨v, hv, hc⟩ := mem_written hc
  exact (hb v hv).not_blank c hc

theorem Valid.comma_not_mem (hb : b.Valid) : ',' ∉ b.written := by
  intro hc
  obtain ⟨v, hv, hc⟩ := mem_written hc
  exact (hb v hv).comma_not_mem hc

end Bound

namespace VersionRange

theorem readBound_text {v : Version} (hv : v.Valid) (closed : Bool) :
    readBound closed v.text.toList = .ok (if closed then .included v else .excluded v) := by
  obtain ⟨d, cs, -, htext⟩ := v.exists_digit_cons
  unfold readBound
  rw [Text.trim_of_not_blank hv.not_blank]
  split
  · next hnil =>
    rw [hnil] at htext
    cases htext
  · rw [String.ofList_toList, Version.readLoose_text hv]

theorem readBound_opening {b : Bound} (hb : b.Valid) :
    readBound (b.opening == '[') b.written = .ok b := by
  cases b with
  | unbounded => rfl
  | included v => exact readBound_text (hb v rfl) true
  | excluded v => exact readBound_text (hb v rfl) false

theorem readBound_closing {b : Bound} (hb : b.Valid) :
    readBound (b.closing == ']') b.written = .ok b := by
  cases b with
  | unbounded => rfl
  | included v => exact readBound_text (hb v rfl) true
  | excluded v => exact readBound_text (hb v rfl) false

variable {r : VersionRange}

theorem toList_text (h : r.isAny = false) : r.text.toList =
    r.lower.opening :: (r.lower.written ++ ',' :: r.upper.written) ++ [r.upper.closing] := by
  rw [text, h]
  rcases r with ⟨_ | _ | _, _ | _ | _⟩ <;>
    simp [Bound.opening, Bound.closing, Bound.written, Bound.version?]

/-- A range that is not empty is read from its written form. -/
theorem read_text (hempty : r.isEmpty = false) (hlower : r.lower.Valid) (hupper : r.upper.Valid) :
    read r.text = .ok r := by
  cases hany : r.isAny with
  | true =>
    obtain rfl : r = any := eq_of_beq hany
    rfl
  | false =>
    have htext := toList_text hany
    have hopening : r.lower.opening = '[' ∨ r.lower.opening = '(' := by
      cases r.lower <;> simp [Bound.opening]
    have hclosing : r.upper.closing = ']' ∨ r.upper.closing = ')' := by
      cases r.upper <;> simp [Bound.closing]
    have hblank : ∀ c ∈ r.text.toList, Text.isBlank c = false := by
      intro c hc
      rw [htext] at hc
      simp only [List.mem_cons, List.mem_append, List.not_mem_nil, or_false] at hc
      rcases hc with (rfl | hc | rfl | hc) | rfl
      · rcases hopening with h | h <;> rw [h] <;> rfl
      · exact hlower.not_blank c hc
      · rfl
      · exact hupper.not_blank c hc
      · rcases hclosing with h | h <;> rw [h] <;> rfl
    have hinterval : readInterval r.text.toList = .ok r := by
      rw [readInterval_eq_ok_iff, htext, List.getLast?_concat, Option.getD_some]
      refine ⟨hclosing, r.lower.written, r.upper.written, ?_, readBound_opening hlower,
        readBound_closing hupper, hempty⟩
      rw [List.cons_append, List.drop_one, List.tail_cons, List.dropLast_concat]
      exact Text.cut_append hlower.comma_not_mem _
    unfold read
    rw [Text.trim_of_not_blank hblank]
    rw [htext, List.cons_append] at hinterval ⊢
    rcases hopening with h | h
    · rw [h] at hinterval ⊢
      exact hinterval
    · rw [h] at hinterval ⊢
      exact hinterval

/-- Ranges are read back from what is written of them, and what is read is a range of this kind:
it is not empty, and full versions stand at its ends. -/
theorem text_reads_back :
    (∀ r : VersionRange, r.isEmpty = false → (∀ v ∈ r.ends, v.Valid) → read r.text = .ok r)
    ∧ (∀ s r, read s = .ok r → r.isEmpty = false ∧ ∀ v ∈ r.ends, v.Valid)
    ∧ (∀ a b : VersionRange, (∀ v ∈ a.ends, v.Valid) → (∀ v ∈ b.ends, v.Valid) →
      ∀ v ∈ (a.intersect b).ends, v.Valid)
    ∧ ∀ v : Version, v.Valid ↔ ∃ s, Version.ofString? s = some v := by
  refine ⟨?_, ?_, ?_, fun v => Version.valid_iff_ofString?⟩
  · intro r hempty hends
    refine read_text hempty (fun v hv => hends v ?_) (fun v hv => hends v ?_)
    · exact mem_ends.mpr (.inl hv)
    · exact mem_ends.mpr (.inr hv)
  · intro s r h
    refine ⟨isEmpty_of_read h, fun v hv => ?_⟩
    rcases mem_ends_of_read h hv with ⟨_, -, hread⟩ | ⟨hvalid, -⟩
    · exact Version.valid_of_readLoose hread
    · exact hvalid
  · intro a b ha hb v hv
    rcases mem_ends_intersect hv with hv | hv
    · exact ha v hv
    · exact hb v hv

def lastCandidate : Version := ⟨1, 0, 0, [.word "rc", .number 1], [.number 1 7, .word "x-2"]⟩

/-- What follows the last candidate of a release, with its builds. -/
def afterCandidate : VersionRange := ⟨.excluded lastCandidate, .included ⟨2, 0, 0, [], []⟩⟩

/-- A range that is written loosely is written in full once it is read, and so is what it shares
with a requirement. -/
theorem afterCandidate_reads_back :
    read " (v1.0.0-rc.1+07.x-2, 2] " = .ok afterCandidate
    ∧ afterCandidate.text = "(1.0.0-rc.1+07.x-2,2.0.0]"
    ∧ read afterCandidate.text = .ok afterCandidate
    ∧ read (afterCandidate.intersect ⟨.included ⟨1, 2, 0, [], []⟩, .excluded ⟨2, 0, 0, [], []⟩⟩).text
      = .ok (afterCandidate.intersect ⟨.included ⟨1, 2, 0, [], []⟩, .excluded ⟨2, 0, 0, [], []⟩⟩)
    ∧ lastCandidate.Valid := by
  obtain ⟨hback, hkind, hmeet, hvalid⟩ := text_reads_back
  have hinterval : read " (v1.0.0-rc.1+07.x-2, 2] " = .ok afterCandidate := rfl
  have hreq : read ">=1.2, <2" =
      .ok ⟨.included ⟨1, 2, 0, [], []⟩, .excluded ⟨2, 0, 0, [], []⟩⟩ := rfl
  obtain ⟨hempty, hends⟩ := hkind _ _ hinterval
  obtain ⟨-, hends'⟩ := hkind _ _ hreq
  have hshared : (afterCandidate.intersect
      ⟨.included ⟨1, 2, 0, [], []⟩, .excluded ⟨2, 0, 0, [], []⟩⟩).isEmpty = false := by decide
  exact ⟨hinterval, by decide, hback _ hempty hends, hback _ hshared (hmeet _ _ hends hends'),
    (hvalid lastCandidate).mpr ⟨"1.0.0-rc.1+07.x-2", rfl⟩⟩

end VersionRange
end Instrumentation
