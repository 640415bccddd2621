import Instrumentation.Proofs.RangeEnds

/-!
The last numbers. The bounds of a comparator are taken from the numbers after those it names, and
the last number has none after it. A requirement that names it anywhere overflows, whichever of the
numbers its operator asks for (`overflows_iff`).
-/
namespace Instrumentation

namespace Comparator

variable {c : Comparator}

/-- One of the numbers that are given is the last one. -/
def NamesLast (c : Comparator) : Prop :=
  ∃ n, (n = c.major ∨ c.minor = some n ∨ c.patch = some n) ∧ n + 1 = componentBound

theorem lt_of_readNumber {part : VersionPart} {cs rest : List Char} {n : Nat}
    (h : Version.readNumber part cs = .ok (n, rest)) : n < componentBound :=
  (Version.readNumber_eq_ok_iff.mp h).1

theorem lt_of_readSlot {part : VersionPart} {afterWild : Bool} {cs rest : List Char} {slot : Slot}
    (h : readSlot part afterWild cs = .ok (slot, rest)) :
    ∀ n ∈ slot.value?, n < componentBound := by
  rcases cases_of_readSlot h with ⟨rfl, -⟩ | ⟨rfl, -⟩ | ⟨-, n, more, rfl, -, hn⟩
  · simp [Slot.value?]
  · simp [Slot.value?]
  · intro m hm
    obtain rfl := Option.some.inj hm
    exact lt_of_readNumber hn

theorem inBounds_of_read {cs rest : List Char} {part : VersionPart}
    (h : read cs = .ok (c, part, rest)) : c.InBounds := by
  obtain ⟨_, _, _, _, major, minor, patch, pre, hmajor, hminor, hpatch, -, rfl⟩ := read_eq_ok h
  exact ⟨lt_of_readNumber hmajor, lt_of_readSlot hminor, lt_of_readSlot hpatch⟩

/-- Only the last number has no successor. -/
theorem InBounds.hasSuccessors_iff (h : c.InBounds) : c.HasSuccessors ↔ ¬ c.NamesLast := by
  constructor
  · rintro ⟨hmajor, hminor, hpatch⟩ ⟨n, rfl | hn | hn, hlast⟩
    · omega
    · have hlt := hminor n hn
      omega
    · have hlt := hpatch n hn
      omega
  · intro hnot
    have hnext (n : Nat) (hn : n = c.major ∨ c.minor = some n ∨ c.patch = some n)
        (hlt : n < componentBound) : n + 1 < componentBound := by
      have hne : n + 1 ≠ componentBound := fun hlast => hnot ⟨n, hn, hlast⟩
      omega
    exact ⟨hnext _ (.inl rfl) h.major, fun n hn => hnext n (.inr (.inl hn)) (h.minor n hn),
      fun n hn => hnext n (.inr (.inr hn)) (h.patch n hn)⟩

theorem range?_eq_none_iff {cs rest : List Char} {part : VersionPart}
    (h : read cs = .ok (c, part, rest)) : c.range? = none ↔ c.NamesLast := by
  have hsucc := (inBounds_of_read h).hasSuccessors_iff
  constructor
  · intro hnone
    by_contra hnot
    rw [(hsucc.mpr hnot).range?_eq] at hnone
    cases hnone
  · intro hlast
    rw [Option.eq_none_iff_forall_ne_some]
    intro r hr
    exact hsucc.mp (hasSuccessors_of_range? (wellFormed_of_read h) hr) hlast

/-- The operators that set no other bound than the version that is named. -/
def StandsAtBase (c : Comparator) : Prop :=
  c.op = .greaterEq ∨ c.op = .less ∨
    c.patch.isSome = true ∧ (c.op = .exact ∨ c.op = .greater ∨ c.op = .lessEq)

theorem StandsAtBase.ends_bounds (h : c.StandsAtBase) : ∀ v ∈ c.bounds.ends, v = c.base := by
  intro v hv
  rw [VersionRange.mem_ends, bounds] at hv
  unfold StandsAtBase at h
  grind [Bound.version?]

end Comparator

namespace VersionRange

theorem foldlM_narrow?_eq_none_iff {req : Requirement} {range : VersionRange} :
    req.foldlM narrow? range = none ↔ ∃ c ∈ req, c.range? = none := by
  induction req generalizing range with
  | nil => simp
  | cons c rest ih =>
    rw [List.foldlM_cons, List.exists_mem_cons_iff, narrow?]
    cases hc : c.range? with
    | none => simp
    | some own => simpa using ih

theorem ofRequirement?_eq_none_iff {req : Requirement} :
    ofRequirement? req = none ↔ ∃ c ∈ req, c.range? = none := by
  rw [ofRequirement?_eq, foldlM_narrow?_eq_none_iff]

/-- A requirement overflows if it names the last number anywhere, and only then; otherwise each of
its comparators has bounds at versions that can be written. Comparators that stand at the version
they name have such bounds even if they overflow. -/
theorem overflows_iff {s : String} {req : Requirement}
    (h : Requirement.read (Text.trim s.toList) = .ok req) :
    (∀ c ∈ req, c.range? = none ↔ c.NamesLast)
    ∧ (∀ c ∈ req, ¬ c.NamesLast → c.range? = some c.bounds ∧ ∀ v ∈ c.bounds.ends, v.Valid)
    ∧ (read s = .error .overflow ↔ ∃ c ∈ req, c.NamesLast)
    ∧ ∀ c ∈ req, c.StandsAtBase → ∀ v ∈ c.bounds.ends, v.Valid := by
  have hnone (c : Comparator) (hc : c ∈ req) : c.range? = none ↔ c.NamesLast := by
    obtain ⟨_, _, _, hread⟩ := Requirement.exists_read h hc
    exact Comparator.range?_eq_none_iff hread
  refine ⟨hnone, fun c hc hnot => ?_, ?_, fun c hc hbase v hv => ?_⟩
  · obtain ⟨_, _, _, hread⟩ := Requirement.exists_read h hc
    have hsucc := (Comparator.inBounds_of_read hread).hasSuccessors_iff.mpr hnot
    refine ⟨hsucc.range?_eq, fun v hv => ?_⟩
    exact (hsucc.valid_of_mem_ends (Comparator.valid_pre_of_read hread) hv).1
  · have hoverflow : read s = .error .overflow ↔ ofRequirement? req = none := by
      rw [read_of_requirement h]
      cases ofRequirement? req with
      | none => simp
      | some range => cases hempty : range.isEmpty <;> simp [hempty]
    rw [hoverflow, ofRequirement?_eq_none_iff]
    exact exists_congr fun c => and_congr_right fun hc => hnone c hc
  · obtain ⟨_, _, _, hread⟩ := Requirement.exists_read h hc
    rw [hbase.ends_bounds v hv]
    exact (Comparator.inBounds_of_read hread).valid_base (Comparator.valid_pre_of_read hread)

/-- A first minor version, up to just before the last patch of it. -/
def beforeLastPatch : Requirement :=
  [⟨.caret, 1, some 2, none, []⟩, ⟨.less, 1, some 2, some 18446744073709551615, []⟩]

/-- The last patch is not asked for its successor, but that is taken all the same. -/
theorem overflows_beforeLastPatch :
    Requirement.read (Text.trim "^1.2, <1.2.18446744073709551615".toList) = .ok beforeLastPatch
    ∧ read "^1.2, <1.2.18446744073709551615" = .error .overflow
    ∧ (∀ c ∈ beforeLastPatch, c.StandsAtBase → ∀ v ∈ c.bounds.ends, v.Valid) := by
  have hreq : Requirement.read (Text.trim "^1.2, <1.2.18446744073709551615".toList) =
      .ok beforeLastPatch := rfl
  obtain ⟨-, -, hoverflow, hvalid⟩ := overflows_iff hreq
  refine ⟨hreq, hoverflow.mpr ?_, hvalid⟩
  exact ⟨⟨.less, 1, some 2, some 18446744073709551615, []⟩, by simp [beforeLastPatch],
    18446744073709551615, .inr (.inr rfl), by decide⟩

/-- From the last major version on: the bound is the version that is named. -/
theorem fromLastMajor_overflows : ¬ ∀ (s : String) (req : Requirement),
    Requirement.read (Text.trim s.toList) = .ok req → ∀ c ∈ req, c.range? ≠ none := by
  intro h
  have hreq : Requirement.read (Text.trim ">=18446744073709551615".toList) =
      .ok [⟨.greaterEq, 18446744073709551615, none, none, []⟩] := rfl
  exact h _ _ hreq _ (List.mem_singleton.mpr rfl) rfl

end VersionRange
end Instrumentation
