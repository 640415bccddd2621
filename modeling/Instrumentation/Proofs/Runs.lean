import Instrumentation.Proofs.Alike
import Instrumentation.Proofs.Gaps
import Instrumentation.Proofs.Offset

/-!
Runs of trees moved to another place. A run that ends before the end of a group, or before a
comment, is the same run whatever follows, and a run at another offset is the same run with its
offsets shifted.
-/
namespace Instrumentation.Source

open Text (byteLength)

theorem opensBlock_of_ne {cs : List Char} (h : ∀ rest, cs ≠ '/' :: '*' :: rest) :
    opensBlock cs = false := by
  simp only [opensBlock, Bool.and_eq_false_iff, isPrefixOf_eq_false_iff]
  exact .inl (.inl h)

theorem opensBlock_of_readLeaf {pos : Nat} {cs : List Char} {l : Tree × Split}
    (h : readLeaf pos cs = some l) : opensBlock cs = false := by
  refine opensBlock_of_ne ?_
  rintro rest rfl
  rw [readLeaf_comment (.inr rfl)] at h
  cases h

theorem opensBlock_opening (d : Delimiter) (cs : List Char) :
    opensBlock (d.opening :: cs) = false := by
  cases d <;> rfl

theorem opensBlock_closing (d : Delimiter) (cs : List Char) :
    opensBlock (d.closing :: cs) = false := by
  cases d <;> rfl

namespace Lexes

/-- What is left behind a run that ends before `r` ends with `r`, and so does all that is left on
the way. -/
theorem exists_append {pos stop : Nat} {cs rest y r : List Char} {ts : List Tree}
    (h : Lexes pos cs ts stop rest) (hrest : rest = y ++ r) : ∃ x, cs = x ++ r := by
  obtain ⟨taken, rfl, -⟩ := h.cuts
  exact ⟨taken ++ y, by rw [hrest, List.append_assoc]⟩

theorem exists_append_gapOf {cs gap cs₁ y r : List Char} (h : gapOf cs = (gap, cs₁))
    (hrest : cs₁ = y ++ r) : ∃ x, cs = x ++ r := by
  obtain rfl := append_of_readGap h
  exact ⟨gap ++ y, by rw [hrest, List.append_assoc]⟩

/-- A run that ends before the end of a group, or before a comment, does not depend on what
follows. -/
theorem carry {r r' : List Char} (h : SameStop r r') {pos stop : Nat} {cs rest : List Char}
    {ts : List Tree} (hts : Lexes pos cs ts stop rest) {x y : List Char} (hcs : cs = x ++ r)
    (hrest : rest = y ++ r) : Lexes pos (x ++ r') ts stop (y ++ r') := by
  induction hts generalizing x y with
  | done =>
    obtain rfl : x = y := List.append_cancel_right (hcs.symm.trans hrest)
    exact .done
  | @doc pos stop cs gap cs₁ words taken cs₂ rest _ _ hgap hdoc hpaired hts ih =>
    subst hcs
    obtain ⟨z, rfl⟩ := hts.exists_append hrest
    have hblock : opensBlock cs₁ = false := by
      refine opensBlock_of_readDoc ?_ hdoc
      have hnone := readBlank_gapOf (x ++ r)
      rwa [gapOf, hgap] at hnone
    obtain rfl : taken ++ (z ++ r) = cs₁ := (cuts_readDoc hdoc).1
    rw [← List.append_assoc] at hgap hdoc hblock
    exact .doc (gapOf_carry h hgap hblock) (readDoc_carry h hdoc) hpaired (ih rfl hrest)
  | @leaf pos stop cs gap cs₁ taken cs₂ rest _ _ hgap hleaf hts ih =>
    subst hcs
    obtain ⟨z, rfl⟩ := hts.exists_append hrest
    have hblock := opensBlock_of_readLeaf hleaf
    obtain rfl : taken ++ (z ++ r) = cs₁ := cuts_readLeaf hleaf
    rw [← List.append_assoc] at hgap hleaf hblock
    exact .leaf (gapOf_carry h hgap hblock) (readLeaf_carry h hleaf) (ih rfl hrest)
  | @group pos mid stop cs gap cs₁ cs₂ gap' cs₃ rest d _ _ hgap hinside hgap' hts ih ih' =>
    subst hcs
    obtain ⟨z, rfl⟩ := hts.exists_append hrest
    rw [← List.cons_append] at hgap'
    obtain ⟨z', rfl⟩ := exists_append_gapOf hgap' rfl
    obtain ⟨z'', rfl⟩ := hinside.exists_append rfl
    rw [← List.cons_append] at hgap
    exact .group (gapOf_carry h hgap (opensBlock_opening d _)) (ih rfl rfl)
      (gapOf_carry h hgap' (opensBlock_closing d _)) (ih' rfl hrest)

end Lexes

/-! ### Shifted offsets -/

/-- Offsets from `base` on, shifted by `d`. -/
def Shifted (base d : Nat) (p q : Nat) : Prop := base ≤ p ∧ q = p + d

theorem alike_readLeaf {R : Nat → Nat → Prop} {pos pos' : Nat} (hpos : R pos pos') {cs : List Char}
    {t : Tree} {s : Split} (h : readLeaf pos cs = some (t, s)) :
    ∃ t', readLeaf pos' cs = some (t', s) ∧ t.Alike R t' := by
  cases readLeaf_eq_some_iff.mp h with
  | literal hlit => exact ⟨_, readLeaf_eq_some_iff.mpr (.literal hlit), .literal hpos⟩
  | tick hlit hmark hword hfree =>
    exact ⟨_, readLeaf_eq_some_iff.mpr (.tick hlit hmark hword hfree), .mark hpos⟩
  | mark hlit hmark hc => exact ⟨_, readLeaf_eq_some_iff.mpr (.mark hlit hmark hc), .mark hpos⟩
  | word hlit hmark hquote hword =>
    exact ⟨_, readLeaf_eq_some_iff.mpr (.word hlit hmark hquote hword), .word hpos⟩

theorem Shifted.add {base d p : Nat} (h : base ≤ p) : Shifted base d p (p + d) := ⟨h, rfl⟩

theorem alike_docTrees {base d start stop : Nat} (hstart : base ≤ start) (hlt : start < stop)
    (words : List Char) (inner : Bool) : AlikeIn (Shifted base d) (docTrees words inner start stop)
      (docTrees words inner (start + d) (stop + d)) := by
  have hpos := Shifted.add (d := d) hstart
  have hclose : Shifted base d (stop - 1) (stop + d - 1) := ⟨by omega, by omega⟩
  unfold docTrees
  cases inner with
  | true => exact .cons (.mark hpos) (.cons (.mark hpos) (.cons (.group hpos hclose
      (.cons (.word hpos) (.cons (.mark hpos) (.cons (.literal hpos) .nil)))) .nil))
  | false => exact .cons (.mark hpos) (.cons (.group hpos hclose
      (.cons (.word hpos) (.cons (.mark hpos) (.cons (.literal hpos) .nil)))) .nil)

/-- A run at another offset. -/
theorem Lexes.shift {pos stop base d : Nat} {cs rest : List Char} {ts : List Tree}
    (h : Lexes pos cs ts stop rest) (hbase : base ≤ pos) :
    ∃ ts', Lexes (pos + d) cs ts' (stop + d) rest ∧ AlikeIn (Shifted base d) ts ts' := by
  induction h with
  | done => exact ⟨[], .done, .nil⟩
  | @doc pos stop cs gap cs₁ words taken cs₂ rest inner ts hgap hdoc hpaired hts ih =>
    obtain ⟨ts', hts', halike⟩ := ih (by omega)
    have hpos : 0 < byteLength taken := Text.byteLength_pos (cuts_readDoc hdoc).2
    have hstart : pos + d + byteLength gap = pos + byteLength gap + d := by omega
    have hstop : pos + byteLength gap + d + byteLength taken =
      pos + byteLength gap + byteLength taken + d := by omega
    rw [← hstop, ← hstart] at hts'
    refine ⟨_, .doc hgap hdoc hpaired hts', ?_⟩
    rw [hstart, hstop]
    exact (alike_docTrees (by omega) (by omega) words inner).append halike
  | @leaf pos stop cs gap cs₁ taken cs₂ rest t ts hgap hleaf hts ih =>
    obtain ⟨ts', hts', halike⟩ := ih (by omega)
    obtain ⟨t', hleaf', ht⟩ := alike_readLeaf
      (Shifted.add (d := d) (by omega : base ≤ pos + byteLength gap)) hleaf
    have hstart : pos + byteLength gap + d = pos + d + byteLength gap := by omega
    have hstop : pos + byteLength gap + byteLength taken + d =
      pos + d + byteLength gap + byteLength taken := by omega
    rw [hstart] at hleaf'
    rw [hstop] at hts'
    exact ⟨t' :: ts', .leaf hgap hleaf' hts', .cons ht halike⟩
  | @group pos mid stop cs gap cs₁ cs₂ gap' cs₃ rest e inside ts hgap hinside hgap' hts ih ih' =>
    obtain ⟨inside', hinside', halike⟩ := ih (by omega)
    have hle : pos ≤ mid := by
      obtain ⟨taken, -, hmid⟩ := hinside.cuts
      omega
    obtain ⟨ts', hts', halike'⟩ := ih' (by omega)
    have hstart : pos + byteLength gap + 1 + d = pos + d + byteLength gap + 1 := by omega
    have hstop : mid + byteLength gap' + 1 + d = mid + d + byteLength gap' + 1 := by omega
    rw [hstart] at hinside'
    rw [hstop] at hts'
    exact ⟨_, .group hgap hinside' hgap' hts', .cons (.group ⟨by omega, by omega⟩
      ⟨by omega, by omega⟩ halike) halike'⟩

end Instrumentation.Source
