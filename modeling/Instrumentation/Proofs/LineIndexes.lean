import Instrumentation.Proofs.Offset
import Instrumentation.Proofs.Paths

/-!
Indexes of lines. Every offset has a line, and between two characters a line and column stand for one
offset, whichever of them is given.
-/
namespace Instrumentation.Text

theorem StartsLine.cons {lead : List Char} (h : StartsLine lead) (hne : lead ≠ []) (c : Char) :
    StartsLine (c :: lead) := by
  rcases h with rfl | hlast
  · exact absurd rfl hne
  · exact .inr (by rw [List.getLast?_cons_of_ne_nil hne, hlast])

/-- Without line ends, nothing leads up to a line but the beginning of the text. -/
theorem StartsLine.eq_nil {lead : List Char} (h : StartsLine lead) (hn : '\n' ∉ lead) : lead = [] := by
  rcases h with hnil | hlast
  · exact hnil
  · exact absurd (List.mem_of_getLast? hlast) hn

/-- A piece between line ends is a line, behind as many line ends as there are pieces before it. -/
theorem exists_lead_of_pieces {text line : List Char} {l : Nat}
    (h : (pieces '\n' text)[l]? = some line) : ∃ lead rest,
      text = lead ++ (line ++ rest) ∧ StartsLine lead ∧ lead.count '\n' = l ∧ '\n' ∉ line := by
  induction text generalizing l line with
  | nil =>
    obtain ⟨rfl, rfl⟩ : l = 0 ∧ line = [] := by
      cases l <;> simp_all [pieces]
    exact ⟨[], [], rfl, .inl rfl, rfl, List.not_mem_nil⟩
  | cons c cs ih =>
    by_cases hc : c = '\n'
    · subst hc
      rw [pieces, if_pos rfl] at h
      cases l with
      | zero =>
        obtain rfl : [] = line := by simpa using h
        exact ⟨[], '\n' :: cs, rfl, .inl rfl, rfl, List.not_mem_nil⟩
      | succ l =>
        obtain ⟨lead, rest, rfl, hlead, hcount, hline⟩ := ih h
        refine ⟨'\n' :: lead, rest, rfl, ?_, by simp [hcount], hline⟩
        cases lead with
        | nil => exact .inr rfl
        | cons d lead => exact hlead.cons (List.cons_ne_nil d lead) '\n'
    · obtain ⟨p, ps, hpieces, hcons⟩ := pieces_cons_of_ne hc cs
      rw [hpieces] at ih
      rw [hcons] at h
      cases l with
      | zero =>
        obtain rfl : c :: p = line := by simpa using h
        obtain ⟨lead, rest, hcs, hlead, hcount, hline⟩ := ih (l := 0) rfl
        obtain rfl := hlead.eq_nil (List.count_eq_zero.mp hcount)
        refine ⟨[], rest, by simp [hcs], .inl rfl, rfl, ?_⟩
        simp [Ne.symm hc, hline]
      | succ l =>
        obtain ⟨lead, rest, rfl, hlead, hcount, hline⟩ := ih (l := l + 1) h
        refine ⟨c :: lead, rest, rfl, hlead.cons ?_ c, ?_, hline⟩
        · rintro rfl
          simp at hcount
        · rw [List.count_cons_of_ne hc, hcount]

/-- The lines that start up to an offset follow the line ends among the characters before it. -/
theorem countP_startsFrom_eq (pos offset : Nat) (text : List Char) :
    (startsFrom pos text).countP (· ≤ offset) = (slice.go 0 offset pos text).count '\n' := by
  induction text generalizing pos with
  | nil => rfl
  | cons c cs ih =>
    rw [slice.go, if_neg (Nat.not_lt_zero pos)]
    by_cases hlt : pos < offset
    · by_cases hn : c = '\n'
      · subst hn
        have hsize : '\n'.utf8Size = 1 := rfl
        have hle : pos + 1 ≤ offset := hlt
        rw [startsFrom, if_pos rfl, if_pos hlt, List.countP_cons_of_pos (by simpa using hle), ih,
          List.count_cons_self, hsize]
      · rw [startsFrom, if_neg hn, if_pos hlt, List.count_cons_of_ne hn, ih]
    · rw [if_neg hlt, List.count_nil, List.countP_eq_zero]
      intro start hstart
      have := (bounds_of_mem_startsFrom hstart).1
      simp only [decide_eq_true_eq]
      omega

namespace LineIndex

/-- The index of a text finds a line for every offset, the one behind all line ends before it. A
place between two characters is found again by its line and column, and so is every column of a line
up to its line end. -/
theorem leads_back (text : List Char) :
    let index := ofText text
    (∀ o, Boundary text o →
      ∃ l k, index.lineCol? text o = some (l, k + 1) ∧ index.offset text l k = o) ∧
    (∀ l k line, (pieces '\n' text)[l]? = some line → k ≤ line.length →
      index.lineCol? text (index.offset text (l + 1) k) = some (l + 1, k + 1)) ∧
    ∀ o, ∃ c, index.lineCol? text o = some ((slice text 0 o).count '\n' + 1, c) := by
  refine ⟨?_, ?_, fun o => ?_⟩
  · rintro o ⟨rest, before, rfl, rfl⟩
    obtain ⟨lead, line, rfl, hlead, hline⟩ := exists_lastLine before
    have hplace := lineCol?_eq hlead hline rest
    have hoffset := offset_eq hlead line rest
    rw [← List.append_assoc] at hplace hoffset
    exact ⟨_, _, hplace, hoffset⟩
  · intro l k line hl hk
    obtain ⟨lead, rest, rfl, hlead, rfl, hline⟩ := exists_lead_of_pieces hl
    -- The column cuts the line in two, and the first part leads up to the place.
    obtain ⟨taken, left, rfl, rfl⟩ : ∃ taken left, line = taken ++ left ∧ taken.length = k :=
      ⟨line.take k, line.drop k, (List.take_append_drop k line).symm, by simp [hk]⟩
    rw [List.mem_append, not_or] at hline
    rw [List.append_assoc, offset_eq hlead, lineCol?_eq hlead hline.1]
  · obtain ⟨i, hi, hval⟩ := Option.map_eq_some_iff.mp (line?_ofText text o)
    rw [countP_startsFrom_eq] at hval
    rw [lineCol?, hi, Option.map_some, hval]
    exact ⟨_, rfl⟩

/-- A text with a character of two bytes, an empty line, and no line end at its end. -/
theorem leads_back_emptyLine :
    let text := "é\n\nb".toList
    let index := ofText text
    Boundary text 5 ∧ (∃ l k, index.lineCol? text 5 = some (l, k + 1) ∧ index.offset text l k = 5) ∧
    (pieces '\n' text)[1]? = some [] ∧
    index.lineCol? text (index.offset text (1 + 1) 0) = some (1 + 1, 0 + 1) := by
  intro text index
  have hboundary : Boundary text 5 := by decide +kernel
  have hline : (pieces '\n' text)[1]? = some [] := by decide +kernel
  obtain ⟨hforth, hback, -⟩ := leads_back text
  exact ⟨hboundary, hforth 5 hboundary, hline, hback 1 0 [] hline (Nat.le_refl 0)⟩

end LineIndex
end Instrumentation.Text
