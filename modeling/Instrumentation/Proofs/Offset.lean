import Instrumentation.Text.LineIndex
import Mathlib.Data.List.TakeWhile

/-!
Offsets of a text. An offset that falls between two characters splits the text in two; slices,
lines and columns are counted along the part before it.
-/
namespace Instrumentation.Text

/-- What a text goes on with at an offset between two characters. -/
def At (text : List Char) (offset : Nat) (rest : List Char) : Prop :=
  ∃ before, text = before ++ rest ∧ byteLength before = offset

/-- An offset that falls between two characters, or at an end. -/
def Boundary (text : List Char) (offset : Nat) : Prop := ∃ rest, At text offset rest

theorem byteLength_pos {cs : List Char} (h : cs ≠ []) : 0 < byteLength cs := by
  cases cs with
  | nil => exact absurd rfl h
  | cons c cs =>
    have hc := c.utf8Size_pos
    simp only [byteLength_cons]
    omega

/-- The parts before one offset of a text are all the same. -/
theorem prefix_unique {a b r s : List Char} (h : a ++ r = b ++ s)
    (hl : byteLength a = byteLength b) :
    a = b ∧ r = s := by
  induction a generalizing b with
  | nil =>
    cases b with
    | nil => exact ⟨rfl, h⟩
    | cons d b =>
      have hd := d.utf8Size_pos
      simp only [byteLength_nil, byteLength_cons] at hl
      omega
  | cons c a ih =>
    cases b with
    | nil =>
      have hc := c.utf8Size_pos
      simp only [byteLength_nil, byteLength_cons] at hl
      omega
    | cons d b =>
      simp only [List.cons_append, List.cons.injEq] at h
      obtain ⟨rfl, h⟩ := h
      simp only [byteLength_cons, Nat.add_left_cancel_iff] at hl
      obtain ⟨rfl, rfl⟩ := ih h hl
      exact ⟨rfl, rfl⟩

namespace At

theorem zero (text : List Char) : At text 0 text := ⟨[], rfl, rfl⟩

theorem prefix_length (before rest : List Char) : At (before ++ rest) (byteLength before) rest :=
  ⟨before, rfl, rfl⟩

theorem advance {text taken rest : List Char} {n : Nat} (h : At text n (taken ++ rest)) :
    At text (n + byteLength taken) rest := by
  obtain ⟨before, rfl, rfl⟩ := h
  exact ⟨before ++ taken, by simp, by simp⟩

theorem add_length {text rest : List Char} {n : Nat} (h : At text n rest) :
    n + byteLength rest = byteLength text := by
  obtain ⟨before, rfl, rfl⟩ := h
  simp

/-- The text between two offsets. -/
theorem between {text r s : List Char} {n m : Nat} (h : At text n r) (h' : At text m s)
    (hle : n ≤ m) : ∃ mid, r = mid ++ s ∧ n + byteLength mid = m := by
  obtain ⟨a, rfl, rfl⟩ := h
  obtain ⟨b, hb, rfl⟩ := h'
  rcases List.append_eq_append_iff.mp hb with ⟨mid, rfl, hr⟩ | ⟨mid, rfl, hs⟩
  · exact ⟨mid, hr, by simp⟩
  · have hmid : mid = [] := by
      cases mid with
      | nil => rfl
      | cons c mid =>
        have hc := c.utf8Size_pos
        simp only [byteLength_append, byteLength_cons] at hle
        omega
    exact ⟨[], by simpa [hmid] using hs.symm, by simp [hmid]⟩

theorem prepend {text rest : List Char} {n : Nat} (h : At text n rest) (lead : List Char) :
    At (lead ++ text) (byteLength lead + n) rest := by
  obtain ⟨before, rfl, rfl⟩ := h
  exact ⟨lead ++ before, by simp, by simp⟩

end At

namespace Boundary

theorem prepend {text : List Char} {n : Nat} (h : Boundary text n) (lead : List Char) :
    Boundary (lead ++ text) (byteLength lead + n) := by
  obtain ⟨rest, h⟩ := h
  exact ⟨rest, h.prepend lead⟩

theorem zero (text : List Char) : Boundary text 0 := ⟨text, At.zero text⟩

/-- A boundary behind a place moves with what is put in there. -/
theorem put {before after : List Char} {n : Nat} (h : Boundary (before ++ after) n)
    (hle : byteLength before ≤ n) (w : List Char) :
    Boundary (before ++ (w ++ after)) (n + byteLength w) := by
  obtain ⟨rest, hrest⟩ := h
  obtain ⟨mid, rfl, rfl⟩ := (At.prefix_length before after).between hrest hle
  refine ⟨rest, before ++ (w ++ mid), by simp, ?_⟩
  simp only [byteLength_append]
  omega

end Boundary

theorem isBoundary_iff {text : List Char} {offset : Nat} :
    isBoundary text offset = true ↔ Boundary text offset := by
  induction text generalizing offset with
  | nil =>
    simp only [isBoundary, beq_iff_eq]
    constructor
    · rintro rfl
      exact Boundary.zero []
    · rintro ⟨rest, before, htext, rfl⟩
      simp [(List.append_eq_nil_iff.mp htext.symm).1]
  | cons c cs ih =>
    simp only [isBoundary, Bool.or_eq_true, beq_iff_eq, Bool.and_eq_true, decide_eq_true_eq, ih]
    constructor
    · rintro (rfl | ⟨hle, h⟩)
      · exact Boundary.zero (c :: cs)
      · have hpast := h.prepend [c]
        rwa [byteLength_cons, byteLength_nil, Nat.add_zero, Nat.add_sub_cancel' hle] at hpast
    · rintro ⟨rest, before, htext, rfl⟩
      cases before with
      | nil => exact .inl rfl
      | cons d before =>
        obtain ⟨rfl, rfl⟩ := List.cons.inj htext
        refine .inr ⟨by simp, rest, before, rfl, ?_⟩
        rw [byteLength_cons, Nat.add_sub_cancel_left]

instance (text : List Char) (offset : Nat) : Decidable (Boundary text offset) :=
  decidable_of_iff _ isBoundary_iff

/-- Two boundaries cut a text into three. -/
theorem exists_between {text : List Char} {start stop : Nat} (hstart : Boundary text start)
    (hstop : Boundary text stop) (hle : start ≤ stop) : ∃ before mid rest,
    text = before ++ (mid ++ rest) ∧ byteLength before = start ∧ start + byteLength mid = stop := by
  obtain ⟨r, hr⟩ := hstart
  obtain ⟨s, hs⟩ := hstop
  obtain ⟨mid, rfl, hmid⟩ := hr.between hs hle
  obtain ⟨before, htext, hbefore⟩ := hr
  exact ⟨before, mid, s, htext, hbefore, hmid⟩

theorem slice_go_skip {start stop pos : Nat} (before rest : List Char)
    (h : pos + byteLength before = start) :
    slice.go start stop pos (before ++ rest) = slice.go start stop start rest := by
  induction before generalizing pos with
  | nil =>
    simp only [byteLength_nil, Nat.add_zero] at h
    simp [h]
  | cons c before ih =>
    have hc := c.utf8Size_pos
    simp only [byteLength_cons] at h
    have hlt : pos < start := by omega
    simp only [List.cons_append, slice.go, hlt, ↓reduceIte]
    exact ih (by omega)

theorem slice_go_take {start stop pos : Nat} (mid rest : List Char) (hs : start ≤ pos)
    (h : pos + byteLength mid = stop) : slice.go start stop pos (mid ++ rest) = mid := by
  induction mid generalizing pos with
  | nil =>
    simp only [byteLength_nil, Nat.add_zero] at h
    cases rest with
    | nil => simp [slice.go]
    | cons c rest => simp [slice.go, ← h, Nat.not_lt.mpr hs]
  | cons c mid ih =>
    have hc := c.utf8Size_pos
    simp only [byteLength_cons] at h
    have hlt : pos < stop := by omega
    simp only [List.cons_append, slice.go, Nat.not_lt.mpr hs, hlt, ↓reduceIte, List.cons.injEq,
      true_and]
    exact ih (by omega) (by omega)

/-- The text between two boundaries. -/
theorem slice_eq {text mid rest : List Char} {n : Nat} (h : At text n (mid ++ rest)) :
    slice text n (n + byteLength mid) = mid := by
  obtain ⟨before, rfl, rfl⟩ := h
  rw [slice, slice_go_skip before (mid ++ rest) (Nat.zero_add _)]
  exact slice_go_take mid rest (Nat.le_refl _) rfl

theorem slice?_eq {text mid rest : List Char} {n : Nat} (h : At text n (mid ++ rest)) :
    slice? text n (n + byteLength mid) = some mid := by
  have hstart := isBoundary_iff.mpr ⟨_, h⟩
  have hstop := isBoundary_iff.mpr ⟨_, h.advance⟩
  simp [slice?, hstart, hstop, slice_eq h]

/-! ### Lines and columns -/

/-- The line and column that come after some text, both from one: a line for each line end, and a
column for each character since. -/
def place (before : List Char) : Nat × Nat :=
  (before.count '\n' + 1, (before.reverse.takeWhile (· != '\n')).length + 1)

theorem takeWhile_reverse_cons (c : Char) (cs : List Char) :
    (c :: cs).reverse.takeWhile (· != '\n') =
      cs.reverse.takeWhile (· != '\n') ++ if c = '\n' ∨ '\n' ∈ cs then [] else [c] := by
  rw [List.reverse_cons, List.takeWhile_append]
  by_cases hn : '\n' ∈ cs
  · have hne : (cs.reverse.takeWhile (· != '\n')).length ≠ cs.reverse.length := by
      intro he
      have hself := (List.takeWhile_prefix (l := cs.reverse) (· != '\n')).eq_of_length he
      have hmem := List.takeWhile_eq_self_iff.mp hself '\n' (List.mem_reverse.mpr hn)
      simp at hmem
    rw [if_neg hne]
    simp [hn]
  · have hself : cs.reverse.takeWhile (· != '\n') = cs.reverse := by
      rw [List.takeWhile_eq_self_iff]
      intro d hd
      have hd : d ∈ cs := List.mem_reverse.mp hd
      simpa using ne_of_mem_of_not_mem hd hn
    rw [if_pos (by rw [hself]), hself]
    by_cases hc : c = '\n' <;> simp [hn, hc]

theorem place_cons (c : Char) (cs : List Char) : place (c :: cs) =
    if c = '\n' then ((place cs).1 + 1, (place cs).2)
    else ((place cs).1, if '\n' ∈ cs then (place cs).2 else (place cs).2 + 1) := by
  unfold place
  rw [takeWhile_reverse_cons]
  by_cases hc : c = '\n'
  · simp [hc]
  · by_cases hn : '\n' ∈ cs <;> simp [hc, hn]

theorem place_eq_of_not_mem {cs : List Char} (h : '\n' ∉ cs) : place cs = (1, cs.length + 1) := by
  induction cs with
  | nil => rfl
  | cons c cs ih =>
    simp only [List.mem_cons, not_or] at h
    rw [place_cons, if_neg (Ne.symm h.1), if_neg h.2, ih h.2]
    rfl

/-- What is on a line before does not count behind its end. -/
theorem place_behind {line cs : List Char} (hline : '\n' ∉ line) (hcs : '\n' ∈ cs) :
    place (line ++ cs) = place cs := by
  induction line with
  | nil => rfl
  | cons c line ih =>
    simp only [List.mem_cons, not_or] at hline
    rw [List.cons_append, place_cons, if_neg (Ne.symm hline.1),
      if_pos (List.mem_append_right line hcs), ih hline.2]

theorem line_eq_one_iff (cs : List Char) : (place cs).1 = 1 ↔ '\n' ∉ cs := by
  simp [place, List.count_eq_zero]

/-- Where a line starts: at the beginning of a text, or behind a line end. -/
def StartsLine (lead : List Char) : Prop := lead = [] ∨ lead.getLast? = some '\n'

/-- Some text leads up to the start of its last line. -/
theorem exists_lastLine (before : List Char) :
    ∃ lead line, before = lead ++ line ∧ StartsLine lead ∧ '\n' ∉ line := by
  by_cases hn : '\n' ∈ before
  · obtain ⟨a, b, hsplit, ha⟩ := List.eq_append_cons_of_mem (List.mem_reverse.mpr hn)
    refine ⟨b.reverse ++ ['\n'], a.reverse, ?_, .inr (by simp), by simpa using ha⟩
    rw [← List.reverse_reverse before, hsplit]
    simp
  · exact ⟨[], before, rfl, .inl rfl, hn⟩

theorem place_append {lead line : List Char} (hlead : StartsLine lead) (hline : '\n' ∉ line) :
    place (lead ++ line) = (lead.count '\n' + 1, line.length + 1) := by
  have hself : line.reverse.takeWhile (· != '\n') = line.reverse := by
    rw [List.takeWhile_eq_self_iff]
    intro c hc
    simpa using ne_of_mem_of_not_mem (List.mem_reverse.mp hc) hline
  have hlast : lead.reverse.takeWhile (· != '\n') = [] := by
    rcases hlead with rfl | hlast
    · rfl
    · obtain ⟨before, rfl⟩ := List.getLast?_eq_some_iff.mp hlast
      simp
  rw [place, List.reverse_append, List.takeWhile_append_of_pos (List.takeWhile_eq_self_iff.mp hself),
    hlast, List.count_append, List.count_eq_zero_of_not_mem hline]
  simp

/-! ### The starts of lines -/

theorem startsFrom_append (pos : Nat) (a b : List Char) :
    startsFrom pos (a ++ b) = startsFrom pos a ++ startsFrom (pos + byteLength a) b := by
  induction a generalizing pos with
  | nil => rfl
  | cons c a ih =>
    by_cases hn : c = '\n'
    · subst hn
      have hsize : '\n'.utf8Size = 1 := rfl
      simp [startsFrom, ih, hsize, Nat.add_assoc]
    · simp [startsFrom, hn, ih, Nat.add_assoc]

/-- There is a line behind each line end. -/
theorem length_startsFrom (pos : Nat) (cs : List Char) :
    (startsFrom pos cs).length = cs.count '\n' := by
  induction cs generalizing pos with
  | nil => rfl
  | cons c cs ih =>
    by_cases hn : c = '\n'
    · simp [startsFrom, hn, ih]
    · simp [startsFrom, hn, ih]

/-- Past some text, all lines that it starts have started. -/
theorem countP_startsFrom_of_le {before : List Char} {n : Nat} (h : byteLength before ≤ n) :
    (startsFrom 0 before).countP (· ≤ n) = before.count '\n' := by
  rw [← length_startsFrom 0 before, List.countP_eq_length]
  intro start hstart
  have := (bounds_of_mem_startsFrom hstart).2
  simp only [decide_eq_true_eq]
  omega

/-- The lines that start up to an offset are those behind the line ends before it. -/
theorem countP_startsFrom (before rest : List Char) :
    (startsFrom 0 (before ++ rest)).countP (· ≤ byteLength before) = before.count '\n' := by
  have hnone : (startsFrom (0 + byteLength before) rest).countP (· ≤ byteLength before) = 0 := by
    rw [List.countP_eq_zero]
    intro start h
    simpa using (bounds_of_mem_startsFrom h).1
  rw [startsFrom_append, List.countP_append, hnone, countP_startsFrom_of_le (Nat.le_refl _),
    Nat.add_zero]

namespace LineIndex

theorem getElem?_starts {lead : List Char} (h : StartsLine lead) (rest : List Char) :
    (ofText (lead ++ rest)).starts[lead.count '\n']? = some (byteLength lead) := by
  rcases h with rfl | hlast
  · rfl
  · obtain ⟨before, rfl⟩ := List.getLast?_eq_some_iff.mp hlast
    have hlength := length_startsFrom 0 before
    simp [ofText, startsFrom_append, startsFrom, ← hlength]
    rfl

/-- An offset is on the line, and in the column, that the text before it comes to. -/
theorem lineCol?_eq {lead line : List Char} (hlead : StartsLine lead) (hline : '\n' ∉ line)
    (rest : List Char) :
    (ofText (lead ++ (line ++ rest))).lineCol? (lead ++ (line ++ rest)) (byteLength (lead ++ line)) =
      some (lead.count '\n' + 1, line.length + 1) := by
  have hcount := countP_startsFrom (lead ++ line) rest
  rw [List.append_assoc, List.count_append, List.count_eq_zero_of_not_mem hline] at hcount
  obtain ⟨i, hi, hval⟩ := Option.map_eq_some_iff.mp
    (line?_ofText (lead ++ (line ++ rest)) (byteLength (lead ++ line)))
  rw [hcount, Nat.add_zero] at hval
  have hstart : (ofText (lead ++ (line ++ rest))).starts.get i = byteLength lead := by
    have h := getElem?_starts hlead (line ++ rest)
    rw [← hval, List.getElem?_eq_getElem i.isLt] at h
    exact Option.some.inj h
  have hstop : min (byteLength (lead ++ line)) (byteLength (lead ++ (line ++ rest))) =
      byteLength lead + byteLength line := by
    simp only [byteLength_append]
    omega
  rw [lineCol?, hi, Option.map_some, hstart, hstop, slice?_eq (At.prefix_length lead (line ++ rest)),
    hval]
  rfl

end LineIndex

/-- The line of any offset, also inside a character or past the end. -/
theorem line_lineCol (text : List Char) (offset : Nat) :
    (lineCol text offset).1 = (startsFrom 0 text).countP (· ≤ offset) + 1 := by
  obtain ⟨i, hi, hval⟩ := Option.map_eq_some_iff.mp (LineIndex.line?_ofText text offset)
  simp [lineCol, LineIndex.lineCol?, hi, hval]

/-- The line and column of an offset are counted along the text before it. -/
theorem lineCol_eq {text before rest : List Char} (h : text = before ++ rest) :
    lineCol text (byteLength before) = place before := by
  obtain ⟨lead, line, rfl, hlead, hline⟩ := exists_lastLine before
  have hplace := LineIndex.lineCol?_eq hlead hline rest
  rw [← List.append_assoc, ← h] at hplace
  rw [place_append hlead hline]
  exact Option.get_of_eq_some _ hplace

theorem advance_eq (before rest : List Char) (pos : Nat) :
    advance pos before.length (before ++ rest) = pos + byteLength before := by
  induction before generalizing pos with
  | nil => simp [advance]
  | cons c before ih => simp [advance, ih, Nat.add_assoc]

/-- The way back: what stands before a place in some line, of the length that its column says. -/
theorem LineIndex.offset_eq {lead : List Char} (hlead : StartsLine lead) (line rest : List Char) :
    (ofText (lead ++ (line ++ rest))).offset (lead ++ (line ++ rest)) (lead.count '\n' + 1)
      line.length = byteLength (lead ++ line) := by
  have hat := At.prefix_length lead ((line ++ rest) ++ [])
  have hslice := slice_eq hat
  rw [List.append_nil, ← byteLength_append] at hslice
  rw [offset, Nat.add_sub_cancel, getElem?_starts hlead]
  simp only
  rw [hslice, advance_eq, byteLength_append]

/-- The way back: the offset of the line and column that come after some text. -/
theorem offsetAt_place {text before rest : List Char} (h : text = before ++ rest) :
    offsetAt text (place before).1 ((place before).2 - 1) = byteLength before := by
  obtain ⟨lead, line, rfl, hlead, hline⟩ := exists_lastLine before
  have hoffset := LineIndex.offset_eq hlead line rest
  rw [← List.append_assoc, ← h] at hoffset
  rw [place_append hlead hline]
  exact hoffset

end Instrumentation.Text
