import Instrumentation.Proofs.PositionMaps

/-!
Renderings, character by character. Every character of a rendered text is tagged with where it
comes from, and the rendered text is the source with each insertion put in at its offset.
-/
namespace Instrumentation

/-- An element of two lists put together is past the first or in it. -/
theorem split_append {α : Type} {xs ys pre post : List α} {z : α}
    (h : xs ++ ys = pre ++ z :: post) :
    (∃ mid, pre = xs ++ mid ∧ ys = mid ++ z :: post) ∨ ∃ mid, xs = pre ++ z :: mid := by
  rcases List.append_eq_append_iff.mp h with hpast | ⟨mid, hxs, hmid⟩
  · exact .inl hpast
  · cases mid with
    | nil => exact .inl ⟨[], by simpa using hxs.symm, by simpa using hmid.symm⟩
    | cons x mid =>
      simp only [List.cons_append, List.cons.injEq] at hmid
      exact .inr ⟨mid, hmid.1 ▸ hxs⟩

namespace Segment

/-- Characters copied from an offset on. -/
def copiedFrom : (pos : Nat) → List Char → List (Char × Mapped)
  | _, [] => []
  | pos, c :: cs => (c, ⟨pos, false⟩) :: copiedFrom (pos + c.utf8Size) cs

/-- Characters that all stand for one offset. -/
def insertedFor (anchor : Nat) (text : List Char) : List (Char × Mapped) :=
  text.map fun c => (c, ⟨anchor, true⟩)

/-- The characters of a segment, each with where it comes from. -/
def tagged : Segment → List (Char × Mapped)
  | copied start t => copiedFrom start t
  | inserted anchor t => insertedFor anchor t

@[simp] theorem map_fst_copiedFrom (pos : Nat) (t : List Char) :
    (copiedFrom pos t).map Prod.fst = t := by
  induction t generalizing pos with
  | nil => rfl
  | cons c t ih => simp [copiedFrom, ih]

@[simp] theorem map_fst_insertedFor (anchor : Nat) (t : List Char) :
    (insertedFor anchor t).map Prod.fst = t := by
  rw [insertedFor, List.map_map]
  exact List.map_id t

@[simp] theorem map_fst_tagged (s : Segment) : s.tagged.map Prod.fst = s.text := by
  cases s <;> simp [tagged, text]

theorem copiedFrom_eq_append {pos : Nat} {t : List Char} {pre post : List (Char × Mapped)}
    {c : Char} {m : Mapped} (h : copiedFrom pos t = pre ++ (c, m) :: post) :
    m = ⟨pos + Text.byteLength (pre.map Prod.fst), false⟩ := by
  induction t generalizing pos pre with
  | nil => simp [copiedFrom] at h
  | cons d t ih =>
    cases pre with
    | nil =>
      simp only [copiedFrom, List.nil_append, List.cons.injEq, Prod.mk.injEq] at h
      simp [← h.1.2]
    | cons x pre =>
      simp only [copiedFrom, List.cons_append, List.cons.injEq] at h
      obtain ⟨rfl, h⟩ := h
      simp [ih h, Nat.add_assoc]

/-- The origin of a byte at which a character starts is where the character comes from, wherever the
segment is written. -/
theorem origin_eq {s : Segment} {pre post : List (Char × Mapped)} {c : Char} {m : Mapped}
    (h : s.tagged = pre ++ (c, m) :: post) (n : Nat) :
    Stretch.origin ⟨n, s.length, s.kind⟩ (n + Text.byteLength (pre.map Prod.fst)) = m := by
  have htext : s.text = pre.map Prod.fst ++ c :: post.map Prod.fst := by
    rw [← map_fst_tagged, h]
    simp
  have hle : Text.byteLength (pre.map Prod.fst) ≤ s.length := by
    simp [length, htext]
  cases s with
  | copied start t =>
    rw [copiedFrom_eq_append h]
    simp only [Stretch.origin, kind, Nat.add_sub_cancel_left, Nat.min_eq_left hle]
  | inserted anchor t =>
    have hmem : (c, m) ∈ insertedFor anchor t := by
      rw [show insertedFor anchor t = _ from h]
      simp
    obtain ⟨d, -, hd⟩ := List.mem_map.mp hmem
    simp only [Prod.mk.injEq] at hd
    exact hd.2

end Segment

namespace Rendering

/-- The characters of a rendered text, each with where it comes from. -/
def tagged (r : Rendering) : List (Char × Mapped) := r.flatMap Segment.tagged

@[simp] theorem tagged_append (r s : Rendering) : tagged (r ++ s) = r.tagged ++ s.tagged := by
  simp [tagged]

@[simp] theorem map_fst_tagged (r : Rendering) : r.tagged.map Prod.fst = r.text := by
  simp [tagged, text, List.map_flatMap]

theorem origin_eq {r : Rendering} {pre post : List (Char × Mapped)} {c : Char} {m : Mapped}
    (h : r.tagged = pre ++ (c, m) :: post) :
    r.origin (Text.byteLength (pre.map Prod.fst)) = m := by
  induction r using List.reverseRecOn generalizing post with
  | nil => simp [tagged] at h
  | append_singleton r s ih =>
    have hsingle : tagged [s] = s.tagged := by simp [tagged]
    rw [tagged_append, hsingle] at h
    rw [origin, renderer_concat, (ordered_renderer r).toOriginal_push, out_renderer]
    rcases split_append h with ⟨mid, rfl, hs⟩ | ⟨mid, hr⟩
    · have hlen : Text.byteLength ((tagged r ++ mid).map Prod.fst) =
          Text.byteLength (text r) + Text.byteLength (mid.map Prod.fst) := by simp
      rw [hlen, if_pos (Nat.le_add_right _ _), Segment.origin_eq hs]
    · have hc := c.utf8Size_pos
      have hlt : Text.byteLength (pre.map Prod.fst) < Text.byteLength (text r) := by
        rw [← map_fst_tagged, hr]
        simp only [List.map_append, List.map_cons, Text.byteLength_append, Text.byteLength_cons]
        omega
      rw [if_neg (Nat.not_le.mpr hlt)]
      exact ih hr

/-- What is inserted at an offset. -/
def insertedAt (is : List Insertion) (offset : Nat) : List (Char × Mapped) :=
  (is.filter fun i => i.offset == offset).flatMap fun i => Segment.insertedFor i.anchor i.text

/-- A text from an offset on, with insertions: before each character, and at the end, comes what
is to be inserted there. -/
def woven (is : List Insertion) : (pos : Nat) → List Char → List (Char × Mapped)
  | pos, [] => insertedAt is pos
  | pos, c :: cs => insertedAt is pos ++ (c, ⟨pos, false⟩) :: woven is (pos + c.utf8Size) cs

@[simp] theorem insertedAt_nil (offset : Nat) : insertedAt [] offset = [] := rfl

theorem insertedAt_cons (i : Insertion) (is : List Insertion) (offset : Nat) :
    insertedAt (i :: is) offset =
      (if i.offset = offset then Segment.insertedFor i.anchor i.text else []) ++
        insertedAt is offset := by
  by_cases h : i.offset = offset <;> simp [insertedAt, h]

theorem insertedAt_eq_nil {is : List Insertion} {offset : Nat} (h : ∀ i ∈ is, i.offset ≠ offset) :
    insertedAt is offset = [] := by
  have hnone : (is.filter fun i => i.offset == offset) = [] := by
    simpa [List.filter_eq_nil_iff] using h
  simp [insertedAt, hnone]

theorem insertedAt_append (is js : List Insertion) (offset : Nat) :
    insertedAt (is ++ js) offset = insertedAt is offset ++ insertedAt js offset := by
  simp [insertedAt]

/-- Of insertions at different offsets, each is all that is inserted at its own. -/
theorem insertedAt_offset {is : List Insertion} (h : (is.map Insertion.offset).Nodup)
    {i : Insertion} (hi : i ∈ is) :
    insertedAt is i.offset = Segment.insertedFor i.anchor i.text := by
  obtain ⟨before, after, rfl⟩ := List.append_of_mem hi
  rw [List.map_append, List.map_cons, List.nodup_append, List.nodup_cons] at h
  obtain ⟨-, ⟨hafter, -⟩, hbefore⟩ := h
  have hbefore : insertedAt before i.offset = [] := insertedAt_eq_nil fun j hj =>
    hbefore j.offset (List.mem_map_of_mem hj) i.offset List.mem_cons_self
  have hafter : insertedAt after i.offset = [] := insertedAt_eq_nil fun j hj he =>
    hafter (he ▸ List.mem_map_of_mem hj)
  rw [insertedAt_append, insertedAt_cons, hbefore, hafter, if_pos rfl, List.nil_append,
    List.append_nil]

theorem woven_nil (pos : Nat) (cs : List Char) : woven [] pos cs = Segment.copiedFrom pos cs := by
  induction cs generalizing pos with
  | nil => rfl
  | cons c cs ih => simp [woven, Segment.copiedFrom, ih]

/-- Up to the first insertion, text is copied. -/
theorem woven_append {is : List Insertion} {pos : Nat} (mid rest : List Char)
    (h : ∀ i ∈ is, pos + Text.byteLength mid ≤ i.offset) :
    woven is pos (mid ++ rest) =
      Segment.copiedFrom pos mid ++ woven is (pos + Text.byteLength mid) rest := by
  induction mid generalizing pos with
  | nil => simp [Segment.copiedFrom]
  | cons c mid ih =>
    have hc := c.utf8Size_pos
    simp only [Text.byteLength_cons] at h
    have hnone : insertedAt is pos = [] := by
      refine insertedAt_eq_nil fun i hi => ?_
      have := h i hi
      omega
    have hrest : woven is (pos + c.utf8Size) (mid ++ rest) = _ := ih fun i hi => by
      have := h i hi
      omega
    simp [woven, Segment.copiedFrom, hnone, hrest, Nat.add_assoc]

/-- Past its offset, an insertion does not matter. -/
theorem woven_cons_of_lt {i : Insertion} {pos : Nat} (is : List Insertion) (cs : List Char)
    (h : i.offset < pos) : woven (i :: is) pos cs = woven is pos cs := by
  induction cs generalizing pos with
  | nil => simp [woven, insertedAt_cons, Nat.ne_of_lt h]
  | cons c cs ih =>
    simp [woven, insertedAt_cons, Nat.ne_of_lt h, ih (Nat.lt_add_right c.utf8Size h)]

/-- At its offset, an insertion comes first. -/
theorem woven_cons_self (i : Insertion) (is : List Insertion) (cs : List Char) :
    woven (i :: is) i.offset cs =
      Segment.insertedFor i.anchor i.text ++ woven is i.offset cs := by
  cases cs with
  | nil => simp [woven, insertedAt_cons]
  | cons c cs =>
    have hlt : i.offset < i.offset + c.utf8Size := Nat.lt_add_of_pos_right c.utf8Size_pos
    simp [woven, insertedAt_cons, woven_cons_of_lt is cs hlt]

@[simp] theorem tagged_insert (anchor : Nat) (t : List Char) :
    (insert anchor t).tagged = Segment.insertedFor anchor t := by
  unfold insert
  split <;> simp_all [tagged, Segment.tagged, Segment.insertedFor]

theorem tagged_copy {source mid rest : List Char} {start : Nat}
    (h : Text.At source start (mid ++ rest)) :
    (copy source start (start + Text.byteLength mid)).tagged = Segment.copiedFrom start mid := by
  unfold copy
  split
  · next hle =>
    have hmid : mid = [] := by
      cases mid with
      | nil => rfl
      | cons c mid =>
        have hc := c.utf8Size_pos
        simp only [Text.byteLength_cons] at hle
        omega
    simp [hmid, tagged, Segment.copiedFrom]
  · simp [tagged, Segment.tagged, Text.slice_eq h]

/-- Insertions in the order of their offsets, all between two characters, are put in there. -/
theorem tagged_interleave {source rest : List Char} {is : List Insertion} {cursor : Nat}
    (hat : Text.At source cursor rest) (hle : ∀ i ∈ is, cursor ≤ i.offset)
    (hb : ∀ i ∈ is, Text.Boundary source i.offset)
    (hs : is.Pairwise fun a b => a.offset ≤ b.offset) :
    (interleave source cursor is).tagged = woven is cursor rest := by
  induction is generalizing cursor rest with
  | nil =>
    have hend : Text.At source cursor (rest ++ []) := by simpa using hat
    have hcopy := tagged_copy hend
    rw [hat.add_length] at hcopy
    rw [interleave_nil, hcopy, woven_nil]
  | cons i is ih =>
    obtain ⟨rest', hrest'⟩ := hb i List.mem_cons_self
    obtain ⟨mid, rfl, hmid⟩ := hat.between hrest' (hle i List.mem_cons_self)
    obtain ⟨hfirst, hs⟩ := List.pairwise_cons.mp hs
    have hcopy := tagged_copy hat
    have hrest := ih hrest' hfirst (fun j hj => hb j (List.mem_cons_of_mem _ hj)) hs
    have hall : ∀ j ∈ i :: is, cursor + Text.byteLength mid ≤ j.offset := by
      intro j hj
      rcases List.mem_cons.mp hj with rfl | hj
      · omega
      · have := hfirst j hj
        omega
    rw [woven_append mid rest' hall, ← hcopy, hmid, woven_cons_self, ← hrest, interleave_cons]
    simp

theorem Insertion.le_trans (a b c : Insertion) :
    decide (a.offset ≤ b.offset) = true → decide (b.offset ≤ c.offset) = true →
      decide (a.offset ≤ c.offset) = true := by
  simpa using Nat.le_trans

theorem Insertion.le_total (a b : Insertion) :
    (decide (a.offset ≤ b.offset) || decide (b.offset ≤ a.offset)) = true := by
  simpa using Nat.le_total a.offset b.offset

/-- Sorting keeps the order of the insertions at one offset. -/
theorem insertedAt_sortedBy (is : List Insertion) (offset : Nat) :
    insertedAt (sortedBy (fun a b => decide (a.offset ≤ b.offset)) is) offset =
      insertedAt is offset := by
  rw [sortedBy_eq_mergeSort Insertion.le_trans Insertion.le_total]
  have hsort : (is.filter fun i => i.offset == offset) =
      (is.mergeSort fun a b => decide (a.offset ≤ b.offset)).filter fun i => i.offset == offset := by
    have hpairs : (is.filter fun i => i.offset == offset).Pairwise
        fun a b => decide (a.offset ≤ b.offset) = true := by
      refine List.pairwise_of_forall_mem_list fun a ha b hb => ?_
      have ha : a.offset = offset := by simpa using (List.mem_filter.mp ha).2
      have hb : b.offset = offset := by simpa using (List.mem_filter.mp hb).2
      simp [ha, hb]
    have hsub := List.sublist_mergeSort Insertion.le_trans Insertion.le_total hpairs
      List.filter_sublist
    have hsub' := hsub.filter fun i => i.offset == offset
    rw [List.filter_filter] at hsub'
    simp only [Bool.and_self] at hsub'
    refine hsub'.eq_of_length ?_
    exact ((List.mergeSort_perm is _).filter _).length_eq.symm
  rw [insertedAt, insertedAt, hsort]

/-- The tagged text depends only on what is inserted where. -/
theorem woven_congr {is js : List Insertion} (h : ∀ n, insertedAt is n = insertedAt js n)
    (pos : Nat) (cs : List Char) : woven is pos cs = woven js pos cs := by
  induction cs generalizing pos with
  | nil => exact h pos
  | cons c cs ih => rw [woven, woven, h, ih]

/-- A rendered text is the source, with each insertion at its offset. -/
theorem tagged_ofInsertions {source : List Char} {is : List Insertion}
    (hb : ∀ i ∈ is, Text.Boundary source i.offset) :
    (ofInsertions source is).tagged = woven is 0 source := by
  have hsorted := pairwise_sortedBy Insertion.le_trans Insertion.le_total is
  rw [ofInsertions, tagged_interleave (Text.At.zero source) (fun _ _ => Nat.zero_le _)
    (fun i hi => hb i (mem_sortedBy.mp hi)) (hsorted.imp fun h => by simpa using h)]
  exact woven_congr (insertedAt_sortedBy is) 0 source

/-! ### What is copied and what is inserted -/

/-- The characters that are copied. -/
def copiedOf (tags : List (Char × Mapped)) : List Char :=
  (tags.filter fun x => !x.2.generated).map Prod.fst

@[simp] theorem copiedOf_append (xs ys : List (Char × Mapped)) :
    copiedOf (xs ++ ys) = copiedOf xs ++ copiedOf ys := by
  simp [copiedOf]

@[simp] theorem copiedOf_cons_copied (c : Char) (pos : Nat) (xs : List (Char × Mapped)) :
    copiedOf ((c, ⟨pos, false⟩) :: xs) = c :: copiedOf xs := by
  simp [copiedOf]

theorem mem_insertedAt {is : List Insertion} {offset : Nat} {x : Char × Mapped}
    (h : x ∈ insertedAt is offset) :
    ∃ i ∈ is, i.offset = offset ∧ x.1 ∈ i.text ∧ x.2 = ⟨i.anchor, true⟩ := by
  obtain ⟨i, hi, hx⟩ := List.mem_flatMap.mp h
  obtain ⟨c, hc, rfl⟩ := List.mem_map.mp hx
  obtain ⟨hi, hoffset⟩ := List.mem_filter.mp hi
  exact ⟨i, hi, by simpa using hoffset, hc, rfl⟩

theorem copiedOf_eq_nil {xs : List (Char × Mapped)} (h : ∀ x ∈ xs, x.2.generated = true) :
    copiedOf xs = [] := by
  have hnone : (xs.filter fun x => !x.2.generated) = [] := by
    simpa [List.filter_eq_nil_iff] using h
  simp [copiedOf, hnone]

theorem generated_insertedAt {is : List Insertion} {offset : Nat} :
    ∀ x ∈ insertedAt is offset, x.2.generated = true := by
  intro x hx
  obtain ⟨i, -, -, -, hm⟩ := mem_insertedAt hx
  rw [hm]

@[simp] theorem copiedOf_woven (is : List Insertion) (pos : Nat) (cs : List Char) :
    copiedOf (woven is pos cs) = cs := by
  induction cs generalizing pos with
  | nil => exact copiedOf_eq_nil generated_insertedAt
  | cons c cs ih => simp [woven, copiedOf_eq_nil generated_insertedAt, ih]

/-- A character inserted before anything is copied. -/
theorem insertedAt_split {is : List Insertion} {pos : Nat} {pre post : List (Char × Mapped)}
    {c : Char} {m : Mapped} (h : insertedAt is pos = pre ++ (c, m) :: post) :
    copiedOf pre = [] ∧ ∃ i ∈ is, i.offset = pos ∧ c ∈ i.text ∧ m = ⟨i.anchor, true⟩ := by
  have hmem : (c, m) ∈ insertedAt is pos := by
    rw [h]
    simp
  refine ⟨copiedOf_eq_nil fun x hx => ?_, mem_insertedAt hmem⟩
  have hx : x ∈ insertedAt is pos := by
    rw [h]
    exact List.mem_append_left _ hx
  exact generated_insertedAt x hx

/-- Where a character of the rendered text comes from, and what is copied before it. -/
theorem woven_split {is : List Insertion} {pos : Nat} {cs : List Char}
    {pre post : List (Char × Mapped)} {c : Char} {m : Mapped}
    (h : woven is pos cs = pre ++ (c, m) :: post) :
    ∃ rest, cs = copiedOf pre ++ rest ∧
      ((m = ⟨pos + Text.byteLength (copiedOf pre), false⟩ ∧ rest.head? = some c) ∨
        ∃ i ∈ is, i.offset = pos + Text.byteLength (copiedOf pre) ∧ c ∈ i.text ∧
          m = ⟨i.anchor, true⟩) := by
  induction cs generalizing pos pre with
  | nil =>
    obtain ⟨hnil, hinserted⟩ := insertedAt_split h
    exact ⟨[], by simp [hnil], .inr (by simpa [hnil] using hinserted)⟩
  | cons d cs ih =>
    rw [woven] at h
    rcases split_append h with ⟨mid, rfl, hmid⟩ | ⟨mid, hmid⟩
    · have hnone : copiedOf (insertedAt is pos) = [] := copiedOf_eq_nil generated_insertedAt
      cases mid with
      | nil =>
        simp only [List.nil_append, List.cons.injEq, Prod.mk.injEq] at hmid
        obtain ⟨⟨rfl, rfl⟩, -⟩ := hmid
        exact ⟨d :: cs, by simp [hnone], .inl ⟨by simp [hnone], rfl⟩⟩
      | cons x mid =>
        simp only [List.cons_append, List.cons.injEq] at hmid
        obtain ⟨rfl, hmid⟩ := hmid
        obtain ⟨rest, hcs, horigin⟩ := ih hmid
        refine ⟨rest, by simp [hnone, ← hcs], ?_⟩
        simpa [hnone, Nat.add_assoc] using horigin
    · obtain ⟨hnil, hinserted⟩ := insertedAt_split hmid
      exact ⟨d :: cs, by simp [hnil], .inr (by simpa [hnil] using hinserted)⟩

/-- A text that ends in a copied character ends in it without the insertions too. -/
theorem getLast?_copiedOf {xs : List (Char × Mapped)} {c : Char} {m : Mapped}
    (h : xs.getLast? = some (c, m)) (hm : m.generated = false) :
    (copiedOf xs).getLast? = some c := by
  obtain ⟨ys, rfl⟩ := List.getLast?_eq_some_iff.mp h
  simp [copiedOf, hm]

theorem mem_woven {is : List Insertion} {pos : Nat} {cs : List Char} {x : Char × Mapped}
    (hx : x ∈ woven is pos cs) (hg : x.2.generated = true) : ∃ i ∈ is, x.1 ∈ i.text := by
  obtain ⟨pre, post, h⟩ := List.append_of_mem hx
  obtain ⟨rest, -, ⟨hm, -⟩ | ⟨i, hi, -, hc, -⟩⟩ := woven_split h
  · rw [hm] at hg
    cases hg
  · exact ⟨i, hi, hc⟩

/-- Line ends that are not inserted are copied. -/
theorem count_newlines {xs : List (Char × Mapped)}
    (h : ∀ x ∈ xs, x.2.generated = true → x.1 ≠ '\n') :
    (xs.map Prod.fst).count '\n' = (copiedOf xs).count '\n' := by
  induction xs with
  | nil => rfl
  | cons x xs ih =>
    have ih := ih fun y hy => h y (List.mem_cons_of_mem _ hy)
    obtain ⟨c, offset, generated⟩ := x
    cases generated with
    | false => simp [List.count_cons, ih]
    | true =>
      have hc : c ≠ '\n' := h _ List.mem_cons_self rfl
      simpa [copiedOf, List.count_cons, hc] using ih

/-- Without its inserted segments, a rendering gives the source back. -/
def withoutInserted (r : Rendering) : Rendering := r.filter fun s => match s with
  | .copied _ _ => true
  | .inserted _ _ => false

theorem copiedOf_copiedFrom (pos : Nat) (t : List Char) :
    copiedOf (Segment.copiedFrom pos t) = t := by
  rw [← woven_nil]
  exact copiedOf_woven [] pos t

theorem text_withoutInserted (r : Rendering) : (withoutInserted r).text = copiedOf r.tagged := by
  induction r with
  | nil => rfl
  | cons s r ih =>
    have hcons : copiedOf (tagged (s :: r)) = copiedOf s.tagged ++ copiedOf (tagged r) := by
      simp [tagged]
    rw [hcons, ← ih]
    cases s with
    | copied start t =>
      simp [withoutInserted, text, Segment.text, Segment.tagged, copiedOf_copiedFrom]
    | inserted anchor t =>
      have hnone : copiedOf (Segment.insertedFor anchor t) = [] := by
        refine copiedOf_eq_nil fun x hx => ?_
        obtain ⟨c, -, rfl⟩ := List.mem_map.mp hx
        rfl
      simp [withoutInserted, text, Segment.tagged, hnone]

/-- Insertions whose offsets tell them apart can come in any order. -/
theorem ofInsertions_perm {is js : List Insertion} (hp : is.Perm js)
    (hu : ∀ i ∈ is, ∀ j ∈ is, i.offset = j.offset → i = j) (source : List Char) :
    ofInsertions source is = ofInsertions source js := by
  have hsorted (ls : List Insertion) := pairwise_sortedBy Insertion.le_trans Insertion.le_total ls
  have heq : sortedBy (fun a b => decide (a.offset ≤ b.offset)) is =
      sortedBy (fun a b => decide (a.offset ≤ b.offset)) js := by
    refine List.Perm.eq_of_pairwise ?_ (hsorted is) (hsorted js)
      (sortedBy_perm.trans (hp.trans sortedBy_perm.symm))
    intro a b ha hb hab hba
    simp only [decide_eq_true_eq] at hab hba
    exact hu a (mem_sortedBy.mp ha) b (hp.mem_iff.mpr (mem_sortedBy.mp hb)) (by omega)
  rw [ofInsertions, ofInsertions, heq]

end Rendering
end Instrumentation
