import Mathlib.Data.List.Nodup
import Instrumentation.FileTree.Edit
import Instrumentation.Proofs.Outcome
import Instrumentation.Proofs.Paths

/-!
Where paths lead in a file tree, and what a change of the tree leaves alone. A path that is found
leads where its components say, whatever the tree holds; so a file is written where its path leads,
and every other file stays what it was. What exists stays there as a tree grows.
-/
namespace Instrumentation.FileTree

variable {t t' : FileTree} {path : Path} {p q place : Place} {c : Content}

open Instrumentation.Path (component? stepsIn enter)

theorem step_eq {piece : List Char} (h : t.step place (String.ofList piece) = .ok q) :
    q = (component? false piece).toList.foldl enter place := by
  have hpiece (s : String) : (String.ofList piece == s) = (piece == s.toList) := by
    rw [Bool.eq_iff_iff, beq_iff_eq, beq_iff_eq, ← String.toList_inj, String.toList_ofList]
  unfold step at h
  simp only [hpiece] at h
  unfold component?
  split at h
  · cases h
  · split at h
    · next hhere =>
      cases h
      split <;> simp_all [enter]
    · split at h
      · next hup =>
        cases h
        simp only [beq_iff_eq] at hup
        subst hup
        rfl
      · split at h
        · cases h
        · split at h
          · cases h
            split <;> simp_all [enter]
          · cases h

theorem foldlM_step_eq {pieces : List (List Char)}
    (h : (pieces.map String.ofList).foldlM t.step place = .ok q) :
    q = (pieces.filterMap (component? false)).foldl enter place := by
  induction pieces generalizing place with
  | nil =>
    cases h
    rfl
  | cons piece pieces ih =>
    rw [List.map_cons, List.foldlM_cons] at h
    obtain ⟨next, hstep, h⟩ := exists_of_bind_eq_ok h
    rw [ih h, step_eq hstep, List.filterMap_cons]
    cases component? false piece <;> rfl

theorem lead_eq (p : Path) (t : FileTree) :
    p.lead t.cwd = (stepsIn p.text.toList).foldl enter (t.start p) := by
  rw [Path.lead, Path.components_eq, List.foldl_append, start, Path.isAbsolute, Path.headOf]
  split
  · rfl
  · split <;> rfl

/-- A path that leads to something leads where its components say. -/
theorem place_eq (h : t.place path = .ok q) : q = path.lead t.cwd := by
  unfold FileTree.place at h
  split at h
  · cases h
  · split at h
    · cases h
    · rw [lead_eq]
      exact foldlM_step_eq h

/-- A file that is read is where its path leads. -/
theorem fileAt?_of_read (h : t.read path = .ok c) : t.fileAt? (path.lead t.cwd) = some c := by
  obtain ⟨place, hplace, h⟩ := exists_of_bind_eq_ok h
  rw [← place_eq hplace]
  split at h
  · next hc =>
    cases h
    exact hc
  · cases h

/-- A file is written where its path leads. -/
theorem target_eq (h : t.target path = .ok q) : q = path.lead t.cwd := by
  obtain ⟨before, last, hpieces⟩ : ∃ before last, Text.pieces '/' path.text.toList = before ++ [last] :=
    ⟨_, _, (List.dropLast_concat_getLast (Text.pieces_ne_nil '/' path.text.toList)).symm⟩
  have hlast : (pieces path).getLast? = some (String.ofList last) := by simp [pieces, hpieces]
  have hbefore : (pieces path).dropLast = before.map String.ofList := by simp [pieces, hpieces]
  unfold target at h
  simp only [hlast, hbefore] at h
  split at h
  case isTrue => cases h
  split at h
  case isTrue => cases h
  obtain ⟨dir, hdir, h⟩ := exists_of_bind_eq_ok h
  split at h
  case isTrue => cases h
  split at h
  case isTrue => cases h
  next hname =>
  split at h
  case isTrue => cases h
  cases h
  have hcomponent : component? false last = some (.name (String.ofList last)) := by
    have hparts (s : String) : String.ofList last = s ↔ last = s.toList := by
      rw [← String.toList_inj, String.toList_ofList]
    simp only [List.contains_cons, List.contains_nil, Bool.or_false, beq_iff_eq,
      Bool.or_eq_true, hparts, not_or] at hname
    unfold component?
    split <;> simp_all
  rw [lead_eq, stepsIn, hpieces, List.filterMap_append, List.foldl_append, ← foldlM_step_eq hdir]
  simp [hcomponent, enter]

theorem hasDir_dropLast (h : t.hasDir p = true) : t.hasDir p.dropLast = true := by
  have hshorter {q : Place} (hpre : p <+: q) : p.dropLast <+: q := (List.dropLast_prefix p).trans hpre
  simp only [hasDir, Bool.or_eq_true, List.any_eq_true, Bool.and_eq_true, List.isPrefixOf_iff_prefix,
    bne_iff_ne] at h ⊢
  rcases h with (hroot | ⟨d, hd, hpre⟩) | ⟨f, hf, hpre, hne⟩
  · exact .inl (.inl (by simp_all))
  · exact .inl (.inr ⟨d, hd, hshorter hpre⟩)
  · refine .inr ⟨f, hf, hshorter hpre, ?_⟩
    intro heq
    have hlength := hpre.length_le
    rw [← heq, List.length_dropLast] at hlength
    have hnil : p = [] := List.length_eq_zero_iff.mp (by omega)
    exact hne (by rw [← heq, hnil, List.dropLast_nil])

/-- A step leads to something that is there. -/
theorem there_of_step {piece : String} (h : t.step place piece = .ok q) :
    t.hasFile q = true ∨ t.hasDir q = true := by
  unfold step at h
  split at h
  · cases h
  · next hdir =>
    have hdir : t.hasDir place = true := by simpa using hdir
    split at h
    · cases h
      exact .inr hdir
    · split at h
      · cases h
        exact .inr (hasDir_dropLast hdir)
      · split at h
        · cases h
        · split at h
          · next hthere =>
            cases h
            simpa using hthere
          · cases h

/-- A path leads to something that is there. -/
theorem there_of_place (h : t.place path = .ok q) : t.hasFile q = true ∨ t.hasDir q = true := by
  unfold FileTree.place at h
  split at h
  · cases h
  · split at h
    · cases h
    · obtain ⟨before, last, hpieces⟩ : ∃ before last, pieces path = before ++ [last] :=
        ⟨_, _, (List.dropLast_concat_getLast (by simp [pieces, Text.pieces_ne_nil])).symm⟩
      rw [hpieces, List.foldlM_append] at h
      obtain ⟨dir, -, h⟩ := exists_of_bind_eq_ok h
      rw [List.foldlM_cons] at h
      obtain ⟨next, hstep, h⟩ := exists_of_bind_eq_ok h
      cases h
      exact there_of_step hstep

theorem exists?_iff : t.exists? path = true ↔ ∃ place, t.place path = .ok place := by
  unfold FileTree.exists?
  split <;> simp_all

theorem hasFile_iff : t.hasFile p = true ↔ p ∈ t.files.map Prod.fst := by
  simp [hasFile, fileAt?, List.mem_map]

/-- A tree grows if nothing in it goes away. -/
structure Grows (t t' : FileTree) : Prop where
  cwd : t'.cwd = t.cwd
  dirs : t.dirs ⊆ t'.dirs
  places : t.files.map Prod.fst ⊆ t'.files.map Prod.fst

namespace Grows

theorem refl (t : FileTree) : Grows t t := ⟨rfl, fun _ => id, fun _ => id⟩

theorem trans {t'' : FileTree} (h : Grows t t') (h' : Grows t' t'') : Grows t t'' where
  cwd := h'.cwd.trans h.cwd
  dirs := List.Subset.trans h.dirs h'.dirs
  places := List.Subset.trans h.places h'.places

theorem withDirs {dirs : List Place} (h : t.dirs ⊆ dirs) : Grows t { t with dirs } :=
  ⟨rfl, h, fun _ => id⟩

theorem hasFile (h : Grows t t') (hp : t.hasFile p = true) : t'.hasFile p = true :=
  hasFile_iff.mpr (h.places (hasFile_iff.mp hp))

theorem hasDir (h : Grows t t') (hp : t.hasDir p = true) : t'.hasDir p = true := by
  simp only [FileTree.hasDir, Bool.or_eq_true, List.any_eq_true] at *
  rcases hp with (hroot | ⟨d, hd, hpre⟩) | ⟨f, hf, hpre⟩
  · exact .inl (.inl hroot)
  · exact .inl (.inr ⟨d, h.dirs hd, hpre⟩)
  · obtain ⟨f', hf', he⟩ := List.mem_map.mp (h.places (List.mem_map_of_mem hf))
    exact .inr ⟨f', hf', by rwa [he]⟩

theorem step (h : Grows t t') {piece : String} (hstep : t.step place piece = .ok q) :
    t'.step place piece = .ok q := by
  have hkept (hthere : (t.hasFile (place ++ [piece]) || t.hasDir (place ++ [piece])) = true) :
      (t'.hasFile (place ++ [piece]) || t'.hasDir (place ++ [piece])) = true := by
    rw [Bool.or_eq_true] at *
    exact hthere.imp h.hasFile h.hasDir
  unfold FileTree.step at *
  cases hdir : t.hasDir place with
  | false => simp [hdir] at hstep
  | true =>
    simp only [hdir, h.hasDir hdir, Bool.not_true, Bool.false_eq_true, if_false] at hstep ⊢
    split at hstep
    · next hhere => rw [if_pos hhere, hstep]
    · next hhere =>
      rw [if_neg hhere]
      split at hstep
      · next hup => rw [if_pos hup, hstep]
      · next hup =>
        rw [if_neg hup]
        split at hstep
        · cases hstep
        · next hlong =>
          rw [if_neg hlong]
          split at hstep
          · next hthere => rw [if_pos (hkept hthere), hstep]
          · cases hstep

/-- What a path leads to stays there. -/
theorem place_ok (h : Grows t t') (hplace : t.place path = .ok q) : t'.place path = .ok q := by
  have hsteps (pieces : List String) (start : Place) (hfold : pieces.foldlM t.step start = .ok q) :
      pieces.foldlM t'.step start = .ok q := by
    induction pieces generalizing start with
    | nil => exact hfold
    | cons piece pieces ih =>
      rw [List.foldlM_cons] at hfold ⊢
      obtain ⟨next, hstep, hrest⟩ := exists_of_bind_eq_ok hfold
      rw [h.step hstep]
      exact ih next hrest
  have hstart : t'.start path = t.start path := by rw [start, start, h.cwd]
  unfold FileTree.place at *
  split at hplace
  · cases hplace
  · next htext =>
    rw [if_neg htext]
    split at hplace
    · cases hplace
    · next hlength =>
      rw [if_neg hlength, hstart]
      exact hsteps _ _ hplace

theorem exists? (h : Grows t t') (hp : t.exists? path = true) : t'.exists? path = true := by
  obtain ⟨place, hplace⟩ := exists?_iff.mp hp
  exact exists?_iff.mpr ⟨place, h.place_ok hplace⟩

end Grows

/-- A path that names nothing leads to nothing. -/
theorem components_ne_nil_of_exists? (h : t.exists? path = true) : path.components ≠ [] := by
  obtain ⟨place, hplace⟩ := exists?_iff.mp h
  unfold FileTree.place at hplace
  split at hplace
  · cases hplace
  · next hempty =>
    intro hnil
    exact hempty (String.isEmpty_iff.mpr (Path.components_eq_nil_iff.mp hnil))

/-- The first file of a place in a list of files. -/
theorem find?_replaced (files : List (Place × Content)) (p q : Place) (c : Content) :
    ((files.map fun f => if f.1 == p then (p, c) else f).find? fun f => f.1 == q).map Prod.snd =
      if q = p then (files.find? fun f => f.1 == p).map fun _ => c
      else (files.find? fun f => f.1 == q).map Prod.snd := by
  induction files with
  | nil => simp
  | cons f files ih =>
    obtain ⟨place, d⟩ := f
    by_cases hp : place = p
    · subst hp
      by_cases hq : q = place
      · simp [hq]
      · simpa [hq, Ne.symm hq, List.find?_cons] using ih
    · by_cases hq : q = place
      · subst hq
        simp [hp]
      · simpa [hp, Ne.symm hq, List.find?_cons] using ih

theorem fileAt?_put (t : FileTree) (p q : Place) (c : Content) :
    (t.put p c).fileAt? q = if q = p then some c else t.fileAt? q := by
  unfold put
  by_cases hfile : t.hasFile p
  · obtain ⟨f, hf⟩ : ∃ f, t.files.find? (fun f => f.1 == p) = some f := by
      simpa [hasFile, fileAt?, Option.isSome_iff_exists] using hfile
    rw [if_pos hfile]
    simp only [fileAt?, find?_replaced, hf, Option.map_some]
  · have hnone : t.files.find? (fun f => f.1 == p) = none := by
      rw [hasFile, fileAt?, Option.isSome_map, Bool.not_eq_true, Option.isSome_eq_false_iff] at hfile
      exact Option.isNone_iff_eq_none.mp hfile
    rw [if_neg hfile]
    by_cases hq : q = p
    · simp [fileAt?, hq, hnone]
    · simp [fileAt?, List.find?_append, hq, Ne.symm hq]

theorem fileAt?_put_of_ne (t : FileTree) (c : Content) (h : q ≠ p) :
    (t.put p c).fileAt? q = t.fileAt? q := by rw [fileAt?_put, if_neg h]

@[simp] theorem cwd_put (t : FileTree) (p : Place) (c : Content) : (t.put p c).cwd = t.cwd := by
  unfold put
  split <;> rfl

theorem Grows.put (t : FileTree) (p : Place) (c : Content) : Grows t (t.put p c) := by
  refine ⟨cwd_put t p c, ?_, fun q hq => ?_⟩
  · unfold FileTree.put
    split <;> exact fun _ => id
  · rw [← hasFile_iff, FileTree.hasFile] at *
    rw [fileAt?_put]
    split
    · rfl
    · exact hq

/-- A written file is where its path leads. -/
theorem write_eq_ok (h : t.write path c = .ok t') : t' = t.put (path.lead t.cwd) c := by
  unfold write at h
  obtain ⟨place, htarget, h⟩ := exists_of_bind_eq_ok h
  split at h
  · cases h
  · cases h
    rw [target_eq htarget]

theorem makeStep_keeps {s s' : FileTree × Place} {piece : String} (h : makeStep s piece = .ok s') :
    s'.1.files = s.1.files ∧ Grows s.1 s'.1 := by
  unfold makeStep at h
  split at h <;> cases h
  · exact ⟨rfl, .refl _⟩
  · exact ⟨rfl, .withDirs (List.subset_append_left _ _)⟩

theorem foldlM_makeStep_keeps {pieces : List String} {s s' : FileTree × Place}
    (h : pieces.foldlM makeStep s = .ok s') : s'.1.files = s.1.files ∧ Grows s.1 s'.1 := by
  induction pieces generalizing s with
  | nil =>
    cases h
    exact ⟨rfl, .refl _⟩
  | cons piece pieces ih =>
    rw [List.foldlM_cons] at h
    obtain ⟨next, hstep, h⟩ := exists_of_bind_eq_ok h
    obtain ⟨hfiles, hgrows⟩ := makeStep_keeps hstep
    obtain ⟨hfiles', hgrows'⟩ := ih h
    exact ⟨hfiles'.trans hfiles, hgrows.trans hgrows'⟩

/-- Making directories keeps every file, and every directory that is there. -/
theorem makeDirs_keeps (h : t.makeDirs path = .ok t') : t'.files = t.files ∧ Grows t t' := by
  unfold makeDirs at h
  obtain ⟨s, hfold, h⟩ := exists_of_bind_eq_ok h
  dsimp only at h
  split at h
  · cases h
    exact foldlM_makeStep_keeps hfold
  · cases h

theorem mem_of_fileAt? (h : t.fileAt? p = some c) : (p, c) ∈ t.files := by
  obtain ⟨⟨q, d⟩, hf, rfl⟩ := Option.map_eq_some_iff.mp h
  obtain rfl : q = p := by simpa using List.find?_some hf
  exact List.mem_of_find?_eq_some hf

theorem below?_append (dir rest : Place) :
    below? dir (dir ++ rest) = if rest = [] then none else some rest := by
  cases rest <;> simp [below?]

theorem below?_eq_some_iff {dir rest : Place} :
    below? dir p = some rest ↔ p = dir ++ rest ∧ rest ≠ [] := by
  constructor
  · intro h
    have hpre : dir <+: p := by
      unfold below? at h
      split at h
      · next hpre =>
        simp only [Bool.and_eq_true, List.isPrefixOf_iff_prefix] at hpre
        exact hpre.1
      · cases h
    obtain ⟨rest', rfl⟩ := hpre
    rw [below?_append] at h
    split at h
    · cases h
    · next hne =>
      cases h
      exact ⟨rfl, hne⟩
  · rintro ⟨rfl, hne⟩
    rw [below?_append, if_neg hne]

/-- A directory has the names that lead on from it. -/
theorem mem_entries {dir : Place} {name : String} :
    name ∈ t.entries dir ↔ ∃ rest, dir ++ name :: rest ∈ t.places := by
  rw [entries, Text.mem_sortedSet, List.mem_filterMap]
  constructor
  · rintro ⟨p, hp, hname⟩
    obtain ⟨rest, hbelow, hhead⟩ := Option.bind_eq_some_iff.mp hname
    obtain ⟨rfl, -⟩ := below?_eq_some_iff.mp hbelow
    cases rest with
    | nil => cases hhead
    | cons first rest =>
      cases hhead
      exact ⟨rest, hp⟩
  · rintro ⟨rest, hp⟩
    exact ⟨_, hp, Option.bind_eq_some_iff.mpr
      ⟨_, below?_eq_some_iff.mpr ⟨rfl, List.cons_ne_nil name rest⟩, rfl⟩⟩

theorem nodup_entries (t : FileTree) (dir : Place) : (t.entries dir).Nodup :=
  (Text.pairwise_sortedSet _).imp fun hlt => by
    rintro rfl
    exact Std.lt_irrefl hlt

/-- A directory holds no more than there are places. -/
theorem length_entries_le (t : FileTree) (dir : Place) : (t.entries dir).length ≤ t.places.length :=
  Nat.le_trans ((t.nodup_entries dir).length_le_of_subset fun _ => Text.mem_sortedSet.mp)
    (List.length_filterMap_le _ _)

/-- What is there is listed in the directory that it is in. -/
theorem mem_entries_of_there {dir : Place} {name : String}
    (h : t.hasFile (dir ++ [name]) = true ∨ t.hasDir (dir ++ [name]) = true) :
    name ∈ t.entries dir := by
  have hplace : ∃ p ∈ t.places, dir ++ [name] <+: p := by
    simp only [hasFile_iff, hasDir, Bool.or_eq_true, List.any_eq_true, Bool.and_eq_true,
      List.isPrefixOf_iff_prefix] at h
    rcases h with hfile | (hroot | ⟨d, hd, hpre⟩) | ⟨f, hf, hpre, -⟩
    · exact ⟨_, List.mem_append_right _ hfile, List.prefix_rfl⟩
    · simp at hroot
    · exact ⟨d, List.mem_append_left _ hd, hpre⟩
    · exact ⟨f.1, List.mem_append_right _ (List.mem_map_of_mem hf), hpre⟩
  obtain ⟨_, hp, rest, rfl⟩ := hplace
  exact mem_entries.mpr ⟨rest, by simpa using hp⟩

theorem mem_places_of_fileAt? (h : t.fileAt? p = some c) : p ∈ t.places :=
  List.mem_append_right _ (List.mem_map_of_mem (mem_of_fileAt? h))

theorem length_le_levels (h : p ∈ t.places) : p.length ≤ t.levels := by
  rw [levels]
  generalize t.places = ps at h
  induction ps with
  | nil => cases h
  | cons q ps ih =>
    rw [List.map_cons, List.foldr_cons]
    rcases List.mem_cons.mp h with rfl | h
    · exact Nat.le_max_left _ _
    · exact Nat.le_trans (ih h) (Nat.le_max_right _ _)

/-- There is a directory on the way to a file. -/
theorem hasDir_of_fileAt? {rest : Place} (h : t.fileAt? (p ++ rest) = some c) (hne : rest ≠ []) :
    t.hasDir p = true := by
  rw [hasDir, Bool.or_eq_true]
  refine .inr (List.any_eq_true.mpr ⟨_, mem_of_fileAt? h, ?_⟩)
  simpa using hne

/-- One level of a walk: a file, or a directory that is not skipped and what is in it. -/
theorem mem_walk_succ {skipped : List String} {n : Nat} {dir : Place} {e : Place × Option Content} :
    e ∈ t.walk skipped (n + 1) dir ↔ ∃ name ∈ t.entries dir,
      (∃ c, t.fileAt? (dir ++ [name]) = some c ∧ e = ([name], some c)) ∨
        t.hasDir (dir ++ [name]) = true ∧ name ∉ skipped ∧
          (e = ([name], none) ∨ ∃ k ∈ t.walk skipped n (dir ++ [name]), e = (name :: k.1, k.2)) := by
  rw [walk, List.mem_flatMap]
  refine exists_congr fun name => and_congr_right fun _ => ?_
  simp only [List.mem_append, Option.mem_toList, Option.map_eq_some_iff, @eq_comm _ _ e,
    List.mem_ite_nil_right, Bool.and_eq_true, Bool.not_eq_true', List.contains_eq_mem,
    decide_eq_false_iff_not, List.mem_cons, List.mem_map, and_assoc]

/-- The walk finds the files within its levels, but those on a way that is skipped. -/
theorem mem_walk {skipped : List String} {n : Nat} {dir rest : Place} :
    (rest, some c) ∈ t.walk skipped n dir ↔ rest ≠ [] ∧ rest.length ≤ n ∧
      t.fileAt? (dir ++ rest) = some c ∧ ∀ s ∈ rest.dropLast, s ∉ skipped := by
  induction n generalizing dir rest with
  | zero =>
    constructor
    · intro h
      cases h
    · rintro ⟨hne, hlength, -⟩
      exact absurd (List.length_eq_zero_iff.mp (Nat.le_zero.mp hlength)) hne
  | succ n ih =>
    rw [mem_walk_succ]
    constructor
    · rintro ⟨name, -, ⟨d, hfile, heq⟩ | ⟨-, hname, heq | ⟨⟨below, d⟩, hk, heq⟩⟩⟩
      · obtain ⟨rfl, rfl⟩ := by simpa using heq
        exact ⟨List.cons_ne_nil _ _, by simp, hfile, by simp⟩
      · simp at heq
      · obtain ⟨rfl, rfl⟩ := by simpa using heq
        obtain ⟨hne, hlength, hfile, hskip⟩ := ih.mp hk
        refine ⟨List.cons_ne_nil _ _, by simpa using hlength, by simpa using hfile, ?_⟩
        rw [List.dropLast_cons_of_ne_nil hne]
        exact List.forall_mem_cons.mpr ⟨hname, hskip⟩
    · rintro ⟨hne, hlength, hfile, hskip⟩
      obtain ⟨name, below, rfl⟩ := List.exists_cons_of_ne_nil hne
      refine ⟨name, mem_entries.mpr ⟨below, mem_places_of_fileAt? hfile⟩, ?_⟩
      by_cases hbelow : below = []
      · subst hbelow
        exact .inl ⟨c, hfile, rfl⟩
      · rw [List.dropLast_cons_of_ne_nil hbelow, List.forall_mem_cons] at hskip
        have hfile : t.fileAt? ((dir ++ [name]) ++ below) = some c := by simpa using hfile
        exact .inr ⟨hasDir_of_fileAt? hfile hbelow, hskip.1, .inr ⟨(below, some c),
          ih.mpr ⟨hbelow, by simpa using hlength, hfile, hskip.2⟩, rfl⟩⟩

/-- The files below a directory, but those on a way that is skipped. -/
theorem mem_filesBelow {skipped : List String} {dir rest : Place} :
    (rest, c) ∈ t.filesBelow skipped dir ↔
      t.fileAt? (dir ++ rest) = some c ∧ rest ≠ [] ∧ ∀ s ∈ rest.dropLast, s ∉ skipped := by
  have hwalk : (rest, c) ∈ t.filesBelow skipped dir ↔
      (rest, some c) ∈ t.walk skipped t.levels dir := by
    simp [filesBelow]
  rw [hwalk, mem_walk]
  constructor
  · rintro ⟨hne, -, hfile, hskip⟩
    exact ⟨hfile, hne, hskip⟩
  · rintro ⟨hfile, hne, hskip⟩
    have hlength := length_le_levels (mem_places_of_fileAt? hfile)
    rw [List.length_append] at hlength
    exact ⟨hne, by omega, hfile, hskip⟩

theorem ne_nil_of_mem_walk {skipped : List String} {n : Nat} {dir : Place}
    {e : Place × Option Content} (h : e ∈ t.walk skipped n dir) : e.1 ≠ [] := by
  cases n with
  | zero => cases h
  | succ n =>
    obtain ⟨name, -, ⟨c, -, rfl⟩ | ⟨-, -, rfl | ⟨k, -, rfl⟩⟩⟩ := mem_walk_succ.mp h
    · exact List.cons_ne_nil _ _
    · exact List.cons_ne_nil _ _
    · exact List.cons_ne_nil _ _

/-- The places of the files that a walk comes to. -/
def filesOf (es : List (Place × Option Content)) : List Place :=
  (es.filter fun e => e.2.isSome).map Prod.fst

/-- The files that one name in a directory leads to: the file of that name, and those below it. -/
def filesAt (t : FileTree) (skipped : List String) (n : Nat) (dir : Place) (name : String) :
    List Place :=
  (t.fileAt? (dir ++ [name])).toList.map (fun _ => [name]) ++
    if t.hasDir (dir ++ [name]) && !skipped.contains name then
      (filesOf (t.walk skipped n (dir ++ [name]))).map (name :: ·)
    else []

theorem filesOf_walk_succ (skipped : List String) (n : Nat) (dir : Place) :
    filesOf (t.walk skipped (n + 1) dir) = (t.entries dir).flatMap (t.filesAt skipped n dir) := by
  rw [walk, filesOf, List.filter_flatMap, List.map_flatMap]
  refine List.flatMap_congr fun name _ => ?_
  rw [filesAt, List.filter_append, List.map_append]
  congr 1
  · cases t.fileAt? (dir ++ [name]) <;> rfl
  · split
    · simp [filesOf, List.filter_map, Function.comp_def]
    · rfl

theorem head?_of_mem_filesAt {skipped : List String} {n : Nat} {dir : Place} {name : String}
    (h : p ∈ t.filesAt skipped n dir name) : p.head? = some name := by
  rcases List.mem_append.mp h with h | h
  · obtain ⟨_, -, rfl⟩ := List.mem_map.mp h
    rfl
  · obtain ⟨_, h⟩ := List.mem_ite_nil_right.mp h
    obtain ⟨_, -, rfl⟩ := List.mem_map.mp h
    rfl

/-- The walk comes to no file twice. -/
theorem nodup_walk (skipped : List String) (n : Nat) (dir : Place) :
    (filesOf (t.walk skipped n dir)).Nodup := by
  induction n generalizing dir with
  | zero => exact .nil
  | succ n ih =>
    rw [filesOf_walk_succ, List.nodup_flatMap]
    constructor
    · intro name _
      refine List.nodup_append'.mpr ⟨?_, ?_, ?_⟩
      · cases t.fileAt? (dir ++ [name]) <;> simp
      · split
        · exact (ih _).map fun _ _ => (List.cons_inj_right name).mp
        · exact .nil
      · -- What is below a name is not the name itself.
        intro p hp hp'
        obtain ⟨_, -, rfl⟩ := List.mem_map.mp hp
        obtain ⟨_, hp'⟩ := List.mem_ite_nil_right.mp hp'
        obtain ⟨q, hq, heq⟩ := List.mem_map.mp hp'
        obtain ⟨e, he, rfl⟩ := List.mem_map.mp hq
        exact ne_nil_of_mem_walk (List.mem_filter.mp he).1 (List.cons.inj heq).2
    · refine (t.nodup_entries dir).imp fun {a b} hne p hpa hpb => hne ?_
      exact Option.some.inj ((head?_of_mem_filesAt hpa).symm.trans (head?_of_mem_filesAt hpb))

theorem nodup_filesBelow (t : FileTree) (skipped : List String) (dir : Place) :
    ((t.filesBelow skipped dir).map Prod.fst).Nodup := by
  have hplaces (es : List (Place × Option Content)) :
      (es.filterMap fun e => e.2.map fun c => (e.1, c)).map Prod.fst = filesOf es := by
    induction es with
    | nil => rfl
    | cons e es ih =>
      obtain ⟨place, entry⟩ := e
      cases entry <;> simp [filesOf, ih]
  rw [filesBelow, hplaces]
  exact nodup_walk skipped t.levels dir

theorem fileAt?_foldl_put_of_ne {files : List (Place × Content)} {dir : Place}
    (h : ∀ f ∈ files, q ≠ dir ++ f.1) :
    (files.foldl (fun t f => t.put (dir ++ f.1) f.2) t).fileAt? q = t.fileAt? q := by
  induction files generalizing t with
  | nil => rfl
  | cons f files ih =>
    rw [List.foldl_cons, ih (fun g hg => h g (List.mem_cons_of_mem f hg)),
      fileAt?_put_of_ne t f.2 (h f (by simp))]

theorem fileAt?_foldl_put {files : List (Place × Content)} {dir rest : Place}
    (h : (files.map Prod.fst).Nodup) (hf : (rest, c) ∈ files) :
    (files.foldl (fun t f => t.put (dir ++ f.1) f.2) t).fileAt? (dir ++ rest) = some c := by
  induction files generalizing t with
  | nil => cases hf
  | cons f files ih =>
    rw [List.map_cons, List.nodup_cons] at h
    rcases List.mem_cons.mp hf with rfl | hf
    · have hlater : ∀ g ∈ files, dir ++ rest ≠ dir ++ g.1 := by
        intro g hg he
        exact h.1 (List.mem_map.mpr ⟨g, hg, (List.append_cancel_left he).symm⟩)
      rw [List.foldl_cons, fileAt?_foldl_put_of_ne hlater, fileAt?_put, if_pos rfl]
    · exact ih h.2 hf

/-- What is outside the copy of a directory is left alone. -/
theorem fileAt?_copyBelow_of_not_below {skipped : List String} {dir target : Place}
    (h : ∀ rest, q ≠ target ++ rest) : (t.copyBelow skipped dir target).fileAt? q = t.fileAt? q := by
  rw [copyBelow, fileAt?_foldl_put_of_ne fun f _ => h f.1]
  rfl

/-- The copy of a directory holds what the directory holds. -/
theorem fileAt?_copyBelow {skipped : List String} {dir target rest : Place}
    (hf : t.fileAt? (dir ++ rest) = some c) (hne : rest ≠ [])
    (hskip : ∀ s ∈ rest.dropLast, s ∉ skipped) :
    (t.copyBelow skipped dir target).fileAt? (target ++ rest) = some c :=
  fileAt?_foldl_put (nodup_filesBelow t skipped dir) (mem_filesBelow.mpr ⟨hf, hne, hskip⟩)

theorem Grows.copyBelow (t : FileTree) (skipped : List String) (dir target : Place) :
    Grows t (t.copyBelow skipped dir target) := by
  have hput (files : List (Place × Content)) (s : FileTree) :
      Grows s (files.foldl (fun t f => t.put (target ++ f.1) f.2) s) := by
    induction files generalizing s with
    | nil => exact .refl s
    | cons f files ih => exact (Grows.put s _ f.2).trans (ih _)
  exact (Grows.withDirs (List.subset_append_left _ _)).trans (hput _ _)

@[simp] theorem cwd_copyBelow (t : FileTree) (skipped : List String) (dir target : Place) :
    (t.copyBelow skipped dir target).cwd = t.cwd := (Grows.copyBelow t skipped dir target).cwd

end Instrumentation.FileTree
