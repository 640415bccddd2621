import Instrumentation.ModuleFile
import Instrumentation.Proofs.Outcome
import Mathlib.Data.List.Nodup

/-!
Walks through the files of a crate. What holds of the root, and passes from each file to those that
its declarations lead to, holds of every file of a walk (`forall_walkLevels`); and no two files of a
walk have one path (`nodup_walkLevels`).
-/
namespace Instrumentation.ModuleFile

variable {t : FileTree} {files : List ModuleFile} {m : ModuleFile} {path : Path} {f : SourceFile}

theorem scan_path (h : scan t path = .ok f) : f.path = path := by
  unfold scan at h
  split at h
  · cases h
  · split at h
    · cases h
      rfl
    · cases h

/-- A file that can be scanned holds a text. -/
theorem exists_text_of_scan (h : scan t path = .ok f) : ∃ text, t.read path = .ok (.text text) := by
  unfold scan at h
  split at h
  · cases h
  · next text htext =>
    obtain ⟨c, hc, hcontent⟩ := exists_of_bind_eq_ok htext
    cases c with
    | text s => exact ⟨s, hc⟩
    | bytes b => cases hcontent

theorem exists_read_of_scan (h : scan t path = .ok f) :
    ∃ text, Source.Scan.read text = .ok f.scan := by
  unfold scan at h
  split at h
  · cases h
  · next text htext =>
    split at h
    · next s hs =>
      cases h
      exact ⟨text.toList, hs⟩
    · cases h

/-- The module that a pending file is, once it is read. -/
def Pending.opened (p : Pending) (f : SourceFile) : ModuleFile := ⟨p.modulePath, p.isExported, f⟩

/-- Where a declaration leads, there is a file. -/
theorem follow?_eq_some {p q : Pending} {m : Source.OutlineModule} (h : follow? t p m = some q) :
    ∃ found, (candidates (m.scope.foldl Path.join p.dir) m).find? t.isFile = some found ∧
      q = ⟨found, Text.joined "::" (p.modulePath :: (m.scope ++ [m.name])),
        childDir (m.scope.foldl Path.join p.dir) found m, p.isExported && m.isPub⟩ := by
  simp only [follow?, Option.bind_eq_bind, Option.bind_eq_some_iff] at h
  obtain ⟨found, hfound, h⟩ := h
  cases h
  exact ⟨found, hfound, rfl⟩

/-- Where the declarations of some files lead. -/
def leads (t : FileTree) (opened : List (Pending × SourceFile)) : List Pending :=
  opened.flatMap fun (p, file) => file.scan.modules.filterMap (follow? t p)

section

variable {seen : List Path} {ps : List Pending} {p : Pending}

theorem unseen_cons (seen : List Path) (p : Pending) (rest : List Pending) :
    (seen.any p.path.same = true ∧ unseen seen (p :: rest) = unseen seen rest) ∨
    (seen.any p.path.same = false ∧
      unseen seen (p :: rest) =
        (p :: (unseen (p.path :: seen) rest).1, (unseen (p.path :: seen) rest).2)) := by
  rw [unseen]
  cases seen.any p.path.same with
  | true => exact .inl ⟨rfl, rfl⟩
  | false => exact .inr ⟨rfl, rfl⟩

theorem sublist_unseen (seen : List Path) (ps : List Pending) : (unseen seen ps).1.Sublist ps := by
  induction ps generalizing seen with
  | nil => exact List.nil_sublist _
  | cons p rest ih =>
    rcases unseen_cons seen p rest with ⟨_, heq⟩ | ⟨_, heq⟩
    · rw [heq]
      exact (ih seen).cons p
    · rw [heq]
      exact (ih (p.path :: seen)).cons_cons p

/-- What has been seen grows by what is kept. -/
theorem seen_unseen (seen : List Path) (ps : List Pending) :
    (unseen seen ps).2 = ((unseen seen ps).1.map Pending.path).reverse ++ seen := by
  induction ps generalizing seen with
  | nil => rfl
  | cons p rest ih =>
    rcases unseen_cons seen p rest with ⟨_, heq⟩ | ⟨_, heq⟩
    · rw [heq]
      exact ih seen
    · rw [heq]
      simp [ih]

theorem subset_seen (seen : List Path) (ps : List Pending) : seen ⊆ (unseen seen ps).2 := by
  rw [seen_unseen]
  exact List.subset_append_right _ seen

theorem path_mem_seen (hp : p ∈ (unseen seen ps).1) : p.path ∈ (unseen seen ps).2 := by
  rw [seen_unseen]
  apply List.mem_append_left
  rw [List.mem_reverse]
  exact List.mem_map_of_mem hp

/-- What is kept has a path unlike all those that have been seen. -/
theorem ne_of_mem_unseen (hp : p ∈ (unseen seen ps).1) {q : Path} (hq : q ∈ seen) :
    p.path.components ≠ q.components := by
  induction ps generalizing seen with
  | nil => cases hp
  | cons p' rest ih =>
    rcases unseen_cons seen p' rest with ⟨_, heq⟩ | ⟨hnew, heq⟩
    · rw [heq] at hp
      exact ih hp hq
    · rw [heq] at hp
      rcases List.mem_cons.mp hp with rfl | hp
      · simpa [Path.same] using List.any_eq_false.mp hnew q hq
      · exact ih hp (List.mem_cons_of_mem _ hq)

theorem nodup_unseen (seen : List Path) (ps : List Pending) :
    ((unseen seen ps).1.map fun p => p.path.components).Nodup := by
  induction ps generalizing seen with
  | nil => exact List.nodup_nil
  | cons p rest ih =>
    rcases unseen_cons seen p rest with ⟨_, heq⟩ | ⟨_, heq⟩
    · rw [heq]
      exact ih seen
    · rw [heq, List.map_cons, List.nodup_cons]
      refine ⟨?_, ih _⟩
      intro hmem
      obtain ⟨q, hq, hcomponents⟩ := List.mem_map.mp hmem
      exact ne_of_mem_unseen hq List.mem_cons_self hcomponents

end

section

variable {levels : Nat} {seen : List Path} {level : List Pending}

/-- One level of a walk: its files are read, and then the walk goes on where they lead. -/
theorem exists_of_walkLevels (h : walkLevels t (levels + 1) seen level = .ok files) :
    ∃ opened rest, level.mapM (fun p => (scan t p.path).map fun file => (p, file)) = .ok opened ∧
      walkLevels t levels (unseen seen (leads t opened)).2 (unseen seen (leads t opened)).1 =
        .ok rest ∧
      files = opened.map (fun r => r.1.opened r.2) ++ rest := by
  unfold walkLevels at h
  cases level with
  | nil =>
    cases h
    refine ⟨[], [], rfl, ?_, rfl⟩
    cases levels <;> rfl
  | cons p level =>
    simp only [List.isEmpty_cons, Bool.false_eq_true, ↓reduceIte] at h
    obtain ⟨opened, hopened, h⟩ := exists_of_bind_eq_ok h
    obtain ⟨rest, hrest, h⟩ := exists_of_bind_eq_ok h
    cases h
    exact ⟨opened, rest, hopened, hrest, rfl⟩

/-- A file that was read is the one that was pending. -/
theorem scan_of_map_eq_ok {p q : Pending}
    (h : (scan t p.path).map (fun file => (p, file)) = .ok (q, f)) :
    q = p ∧ scan t p.path = .ok f := by
  cases hscan : scan t p.path with
  | error e =>
    rw [hscan] at h
    cases h
  | ok f' =>
    rw [hscan] at h
    cases h
    exact ⟨rfl, rfl⟩

/-- What holds of the pending files of a level, and passes from each file of the walk to those that
it leads to, holds of every file of the walk. -/
theorem forall_walkLevels {P : Pending → Prop} {all : List ModuleFile}
    (hstep : ∀ p f m q, P p → scan t p.path = .ok f → p.opened f ∈ all → m ∈ f.scan.modules →
      follow? t p m = some q → P q)
    (h : walkLevels t levels seen level = .ok files) (hall : files ⊆ all)
    (hlevel : ∀ p ∈ level, P p) (hm : m ∈ files) :
    ∃ p f, P p ∧ scan t p.path = .ok f ∧ m = p.opened f := by
  induction levels generalizing seen level files with
  | zero =>
    cases h
    cases hm
  | succ levels ih =>
    obtain ⟨opened, rest, hopened, hrest, rfl⟩ := exists_of_walkLevels h
    have hread (p : Pending) (f : SourceFile) (hmem : (p, f) ∈ opened) :
        P p ∧ scan t p.path = .ok f := by
      obtain ⟨q, hq, hscan⟩ := exists_of_mem_mapM hopened hmem
      obtain ⟨rfl, hscan⟩ := scan_of_map_eq_ok hscan
      exact ⟨hlevel p hq, hscan⟩
    rcases List.mem_append.mp hm with hm | hm
    · obtain ⟨⟨p, f⟩, hmem, rfl⟩ := List.mem_map.mp hm
      obtain ⟨hp, hscan⟩ := hread p f hmem
      exact ⟨p, f, hp, hscan, rfl⟩
    · refine ih hrest (List.Subset.trans (List.subset_append_right _ _) hall) ?_ hm
      intro q hq
      obtain ⟨⟨p, f⟩, hmem, hfound⟩ :=
        List.mem_flatMap.mp ((sublist_unseen seen (leads t opened)).subset hq)
      obtain ⟨d, hd, hfollow⟩ := List.mem_filterMap.mp hfound
      obtain ⟨hp, hscan⟩ := hread p f hmem
      exact hstep p f d q hp hscan
        (hall (List.mem_append_left _ (List.mem_map_of_mem hmem))) hd hfollow

/-- Every file of a walk has been read and scanned. -/
theorem scan_of_mem_walkLevels (h : walkLevels t levels seen level = .ok files) (hm : m ∈ files) :
    scan t m.file.path = .ok m.file := by
  obtain ⟨p, f, _, hscan, rfl⟩ := forall_walkLevels (P := fun _ => True)
    (fun _ _ _ _ _ _ _ _ _ => trivial) h (List.Subset.refl files) (fun _ _ => trivial) hm
  exact (scan_path hscan).symm ▸ hscan

/-- No path is read twice: what comes after the files of the level has not been seen before. -/
theorem nodup_walkLevels (h : walkLevels t levels seen level = .ok files)
    (hlevel : (level.map fun p => p.path.components).Nodup) (hseen : ∀ p ∈ level, p.path ∈ seen) :
    (files.map fun m => m.file.path.components).Nodup ∧
      ∀ m ∈ files, (∃ p ∈ level, m.file.path = p.path) ∨
        ∀ q ∈ seen, m.file.path.components ≠ q.components := by
  induction levels generalizing seen level files with
  | zero =>
    cases h
    exact ⟨List.nodup_nil, by simp⟩
  | succ levels ih =>
    obtain ⟨opened, rest, hopened, hrest, rfl⟩ := exists_of_walkLevels h
    have hpaths : opened.map (fun r => r.2.path) = level.map Pending.path := by
      refine map_eq_of_mapM ?_ hopened
      rintro p ⟨q, f⟩ hscan
      exact scan_path (scan_of_map_eq_ok hscan).2
    obtain ⟨hnodup, hnew⟩ := ih hrest (nodup_unseen _ _) fun p hp => path_mem_seen hp
    -- The files further on have not been seen, and those of the level have.
    have hlater (m : ModuleFile) (hm : m ∈ rest) (q : Path) (hq : q ∈ seen) :
        m.file.path.components ≠ q.components := by
      rcases hnew m hm with ⟨p, hp, hpath⟩ | hne
      · rw [hpath]
        exact ne_of_mem_unseen hp hq
      · exact hne q (subset_seen _ _ hq)
    have hopenedPath (m : ModuleFile) (hm : m ∈ opened.map fun r => r.1.opened r.2) :
        ∃ p ∈ level, m.file.path = p.path := by
      obtain ⟨r, hr, rfl⟩ := List.mem_map.mp hm
      have hmem : r.2.path ∈ level.map Pending.path := hpaths ▸ List.mem_map_of_mem hr
      obtain ⟨p, hp, hpath⟩ := List.mem_map.mp hmem
      exact ⟨p, hp, hpath.symm⟩
    constructor
    · rw [List.map_append, List.nodup_append]
      refine ⟨?_, hnodup, ?_⟩
      · have hcomponents := congrArg (List.map Path.components) hpaths
        rw [List.map_map, List.map_map] at hcomponents
        rw [List.map_map]
        exact hcomponents ▸ hlevel
      · intro a ha b hb
        obtain ⟨m, hm, rfl⟩ := List.mem_map.mp ha
        obtain ⟨n, hn, rfl⟩ := List.mem_map.mp hb
        obtain ⟨p, hp, hpath⟩ := hopenedPath m hm
        rw [hpath]
        exact (hlater n hn p.path (hseen p hp)).symm
    · intro m hm
      rcases List.mem_append.mp hm with hm | hm
      · exact .inl (hopenedPath m hm)
      · exact .inr (hlater m hm)

end

variable {crate : String} {root : Path}

/-- Files of a walk with one path are one file. -/
theorem eq_of_mem_walk (h : walk t crate root = .ok files) {a b : ModuleFile} (ha : a ∈ files)
    (hb : b ∈ files) (hsame : a.file.path.same b.file.path = true) : a = b := by
  have hnodup := (nodup_walkLevels h (List.nodup_singleton _) (by simp)).1
  exact List.inj_on_of_nodup_map hnodup ha hb (beq_iff_eq.mp hsame)

end Instrumentation.ModuleFile
