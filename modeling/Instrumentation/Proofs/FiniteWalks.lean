import Instrumentation.Proofs.NormalPaths
import Instrumentation.Proofs.Places
import Instrumentation.Proofs.Walks
import Mathlib.Data.Nat.Digits.Lemmas

/-!
Walks come to an end. A walk goes on only to paths that it has not seen, and there are no more paths
than texts of some length, so that after some levels nothing is left to read (`walk_ends`). What is
seen is the path and not the file: a file with two paths is mounted twice (`detour_mounted_twice`).
-/
namespace Instrumentation

namespace Path

variable {p : Path}

/-- A path as a number, with a digit for each byte. -/
def code (p : Path) : Nat :=
  Nat.ofDigits 257 (p.text.toByteArray.data.toList.map fun b => b.toNat + 1)

theorem digits_code (p : Path) :
    Nat.digits 257 p.code = p.text.toByteArray.data.toList.map fun b => b.toNat + 1 := by
  apply Nat.digits_ofDigits 257 (by decide)
  · intro n hn
    obtain ⟨b, -, rfl⟩ := List.mem_map.mp hn
    have hb := b.toNat_lt
    omega
  · intro hne hzero
    obtain ⟨b, -, hb⟩ := List.mem_map.mp (List.getLast_mem hne)
    rw [hzero] at hb
    omega

theorem code_injective : Function.Injective code := by
  intro p q h
  have hdigits := digits_code p
  rw [h, digits_code q] at hdigits
  have hbytes : Function.Injective fun b : UInt8 => b.toNat + 1 := by
    intro a b hab
    exact UInt8.toNat_inj.mp (Nat.succ_injective hab)
  have hlist := List.map_injective_iff.mpr hbytes hdigits
  have htext : p.text = q.text :=
    String.toByteArray_inj.mp (ByteArray.ext (Array.toList_inj.mp hlist.symm))
  rw [← mk.injEq] at htext
  exact htext

theorem code_lt {size : Nat} (h : p.text.utf8ByteSize < size) : p.code < Nat.pow 257 size := by
  have hdigit : ∀ n ∈ p.text.toByteArray.data.toList.map (fun b => b.toNat + 1), n < 257 := by
    intro n hn
    obtain ⟨b, -, rfl⟩ := List.mem_map.mp hn
    have hb := b.toNat_lt
    omega
  have hcode : p.code < 257 ^ p.text.utf8ByteSize := by
    have hlt := Nat.ofDigits_lt_base_pow_length (by decide) hdigit
    rw [List.length_map] at hlt
    exact hlt
  have hpow : 257 ^ p.text.utf8ByteSize ≤ 257 ^ size :=
    Nat.pow_le_pow_right (by decide) (Nat.le_of_lt h)
  exact Nat.lt_of_lt_of_le hcode hpow

/-- Where a path leads that goes on by names. -/
theorem lead_of_names {base : List PathComponent} {names : List String}
    (h : p.components = base ++ names.map .name) (start : List String) :
    p.lead start = base.foldl enter start ++ names := by
  rw [lead, h, List.foldl_append, foldl_enter_names]

end Path

theorem FileTree.size_lt_of_place {t : FileTree} {p : Path} {place : Place}
    (h : t.place p = .ok place) : p.text.utf8ByteSize < pathLimit := by
  unfold FileTree.place at h
  split at h
  · cases h
  · split at h
    · cases h
    · next hsize => exact Nat.lt_of_not_ge hsize

namespace ModuleFile

variable {t : FileTree} {seen : List Path} {level : List Pending}

theorem size_lt_of_isFile {p : Path} (h : t.isFile p = true) :
    p.text.utf8ByteSize < FileTree.pathLimit := by
  unfold FileTree.isFile at h
  split at h
  · next place hplace => exact FileTree.size_lt_of_place hplace
  · cases h

theorem exists_place_of_scan {p : Path} {f : SourceFile} (h : scan t p = .ok f) :
    ∃ place, t.place p = .ok place := by
  obtain ⟨text, hread⟩ := exists_text_of_scan h
  obtain ⟨place, hplace, -⟩ := exists_of_bind_eq_ok hread
  exact ⟨place, hplace⟩

/-- Reads the pending files of a level. -/
def openAll (t : FileTree) (level : List Pending) : Except Failure (List (Pending × SourceFile)) :=
  level.mapM fun p => (scan t p.path).map fun file => (p, file)

/-- A walk that ends: a level without files is its end, and so is a file that cannot be read; else it
goes on to the next level. -/
inductive Ends (t : FileTree) :
    (seen : List Path) → List Pending → Except Failure (List ModuleFile) → Prop
  | done {seen : List Path} : Ends t seen [] (.ok [])
  | failed {seen : List Path} {level : List Pending} {e : Failure} (h : openAll t level = .error e) :
      Ends t seen level (.error e)
  | level {seen : List Path} {level : List Pending} {opened : List (Pending × SourceFile)}
      {rest : Except Failure (List ModuleFile)} (hne : level ≠ []) (h : openAll t level = .ok opened)
      (hrest : Ends t (unseen seen (leads t opened)).2 (unseen seen (leads t opened)).1 rest) :
      Ends t seen level (rest.map fun files => opened.map (fun r => r.1.opened r.2) ++ files)

/-- What a walk has seen: paths that differ, none of them too long. -/
structure Sighted (seen : List Path) : Prop where
  apart : (seen.map Path.components).Nodup
  short : ∀ p ∈ seen, p.text.utf8ByteSize < FileTree.pathLimit

theorem Sighted.length_le (h : Sighted seen) : seen.length ≤ pathBound := by
  have hcodes : (seen.map Path.code).Nodup := h.apart.of_map.map Path.code_injective
  have hbelow : seen.map Path.code ⊆ List.range pathBound := by
    intro n hn
    obtain ⟨p, hp, rfl⟩ := List.mem_map.mp hn
    apply List.mem_range.mpr
    unfold pathBound
    exact Path.code_lt (h.short p hp)
  have hle := hcodes.length_le_of_subset hbelow
  rw [List.length_map, List.length_range] at hle
  exact hle

theorem Sighted.unseen (h : Sighted seen) {ps : List Pending}
    (hps : ∀ p ∈ ps, p.path.text.utf8ByteSize < FileTree.pathLimit) :
    Sighted (unseen seen ps).2 := by
  have hkept : ∀ p ∈ (ModuleFile.unseen seen ps).1, p ∈ ps := by
    intro p hp
    exact (sublist_unseen seen ps).subset hp
  rw [seen_unseen]
  constructor
  · rw [List.map_append, List.map_reverse, List.map_map, List.nodup_append, List.nodup_reverse]
    refine ⟨nodup_unseen seen ps, h.apart, ?_⟩
    intro a ha b hb
    rw [List.mem_reverse] at ha
    obtain ⟨p, hp, rfl⟩ := List.mem_map.mp ha
    obtain ⟨q, hq, rfl⟩ := List.mem_map.mp hb
    exact ne_of_mem_unseen hp hq
  · intro p hp
    rcases List.mem_append.mp hp with hp | hp
    · rw [List.mem_reverse] at hp
      obtain ⟨q, hq, rfl⟩ := List.mem_map.mp hp
      exact hps q (hkept q hq)
    · exact h.short p hp

/-- Every file that a level leads to has a path that is not too long. -/
theorem size_lt_of_mem_leads {opened : List (Pending × SourceFile)} {q : Pending}
    (hq : q ∈ leads t opened) : q.path.text.utf8ByteSize < FileTree.pathLimit := by
  obtain ⟨⟨p, f⟩, -, hq⟩ := List.mem_flatMap.mp hq
  obtain ⟨m, -, hfollow⟩ := List.mem_filterMap.mp hq
  obtain ⟨found, hfound, rfl⟩ := follow?_eq_some hfollow
  exact size_lt_of_isFile (List.find?_some hfound)

theorem walkLevels_nil (t : FileTree) (levels : Nat) (seen : List Path) :
    walkLevels t levels seen [] = .ok [] := by
  cases levels <;> rfl

theorem walkLevels_of_error {levels : Nat} {e : Failure} (hne : level ≠ [])
    (h : openAll t level = .error e) : walkLevels t (levels + 1) seen level = .error e := by
  obtain ⟨p, ps, rfl⟩ := List.exists_cons_of_ne_nil hne
  rw [openAll] at h
  simp only [walkLevels, List.isEmpty_cons, Bool.false_eq_true, ↓reduceIte, h]
  rfl

theorem walkLevels_of_ok {levels : Nat} {opened : List (Pending × SourceFile)} (hne : level ≠ [])
    (h : openAll t level = .ok opened) : walkLevels t (levels + 1) seen level =
      (walkLevels t levels (unseen seen (leads t opened)).2 (unseen seen (leads t opened)).1).map
        fun files => opened.map (fun r => r.1.opened r.2) ++ files := by
  obtain ⟨p, ps, rfl⟩ := List.exists_cons_of_ne_nil hne
  rw [openAll] at h
  simp only [walkLevels, List.isEmpty_cons, Bool.false_eq_true, ↓reduceIte, h]
  change (walkLevels t levels (unseen seen (leads t opened)).2 (unseen seen (leads t opened)).1 >>=
    fun rest => pure (opened.map (fun r => r.1.opened r.2) ++ rest)) = _
  cases walkLevels t levels (unseen seen (leads t opened)).2 (unseen seen (leads t opened)).1 <;> rfl

/-- A walk ends before its bound: each level but the last one has a path that was not seen before. -/
theorem ends_walkLevels {levels : Nat} (hseen : Sighted seen)
    (hlevels : pathBound < levels + seen.length) :
    Ends t seen level (walkLevels t levels seen level) := by
  induction levels generalizing seen level with
  | zero =>
    have hle := hseen.length_le
    omega
  | succ levels ih =>
    by_cases hne : level = []
    · subst hne
      rw [walkLevels_nil]
      exact .done
    · cases hopened : openAll t level with
      | error e =>
        rw [walkLevels_of_error hne hopened]
        exact .failed hopened
      | ok opened =>
        rw [walkLevels_of_ok hne hopened]
        refine .level hne hopened ?_
        cases hnext : (unseen seen (leads t opened)).1 with
        | nil =>
          rw [walkLevels_nil]
          exact .done
        | cons q qs =>
          have hsighted : Sighted (unseen seen (leads t opened)).2 :=
            hseen.unseen fun q hq => size_lt_of_mem_leads hq
          have hgrows : (unseen seen (leads t opened)).2.length = qs.length + 1 + seen.length := by
            rw [seen_unseen, hnext]
            simp only [List.map_cons, List.length_append, List.length_reverse, List.length_cons,
              List.length_map]
          exact ih hsighted (by omega)

/-- The root file of a crate, still to be read. -/
def Pending.ofRoot (crate : String) (root : Path) : Pending :=
  ⟨root, crate, (root.parent?).getD ⟨""⟩, true⟩

theorem ends_walk (t : FileTree) (crate : String) (root : Path) :
    Ends t [root] [.ofRoot crate root] (walk t crate root) := by
  by_cases hshort : root.text.utf8ByteSize < FileTree.pathLimit
  · have hseen : Sighted [root] := ⟨List.nodup_singleton _, by simpa using hshort⟩
    apply ends_walkLevels hseen
    rw [List.length_singleton]
    omega
  · -- a root with too long a path cannot be read
    cases hopened : openAll t [.ofRoot crate root] with
    | ok opened =>
      obtain ⟨⟨q, f⟩, hfirst, -⟩ := mapM_cons_eq_ok_iff.mp hopened
      obtain ⟨place, hplace⟩ := exists_place_of_scan (scan_of_map_eq_ok hfirst).2
      exact absurd (FileTree.size_lt_of_place hplace) hshort
    | error e =>
      have hempty : Sighted [⟨""⟩] := ⟨List.nodup_singleton _, by decide⟩
      obtain ⟨levels, hlevels⟩ : ∃ levels, pathBound = levels + 1 :=
        Nat.exists_eq_add_of_le' hempty.length_le
      have hwalk : walk t crate root = .error e := by
        rw [walk, hlevels]
        exact walkLevels_of_error (List.cons_ne_nil _ _) hopened
      rw [hwalk]
      exact .failed hopened

/-- Every walk ends, whatever circles declarations run in, and mounts no path twice. It mounts no
file twice, either, as long as paths differ in nothing but the names behind a common start; a file
that paths reach by other steps up, or from another start, may be mounted once for each of them. -/
theorem walk_ends (t : FileTree) (crate : String) (root : Path) :
    Ends t [root] [.ofRoot crate root] (walk t crate root) ∧
    ∀ files, walk t crate root = .ok files →
      (files.map fun m => m.file.path.components).Nodup ∧
      ∀ a ∈ files, ∀ b ∈ files, t.place a.file.path = t.place b.file.path →
        ∀ (start : List PathComponent) (xs ys : List String),
          a.file.path.components = start ++ xs.map .name →
          b.file.path.components = start ++ ys.map .name → a = b := by
  refine ⟨ends_walk t crate root, ?_⟩
  intro files h
  constructor
  · exact (nodup_walkLevels h (List.nodup_singleton _) (by simp)).1
  · intro a ha b hb hsame start xs ys hxs hys
    obtain ⟨place, hplace⟩ := exists_place_of_scan (scan_of_mem_walkLevels h ha)
    have ha' := FileTree.place_eq hplace
    have hb' := FileTree.place_eq (hsame.symm.trans hplace)
    rw [Path.lead_of_names hxs] at ha'
    rw [Path.lead_of_names hys] at hb'
    have hnames : xs = ys := List.append_cancel_left (ha'.symm.trans hb')
    apply eq_of_mem_walk h ha hb
    rw [Path.same, hxs, hys, hnames, beq_self_eq_true]

/-- Two files that declare each other. -/
def circleTree : FileTree where
  files := [(["src", "lib.rs"], .text "#[path=\"a.rs\"]mod a;"),
    (["src", "a.rs"], .text "#[path=\"lib.rs\"]mod b;")]

theorem circleTree_ends : ∃ files, walk circleTree "app" ⟨"/src/lib.rs"⟩ = .ok files ∧
    files.map ModuleFile.modulePath = ["app", "app::a"] ∧
    Ends circleTree [⟨"/src/lib.rs"⟩] [.ofRoot "app" ⟨"/src/lib.rs"⟩] (.ok files) ∧
    ∀ a ∈ files, ∀ b ∈ files,
      circleTree.place a.file.path = circleTree.place b.file.path → a = b := by
  have hrows : (walk circleTree "app" ⟨"/src/lib.rs"⟩).toOption.any (fun files =>
      decide (files.map (fun m => (m.modulePath, m.file.path)) =
        [("app", ⟨"/src/lib.rs"⟩), ("app::a", ⟨"/src/a.rs"⟩)])) = true := by
    decide +kernel
  obtain ⟨files, hwalk, hrows⟩ := exists_ok_of_any hrows
  have hrows := of_decide_eq_true hrows
  have hmodules := congrArg (List.map Prod.fst) hrows
  have hpaths := congrArg (List.map Prod.snd) hrows
  rw [List.map_map] at hmodules hpaths
  obtain ⟨hends, hmounted⟩ := walk_ends circleTree "app" ⟨"/src/lib.rs"⟩
  rw [hwalk] at hends
  refine ⟨files, hwalk, hmodules, hends, ?_⟩
  have hstraight : ∀ m ∈ files, ∃ names : List String,
      m.file.path.components = [.root] ++ names.map .name := by
    intro m hm
    have hmem : m.file.path ∈ files.map (Prod.snd ∘ fun m => (m.modulePath, m.file.path)) :=
      List.mem_map_of_mem hm
    rw [hpaths] at hmem
    simp only [List.map_cons, List.map_nil, List.mem_cons, List.not_mem_nil, or_false] at hmem
    rcases hmem with he | he
    · exact ⟨["src", "lib.rs"], by rw [he]; decide⟩
    · exact ⟨["src", "a.rs"], by rw [he]; decide⟩
  intro a ha b hb hsame
  obtain ⟨xs, hxs⟩ := hstraight a ha
  obtain ⟨ys, hys⟩ := hstraight b hb
  exact (hmounted files hwalk).2 a ha b hb hsame [.root] xs ys hxs hys

/-- A file that is declared by its name and, with a detour, by an attribute. -/
def detourTree : FileTree where
  files := [(["src", "lib.rs"], .text "mod a;#[path=\"../src/a.rs\"]mod b;"),
    (["src", "a.rs"], .text "")]

/-- One file is mounted as two modules. -/
theorem detour_mounted_twice : ∃ files a b, walk detourTree "app" ⟨"src/lib.rs"⟩ = .ok files ∧
    a ∈ files ∧ b ∈ files ∧ a.modulePath = "app::a" ∧ b.modulePath = "app::b" ∧
    detourTree.place a.file.path = .ok ["src", "a.rs"] ∧
    detourTree.place b.file.path = .ok ["src", "a.rs"] := by
  have hrows : (walk detourTree "app" ⟨"src/lib.rs"⟩).toOption.any (fun files =>
      decide (files.map (fun m => (m.modulePath, m.file.path)) =
        [("app", ⟨"src/lib.rs"⟩), ("app::a", ⟨"src/a.rs"⟩), ("app::b", ⟨"src/../src/a.rs"⟩)])) =
      true := by
    decide +kernel
  obtain ⟨files, hwalk, hrows⟩ := exists_ok_of_any hrows
  obtain ⟨r, rest, rfl, -, hrest⟩ := List.map_eq_cons_iff.mp (of_decide_eq_true hrows)
  obtain ⟨a, rest, rfl, ha, hrest⟩ := List.map_eq_cons_iff.mp hrest
  obtain ⟨b, rest, rfl, hb, -⟩ := List.map_eq_cons_iff.mp hrest
  rw [Prod.mk.injEq] at ha hb
  refine ⟨_, a, b, hwalk, by simp, by simp, ha.1, hb.1, ?_, ?_⟩
  · rw [ha.2]
    decide +kernel
  · rw [hb.2]
    decide +kernel

end ModuleFile
end Instrumentation
