import Instrumentation.Proofs.Manifests
import Instrumentation.WorkingCopy.Basic

/-!
Which values of a manifest change when its paths to other packages are sent to a working copy, and
what becomes of them. A value is named by the keys that lead to it from table to table.
-/
namespace Instrumentation

namespace Table

/-- The value under a list of keys, each in the table of the one before. -/
def follow? : List String → Json → Option Json
  | [], j => some j
  | key :: keys, j => (ofJson? j).bind fun t => (t.get? key).bind (follow? keys)

/-- The value of a manifest under a key and more keys. -/
def valueAt? (t : Table) (key : String) (keys : List String) : Option Json :=
  (t.get? key).bind (follow? keys)

theorem mapAt_eq_map (names : List String) (f : Json → Json) :
    mapAt names f =
      fun t => t.map fun m => (m.1, (if names.contains m.1 then f else id) m.2) := by
  funext t
  apply List.map_congr_left
  intro m _
  by_cases hm : names.contains m.1 = true
  · rw [if_pos hm, if_pos hm]
  · rw [if_neg hm, if_neg hm]
    rfl

end Table

namespace Manifest

variable {w : WorkingCopy} {dir : Path} {P Q : List String → Prop} {key : String}
  {keys : List String} {f : Json → Json} {g : String → Json → Json} {j old new : Json}

/-- The keys of paths to other packages: those of dependencies, for every target or for single ones
or for a whole workspace, and those of replacements. -/
inductive IsPackagePath : List String → Prop
  | ofPackage {kind name : String} : kind ∈ dependencyTables →
      IsPackagePath [kind, name, "path"]
  | ofTarget {target kind name : String} : kind ∈ dependencyTables →
      IsPackagePath ["target", target, kind, name, "path"]
  | ofWorkspace {name : String} : IsPackagePath ["workspace", "dependencies", name, "path"]
  | ofPatch {source name : String} : IsPackagePath ["patch", source, name, "path"]

/-- What becomes of a value under some keys, if the paths that `P` names lead to a working copy. -/
structure Sent (w : WorkingCopy) (dir : Path) (P : List String → Prop) (keys : List String)
    (old new : Json) : Prop where
  /-- The path of a package that was copied leads to the copy. -/
  copied (s : String) (copy : Path) : P keys → old = .str s →
    w.copyPath? (dir.join s).normalize = some copy → new = .str copy.text
  /-- The path of any other package leads to where it is. -/
  uncopied (s : String) : P keys → old = .str s →
    w.copyPath? (dir.join s).normalize = none → new = .str (dir.join s).normalize.text
  /-- A value without any such path in it is the same. -/
  kept : (∀ more, ¬ P (keys ++ more)) → new = old
  /-- So is what is no such path, and no table that may have one in it. -/
  leaf : Table.ofJson? old = none → ¬ (P keys ∧ ∃ s, old = .str s) → new = old
  /-- A table has the same keys, in the same order. -/
  table (t : Table) : Table.ofJson? old = some t →
    ∃ more, Table.ofJson? new = some more ∧ more.map Prod.fst = t.map Prod.fst

theorem Sent.rfl_of (h : ¬ P keys) : Sent w dir P keys j j where
  copied _ _ hp := absurd hp h
  uncopied _ hp := absurd hp h
  kept _ := rfl
  leaf _ _ := rfl
  table t ht := ⟨t, ht, rfl⟩

/-- A change of values that sends the paths that `P` names to a working copy. -/
def Sends (w : WorkingCopy) (dir : Path) (P : List String → Prop) (f : Json → Json) : Prop :=
  ∀ keys j, Option.Rel (Sent w dir P keys) (Table.follow? keys j) (Table.follow? keys (f j))

theorem Sends.congr (hpq : ∀ keys, P keys ↔ Q keys) (h : Sends w dir P f) : Sends w dir Q f := by
  have heq : P = Q := by
    funext keys
    exact propext (hpq keys)
  rwa [← heq]

/-- The change itself is what becomes of a value under no keys. -/
theorem Sends.sent (h : Sends w dir P f) (j : Json) : Sent w dir P [] j (f j) := by
  cases h [] j with
  | some hsent => exact hsent

theorem Sends.exists_text {s : String} (h : Sends w dir P f) (hj : f j = .str s) :
    ∃ old, j = .str old := by
  cases htable : Table.ofJson? j with
  | some t =>
    obtain ⟨more, hmore, -⟩ := (h.sent j).table t htable
    rw [hj] at hmore
    cases hmore
  | none =>
    by_cases hpath : P [] ∧ ∃ old, j = .str old
    · exact hpath.2
    · exact ⟨s, ((h.sent j).leaf htable hpath).symm.trans hj⟩

theorem sends_id (h : ∀ keys, ¬ P keys) : Sends w dir P id := by
  intro keys j
  rw [id]
  cases Table.follow? keys j with
  | none => exact .none
  | some old => exact .some (.rfl_of (h keys))

theorem sent_eq_self (hj : ∀ s, j ≠ .str s) (move : Path → Path) : sent move dir j = j := by
  cases j with
  | str s => exact absurd rfl (hj s)
  | _ => rfl

/-- The path of one package. -/
theorem sends_sent (w : WorkingCopy) (dir : Path) :
    Sends w dir (fun keys => keys = []) (sent w.locate dir) := by
  intro keys j
  cases keys with
  | nil =>
    refine .some ⟨?_, ?_, fun hnone => absurd rfl (hnone []), ?_, ?_⟩
    · rintro s copy - rfl hcopy
      rw [sent, WorkingCopy.locate, hcopy, Option.getD_some]
    · rintro s - rfl hcopy
      rw [sent, WorkingCopy.locate, hcopy, Option.getD_none]
    · intro _ hpath
      exact sent_eq_self (fun s hs => hpath ⟨rfl, s, hs⟩) w.locate
    · intro t ht
      obtain ⟨rfl, -⟩ := Table.ofJson?_eq_some_iff.mp ht
      exact ⟨t, ht, rfl⟩
  | cons key keys =>
    by_cases htext : ∃ s, j = .str s
    · obtain ⟨s, rfl⟩ := htext
      exact .none
    · rw [sent_eq_self (fun s hs => htext ⟨s, hs⟩)]
      cases Table.follow? (key :: keys) j with
      | none => exact .none
      | some old => exact .some (.rfl_of (List.cons_ne_nil key keys))

/-- What becomes of the members of a table, each changed in a way that its key decides. -/
theorem sends_members (hg : ∀ key, Sends w dir (fun keys => P (key :: keys)) (g key)) (t : Table)
    (key : String) (keys : List String) :
    Option.Rel (Sent w dir P (key :: keys)) (t.valueAt? key keys)
      (Table.valueAt? (t.map fun m => (m.1, g m.1 m.2)) key keys) := by
  unfold Table.valueAt?
  rw [Table.get?_map]
  cases t.get? key with
  | none => exact .none
  | some j =>
    have hmember := hg key keys j
    rw [Option.map_some, Option.bind_some, Option.bind_some]
    generalize Table.follow? keys j = old, Table.follow? keys (g key j) = new at hmember ⊢
    cases hmember with
    | none => exact .none
    | some h => exact .some ⟨h.copied, h.uncopied, h.kept, h.leaf, h.table⟩

theorem sends_inTable (hg : ∀ key, Sends w dir (fun keys => P (key :: keys)) (g key))
    (hnil : ¬ P []) : Sends w dir P (inTable fun t => t.map fun m => (m.1, g m.1 m.2)) := by
  intro keys j
  unfold inTable
  cases htable : Table.ofJson? j with
  | none =>
    cases keys with
    | nil => exact .some (.rfl_of hnil)
    | cons key keys =>
      simp only [Table.follow?, htable, Option.bind_none]
      exact .none
  | some t =>
    have hnew := Table.ofJson?_map (fun key _ _ hj => (hg key).exists_text hj) htable
    cases keys with
    | cons key keys =>
      simp only [Table.follow?, htable, hnew, Option.bind_some]
      exact sends_members hg t key keys
    | nil =>
      refine .some ⟨fun _ _ hp => absurd hp hnil, fun _ hp => absurd hp hnil, ?_, ?_, ?_⟩
      · intro hnone
        obtain ⟨rfl, -⟩ := Table.ofJson?_eq_some_iff.mp htable
        apply congrArg Json.obj
        conv_rhs => rw [← List.map_id t]
        apply List.map_congr_left
        intro m _
        rw [((hg m.1).sent m.2).kept fun more => hnone (m.1 :: more), id]
      · intro hleaf
        rw [htable] at hleaf
        cases hleaf
      · intro old hold
        obtain rfl : t = old := Option.some.inj (htable.symm.trans hold)
        refine ⟨_, hnew, ?_⟩
        rw [List.map_map]
        rfl

/-- The keys of what is in a table under one of some names. -/
def Under (names : List String) (P : List String → Prop) (keys : List String) : Prop :=
  ∃ key ∈ names, ∃ more, keys = key :: more ∧ P more

/-- The keys of what is in a table under any name. -/
def UnderAny (P : List String → Prop) (keys : List String) : Prop :=
  ∃ key more, keys = key :: more ∧ P more

theorem under_cons {names : List String} :
    Under names P (key :: keys) ↔ key ∈ names ∧ P keys := by
  constructor
  · rintro ⟨other, hother, more, heq, hp⟩
    obtain ⟨rfl, rfl⟩ := List.cons.inj heq
    exact ⟨hother, hp⟩
  · rintro ⟨hkey, hp⟩
    exact ⟨key, hkey, keys, rfl, hp⟩

theorem underAny_cons : UnderAny P (key :: keys) ↔ P keys := by
  constructor
  · rintro ⟨other, more, heq, hp⟩
    obtain ⟨rfl, rfl⟩ := List.cons.inj heq
    exact hp
  · intro hp
    exact ⟨key, keys, rfl, hp⟩

theorem sends_mapAt (h : Sends w dir P f) (names : List String) :
    Sends w dir (Under names P) (inTable (Table.mapAt names f)) := by
  rw [Table.mapAt_eq_map]
  apply sends_inTable (g := fun key => if names.contains key then f else id)
  · intro key
    by_cases hkey : names.contains key = true
    · rw [if_pos hkey]
      have hmem := List.contains_iff_mem.mp hkey
      exact h.congr fun keys => (under_cons.trans (and_iff_right hmem)).symm
    · rw [if_neg hkey]
      apply sends_id
      intro keys hp
      exact hkey (List.contains_iff_mem.mpr (under_cons.mp hp).1)
  · rintro ⟨key, -, more, heq, -⟩
    cases heq

theorem sends_mapValues (h : Sends w dir P f) :
    Sends w dir (UnderAny P) (inTable (Table.mapValues f)) := by
  apply sends_inTable (g := fun _ => f)
  · intro key
    exact h.congr fun keys => underAny_cons.symm
  · rintro ⟨key, more, heq, -⟩
    cases heq

/-- The keys of paths in a table of dependencies. -/
def IsEntryPath (keys : List String) : Prop := ∃ name, keys = [name, "path"]

theorem sends_redirectEntries (w : WorkingCopy) (dir : Path) :
    Sends w dir IsEntryPath (redirectEntries w.locate dir) := by
  have hentry := sends_mapValues (sends_mapAt (sends_sent w dir) ["path"])
  refine hentry.congr fun keys => ⟨?_, ?_⟩
  · rintro ⟨name, more, rfl, key, hkey, rest, rfl, rfl⟩
    exact ⟨name, by rw [List.mem_singleton.mp hkey]⟩
  · rintro ⟨name, rfl⟩
    exact ⟨name, ["path"], rfl, "path", List.mem_singleton_self _, [], rfl, rfl⟩

theorem isPackagePath_cons : IsPackagePath (key :: keys) ↔
    (key ∈ dependencyTables ∧ IsEntryPath keys) ∨
    (key = "target" ∧ UnderAny (Under dependencyTables IsEntryPath) keys) ∨
    (key = "workspace" ∧ Under ["dependencies"] IsEntryPath keys) ∨
    (key = "patch" ∧ UnderAny IsEntryPath keys) := by
  constructor
  · intro h
    cases h with
    | ofPackage hkind => exact .inl ⟨hkind, _, rfl⟩
    | ofTarget hkind => exact .inr (.inl ⟨rfl, _, _, rfl, _, hkind, _, rfl, _, rfl⟩)
    | ofWorkspace =>
      exact .inr (.inr (.inl ⟨rfl, _, List.mem_singleton_self _, _, rfl, _, rfl⟩))
    | ofPatch => exact .inr (.inr (.inr ⟨rfl, _, _, rfl, _, rfl⟩))
  · rintro (⟨hkind, name, rfl⟩ | ⟨rfl, target, -, rfl, kind, hkind, -, rfl, name, rfl⟩ |
      ⟨rfl, kind, hkind, -, rfl, name, rfl⟩ | ⟨rfl, source, -, rfl, name, rfl⟩)
    · exact .ofPackage hkind
    · exact .ofTarget hkind
    · rw [List.mem_singleton.mp hkind]
      exact .ofWorkspace
    · exact .ofPatch

theorem sends_redirectMember (w : WorkingCopy) (dir : Path) (key : String) :
    Sends w dir (fun keys => IsPackagePath (key :: keys)) (redirectMember w.locate dir key) := by
  have hentries := sends_redirectEntries w dir
  simp only [isPackagePath_cons]
  by_cases hkind : key ∈ dependencyTables
  · have heq : redirectMember w.locate dir key = redirectEntries w.locate dir := by
      funext j
      exact if_pos (List.contains_iff_mem.mpr hkind)
    rw [heq]
    refine hentries.congr fun keys => (or_iff_left ?_).trans (and_iff_right hkind) |>.symm
    rintro (⟨rfl, -⟩ | ⟨rfl, -⟩ | ⟨rfl, -⟩) <;> exact absurd hkind (by decide)
  by_cases htarget : key = "target"
  · subst htarget
    apply (sends_mapValues (sends_mapAt hentries dependencyTables)).congr
    simp [hkind]
  by_cases hworkspace : key = "workspace"
  · subst hworkspace
    apply (sends_mapAt hentries ["dependencies"]).congr
    simp [hkind]
  by_cases hpatch : key = "patch"
  · subst hpatch
    apply (sends_mapValues hentries).congr
    simp [hkind]
  · have heq : redirectMember w.locate dir key = id := by
      funext j
      rw [redirectMember, if_neg (mt List.contains_iff_mem.mp hkind), if_neg htarget,
        if_neg hworkspace, if_neg hpatch, id]
    rw [heq]
    apply sends_id
    simp [hkind, htarget, hworkspace, hpatch]

/-- Sending a manifest to a working copy keeps its keys, and all values but the paths to other
packages, every one of which leads to the copy if there is one. -/
theorem redirect_sends_paths (w : WorkingCopy) (dir : Path) (manifest : Table) :
    (redirect w.locate dir manifest).map Prod.fst = manifest.map Prod.fst ∧
      ∀ key keys, Option.Rel (Sent w dir IsPackagePath (key :: keys))
        (manifest.valueAt? key keys) ((redirect w.locate dir manifest).valueAt? key keys) := by
  rw [redirect_eq]
  constructor
  · rw [List.map_map]
    rfl
  · exact sends_members (sends_redirectMember w dir) manifest

end Manifest
end Instrumentation
