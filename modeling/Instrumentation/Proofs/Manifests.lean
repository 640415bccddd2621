import Instrumentation.Manifest
import Instrumentation.Proofs.NormalPaths
import Instrumentation.Proofs.Places

/-!
What the tables of a manifest hold after changes, name by name. Sending paths elsewhere keeps every
name, and a dependency is added only under a name that was free.
-/
namespace Instrumentation

/-- A table with one text is known from its name and the text. -/
theorem Json.eq_obj_of_texts {j : Json} {key text : String}
    (h : (j.obj?.map fun ms => ms.map fun m => (m.1, m.2.str?)) = some [(key, some text)]) :
    j = .obj [(key, .str text)] := by
  obtain ⟨ms, hms, h⟩ := Option.map_eq_some_iff.mp h
  obtain ⟨⟨name, value⟩, rfl, hm⟩ := List.map_eq_singleton_iff.mp h
  cases j <;> cases hms
  cases value <;> cases hm
  rfl

namespace Table

variable {t : Table} {name key : String} {value : Json}

theorem has_eq_isSome (t : Table) (name : String) : t.has name = (t.get? name).isSome := by
  rw [Bool.eq_iff_iff, has, get?, Option.isSome_map, List.find?_isSome, List.any_eq_true]

theorem exists_of_has (h : t.has name = true) : ∃ m ∈ t, m.1 = name := by
  simpa [has] using h

/-- Changing the values of members, each in a way that its name decides. -/
theorem get?_map (f : String → Json → Json) (t : Table) (key : String) :
    get? (t.map fun m => (m.1, f m.1 m.2)) key = (t.get? key).map (f key) := by
  unfold get?
  induction t with
  | nil => rfl
  | cons m t ih =>
    by_cases h : m.1 = key
    · simp [h]
    · simpa [List.find?_cons, h] using ih

theorem get?_mapValues (f : Json → Json) (t : Table) (key : String) :
    (t.mapValues f).get? key = (t.get? key).map f := get?_map (fun _ => f) t key

theorem get?_set (t : Table) (name : String) (value : Json) (key : String) :
    (t.set name value).get? key = if key = name then some value else t.get? key := by
  unfold set
  by_cases hhas : t.has name = true
  · have hmap : (t.map fun m => if m.1 == name then (name, value) else m) =
        t.map fun m => (m.1, (if m.1 = name then fun _ => value else id) m.2) := by
      refine List.map_congr_left fun m _ => ?_
      by_cases hm : m.1 = name <;> simp [hm]
    rw [if_pos hhas, hmap, get?_map (fun n => if n = name then fun _ => value else id)]
    rw [has_eq_isSome, Option.isSome_iff_exists] at hhas
    obtain ⟨old, hold⟩ := hhas
    by_cases hkey : key = name
    · simp [hkey, hold]
    · simp [hkey]
  · rw [if_neg hhas]
    rw [has_eq_isSome, Bool.not_eq_true, Option.isSome_eq_false_iff, Option.isNone_iff_eq_none]
      at hhas
    unfold get? at hhas ⊢
    by_cases hkey : key = name
    · subst hkey
      rw [Option.map_eq_none_iff] at hhas
      simp [List.find?_append, hhas]
    · simp [List.find?_append, hkey, Ne.symm hkey]

theorem has_set (t : Table) (name : String) (value : Json) (key : String) :
    (t.set name value).has key = (decide (key = name) || t.has key) := by
  rw [has_eq_isSome, has_eq_isSome, get?_set]
  by_cases h : key = name <;> simp [h]

/-- Changing the table of one name leaves the others alone. -/
theorem get?_mapTable_of_ne (t : Table) (f : Table → Table) (h : key ≠ name) :
    (t.mapTable name f).get? key = t.get? key := by
  unfold mapTable
  split
  · rw [get?_set, if_neg h]
  · split
    · rw [get?_set, if_neg h]
    · rfl

/-- The table that a member is, an empty one if there is no such member. -/
def tableAt? (t : Table) (name : String) : Option Table :=
  match t.get? name with
  | none => some []
  | some j => ofJson? j

theorem get?_mapTable {inner : Table} (f : Table → Table) (h : t.tableAt? name = some inner) :
    (t.mapTable name f).get? name = some (.obj (f inner)) := by
  cases hget : t.get? name with
  | none =>
    simp only [tableAt?, hget, Option.some.injEq] at h
    simp only [mapTable, hget, get?_set, if_pos, ← h]
  | some j =>
    simp only [tableAt?, hget] at h
    simp only [mapTable, hget, h, get?_set, if_pos]

theorem ofJson?_eq_some_iff {j : Json} : ofJson? j = some t ↔ j = .obj t ∧ Toml.date? j = none := by
  unfold ofJson?
  constructor
  · intro h
    split at h
    · cases h
    · next hdate =>
      cases j <;> cases h
      exact ⟨rfl, by simpa using hdate⟩
  · rintro ⟨rfl, hdate⟩
    rw [hdate]
    rfl

/-- A table stays a table if only texts become texts: a date is a table of one text. -/
theorem ofJson?_map {f : String → Json → Json} {j : Json}
    (hf : ∀ key j s, f key j = .str s → ∃ old, j = .str old) (h : ofJson? j = some t) :
    ofJson? (.obj (t.map fun m => (m.1, f m.1 m.2))) =
      some (t.map fun m => (m.1, f m.1 m.2)) := by
  obtain ⟨rfl, hdate⟩ := ofJson?_eq_some_iff.mp h
  apply ofJson?_eq_some_iff.mpr
  refine ⟨rfl, ?_⟩
  by_contra hnew
  unfold Toml.date? at hnew
  split at hnew
  case h_2 => exact hnew rfl
  next text heq =>
  obtain ⟨⟨key, j⟩, rfl, hm⟩ := List.map_eq_singleton_iff.mp (Json.obj.inj heq)
  obtain ⟨rfl, hj⟩ := Prod.mk.inj hm
  obtain ⟨old, rfl⟩ := hf _ j text hj
  simp [Toml.date?] at hdate

end Table

namespace Path

/-- A path that is joined to a directory has a normal form that depends on the components of the
directory only. -/
theorem normalize_join_congr {p q : Path} (h : p.components = q.components)
    (hne : p.components ≠ []) (s : String) : (p.join s).normalize = (q.join s).normalize := by
  have hcomponents : (p.join s).components = (q.join s).components := by
    by_cases hslash : s.toList.head? = some '/'
    · simp [join, hslash]
    · rw [components_join hne hslash, components_join (h ▸ hne) hslash, h]
  rw [normalize, normalize, hcomponents]

end Path

namespace Manifest

variable {t : FileTree} {p dir dir' : Path} {move : Path → Path} {table orig deps : Table}
  {name kind : String} {j : Json}

/-- The table that a manifest file in a tree holds. -/
def at? (t : FileTree) (p : Path) : Option Table :=
  match t.fileAt? (p.lead t.cwd) with
  | some (.text text) => (Toml.read? text).bind Json.obj?
  | _ => none

theorem at?_of_read (h : read t p = .ok table) : at? t p = some table := by
  unfold read at h
  split at h
  · cases h
  · next text htext =>
    obtain ⟨c, hc, htext⟩ := exists_of_bind_eq_ok htext
    split at htext
    · cases htext
      split at h
      · next hread =>
        cases h
        rw [at?, FileTree.fileAt?_of_read hc]
        exact hread
      · cases h
    · cases htext

/-- A dependency with its path sent elsewhere. -/
def redirectEntry (move : Path → Path) (dir : Path) : Json → Json :=
  inTable (Table.mapAt ["path"] (sent move dir))

theorem redirectEntries_eq (move : Path → Path) (dir : Path) :
    redirectEntries move dir = inTable (Table.mapValues (redirectEntry move dir)) := rfl

theorem eq_str_of_inTable {f : Table → Table} {s : String} (h : inTable f j = .str s) :
    j = .str s := by
  unfold inTable at h
  split at h
  · cases h
  · exact h

theorem sent_congr (h : dir.components = dir'.components) (hne : dir.components ≠ []) :
    sent move dir = sent move dir' := by
  funext j
  unfold sent
  split
  · rw [Path.normalize_join_congr h hne]
  · rfl

theorem redirectEntry_congr (h : dir.components = dir'.components) (hne : dir.components ≠ []) :
    redirectEntry move dir = redirectEntry move dir' := by
  rw [redirectEntry, redirectEntry, sent_congr h hne]

/-- A member of a manifest with all paths in it sent elsewhere. -/
def redirectMember (move : Path → Path) (dir : Path) (name : String) (j : Json) : Json :=
  if dependencyTables.contains name then redirectEntries move dir j
  else if name = "target" then
    inTable (Table.mapValues (inTable (Table.mapAt dependencyTables (redirectEntries move dir)))) j
  else if name = "workspace" then
    inTable (Table.mapAt ["dependencies"] (redirectEntries move dir)) j
  else if name = "patch" then inTable (Table.mapValues (redirectEntries move dir)) j
  else j

theorem redirect_eq (move : Path → Path) (dir : Path) (table : Table) :
    redirect move dir table = table.map fun m => (m.1, redirectMember move dir m.1 m.2) := by
  unfold redirect redirectMember
  refine List.map_congr_left fun m _ => ?_
  repeat' split
  all_goals rfl

theorem get?_redirect (move : Path → Path) (dir : Path) (table : Table)
    (h : kind ∈ dependencyTables) :
    (redirect move dir table).get? kind = (table.get? kind).map (redirectEntries move dir) := by
  have hmember : redirectMember move dir kind = redirectEntries move dir := by
    funext j
    exact if_pos (List.contains_iff_mem.mpr h)
  rw [redirect_eq, Table.get?_map, hmember]

/-- Where the values in a table are changed, the table is one still if only texts become texts. -/
theorem tableAt?_of_get? {new : Table} {f : Json → Json}
    (hget : new.get? name = (table.get? name).map (inTable (Table.mapValues f)))
    (hf : ∀ j s, f j = .str s → ∃ old, j = .str old) (h : table.tableAt? name = some orig) :
    new.tableAt? name = some (orig.mapValues f) := by
  unfold Table.tableAt? at h ⊢
  rw [hget]
  cases hj : table.get? name with
  | none =>
    rw [hj] at h
    cases h
    rfl
  | some j =>
    have hinner : Table.ofJson? j = some orig := by simpa [hj] using h
    rw [Option.map_some, inTable, hinner]
    exact Table.ofJson?_map (fun _ => hf) hinner

theorem tableAt?_redirect (move : Path → Path) (dir : Path)
    (h : table.tableAt? "dependencies" = some orig) :
    (redirect move dir table).tableAt? "dependencies" =
      some (orig.mapValues (redirectEntry move dir)) :=
  tableAt?_of_get? (get?_redirect move dir table (by decide))
    (fun _ s hs => ⟨s, eq_str_of_inTable hs⟩) h

/-- Dependencies let a crate be linked if one has its name, or its name with dashes. -/
def Links (deps : Table) (crate : String) : Prop :=
  deps.has crate = true ∨ deps.has (dashed crate) = true

instance (deps : Table) (crate : String) : Decidable (Links deps crate) :=
  inferInstanceAs (Decidable (_ ∨ _))

theorem Links.keep {more : Table} (h : Links deps name)
    (hkeep : ∀ key j, deps.get? key = some j → more.get? key = some j) : Links more name := by
  have has_of (key : String) (hkey : deps.has key = true) : more.has key = true := by
    rw [Table.has_eq_isSome, Option.isSome_iff_exists] at hkey ⊢
    obtain ⟨j, hj⟩ := hkey
    exact ⟨j, hkeep key j hj⟩
  exact h.imp (has_of name) (has_of (dashed name))

/-- A dependency that is there stays what it is. -/
theorem get?_addDependency (entry : String × Json) (h : deps.get? name = some j) :
    (addDependency deps entry).get? name = some j := by
  unfold addDependency
  split
  · exact h
  · next hfree =>
    rw [Bool.not_eq_true, Bool.or_eq_false_iff, Table.has_eq_isSome] at hfree
    rw [Table.get?_set, if_neg, h]
    rintro rfl
    simp [h] at hfree

theorem links_addDependency (deps : Table) (entry : String × Json) :
    Links (addDependency deps entry) entry.1 := by
  unfold addDependency
  split
  · next hthere =>
    exact Bool.or_eq_true_iff.mp hthere
  · left
    rw [Table.has_eq_isSome, Table.get?_set, if_pos rfl]
    rfl

theorem get?_foldl_addDependency (extra : Table) (h : deps.get? name = some j) :
    (extra.foldl addDependency deps).get? name = some j := by
  induction extra generalizing deps with
  | nil => exact h
  | cons entry extra ih => exact ih (get?_addDependency entry h)

theorem links_foldl_addDependency {extra : Table} {entry : String × Json} (h : entry ∈ extra) :
    Links (extra.foldl addDependency deps) entry.1 := by
  induction extra generalizing deps with
  | nil => cases h
  | cons first extra ih =>
    rcases List.mem_cons.mp h with rfl | h
    · exact (links_addDependency deps entry).keep fun key j => get?_foldl_addDependency extra
    · exact ih h

/-- With more dependencies, all crates of these can be linked, and what was there is there. -/
theorem exists_addDependencies (extra : Table) (h : table.tableAt? "dependencies" = some deps) :
    ∃ more : Table, (addDependencies table extra).get? "dependencies" = some (.obj more) ∧
      (∀ entry ∈ extra, Links more entry.1) ∧
      ∀ name j, deps.get? name = some j → more.get? name = some j := by
  let sorted := sortedBy (fun a b => a.1 ≤ b.1) extra
  refine ⟨sorted.foldl addDependency deps, ?_, ?_, ?_⟩
  · exact Table.get?_mapTable (fun deps => sorted.foldl addDependency deps) h
  · intro entry hentry
    exact links_foldl_addDependency (mem_sortedBy.mpr hentry)
  · intro name j hj
    exact get?_foldl_addDependency _ hj

theorem get?_addPatches (table : Table) (patches : Patches) (h : name ≠ "patch") :
    (addPatches table patches).get? name = table.get? name := by
  unfold addPatches
  split
  · rfl
  · exact Table.get?_mapTable_of_ne table _ h

end Manifest
end Instrumentation
