import Instrumentation.Proofs.Manifests
import Instrumentation.Proofs.WrittenLabels

/-!
Replacements of packages by copies. A manifest has a table of them for each source; a package is
replaced under its name, or under a key made up from it and a number if that name is taken. Keys
that are made up differ from each other, but one of them may be the name of another package.
-/
namespace Instrumentation

namespace Table

variable {t more : Table} {name key : String} {value : Json}

theorem has_eq_true_iff : t.has key = true ↔ key ∈ t.map Prod.fst := by
  rw [has, List.any_eq_true, List.mem_map]
  simp only [beq_iff_eq]

theorem get?_eq_none_of_not_has (h : ¬ t.has name = true) : t.get? name = none := by
  rwa [has_eq_isSome, Bool.not_eq_true, Option.isSome_eq_false_iff, Option.isNone_iff_eq_none] at h

theorem keys_set (t : Table) (name : String) (value : Json) : (t.set name value).map Prod.fst =
    if t.has name then t.map Prod.fst else t.map Prod.fst ++ [name] := by
  unfold set
  split
  · rw [List.map_map]
    refine List.map_congr_left fun m _ => ?_
    by_cases hm : m.1 = name <;> simp [hm]
  · rw [List.map_append, List.map_singleton]

theorem length_set (t : Table) (name : String) (value : Json) :
    (t.set name value).length = if t.has name then t.length else t.length + 1 := by
  have hkeys := congrArg List.length (keys_set t name value)
  rw [List.length_map] at hkeys
  rw [hkeys]
  split <;> simp

theorem nodup_set (h : (t.map Prod.fst).Nodup) : ((t.set name value).map Prod.fst).Nodup := by
  rw [keys_set]
  split
  · exact h
  · next hnew =>
    rw [List.nodup_append_comm]
    exact List.nodup_cons.mpr ⟨fun hmem => hnew (has_eq_true_iff.mpr hmem), h⟩

/-- Members that are set replace those of the same names. -/
theorem get?_setAll (t : Table) (h : (more.map Prod.fst).Nodup) (key : String) :
    (t.setAll more).get? key = (more.get? key).or (t.get? key) := by
  induction more generalizing t with
  | nil => rfl
  | cons m more ih =>
    obtain ⟨hm, hmore⟩ := List.nodup_cons.mp h
    have hset : (t.setAll (m :: more)).get? key = ((t.set m.1 m.2).setAll more).get? key := rfl
    rw [hset, ih _ hmore, get?_set]
    by_cases hkey : key = m.1
    · have hnone : Table.get? more key = none :=
        get?_eq_none_of_not_has fun hhas => hm (hkey ▸ has_eq_true_iff.mp hhas)
      rw [if_pos hkey, hnone]
      simp [get?, hkey]
    · rw [if_neg hkey]
      simp [get?, Ne.symm hkey]

/-- A manifest has tables of replacements where it has any. -/
def HasPatchTables (manifest : Table) : Prop := ∃ patch, manifest.tableAt? "patch" = some patch ∧
  ∀ source, ∃ entries, patch.tableAt? source = some entries

theorem hasPatchTables_of_all {manifest patch : Table}
    (hpatch : manifest.tableAt? "patch" = some patch)
    (hall : ∀ m ∈ patch, (ofJson? m.2).isSome = true) : HasPatchTables manifest := by
  refine ⟨patch, hpatch, fun source => ?_⟩
  unfold tableAt?
  split
  · exact ⟨[], rfl⟩
  · next j hj =>
    obtain ⟨m, hm, rfl⟩ := Option.map_eq_some_iff.mp hj
    exact Option.isSome_iff_exists.mp (hall m (List.mem_of_find?_eq_some hm))

/-- The entry of a manifest under a key, among the replacements for packages of a source. -/
def replacement? (manifest : Table) (source key : String) : Option Json :=
  ((manifest.get? "patch").bind Json.obj?).bind fun patch =>
    ((Table.get? patch source).bind Json.obj?).bind fun entries => Table.get? entries key

theorem bind_of_tableAt? {α : Type} {inner : Table} {f : Table → Option α} (hf : f [] = none)
    (h : t.tableAt? name = some inner) : ((t.get? name).bind Json.obj?).bind f = f inner := by
  unfold Table.tableAt? at h
  split at h
  · next hnone =>
    cases h
    rw [hnone, Option.bind_none, Option.bind_none, hf]
  · next j hj =>
    obtain ⟨rfl, -⟩ := Table.ofJson?_eq_some_iff.mp h
    rw [hj]
    rfl

/-- Where a manifest has tables, its entries are found through them. -/
theorem replacement?_eq {manifest patch entries : Table} {source : String}
    (hpatch : manifest.tableAt? "patch" = some patch)
    (hentries : patch.tableAt? source = some entries) (key : String) :
    manifest.replacement? source key = entries.get? key := by
  rw [replacement?, bind_of_tableAt? (by rfl) hpatch, bind_of_tableAt? (by rfl) hentries]

theorem replacement?_congr {manifest manifest' : Table}
    (h : manifest.get? "patch" = manifest'.get? "patch") (source key : String) :
    replacement? manifest source key = replacement? manifest' source key := by
  rw [replacement?, replacement?, h]

theorem HasPatchTables.congr {manifest manifest' : Table}
    (h : manifest.get? "patch" = manifest'.get? "patch") (htables : HasPatchTables manifest) :
    HasPatchTables manifest' := by
  obtain ⟨patch, hpatch, hsources⟩ := htables
  refine ⟨patch, ?_, hsources⟩
  rw [Table.tableAt?, ← h]
  exact hpatch

end Table

namespace Manifest

variable {all : List String} {done : List (String × Path)} {t : Table} {name other key : String}
  {entry : Json} {copy : Path} {m n : Nat}

/-- The key that a further package of a name gets. -/
def madeUp (name : String) (n : Nat) : String := name ++ "-hw" ++ toString n

/-- A key that is made up tells what it is made of. -/
theorem madeUp_inj : madeUp name m = madeUp other n ↔ name = other ∧ m = n := by
  refine ⟨fun h => ?_, by rintro ⟨rfl, rfl⟩; rfl⟩
  have hreverse (name : String) (n : Nat) : (madeUp name n).toList.reverse =
      (Nat.toDigits 10 n).reverse ++ 'w' :: 'h' :: '-' :: name.toList.reverse := by
    simp [madeUp]
  have hdigits (n : Nat) : ∀ c ∈ (Nat.toDigits 10 n).reverse, c.isDigit = true := fun c hc =>
    Version.isDigit_of_mem_toDigits c (List.mem_reverse.mp hc)
  have hletter (name : String) :
      ∀ c ∈ ('w' :: 'h' :: '-' :: name.toList.reverse).head?, c.isDigit = false := by
    simp
  have htext := congrArg (fun s : String => s.toList.reverse) h
  simp only [hreverse] at htext
  have hnumbers := congrArg (List.takeWhile Char.isDigit) htext
  have hnames := congrArg (List.dropWhile Char.isDigit) htext
  rw [Text.takeWhile_run (hdigits m) (hletter name), Text.takeWhile_run (hdigits n) (hletter other),
    List.reverse_inj] at hnumbers
  rw [Text.dropWhile_run (hdigits m) (hletter name), Text.dropWhile_run (hdigits n) (hletter other)]
    at hnames
  simp only [List.cons.injEq, true_and, List.reverse_inj, String.toList_inj] at hnames
  exact ⟨hnames, by rw [← Version.decimal_toDigits m, hnumbers, Version.decimal_toDigits]⟩

/-- One of two names could be made up from the other. -/
def Clash (name other : String) : Prop := ∃ n, name = madeUp other n ∨ other = madeUp name n

/-- Versions of one package do not clash. -/
theorem not_clash_self (name : String) : ¬ Clash name name := by
  rintro ⟨n, h⟩
  have hlength := congrArg String.length (or_self_iff.mp h)
  simp only [madeUp, String.length_append] at hlength
  have hdash : "-hw".length = 3 := rfl
  omega

/-- An entry of a table of replacements is for a package of that name, and replaces it by a copy. -/
structure Replaces (key : String) (entry : Json) (name : String) (copy : Path) : Prop where
  name : ((entry.member? "package").bind Json.str?).getD key = name
  path : (entry.member? "path").bind Json.str? = some copy.text

/-- A table of replacements with one more. -/
def addEntry (t : Table) (name : String) (copy : Path) : Table :=
  if t.has name then
    t.set (madeUp name t.length) (.obj [("path", .str copy.text), ("package", .str name)])
  else t.set name (.obj [("path", .str copy.text)])

/-- A table of replacements of packages with some names: its keys are among these names or made up
from them and numbers below its length, and there is an entry for each package whose name does not
clash with any. -/
structure Entries (all : List String) (done : List (String × Path)) (t : Table) : Prop where
  single : (t.map Prod.fst).Nodup
  names : ∀ x ∈ done, t.has x.1 = true
  keys : ∀ key, t.has key = true → key ∈ all ∨ ∃ name ∈ all, ∃ n < t.length, key = madeUp name n
  entry : ∀ x ∈ done, (∀ name ∈ all, ¬ Clash x.1 name) → ∃ key entry, t.get? key = some entry ∧
    Replaces key entry x.1 x.2 ∧ (key = x.1 ∨ ∃ n < t.length, key = madeUp x.1 n)

theorem Entries.nil (all : List String) : Entries all [] [] where
  single := List.nodup_nil
  names _ h := by cases h
  keys _ h := by cases h
  entry _ h := by cases h

/-- An entry may be added under a key that is a name, or is made up with the length of the table, if
that is not the key of an entry that has to stay. -/
theorem Entries.set (h : Entries all done t)
    (hkey : key ∈ all ∨ ∃ x ∈ all, key = madeUp x t.length)
    (hfree : ∀ x ∈ done, (∀ other ∈ all, ¬ Clash x.1 other) →
      key ≠ x.1 ∧ ∀ n < t.length, key ≠ madeUp x.1 n)
    (hnew : Replaces key entry name copy) (hthere : key = name ∨ t.has name = true)
    (hown : (∀ other ∈ all, ¬ Clash name other) →
      key = name ∨ t.has key = false ∧ key = madeUp name t.length) :
    Entries all (done ++ [(name, copy)]) (t.set key entry) := by
  have hle : t.length ≤ (t.set key entry).length := by
    rw [Table.length_set]
    split <;> omega
  have hlonger (hmissing : t.has key = false) : t.length < (t.set key entry).length := by
    rw [Table.length_set, hmissing]
    exact Nat.lt_succ_self _
  constructor
  case single => exact Table.nodup_set h.single
  case names =>
    intro x hx
    rw [Table.has_set, Bool.or_eq_true, decide_eq_true_iff]
    rcases List.mem_append.mp hx with hx | hx
    · exact .inr (h.names x hx)
    · obtain rfl := List.mem_singleton.mp hx
      exact hthere.imp_left Eq.symm
  case keys =>
    intro key' hhas
    cases hold : t.has key' with
    | true =>
      refine (h.keys key' hold).imp_right ?_
      rintro ⟨x, hx, n, hn, heq⟩
      exact ⟨x, hx, n, Nat.lt_of_lt_of_le hn hle, heq⟩
    | false =>
      have hsame : key' = key := by simpa [Table.has_set, hold] using hhas
      subst hsame
      refine hkey.imp_right ?_
      rintro ⟨x, hx, heq⟩
      exact ⟨x, hx, _, hlonger hold, heq⟩
  case entry =>
    intro x hx hclash
    rcases List.mem_append.mp hx with hx | hx
    · obtain ⟨key', entry', hget, hreplaces, hmade⟩ := h.entry x hx hclash
      obtain ⟨hname, hunmade⟩ := hfree x hx hclash
      have hne : key' ≠ key := by
        rintro rfl
        rcases hmade with rfl | ⟨n, hn, rfl⟩
        · exact hname rfl
        · exact hunmade n hn rfl
      refine ⟨key', entry', by rw [Table.get?_set, if_neg hne, hget], hreplaces, ?_⟩
      exact hmade.imp_right fun ⟨n, hn, heq⟩ => ⟨n, Nat.lt_of_lt_of_le hn hle, heq⟩
    · obtain rfl := List.mem_singleton.mp hx
      refine ⟨key, entry, by rw [Table.get?_set, if_pos rfl], hnew, (hown hclash).imp_right ?_⟩
      rintro ⟨hmissing, heq⟩
      exact ⟨_, hlonger hmissing, heq⟩

theorem Entries.add (h : Entries all done t) (hname : name ∈ all) :
    Entries all (done ++ [(name, copy)]) (addEntry t name copy) := by
  unfold addEntry
  split
  · next hthere =>
    refine h.set (.inr ⟨name, hname, rfl⟩) (fun x _ hclash => ⟨fun heq => ?_, fun n hn heq => ?_⟩)
      ⟨rfl, rfl⟩ (.inr hthere) fun hclash => .inr ⟨?_, rfl⟩
    · exact hclash name hname ⟨_, .inl heq.symm⟩
    · exact Nat.ne_of_lt hn (madeUp_inj.mp heq).2.symm
    · -- such a key is no name, and those that were made up before have smaller numbers
      rw [← Bool.not_eq_true]
      intro hhas
      rcases h.keys _ hhas with hmem | ⟨x, -, n, hn, heq⟩
      · exact hclash _ hmem ⟨_, .inr rfl⟩
      · exact Nat.ne_of_lt hn (madeUp_inj.mp heq).2.symm
  · next hmissing =>
    refine h.set (.inl hname) (fun x hx hclash => ⟨fun heq => ?_, fun n _ heq => ?_⟩)
      ⟨rfl, rfl⟩ (.inl rfl) fun _ => .inl rfl
    · exact hmissing (heq ▸ h.names x hx)
    · exact hclash name hname ⟨n, .inr heq⟩

/-! ### The tables of all sources -/

namespace Patches

variable {patches : Patches} {source source' : String}

/-- The replacements for packages of a source. -/
def entriesOf (patches : Patches) (source : String) : Table :=
  ((patches.find? fun p => p.1 == source).map Prod.snd).getD []

theorem add_eq (patches : Patches) (source name : String) (copy : Path) :
    patches.add source name copy = patches.filter (fun p => p.1 != source) ++
      [(source, addEntry (patches.entriesOf source) name copy)] := rfl

theorem find?_filter (patches : Patches) (source source' : String) :
    ((patches.filter fun p => p.1 != source).find? fun p => p.1 == source') =
      if source' = source then none else patches.find? fun p => p.1 == source' := by
  rw [List.find?_filter]
  split
  · next hsame =>
    rw [List.find?_eq_none]
    simp [hsame]
  · next hne =>
    congr 1
    funext p
    by_cases hp : p.1 = source' <;> simp [hp, hne]

theorem entriesOf_add (patches : Patches) (source name : String) (copy : Path) (source' : String) :
    (patches.add source name copy).entriesOf source' =
      if source' = source then addEntry (patches.entriesOf source) name copy
      else patches.entriesOf source' := by
  rw [add_eq]
  generalize addEntry (patches.entriesOf source) name copy = entries
  rw [entriesOf, List.find?_append, find?_filter]
  split
  · next hsame => simp [hsame]
  · next hne => simp [entriesOf, Ne.symm hne]

theorem nodup_add (h : (patches.map Prod.fst).Nodup) :
    ((patches.add source name copy).map Prod.fst).Nodup := by
  rw [add_eq, List.map_append, List.nodup_append_comm]
  refine List.nodup_cons.mpr ⟨?_, (List.filter_sublist.map _).nodup h⟩
  simp

end Patches

/-- Replacements as they are added, one source after the other. -/
def putPatches (patch : Table) (patches : Patches) : Table :=
  patches.foldl (fun patch p => patch.mapTable p.1 fun slot => slot.setAll p.2) patch

theorem get?_putPatches_of_not_mem {patches : Patches} {patch : Table} {source : String}
    (h : source ∉ patches.map Prod.fst) :
    (putPatches patch patches).get? source = patch.get? source := by
  induction patches generalizing patch with
  | nil => rfl
  | cons p patches ih =>
    obtain ⟨hp, hrest⟩ := not_or.mp (mt List.mem_cons.mpr h)
    exact (ih hrest).trans (Table.get?_mapTable_of_ne patch _ hp)

theorem get?_putPatches {patches : Patches} {patch entries more : Table} {source : String}
    (hsingle : (patches.map Prod.fst).Nodup) (hmore : (source, more) ∈ patches)
    (hentries : patch.tableAt? source = some entries) :
    (putPatches patch patches).get? source = some (.obj (entries.setAll more)) := by
  induction patches generalizing patch with
  | nil => cases hmore
  | cons p patches ih =>
    obtain ⟨hp, hrest⟩ := List.nodup_cons.mp hsingle
    change (putPatches (patch.mapTable p.1 fun slot => slot.setAll p.2) patches).get? source = _
    rcases List.mem_cons.mp hmore with rfl | hmore
    · rw [get?_putPatches_of_not_mem hp]
      exact Table.get?_mapTable (fun slot => slot.setAll more) hentries
    · have hne : source ≠ p.1 := by
        intro heq
        exact hp (heq ▸ List.mem_map_of_mem hmore)
      refine ih hrest hmore ?_
      rw [Table.tableAt?, Table.get?_mapTable_of_ne _ _ hne]
      exact hentries

/-- A manifest with replacements has them, and those that it had under other keys. -/
theorem replacement?_addPatches {manifest : Table} {patches : Patches} {source : String}
    (htables : manifest.HasPatchTables) (hsingle : (patches.map Prod.fst).Nodup)
    (hkeys : ((patches.entriesOf source).map Prod.fst).Nodup) (key : String) :
    (addPatches manifest patches).replacement? source key =
      ((patches.entriesOf source).get? key).or (manifest.replacement? source key) := by
  obtain ⟨patch, hpatch, hsources⟩ := htables
  obtain ⟨entries, hentries⟩ := hsources source
  rw [Table.replacement?_eq hpatch hentries]
  by_cases hempty : patches = []
  · subst hempty
    exact Table.replacement?_eq hpatch hentries key
  have hput : (addPatches manifest patches).get? "patch" =
      some (.obj (putPatches patch patches)) := by
    rw [addPatches, if_neg (by simpa using hempty)]
    exact Table.get?_mapTable (fun patch => putPatches patch patches) hpatch
  rw [Table.replacement?, hput]
  change (((putPatches patch patches).get? source).bind Json.obj?).bind _ = _
  cases hfind : patches.find? fun p => p.1 == source with
  | none =>
    have hnot : source ∉ patches.map Prod.fst := by
      intro hmem
      obtain ⟨p, hp, rfl⟩ := List.mem_map.mp hmem
      simpa using List.find?_eq_none.mp hfind p hp
    rw [Patches.entriesOf, hfind, get?_putPatches_of_not_mem hnot]
    exact Table.bind_of_tableAt? (f := fun entries => Table.get? entries key) rfl hentries
  | some p =>
    obtain rfl : p.1 = source := by simpa using List.find?_some hfind
    have hmem : (p.1, p.2) ∈ patches := List.mem_of_find?_eq_some hfind
    have hmore : patches.entriesOf p.1 = p.2 := by rw [Patches.entriesOf, hfind]; rfl
    rw [hmore] at hkeys ⊢
    rw [get?_putPatches hsingle hmem hentries]
    exact Table.get?_setAll entries hkeys key

/-- The replacements of a manifest stay, with their paths sent elsewhere. -/
theorem replacement?_redirect {manifest : Table} (move : Path → Path) (dir : Path)
    (h : manifest.HasPatchTables) : (redirect move dir manifest).HasPatchTables ∧
    ∀ source key, (redirect move dir manifest).replacement? source key =
      (manifest.replacement? source key).map (redirectEntry move dir) := by
  obtain ⟨patch, hpatch, hsources⟩ := h
  have hget : (redirect move dir manifest).get? "patch" = (manifest.get? "patch").map
      (inTable (Table.mapValues (redirectEntries move dir))) := by
    rw [redirect_eq, Table.get?_map]
    rfl
  have hnew := tableAt?_of_get? hget (fun _ s hs => ⟨s, eq_str_of_inTable hs⟩) hpatch
  have hnews (source : String) (entries : Table) (hentries : patch.tableAt? source = some entries) :
      (patch.mapValues (redirectEntries move dir)).tableAt? source =
        some (entries.mapValues (redirectEntry move dir)) :=
    tableAt?_of_get? (Table.get?_mapValues _ patch source)
      (fun _ s hs => ⟨s, eq_str_of_inTable hs⟩) hentries
  refine ⟨⟨_, hnew, fun source => ?_⟩, fun source key => ?_⟩
  · obtain ⟨entries, hentries⟩ := hsources source
    exact ⟨_, hnews source entries hentries⟩
  · obtain ⟨entries, hentries⟩ := hsources source
    rw [Table.replacement?_eq hnew (hnews source entries hentries), Table.get?_mapValues,
      Table.replacement?_eq hpatch hentries]

end Manifest
end Instrumentation
