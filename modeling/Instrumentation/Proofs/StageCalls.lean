import Instrumentation.Splice.Text
import Mathlib.Data.List.Basic
import Mathlib.Data.List.Nodup

/-!
The calls around a body, sorted by what they speak to. Of groups that hold the stages in order, each
opens its guard once, linked to the guard of the group before it, and completes it once; each stage
sets its exit hook, enters and records at a target of its own, behind the guard of its group.
-/
namespace Instrumentation.Splice

variable {d : Source.Declaration} {stages : List Stage} {groups : List Group}

/-- The stages with what their calls speak to, group by group. -/
def placements (groups : List Group) : List (Nat × Target) :=
  groups.zipIdx.flatMap fun (g, i) => g.members.map fun k => (k, Target.ofStage i g k)

/-- What the calls of each stage speak to. -/
def targets (groups : List Group) : List Target := (placements groups).map Prod.snd

/-- The guard of a group is linked to that of the group before it. -/
def linkOf (d : Source.Declaration) (groups : List Group) : Nat → Link
  | 0 => if d.isAsync then .detached else .thread
  | i + 1 => (groups[i]?).elim .thread fun g => .outer (Guard.ofGroup i g)

def Call.opens : Call → Bool
  | .openSingle .. => true
  | .openFused .. => true
  | _ => false

/-- A call by which a stage sets its exit hook or enters. -/
def Call.isOfStage : Call → Bool
  | .setExit .. => true
  | .enter .. => true
  | _ => false

def Call.recorded? : Call → Option (Target × CaptureMode)
  | .record target mode => some (target, mode)
  | _ => none

def Call.completed? : Call → Option Guard
  | .complete guard => some guard
  | _ => none

/-! ### Targets -/

@[simp] theorem ofStage_guard (i : Nat) (g : Group) (k : Nat) :
    (Target.ofStage i g k).guard = Guard.ofGroup i g := by
  cases g <;> rfl

theorem mem_placements_iff {k : Nat} {t : Target} : (k, t) ∈ placements groups ↔
    ∃ i g, groups[i]? = some g ∧ k ∈ g.members ∧ t = Target.ofStage i g k := by
  simp only [placements, List.mem_flatMap, List.mem_map, Prod.mk.injEq, Prod.exists,
    List.mk_mem_zipIdx_iff_getElem?]
  constructor
  · rintro ⟨g, i, hg, k, hk, rfl, rfl⟩
    exact ⟨i, g, hg, hk, rfl⟩
  · rintro ⟨i, g, hg, hk, rfl⟩
    exact ⟨g, i, hg, k, hk, rfl, rfl⟩

theorem map_fst_placements (groups : List Group) :
    (placements groups).map Prod.fst = groups.flatMap Group.members := by
  have hmembers : (groups.zipIdx.map Prod.fst).flatMap Group.members =
      groups.zipIdx.flatMap fun p => p.1.members := List.flatMap_map ..
  rw [List.zipIdx_map_fst] at hmembers
  rw [hmembers, placements, List.map_flatMap]
  refine List.flatMap_congr fun p _ => ?_
  rw [List.map_map]
  exact List.map_id _

/-- A group's stages have targets of their own. -/
theorem ofStage_inj {i j : Nat} {g h : Group} {k l : Nat} (hg : groups[i]? = some g)
    (hh : groups[j]? = some h) (hk : k ∈ g.members) (hl : l ∈ h.members)
    (heq : Target.ofStage i g k = Target.ofStage j h l) : k = l := by
  have hij : i = j := by
    cases g <;> cases h <;> simp_all [Target.ofStage]
  subst hij
  obtain rfl : g = h := Option.some.inj (hg.symm.trans hh)
  cases g with
  | single m =>
    rw [List.mem_singleton.mp hk, List.mem_singleton.mp hl]
  | fused start stop =>
    simp only [Group.members, List.mem_range'_1] at hk hl
    simp only [Target.ofStage, Target.stage.injEq, true_and] at heq
    omega

section Partition

variable (hgroups : groups.flatMap Group.members = List.range stages.length)
include hgroups

theorem nodup_placements : (placements groups).Nodup := by
  refine List.Nodup.of_map Prod.fst ?_
  rw [map_fst_placements, hgroups]
  exact List.nodup_range

theorem nodup_targets : (targets groups).Nodup := by
  refine (nodup_placements hgroups).map_on ?_
  rintro ⟨k, t⟩ hk ⟨l, u⟩ hl heq
  obtain rfl : t = u := heq
  obtain ⟨i, g, hg, hkg, ht⟩ := mem_placements_iff.mp hk
  obtain ⟨j, h, hh, hlh, hu⟩ := mem_placements_iff.mp hl
  rw [ofStage_inj hg hh hkg hlh (ht.symm.trans hu)]

theorem length_targets : (targets groups).length = stages.length := by
  have hlength := congrArg List.length (map_fst_placements groups)
  rw [List.length_map, hgroups, List.length_range] at hlength
  rw [targets, List.length_map, hlength]

/-- The placements are the stages in order, with their targets. -/
theorem placements_getElem? {k : Nat} {p : Nat × Target} (h : (placements groups)[k]? = some p) :
    p.1 = k := by
  have hnumber : ((placements groups).map Prod.fst)[k]? = some p.1 := by
    rw [List.getElem?_map, h, Option.map_some]
  rw [map_fst_placements, hgroups] at hnumber
  exact (List.getElem?_eq_some_iff.mp hnumber).2 ▸ List.getElem_range _

theorem exists_group_of_targets {k : Nat} {t : Target} (h : (targets groups)[k]? = some t) :
    ∃ i g, groups[i]? = some g ∧ k ∈ g.members ∧ t = Target.ofStage i g k := by
  rw [targets, List.getElem?_map] at h
  obtain ⟨⟨l, u⟩, hp, rfl⟩ := Option.map_eq_some_iff.mp h
  obtain rfl : l = k := placements_getElem? hgroups hp
  exact mem_placements_iff.mp (List.mem_of_getElem? hp)

/-- What is done stage by stage is done for the stages in order, at their targets. -/
theorem flatMap_placements {γ : Type} (f : Stage → Target → List γ) :
    (placements groups).flatMap (fun p => (stages[p.1]?).toList.flatMap fun s => f s p.2) =
      (stages.zip (targets groups)).flatMap fun q => f q.1 q.2 := by
  have hlength : (placements groups).length = stages.length := by
    rw [← length_targets hgroups, targets, List.length_map]
  rw [List.flatMap_def, List.flatMap_def]
  congr 1
  refine List.ext_getElem ?_ fun k h₁ h₂ => ?_
  · simp [targets, hlength]
  · have hk : k < (placements groups).length := by simpa using h₁
    have hnumber := placements_getElem? hgroups (List.getElem?_eq_getElem hk)
    have hstage : stages[k]? = some stages[k] := List.getElem?_eq_getElem (hlength ▸ hk)
    simp only [List.getElem_map, List.getElem_zip, hnumber, hstage, targets]
    simp

end Partition

/-! ### The calls of a kind -/

theorem rulesOf_flatMap {γ : Type} (g : Group) (f : Nat × Rule → List γ) :
    (rulesOf stages g).flatMap f =
      g.members.flatMap fun k => (stages[k]?).toList.flatMap fun s => f (k, s.rule) := by
  rw [rulesOf, List.filterMap_eq_flatMap_toList, List.flatMap_assoc]
  refine List.flatMap_congr fun k _ => ?_
  cases stages[k]? <;> simp

theorem flatMap_rulesOf {γ : Type} (f : Target → Rule → List γ) :
    (groups.zipIdx.flatMap fun p => (rulesOf stages p.1).flatMap fun q =>
      f (Target.ofStage p.2 p.1 q.1) q.2) =
      (placements groups).flatMap fun p => (stages[p.1]?).toList.flatMap fun s => f p.2 s.rule := by
  rw [placements, List.flatMap_assoc]
  refine List.flatMap_congr fun p _ => ?_
  rw [rulesOf_flatMap, List.flatMap_map]

theorem opens_stageCalls {t : Target} {r : Rule} : ∀ c ∈ stageCalls d t r, c.opens = false := by
  intro c hc
  rcases List.mem_append.mp hc with hc | hc
  · obtain ⟨h, -, rfl⟩ := Option.map_eq_some_iff.mp (Option.mem_toList.mp hc)
    rfl
  · obtain ⟨e, -, rfl⟩ := Option.map_eq_some_iff.mp (Option.mem_toList.mp hc)
    rfl

theorem isOfStage_stageCalls {t : Target} {r : Rule} :
    ∀ c ∈ stageCalls d t r, c.isOfStage = true := by
  intro c hc
  rcases List.mem_append.mp hc with hc | hc
  · obtain ⟨h, -, rfl⟩ := Option.map_eq_some_iff.mp (Option.mem_toList.mp hc)
    rfl
  · obtain ⟨e, -, rfl⟩ := Option.map_eq_some_iff.mp (Option.mem_toList.mp hc)
    rfl

/-- One group opens its guard, and then its stages make their calls. -/
theorem filter_groupOpening (d : Source.Declaration) (stages : List Stage) (n : Nat) (link : Link)
    (g : Group) :
    (groupOpening d stages n link g).filter Call.opens = [openCall stages n link g] ∧
    (groupOpening d stages n link g).filter Call.isOfStage =
      (rulesOf stages g).flatMap fun q => stageCalls d (Target.ofStage n g q.1) q.2 := by
  have hopen : (openCall stages n link g).opens = true ∧
      (openCall stages n link g).isOfStage = false := by
    cases g <;> exact ⟨rfl, rfl⟩
  constructor
  · rw [groupOpening, List.filter_cons_of_pos hopen.1, List.filter_eq_nil_iff.mpr]
    intro c hc
    obtain ⟨q, -, hc⟩ := List.mem_flatMap.mp hc
    simp [opens_stageCalls c hc]
  · rw [groupOpening, List.filter_cons_of_neg (by simp [hopen.2]), List.filter_eq_self.mpr]
    intro c hc
    obtain ⟨q, -, hc⟩ := List.mem_flatMap.mp hc
    exact isOfStage_stageCalls c hc

theorem filter_openingFrom (before after : List Group) :
    (openingFrom d stages before.length (linkOf d (before ++ after) before.length) after).filter
        Call.opens = (after.zipIdx before.length).map (fun p =>
          openCall stages p.2 (linkOf d (before ++ after) p.2) p.1) ∧
    (openingFrom d stages before.length (linkOf d (before ++ after) before.length) after).filter
        Call.isOfStage = (after.zipIdx before.length).flatMap fun p =>
          (rulesOf stages p.1).flatMap fun q => stageCalls d (Target.ofStage p.2 p.1 q.1) q.2 := by
  induction after generalizing before with
  | nil => exact ⟨rfl, rfl⟩
  | cons g rest ih =>
    have hlink : linkOf d (before ++ g :: rest) (before.length + 1) =
        .outer (Guard.ofGroup before.length g) := by
      simp [linkOf]
    have hrest := ih (before ++ [g])
    rw [List.append_assoc, List.singleton_append, List.length_append, List.length_singleton,
      hlink] at hrest
    obtain ⟨hopens, hcalls⟩ := filter_groupOpening d stages before.length
      (linkOf d (before ++ g :: rest) before.length) g
    rw [openingFrom, List.filter_append, List.filter_append, hopens, hcalls, hrest.1, hrest.2]
    exact ⟨rfl, rfl⟩

/-- Each group opens its guard once, in order, linked to the one before it. -/
theorem filter_opens_opening : (opening d stages groups).filter Call.opens =
    groups.zipIdx.map fun p => openCall stages p.2 (linkOf d groups p.2) p.1 :=
  (filter_openingFrom [] groups).1

/-- Each stage makes its own calls before the body, in order, at its target. -/
theorem filter_isOfStage_opening
    (hgroups : groups.flatMap Group.members = List.range stages.length) :
    (opening d stages groups).filter Call.isOfStage =
      (stages.zip (targets groups)).flatMap fun q => stageCalls d q.2 q.1.rule := by
  rw [← flatMap_placements hgroups fun s t => stageCalls d t s.rule,
    ← flatMap_rulesOf fun t r => stageCalls d t r]
  exact (filter_openingFrom [] groups).2

/-! ### After the body -/

/-- The captures of the value in one group. -/
theorem recorded_groupClosing (n : Nat) (g : Group) :
    (groupClosing stages n g).filterMap Call.recorded? = (rulesOf stages g).flatMap fun q =>
      ((q.2.captures.find? Capture.isReturn).map
        fun c => (Target.ofStage n g q.1, c.mode)).toList := by
  rw [groupClosing, List.filterMap_append, List.filterMap_filterMap,
    List.filterMap_eq_flatMap_toList, List.filterMap_cons_none rfl, List.filterMap_nil,
    List.append_nil]
  refine List.flatMap_congr fun ⟨k, r⟩ _ => ?_
  dsimp only
  cases r.captures.find? Capture.isReturn <;> rfl

theorem completed_groupClosing (n : Nat) (g : Group) :
    (groupClosing stages n g).filterMap Call.completed? = [Guard.ofGroup n g] := by
  rw [groupClosing, List.filterMap_append, List.filterMap_filterMap, List.filterMap_eq_nil_iff.mpr]
  · rfl
  · rintro ⟨k, r⟩ -
    dsimp only
    cases r.captures.find? Capture.isReturn <;> rfl

/-- Each group completes its guard once, in order. -/
theorem completed_closing : (closing stages groups).filterMap Call.completed? =
    groups.zipIdx.map fun p => Guard.ofGroup p.2 p.1 := by
  rw [closing, List.filterMap_flatMap, List.map_eq_flatMap]
  exact List.flatMap_congr fun p _ => completed_groupClosing p.2 p.1

/-- Each stage that captures the value records it once, in order, at its target. -/
theorem recorded_closing (hgroups : groups.flatMap Group.members = List.range stages.length) :
    (closing stages groups).filterMap Call.recorded? =
      (stages.zip (targets groups)).flatMap fun q =>
        ((q.1.rule.captures.find? Capture.isReturn).map fun c => (q.2, c.mode)).toList := by
  rw [← flatMap_placements hgroups fun s t =>
      ((s.rule.captures.find? Capture.isReturn).map fun c => (t, c.mode)).toList,
    ← flatMap_rulesOf fun t r =>
      ((r.captures.find? Capture.isReturn).map fun c => (t, c.mode)).toList, closing,
    List.filterMap_flatMap]
  exact List.flatMap_congr fun p _ => recorded_groupClosing p.2 p.1

/-- In one group, the guard is completed after what is recorded at it. -/
theorem complete_mem_of_groupClosing {n : Nat} {g : Group} {before after : List Call} {t : Target}
    {mode : CaptureMode} (h : groupClosing stages n g = before ++ Call.record t mode :: after) :
    Call.complete t.guard ∈ after := by
  have hrecord : Call.record t mode ∈ groupClosing stages n g := by simp [h]
  have hguard : t.guard = Guard.ofGroup n g := by
    rcases List.mem_append.mp hrecord with hrecord | hrecord
    · obtain ⟨⟨k, r⟩, -, hcall⟩ := List.mem_filterMap.mp hrecord
      obtain ⟨c, -, hcall⟩ := Option.map_eq_some_iff.mp hcall
      obtain ⟨rfl, -⟩ := Call.record.inj hcall
      exact ofStage_guard n g k
    · cases List.mem_singleton.mp hrecord
  have hlast := congrArg List.getLast? h
  rw [groupClosing, List.getLast?_concat, List.getLast?_append, List.getLast?_cons] at hlast
  rw [hguard]
  cases hafter : after.getLast? with
  | none => simp [hafter] at hlast
  | some c =>
    obtain rfl : c = .complete (Guard.ofGroup n g) := by simpa [hafter, eq_comm] using hlast
    exact List.mem_of_getLast? hafter

/-- A value is recorded before the guard that it is recorded at is completed. -/
theorem complete_mem_of_closing {before after : List Call} {t : Target} {mode : CaptureMode}
    (h : closing stages groups = before ++ Call.record t mode :: after) :
    Call.complete t.guard ∈ after := by
  unfold closing at h
  generalize groups.zipIdx = numbered at h
  induction numbered generalizing before with
  | nil => simp at h
  | cons p rest ih =>
    rw [List.flatMap_cons, List.append_eq_append_iff] at h
    rcases h with ⟨more, rfl, hrest⟩ | ⟨more, hgroup, hrest⟩
    · exact ih hrest
    · cases more with
      | nil => exact @ih [] hrest.symm
      | cons c more =>
        obtain ⟨rfl, rfl⟩ := List.cons.inj hrest
        exact List.mem_append_left _ (complete_mem_of_groupClosing hgroup)

end Instrumentation.Splice
