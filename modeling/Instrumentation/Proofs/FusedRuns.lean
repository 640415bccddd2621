import Instrumentation.Stage
import Mathlib.Data.List.Chain

/-!
The groups of stages. Fusion splits the stages into groups at the ends of the longest runs of stages
that can share a guard, and there is no other way to do so (`eq_fuse_iff`).
-/
namespace Instrumentation

/-- Stage `k` can share a guard: its rule allows it, and nothing has to be asked at the call. -/
def CanShare (stages : List Stage) (k : Nat) : Prop :=
  ∃ s, stages[k]? = some s ∧ s.rule.fusible = true ∧ s.toggled = false

theorem CanShare.lt {stages : List Stage} {k : Nat} (h : CanShare stages k) :
    k < stages.length := by
  obtain ⟨s, hs, -⟩ := h
  exact (List.getElem?_eq_some_iff.mp hs).1

theorem canShare_iff {stages : List Stage} {k : Nat} {s : Stage} (hs : stages[k]? = some s) :
    CanShare stages k ↔ s.isFusible = true := by
  simp [CanShare, hs, Stage.isFusible]

namespace Group

variable {stages : List Stage} {g h : Group}

/-- All stages of a group can share a guard. -/
def AllShare (stages : List Stage) (g : Group) : Prop := ∀ k ∈ g.members, CanShare stages k

/-- Two or more stages share a guard only if all of them can. -/
def IsSound (stages : List Stage) : Group → Prop
  | single _ => True
  | fused start stop => start + 2 ≤ stop ∧ ∀ k, start ≤ k → k < stop → CanShare stages k

theorem IsSound.members_ne_nil (hg : g.IsSound stages) : g.members ≠ [] := by
  cases g with
  | single k => simp [members]
  | fused start stop =>
    have hlong : start + 2 ≤ stop := hg.1
    simp only [members, ne_eq, List.range'_eq_nil_iff]
    omega

/-- One stage that can share a guard stands for all stages of its group. -/
theorem IsSound.allShare {k : Nat} (hg : g.IsSound stages) (hk : k ∈ g.members)
    (hshare : CanShare stages k) : g.AllShare stages := by
  cases g with
  | single j =>
    obtain rfl : k = j := by simpa [members] using hk
    simpa [AllShare, members] using hshare
  | fused start stop =>
    intro j hj
    rw [members, List.mem_range'_1] at hj
    exact hg.2 j hj.1 (by omega)

/-- A stage that cannot share a guard makes up its group. -/
theorem IsSound.eq_single {k : Nat} (hg : g.IsSound stages) (hk : k ∈ g.members)
    (hshare : ¬ CanShare stages k) : g = single k := by
  cases g with
  | single j =>
    obtain rfl : k = j := by simpa [members] using hk
    rfl
  | fused start stop =>
    rw [members, List.mem_range'_1] at hk
    exact absurd (hg.2 k hk.1 (by omega)) hshare

/-- The first stage of a group and the number of its stages tell the group. -/
theorem IsSound.eq_of_members (hg : g.IsSound stages) (hh : h.IsSound stages)
    (hmembers : g.members = h.members) : g = h := by
  cases g with
  | single j =>
    cases h with
    | single k => simpa [members] using hmembers
    | fused start stop =>
      have hlength := congrArg List.length hmembers
      have hlong : start + 2 ≤ stop := hh.1
      simp only [members, List.length_singleton, List.length_range'] at hlength
      omega
  | fused start stop =>
    have hlong : start + 2 ≤ stop := hg.1
    have hlength := congrArg List.length hmembers
    have hhead := congrArg List.head? hmembers
    cases h with
    | single k =>
      simp only [members, List.length_singleton, List.length_range'] at hlength
      omega
    | fused start' stop' =>
      have hlong' : start' + 2 ≤ stop' := hh.1
      simp only [members, List.length_range', List.head?_range'] at hlength hhead
      grind

end Group

/-- The groups of the stages from number `n` on: each stage is in one of them, in order, and of two
groups that follow each other one has a stage that cannot share a guard. -/
structure IsLayout (stages : List Stage) (n : Nat) (gs : List Group) : Prop where
  members : gs.flatMap Group.members = List.range' n (stages.length - n)
  sound : ∀ g ∈ gs, g.IsSound stages
  apart : gs.IsChain fun g h => ¬ (g.AllShare stages ∧ h.AllShare stages)

namespace IsLayout

variable {stages : List Stage} {n : Nat} {g : Group} {gs : List Group}

theorem nil (hn : stages.length ≤ n) : IsLayout stages n [] where
  members := by simp [Nat.sub_eq_zero_of_le hn]
  sound := by simp
  apart := .nil

theorem le_of_nil (h : IsLayout stages n []) : stages.length ≤ n := by
  have hmembers := h.members
  rw [List.flatMap_nil, eq_comm, List.range'_eq_nil_iff] at hmembers
  omega

/-- A group may stand before others that go on where it ends, unless it could go on itself. -/
theorem cons (count : Nat) (hmembers : g.members = List.range' n count)
    (hcount : n + count ≤ stages.length) (hg : g.IsSound stages)
    (hapart : ∀ h ∈ gs.head?, ¬ (g.AllShare stages ∧ h.AllShare stages))
    (hgs : IsLayout stages (n + count) gs) : IsLayout stages n (g :: gs) where
  members := by
    rw [List.flatMap_cons, hmembers, hgs.members, List.range'_append_1]
    congr 1
    omega
  sound := List.forall_mem_cons.mpr ⟨hg, hgs.sound⟩
  apart := List.isChain_cons.mpr ⟨hapart, hgs.apart⟩

/-- The first group has the first stages, and the others go on where it ends. -/
theorem uncons (h : IsLayout stages n (g :: gs)) :
    g.members = List.range' n g.members.length ∧ n + g.members.length ≤ stages.length ∧
      IsLayout stages (n + g.members.length) gs := by
  have hmembers := h.members
  rw [List.flatMap_cons, eq_comm, List.range'_eq_append_iff] at hmembers
  obtain ⟨count, hcount, hhead, htail⟩ := hmembers
  have hlength : g.members.length = count := by rw [hhead, List.length_range']
  have hnonempty := List.length_pos_iff.mpr (h.sound g (by simp)).members_ne_nil
  rw [hlength]
  have hrest : gs.flatMap Group.members =
      List.range' (n + count) (stages.length - (n + count)) := by
    rw [htail, Nat.mul_one, Nat.sub_sub]
  exact ⟨hhead, by omega, hrest, (List.forall_mem_cons.mp h.sound).2,
    (List.isChain_cons.mp h.apart).2⟩

theorem tail (h : IsLayout stages n (g :: gs)) : IsLayout stages (n + g.members.length) gs :=
  h.uncons.2.2

/-- The first stage is in the first group. -/
theorem mem_head (h : IsLayout stages n (g :: gs)) : n ∈ g.members := by
  have hnonempty := List.length_pos_iff.mpr (h.sound g (by simp)).members_ne_nil
  rw [h.uncons.1, List.mem_range'_1]
  omega

theorem lt (h : IsLayout stages n (g :: gs)) : n < stages.length := by
  obtain ⟨-, hle, -⟩ := h.uncons
  have hnonempty := List.length_pos_of_mem h.mem_head
  omega

/-- A run of stages that can share a guard ends only where one comes that cannot. -/
theorem not_canShare_after (h : IsLayout stages n (g :: gs)) (hg : g.AllShare stages) :
    ¬ CanShare stages (n + g.members.length) := by
  intro hshare
  cases gs with
  | nil => exact absurd hshare.lt (Nat.not_lt.mpr h.tail.le_of_nil)
  | cons next rest =>
    obtain ⟨hapart, -⟩ := List.isChain_cons_cons.mp h.apart
    have hnext : next.IsSound stages := h.sound next (by simp)
    exact hapart ⟨hg, hnext.allShare h.tail.mem_head hshare⟩

/-- A first group that is shorter than another one would go on. -/
theorem length_members_le {g' : Group} {gs' : List Group} (h : IsLayout stages n (g :: gs))
    (h' : IsLayout stages n (g' :: gs')) (hg : g.AllShare stages) (hg' : g'.AllShare stages) :
    g'.members.length ≤ g.members.length := by
  by_contra hlonger
  apply h.not_canShare_after hg
  apply hg'
  rw [h'.uncons.1, List.mem_range'_1]
  omega

theorem head_eq {g' : Group} {gs' : List Group} (h : IsLayout stages n (g :: gs))
    (h' : IsLayout stages n (g' :: gs')) : g = g' := by
  have hg : g.IsSound stages := h.sound g (by simp)
  have hg' : g'.IsSound stages := h'.sound g' (by simp)
  by_cases hshare : CanShare stages n
  · have hall := hg.allShare h.mem_head hshare
    have hall' := hg'.allShare h'.mem_head hshare
    have hlength : g.members.length = g'.members.length :=
      Nat.le_antisymm (h'.length_members_le h hall' hall) (h.length_members_le h' hall hall')
    apply hg.eq_of_members hg'
    rw [h.uncons.1, h'.uncons.1, hlength]
  · rw [hg.eq_single h.mem_head hshare, hg'.eq_single h'.mem_head hshare]

/-- There is one layout at most. -/
theorem unique {gs' : List Group} (h : IsLayout stages n gs) (h' : IsLayout stages n gs') :
    gs = gs' := by
  induction gs generalizing n gs' with
  | nil =>
    cases gs' with
    | nil => rfl
    | cons g' gs' => exact absurd h'.lt (Nat.not_lt.mpr h.le_of_nil)
  | cons g gs ih =>
    cases gs' with
    | nil => exact absurd h.lt (Nat.not_lt.mpr h'.le_of_nil)
    | cons g' gs' =>
      obtain rfl := h.head_eq h'
      rw [ih h.tail h'.tail]

/-- A run of stages that can share a guard is closed before a group that cannot go on with it. -/
theorem closeRun {run next : Nat} (hrun : run ≤ next) (hnext : next ≤ stages.length)
    (hshare : ∀ k, next - run ≤ k → k < next → CanShare stages k)
    (hhead : ∀ h ∈ gs.head?, ¬ h.AllShare stages) (hgs : IsLayout stages next gs) :
    IsLayout stages (next - run) (Stage.closeRun run next ++ gs) := by
  have hapart (g : Group) : ∀ h ∈ gs.head?, ¬ (g.AllShare stages ∧ h.AllShare stages) :=
    fun h hh hboth => hhead h hh hboth.2
  match run with
  | 0 => exact hgs
  | 1 =>
    have hback : next - 1 + 1 = next := Nat.sub_add_cancel hrun
    exact .cons 1 rfl (by omega) trivial (hapart _) (by rwa [hback])
  | count + 2 =>
    have hback : next - (count + 2) + (count + 2) = next := Nat.sub_add_cancel hrun
    refine .cons (count + 2) ?_ (by omega) ⟨by omega, hshare⟩ (hapart _) (by rwa [hback])
    rw [Group.members]
    congr 1
    omega

/-- The groups that are made from the stages, after a run of stages that can share a guard. -/
theorem fuseFrom {run next : Nat} {rest : List Stage} (hrest : stages.drop next = rest)
    (hrun : run ≤ next) (hnext : next ≤ stages.length)
    (hshare : ∀ k, next - run ≤ k → k < next → CanShare stages k) :
    IsLayout stages (next - run) (Stage.fuseFrom run next rest) := by
  induction rest generalizing run next with
  | nil =>
    have hend : stages.length ≤ next := List.drop_eq_nil_iff.mp hrest
    simpa [Stage.fuseFrom] using closeRun hrun hnext hshare (by simp) (nil hend)
  | cons s rest ih =>
    obtain ⟨hlt, hs, hrest⟩ : ∃ hlt : next < stages.length, stages[next]? = some s ∧
        stages.drop (next + 1) = rest := by
      have hlt : next < stages.length := by
        have hlength := congrArg List.length hrest
        simp only [List.length_drop, List.length_cons] at hlength
        omega
      rw [List.drop_eq_getElem_cons hlt] at hrest
      obtain ⟨rfl, rfl⟩ := List.cons.inj hrest
      exact ⟨hlt, List.getElem?_eq_getElem hlt, rfl⟩
    unfold Stage.fuseFrom
    split
    · next hfusible =>
      have hgrown (k : Nat) (hfrom : next + 1 - (run + 1) ≤ k) (hto : k < next + 1) :
          CanShare stages k := by
        rcases Nat.lt_succ_iff_lt_or_eq.mp hto with hto | rfl
        · exact hshare k (by omega) hto
        · exact (canShare_iff hs).mpr hfusible
      have hgroups := ih hrest (Nat.succ_le_succ hrun) hlt hgrown
      rwa [Nat.succ_sub_succ] at hgroups
    · next hfusible =>
      have hcannot : ¬ CanShare stages next := mt (canShare_iff hs).mp hfusible
      have hgroups : IsLayout stages (next + 1) (Stage.fuseFrom 0 (next + 1) rest) :=
        ih hrest (Nat.zero_le _) hlt (by omega)
      have halone : ¬ (Group.single next).AllShare stages :=
        fun hall => hcannot (hall next (by simp [Group.members]))
      refine closeRun hrun hnext hshare (by simpa using halone) ?_
      exact .cons 1 rfl hlt trivial (fun h _ hboth => halone hboth.1) hgroups

end IsLayout

namespace Stage

theorem isLayout_fuse (stages : List Stage) : IsLayout stages 0 (fuse stages) :=
  IsLayout.fuseFrom rfl (Nat.le_refl 0) (Nat.zero_le _) (by omega)

/-- The groups that stages are fused to are the only ones such that each stage is in one of them, in
order, only runs of two or more stages that can share a guard share one, each other stage has one of
its own, and no run could be longer. -/
theorem eq_fuse_iff (stages : List Stage) (gs : List Group) : gs = fuse stages ↔
    gs.flatMap Group.members = List.range stages.length
    ∧ (∀ start stop, .fused start stop ∈ gs →
      start + 2 ≤ stop ∧ ∀ k, start ≤ k → k < stop → CanShare stages k)
    ∧ (∀ k, k < stages.length → ¬ CanShare stages k → .single k ∈ gs)
    ∧ gs.IsChain fun g h => ¬ (g.AllShare stages ∧ h.AllShare stages) := by
  constructor
  · rintro rfl
    have hlayout := isLayout_fuse stages
    have hmembers : (fuse stages).flatMap Group.members = List.range stages.length := by
      rw [hlayout.members, Nat.sub_zero, List.range_eq_range']
    refine ⟨hmembers, fun start stop hmem => hlayout.sound _ hmem, ?_, hlayout.apart⟩
    intro k hk hcannot
    rw [← List.mem_range, ← hmembers, List.mem_flatMap] at hk
    obtain ⟨g, hg, hk⟩ := hk
    rw [← (hlayout.sound g hg).eq_single hk hcannot]
    exact hg
  · rintro ⟨hmembers, hfused, -, hapart⟩
    have hsound : ∀ g ∈ gs, g.IsSound stages := by
      intro g hg
      cases g with
      | single k => trivial
      | fused start stop => exact hfused start stop hg
    have hlayout : IsLayout stages 0 gs :=
      ⟨by rw [hmembers, Nat.sub_zero, List.range_eq_range'], hsound, hapart⟩
    exact hlayout.unique (isLayout_fuse stages)

end Stage
end Instrumentation
