import Instrumentation.Proofs.Frame

/-!
Uniform exit. Whichever way a body ends, and whichever hooks panic, the enter hooks of the active
stages run once each, in order and before the body, and their exit hooks run once each, in
reverse order and after it; the hooks of other stages do not run. Hooks are watched by the marks
they leave.
-/
namespace Instrumentation
namespace Invocation

variable {ε : Type}

/-- What decides which exit hook a guard runs, and what the hook is told. -/
structure Plan (ε : Type) where
  isActive : Bool
  isObserving : Bool
  openedUnwinding : Bool
  exit : Option (ExitHook ε)
  outcome : Option Outcome

def Guard.plan (g : Guard ε) : Plan ε :=
  ⟨g.isActive, g.isObserving, g.openedUnwinding, g.exit, g.outcome⟩

@[simp] theorem plan_setExit (g : Guard ε) (hook : ExitHook ε) :
    (g.setExit hook).plan = { g.plan with exit := some hook } := rfl

@[simp] theorem plan_observing (g : Guard ε) :
    g.observing.plan = { g.plan with isObserving := true } := rfl

@[simp] theorem plan_complete (g : Guard ε) (o : Outcome) :
    (g.complete o).plan = { g.plan with outcome := some o } := rfl

@[simp] theorem plan_enter (g : Guard ε) (hook : EnterHook ε) (t : Thread ε) :
    (g.enter hook t).1.plan = g.plan := by
  unfold Guard.enter
  split
  · split <;> rfl
  · rfl

@[simp] theorem plan_record (g : Guard ε) (hook : EnterHook ε) (t : Thread ε) :
    (g.record hook t).1.plan = g.plan := by
  unfold Guard.record
  split <;> rfl

/-- What a run of a hook leaves behind to be seen. -/
inductive Mark where
  | entered (stage : Nat)
  | recorded (stage : Nat)
  | exited (stage : Nat) (outcome : Outcome)
  deriving DecidableEq, Repr

/-- The marks among the events of a thread. -/
def Thread.marks (see : ε → Option Mark) (t : Thread ε) : List Mark := t.events.filterMap see

/-- A thread goes on to leave some marks; it unwinds afterwards if it did before. -/
structure Leaves (see : ε → Option Mark) (ms : List Mark) (t t' : Thread ε) : Prop where
  marks : t'.marks see = t.marks see ++ ms
  unwinding : t'.isUnwinding = t.isUnwinding

/-- Every hook leaves the mark of its stage, once, when it runs. What else it does to its context
and its thread, and whether it panics, is left open. -/
structure Hooks.Marked (hooks : Hooks ε) (see : ε → Option Mark) : Prop where
  enter : ∀ k c t, Leaves see [.entered k] t (hooks.enter k c t).2.2
  record : ∀ k c t, Leaves see [.recorded k] t (hooks.record k c t).2.2
  exit : ∀ k o c t, Leaves see [.exited k o] t (hooks.exit k o c t).2.2

variable {see : ε → Option Mark}

namespace Leaves

theorem refl (t : Thread ε) : Leaves see [] t t := ⟨by simp, rfl⟩

theorem trans {ms ns : List Mark} {t t' t'' : Thread ε} (h : Leaves see ms t t')
    (h' : Leaves see ns t' t'') : Leaves see (ms ++ ns) t t'' :=
  ⟨by rw [h'.marks, h.marks, List.append_assoc], by rw [h'.unwinding, h.unwinding]⟩

end Leaves

theorem leaves_enter {hooks : Hooks ε} (hm : hooks.Marked see) (k : Nat) (g : Guard ε)
    (t : Thread ε) : Leaves see (if g.plan.isActive then [.entered k] else []) t
      (g.enter (hooks.enter k) t).2 := by
  have h := hm.enter k g.context t
  cases ha : g.isActive with
  | false => simpa [Guard.enter, Guard.plan, ha] using Leaves.refl t
  | true =>
    simp only [Guard.enter, Guard.plan, ha, ↓reduceIte]
    split <;> simp_all

theorem leaves_record {hooks : Hooks ε} (hm : hooks.Marked see) (k : Nat) (g : Guard ε)
    (t : Thread ε) : Leaves see (if g.plan.isActive then [.recorded k] else []) t
      (g.record (hooks.record k) t).2 := by
  cases ha : g.isActive with
  | false => simpa [Guard.record, Guard.plan, ha] using Leaves.refl t
  | true => simpa [Guard.record, Guard.plan, ha] using hm.record k g.context t

/-- What a plan tells the exit hook on a thread. -/
def Plan.ending (p : Plan ε) (unwinding : Bool) : Outcome :=
  p.outcome.getD <|
    if unwinding && !p.openedUnwinding then .panicked
    else if p.isObserving then .cancelled
    else .returned

/-- The end of a guard leaves the mark of its exit hook, if it is active and has one. -/
theorem leaves_finish {hooks : Hooks ε} (hm : hooks.Marked see) {k : Nat} {g : Guard ε}
    (hx : g.plan.exit = none ∨ g.plan.exit = some (hooks.exit k)) (t : Thread ε) :
    Leaves see
      (if g.plan.isActive && g.plan.exit.isSome then [.exited k (g.plan.ending t.isUnwinding)]
        else []) t (g.finish t) := by
  have hleave (t : Thread ε) (c : Chain) : Leaves see [] t { t with chain := c } :=
    ⟨by simp [Thread.marks], rfl⟩
  have hended {ms : List Mark} {t t' : Thread ε} (h : Leaves see ms t t') :
      Leaves see ms t
        (if g.isChained then { t' with chain := t'.chain.leave g.context.id } else t') := by
    split
    · simpa using h.trans (hleave t' _)
    · exact h
  cases ha : g.isActive with
  | false => simpa [Guard.finish, Guard.plan, ha] using Leaves.refl t
  | true =>
    rcases hx with hx | hx <;> change g.exit = _ at hx
    · simpa [Guard.finish, Guard.plan, ha, hx] using hended (Leaves.refl t)
    · have h := hended (hm.exit k (g.ending t) g.context t)
      simpa [Guard.finish, Guard.plan, ha, hx, Plan.ending, Guard.ending] using h

theorem flatMap_ite {α β : Type} (l : List α) (b : α → Bool) (f : α → β) :
    (l.flatMap fun a => if b a then [f a] else []) = (l.filter b).map f := by
  induction l with
  | nil => rfl
  | cons a l ih => cases h : b a <;> simp [h, ih]

/-- Acting on guards in turn, when the plan of each is known by the number of its stage. -/
theorem actAll_spec {act : Nat → Guard ε → Thread ε → Guard ε × Thread ε} {p q : Nat → Plan ε}
    {m : Nat → List Mark}
    (hact : ∀ k g t, g.plan = p k → (act k g t).1.plan = q k ∧ Leaves see (m k) t (act k g t).2)
    {ks : List Nat} {gs : List (Guard ε)} (hgs : gs.map Guard.plan = ks.map p) (t : Thread ε) :
    (Frame.actAll act ks gs t).1.map Guard.plan = ks.map q ∧
      Leaves see (ks.flatMap m) t (Frame.actAll act ks gs t).2 := by
  induction ks generalizing gs t with
  | nil =>
    have hnil : gs = [] := by simpa using hgs
    subst hnil
    exact ⟨rfl, Leaves.refl t⟩
  | cons k ks ih =>
    cases gs with
    | nil => simp at hgs
    | cons g gs =>
      simp only [List.map_cons, List.cons.injEq] at hgs
      obtain ⟨hplan, hleaves⟩ := hact k g t hgs.1
      obtain ⟨hplans, hrest⟩ := ih hgs.2 (act k g t).2
      exact ⟨by simp [Frame.actAll, hplan, hplans], by simpa [Frame.actAll] using hleaves.trans hrest⟩

theorem openStages_spec (see : ε → Option Mark) (link : Link) (sites : List CallSite) (t : Thread ε) :
    (Fused.openStages link sites t).1.map Guard.plan =
        sites.map (fun _ => ⟨true, false, t.isUnwinding, none, none⟩) ∧
      Leaves see [] t (Fused.openStages link sites t).2 := by
  induction sites generalizing link t with
  | nil => exact ⟨rfl, Leaves.refl t⟩
  | cons site sites ih =>
    obtain ⟨hplans, hleaves⟩ := ih (Guard.openAt site link true t).1.link
      (Guard.openAt site link true t).2
    have hone : Leaves see [] t (Guard.openAt site link true t).2 :=
      ⟨by simp [Thread.marks, Guard.openAt], rfl⟩
    refine ⟨?_, by simpa [Fused.openStages] using hone.trans hleaves⟩
    simp only [Fused.openStages, List.map_cons, hplans]
    rfl

end Invocation

namespace InstrumentedDecl

/-- Whether a stage is one of several behind a guard. -/
def sharesGuard (d : InstrumentedDecl) (k : Nat) : Bool :=
  d.groups.any fun g => match g with
    | .single _ => false
    | .fused start stop => (Group.fused start stop).members.contains k

/-- Whether the hooks of a stage are to run. A toggled stage with a guard of its own asks the
switch; stages that share a guard do not. -/
def isOn (d : InstrumentedDecl) (switch : Invocation.Switch) (k : Nat) : Bool :=
  (d.stages[k]?).any fun s => !s.toggled || switch.isOn s.rule.id || d.sharesGuard k

/-- The groups take in every stage, in order. -/
def Grouped (d : InstrumentedDecl) : Prop :=
  d.groups.flatMap Group.members = List.range d.stages.length

instance (d : InstrumentedDecl) : Decidable d.Grouped :=
  inferInstanceAs (Decidable (d.groups.flatMap Group.members = List.range d.stages.length))

variable {d : InstrumentedDecl}

theorem Grouped.lt (h : d.Grouped) {g : Group} (hg : g ∈ d.groups) {k : Nat} (hk : k ∈ g.members) :
    k < d.stages.length := by
  have hmem : k ∈ d.groups.flatMap Group.members := List.mem_flatMap.mpr ⟨g, hg, hk⟩
  rw [h] at hmem
  simpa using hmem

theorem Grouped.not_sharesGuard (h : d.Grouped) {k : Nat} (hk : Group.single k ∈ d.groups) :
    d.sharesGuard k = false := by
  obtain ⟨before, after, he⟩ := List.append_of_mem hk
  have hnodup : (d.groups.flatMap Group.members).Nodup := by
    rw [h]
    exact List.nodup_range
  rw [he, List.flatMap_append, List.flatMap_cons, List.nodup_append] at hnodup
  obtain ⟨-, hafter, hbefore⟩ := hnodup
  have hnot : ∀ g ∈ before ++ after, k ∉ g.members := by
    intro g hg hkg
    rcases List.mem_append.mp hg with hg | hg
    · exact hbefore k (List.mem_flatMap.mpr ⟨g, hg, hkg⟩) k (by simp [Group.members]) rfl
    · simp only [Group.members, List.singleton_append, List.nodup_cons] at hafter
      exact hafter.1 (List.mem_flatMap.mpr ⟨g, hg, hkg⟩)
  simp only [sharesGuard, he, List.any_append, List.any_cons, Bool.false_or, Bool.or_eq_false_iff]
  have hany (gs : List Group) (hgs : ∀ g ∈ gs, k ∉ g.members) : (gs.any fun g => match g with
      | .single _ => false
      | .fused start stop => (Group.fused start stop).members.contains k) = false := by
    rw [List.any_eq_false]
    intro g hg
    cases g with
    | single j => simp
    | fused start stop => simpa using hgs _ hg
  exact ⟨hany before fun g hg => hnot g (List.mem_append_left _ hg),
    hany after fun g hg => hnot g (List.mem_append_right _ hg)⟩

theorem Grouped.isOn_single (h : d.Grouped) {k : Nat} (hk : Group.single k ∈ d.groups)
    (switch : Invocation.Switch) : d.isOn switch k =
      (!(d.stages[k]?).any Stage.toggled || switch.isOn (d.site k).rule) := by
  have hlt : k < d.stages.length := h.lt hk (by simp [Group.members])
  simp [isOn, site, List.getElem?_eq_getElem hlt, h.not_sharesGuard hk]

theorem Grouped.isOn_fused (h : d.Grouped) {start stop k : Nat}
    (hg : Group.fused start stop ∈ d.groups) (hk : k ∈ (Group.fused start stop).members)
    (switch : Invocation.Switch) : d.isOn switch k = true := by
  have hlt : k < d.stages.length := h.lt hg hk
  have hshares : d.sharesGuard k = true :=
    List.any_eq_true.mpr ⟨_, hg, by simpa using hk⟩
  simp [isOn, List.getElem?_eq_getElem hlt, hshares]

end InstrumentedDecl

namespace Invocation

variable {ε : Type} {see : ε → Option Mark}

/-- A variable holds the guards of a group, with the plans that are given. -/
structure Slot.Holds (n : Nat) (g : Group) (p : Nat → Plan ε) (s : Slot ε) : Prop where
  name : s.name = Splice.Guard.ofGroup n g
  first : g.members ≠ [] → s.first = g.start
  plans : s.held.stages.map Guard.plan = g.members.map p

/-- The variables hold the guards of the groups from number `n` on. -/
inductive HoldAll (p : Nat → Plan ε) : Nat → List Group → List (Slot ε) → Prop
  | nil (n : Nat) : HoldAll p n [] []
  | cons {n : Nat} {g : Group} {s : Slot ε} {gs : List Group} {ss : List (Slot ε)}
    (h : s.Holds n g p) (rest : HoldAll p (n + 1) gs ss) : HoldAll p n (g :: gs) (s :: ss)

theorem HoldAll.name_ne {p : Nat → Plan ε} {m : Nat} {gs : List Group} {ss : List (Slot ε)}
    (h : HoldAll p m gs ss) {n : Nat} (hn : n < m) (g : Group) :
    ∀ s ∈ ss, s.name ≠ Splice.Guard.ofGroup n g := by
  induction h with
  | nil => simp
  | cons hs rest ih =>
    intro s hmem
    rcases List.mem_cons.mp hmem with rfl | hmem
    · rw [hs.name]
      exact Splice.ofGroup_ne (by omega) _ _
    · exact ih (by omega) s hmem

/-- The same for all the stages of a group: what is done to each guard in turn. -/
theorem Slot.Holds.foldl_onTarget {n : Nat} {g : Group} {p q : Nat → Plan ε} {s : Slot ε}
    (hs : s.Holds n g p) {late : List (Slot ε)}
    (hl : ∀ x ∈ late, x.name ≠ Splice.Guard.ofGroup n g) (earlier : List (Slot ε))
    {act : Nat → Nat → Guard ε → Thread ε → Guard ε × Thread ε} {m : Nat → List Mark}
    (hact : ∀ k g t, g.plan = p k → (act k k g t).1.plan = q k ∧ Leaves see (m k) t (act k k g t).2)
    (t : Thread ε) :
    ∃ (s' : Slot ε) (t' : Thread ε), s'.Holds n g q ∧ Leaves see (g.members.flatMap m) t t' ∧
      g.members.foldl (fun (f : Frame ε) k => f.onTarget (Splice.Target.ofStage n g k) (act k))
        ⟨t, late ++ s :: earlier⟩ = ⟨t', late ++ s' :: earlier⟩ := by
  obtain ⟨hname, hfirst, hplans⟩ := hs
  have hlength : s.held.stages.length = g.members.length := by
    simpa using congrArg List.length hplans
  obtain ⟨h, hstages, -, hrun⟩ :=
    Frame.foldl_onTarget_members hl hname hfirst hlength earlier act t
  obtain ⟨hq, hleaves⟩ := actAll_spec hact hplans t
  exact ⟨{ s with held := h }, _, ⟨hname, hfirst, by rw [hstages, hq]⟩, hleaves, hrun⟩

section

variable (d : InstrumentedDecl) (switch : Switch) (hooks : Hooks ε)

/-- The plan of a stage whose guard was just opened. -/
def Plan.opened (unwinding : Bool) (k : Nat) : Plan ε :=
  ⟨d.isOn switch k, d.form == .observing, unwinding, none, none⟩

/-- The plan of a stage when the body begins. -/
def Plan.entered (unwinding : Bool) (k : Nat) : Plan ε :=
  { (Plan.opened d switch unwinding k : Plan ε) with
    exit := if d.exits k then some (hooks.exit k) else none }

theorem plans_observing (b : Bool) (h : Held ε) :
    (if b then h.observing else h).stages.map Guard.plan =
      (h.stages.map Guard.plan).map fun p => { p with isObserving := b || p.isObserving } := by
  cases b <;> simp

/-- Opening the guard of a group. -/
theorem holds_openCall (see : ε → Option Mark) {n : Nat} {g : Group} (hd : d.Grouped)
    (hg : g ∈ d.groups)
    (link : Splice.Link) (told : Outcome) (f : Frame ε) :
    ∃ (s : Slot ε) (t : Thread ε), s.Holds n g (Plan.opened d switch f.thread.isUnwinding) ∧
      Leaves see [] f.thread t ∧
      Frame.call d switch hooks told f (Splice.openCall d.stages n link g) = ⟨t, s :: f.slots⟩ := by
  cases g with
  | single k =>
    have hon := hd.isOn_single hg switch
    refine ⟨_, (Guard.openAt (d.site k) (f.link link) (d.isOn switch k) f.thread).2,
      ⟨rfl, fun _ => rfl, ?_⟩, ⟨?_, rfl⟩, by rw [hon]; rfl⟩
    · rw [plans_observing]
      simp [Group.members, Held.stages, Guard.plan, Plan.opened, hon]
    · simp [Thread.marks, Guard.openAt]
  | fused start stop =>
    obtain ⟨hplans, hleaves⟩ := openStages_spec see (f.link link)
      ((Group.fused start stop).members.map d.site) f.thread
    refine ⟨_, _, ⟨rfl, fun hne => ?_, ?_⟩, hleaves, rfl⟩
    · exact Group.headD_members hne 0
    · rw [plans_observing]
      simp only [Held.stages, hplans, List.map_map]
      refine List.map_congr_left fun k hk => ?_
      simp [Plan.opened, hd.isOn_fused hg hk switch]

theorem enterStage_spec (hm : hooks.Marked see) {unwinding : Bool} {k : Nat} {g : Guard ε}
    (hp : g.plan = Plan.opened d switch unwinding k) (t : Thread ε) :
    (Frame.enterStage d hooks k k g t).1.plan = Plan.entered d switch hooks unwinding k ∧
      Leaves see (if d.isOn switch k && d.enters k then [.entered k] else []) t
        (Frame.enterStage d hooks k k g t).2 := by
  -- Setting the exit hook makes no difference to what entering does.
  have hset : (if d.exits k then g.setExit (hooks.exit k) else g).plan =
      Plan.entered d switch hooks unwinding k := by
    split <;> simp_all [Plan.entered, Plan.opened]
  have hactive : (Plan.entered d switch hooks unwinding k).isActive = d.isOn switch k := rfl
  cases he : d.enters k with
  | false => simpa [Frame.enterStage, he, hset] using Leaves.refl t
  | true =>
    have hleaves := leaves_enter hm k (if d.exits k then g.setExit (hooks.exit k) else g) t
    rw [hset, hactive] at hleaves
    simpa [Frame.enterStage, he, hset] using hleaves

/-- What the opening of one group does. -/
theorem holds_groupOpening {n : Nat} {g : Group} (hm : hooks.Marked see) (hd : d.Grouped)
    (hg : g ∈ d.groups) (link : Splice.Link) (told : Outcome) (f : Frame ε) :
    ∃ (s : Slot ε) (t : Thread ε),
      s.Holds n g (Plan.entered d switch hooks f.thread.isUnwinding) ∧
      Leaves see (g.members.flatMap fun k =>
        if d.isOn switch k && d.enters k then [.entered k] else []) f.thread t ∧
      Frame.calls d switch hooks told f (Splice.groupOpening d.decl d.stages n link g) =
        ⟨t, s :: f.slots⟩ := by
  obtain ⟨s₁, t₁, hs₁, hleaves₁, hcall⟩ :=
    holds_openCall d switch hooks see (n := n) hd hg link told f
  obtain ⟨s₂, t₂, hs₂, hleaves₂, hrun⟩ :=
    hs₁.foldl_onTarget (List.forall_mem_nil _) f.slots
      (fun _ _ t hp => enterStage_spec d switch hooks hm hp t) t₁
  refine ⟨s₂, t₂, hs₂, by simpa using hleaves₁.trans hleaves₂, ?_⟩
  have hcons (c : Splice.Call) (cs : List Splice.Call) : Frame.calls d switch hooks told f (c :: cs) =
      Frame.calls d switch hooks told (Frame.call d switch hooks told f c) cs := rfl
  rw [Splice.groupOpening, hcons, hcall, Frame.calls_rulesOf]
  exact hrun

/-- What the calls before the body do. -/
theorem holdAll_openingFrom (hm : hooks.Marked see) (hd : d.Grouped) {gs : List Group}
    (hgs : ∀ g ∈ gs, g ∈ d.groups) (n : Nat) (link : Splice.Link) (told : Outcome) (f : Frame ε) :
    ∃ (ss : List (Slot ε)) (t : Thread ε),
      HoldAll (Plan.entered d switch hooks f.thread.isUnwinding) n gs ss ∧
      Leaves see ((gs.flatMap Group.members).flatMap fun k =>
        if d.isOn switch k && d.enters k then [.entered k] else []) f.thread t ∧
      Frame.calls d switch hooks told f (Splice.openingFrom d.decl d.stages n link gs) =
        ⟨t, ss.reverse ++ f.slots⟩ := by
  induction gs generalizing n link f with
  | nil => exact ⟨[], f.thread, .nil n, Leaves.refl _, rfl⟩
  | cons g gs ih =>
    obtain ⟨s, t₁, hs, hleaves₁, hone⟩ := holds_groupOpening d switch hooks (n := n) hm hd
      (hgs g List.mem_cons_self) link told f
    obtain ⟨ss, t₂, hss, hleaves₂, hrest⟩ := ih (fun g hg => hgs g (List.mem_cons_of_mem _ hg))
      (n + 1) (.outer (Splice.Guard.ofGroup n g)) ⟨t₁, s :: f.slots⟩
    rw [hleaves₁.unwinding] at hss
    refine ⟨s :: ss, t₂, .cons hs hss, by simpa using hleaves₁.trans hleaves₂, ?_⟩
    rw [Splice.openingFrom, Frame.calls_append, hone, hrest]
    simp

theorem recordStage_spec (hm : hooks.Marked see) {p : Nat → Plan ε}
    (hon : ∀ k, (p k).isActive = d.isOn switch k) {k : Nat} {g : Guard ε} (hp : g.plan = p k)
    (t : Thread ε) :
    (Frame.recordStage d hooks k k g t).1.plan = p k ∧
      Leaves see (if d.isOn switch k && d.records k then [.recorded k] else []) t
        (Frame.recordStage d hooks k k g t).2 := by
  cases hr : d.records k with
  | false => simpa [Frame.recordStage, hr, hp] using Leaves.refl t
  | true =>
    have hleaves := leaves_record hm k g t
    rw [hp, hon] at hleaves
    simpa [Frame.recordStage, hr, hp] using hleaves

/-- What the calls after an observed body do. -/
theorem holdAll_closing (hm : hooks.Marked see) {p : Nat → Plan ε}
    (hon : ∀ k, (p k).isActive = d.isOn switch k) (told : Outcome) {n : Nat} {gs : List Group}
    {ss : List (Slot ε)} (h : HoldAll p n gs ss) (t : Thread ε) (earlier : List (Slot ε)) :
    ∃ (ss' : List (Slot ε)) (t' : Thread ε),
      HoldAll (fun k => { p k with outcome := some told }) n gs ss' ∧
      Leaves see ((gs.flatMap Group.members).flatMap fun k =>
        if d.isOn switch k && d.records k then [.recorded k] else []) t t' ∧
      Frame.calls d switch hooks told ⟨t, ss.reverse ++ earlier⟩
          ((gs.zipIdx n).flatMap fun (g, number) => Splice.groupClosing d.stages number g) =
        ⟨t', ss'.reverse ++ earlier⟩ := by
  induction h generalizing t earlier with
  | nil n => exact ⟨[], t, .nil n, Leaves.refl t, rfl⟩
  | @cons n g s gs ss hs rest ih =>
    have hlate : ∀ x ∈ ss.reverse, x.name ≠ Splice.Guard.ofGroup n g := by
      intro x hx
      exact rest.name_ne (Nat.lt_succ_self n) g x (List.mem_reverse.mp hx)
    obtain ⟨s₁, t₁, hs₁, hleaves₁, hrecords⟩ := hs.foldl_onTarget hlate earlier
      (fun _ _ t hp => recordStage_spec d switch hooks hm hon hp t) t
    -- The variables of later groups stand before this one, and none has its name.
    have hcomplete : Slot.onNamed (Splice.Guard.ofGroup n g) (fun s t => (s.held.complete told, t))
        (ss.reverse ++ s₁ :: earlier) t₁ =
          (ss.reverse ++ { s₁ with held := s₁.held.complete told } :: earlier, t₁) := by
      rw [← hs₁.name] at hlate ⊢
      exact Slot.onNamed_append hlate earlier _ t₁
    have hgroup : Frame.calls d switch hooks told ⟨t, ss.reverse ++ s :: earlier⟩
        (Splice.groupClosing d.stages n g) =
          ⟨t₁, ss.reverse ++ { s₁ with held := s₁.held.complete told } :: earlier⟩ := by
      rw [Splice.groupClosing, Frame.calls_append, Frame.calls_records, hrecords]
      simp [Frame.calls, Frame.call, Frame.onNamed, hcomplete]
    have hs₂ : ({ s₁ with held := s₁.held.complete told } : Slot ε).Holds n g
        (fun k => { p k with outcome := some told }) := by
      refine ⟨hs₁.name, hs₁.first, ?_⟩
      have hplans := congrArg (List.map fun p : Plan ε => { p with outcome := some told }) hs₁.plans
      rw [List.map_map, List.map_map] at hplans
      rw [Held.stages_complete, List.map_map]
      exact hplans
    obtain ⟨ss', t', hss', hleaves', hrest⟩ :=
      ih t₁ ({ s₁ with held := s₁.held.complete told } :: earlier)
    refine ⟨_ :: ss', t', .cons hs₂ hss', by simpa using hleaves₁.trans hleaves', ?_⟩
    simp only [List.zipIdx_cons, List.flatMap_cons, Frame.calls_append, List.reverse_cons,
      List.append_assoc, List.singleton_append]
    rw [hgroup]
    exact hrest

/-- The guards of a group end in reverse order. -/
theorem leaves_finishStages (hm : hooks.Marked see) {p : Nat → Plan ε}
    (hx : ∀ k, (p k).exit = none ∨ (p k).exit = some (hooks.exit k)) {ks : List Nat}
    {gs : List (Guard ε)} (hgs : gs.map Guard.plan = ks.map p) (t : Thread ε) :
    Leaves see (ks.reverse.flatMap fun k =>
      if (p k).isActive && (p k).exit.isSome then [.exited k ((p k).ending t.isUnwinding)] else [])
      t (gs.foldr Guard.finish t) := by
  induction ks generalizing gs with
  | nil =>
    have hnil : gs = [] := by simpa using hgs
    subst hnil
    exact Leaves.refl t
  | cons k ks ih =>
    cases gs with
    | nil => simp at hgs
    | cons g gs =>
      simp only [List.map_cons, List.cons.injEq] at hgs
      obtain ⟨hg, hgs⟩ := hgs
      have hinner := ih hgs
      have houter := leaves_finish hm (hg ▸ hx k) (gs.foldr Guard.finish t)
      rw [hg, hinner.unwinding] at houter
      simpa using hinner.trans houter

/-- The variables of a frame end in reverse order. -/
theorem leaves_finishAll (hm : hooks.Marked see) {p : Nat → Plan ε}
    (hx : ∀ k, (p k).exit = none ∨ (p k).exit = some (hooks.exit k)) {n : Nat} {gs : List Group}
    {ss : List (Slot ε)} (h : HoldAll p n gs ss) (t : Thread ε) :
    Leaves see ((gs.flatMap Group.members).reverse.flatMap fun k =>
      if (p k).isActive && (p k).exit.isSome then [.exited k ((p k).ending t.isUnwinding)] else [])
      t (Frame.finish ⟨t, ss.reverse⟩) := by
  induction h with
  | nil n => exact Leaves.refl t
  | @cons n g s gs ss hs rest ih =>
    have houter := leaves_finishStages hooks hm hx hs.plans (Frame.finish ⟨t, ss.reverse⟩)
    rw [ih.unwinding, ← Held.finish_eq] at houter
    simpa [Frame.finish] using ih.trans houter

/-- The plan of a stage when its guard ends. -/
def Plan.ended (ending : Ending) (unwinding : Bool) (k : Nat) : Plan ε :=
  { Plan.entered d switch hooks unwinding k with
    outcome := if d.form = .observing then ending.told? d.decl.returnsResult else none }

/-- A body that is not observed, or gives no value, changes no plan. -/
theorem Plan.ended_eq_entered {ending : Ending}
    (h : d.form = .guard ∨ ending.told? d.decl.returnsResult = none) (unwinding : Bool) :
    Plan.ended d switch hooks ending unwinding = Plan.entered d switch hooks unwinding := by
  funext k
  rcases h with h | h <;> simp [Plan.ended, h, Plan.entered, Plan.opened]

theorem form_eq_observing_of_records {k : Nat} (h : d.records k = true) : d.form = .observing := by
  obtain ⟨s, hs, hr⟩ := (Option.any_eq_true _ _).mp h
  have hany : (d.stages.any fun s => s.rule.capturesReturn) = true :=
    List.any_eq_true.mpr ⟨s, List.mem_of_getElem? hs, hr⟩
  simp [InstrumentedDecl.form, Stage.bodyForm, hany]

/-- An observed body tells of its value; stages that capture a value are those of such a body. -/
theorem holdAll_observed (hm : hooks.Marked see) (ending : Ending) {unwinding : Bool}
    {ss : List (Slot ε)}
    (h : HoldAll (Plan.entered d switch hooks unwinding) 0 d.groups ss) (t : Thread ε) :
    ∃ (ss' : List (Slot ε)) (t' : Thread ε),
      HoldAll (Plan.ended d switch hooks ending unwinding) 0 d.groups ss' ∧
      Leaves see (if (ending.told? d.decl.returnsResult).isSome then
          ((d.groups.flatMap Group.members).filter fun k =>
            d.isOn switch k && d.records k).map .recorded
        else []) t t' ∧
      Frame.observed d switch hooks ending ⟨t, ss.reverse⟩ = ⟨t', ss'.reverse⟩ := by
  cases ho : ending.told? d.decl.returnsResult with
  | none =>
    rw [Plan.ended_eq_entered d switch hooks (.inr ho)]
    exact ⟨ss, t, h, Leaves.refl t, by simp [Frame.observed, ho]⟩
  | some o =>
    cases hf : d.form with
    | guard =>
      have hrecords (k : Nat) : d.records k = false := by
        cases hk : d.records k with
        | false => rfl
        | true => simp [form_eq_observing_of_records d hk] at hf
      have hnone : ((d.groups.flatMap Group.members).filter fun k =>
          d.isOn switch k && d.records k) = [] := by
        simp [hrecords]
      rw [Plan.ended_eq_entered d switch hooks (.inl hf), hnone]
      exact ⟨ss, t, h, by simpa using Leaves.refl t, by simp [Frame.observed, hf]⟩
    | observing =>
      obtain ⟨ss', t', hss', hleaves, hrun⟩ := holdAll_closing d switch hooks hm
        (p := Plan.entered d switch hooks unwinding) (fun _ => rfl) o h t []
      have hended : Plan.ended d switch hooks ending unwinding =
          fun k => { Plan.entered d switch hooks unwinding k with outcome := some o } := by
        funext k
        simp [Plan.ended, hf, ho]
      rw [flatMap_ite] at hleaves
      refine ⟨ss', t', hended ▸ hss', hleaves, ?_⟩
      · simpa [Frame.observed, hf, ho, Splice.closing] using hrun

end

end Invocation

namespace InstrumentedDecl

open Invocation

/-- What the exit hooks are told of a call, by whether a panic was on its way out when the call
began, and when its body was dropped. -/
def outcome (d : InstrumentedDecl) (ending : Ending) (before after : Bool) : Outcome :=
  match ending with
  | .returned => .returned
  | .succeeded => if d.decl.returnsResult then .succeeded else .returned
  | .failed e => if d.decl.returnsResult then .failed e else .returned
  | .unwound =>
    if before then if d.form = .observing then .cancelled else .returned
    else .panicked
  | .dropped => if after && !before then .panicked else .cancelled

/-- The stages whose hooks are to run, of those of a kind. -/
def stagesOn (d : InstrumentedDecl) (switch : Switch) (kind : Nat → Bool) : List Nat :=
  (List.range d.stages.length).filter fun k => d.isOn switch k && kind k

end InstrumentedDecl

namespace Invocation

variable {ε : Type} {see : ε → Option Mark}

theorem ending_ended (d : InstrumentedDecl) (switch : Switch) (hooks : Hooks ε) {ending : Ending}
    (h : ending = .dropped → d.decl.isAsync = true) (before after : Thread ε) (k : Nat) :
    (Plan.ended d switch hooks ending before.isUnwinding k).ending
        (Frame.leaving ending before after).isUnwinding =
      d.outcome ending before.isUnwinding after.isUnwinding := by
  have hguard : d.form = .guard → d.decl.returnsResult = false := by
    intro hf
    cases hr : d.decl.returnsResult with
    | false => rfl
    | true => simp [InstrumentedDecl.form, Stage.bodyForm, hr] at hf
  have hasync : d.decl.isAsync = true → d.form = .observing := by
    intro ha
    simp [InstrumentedDecl.form, Stage.bodyForm, ha]
  cases hf : d.form with
  | guard =>
    have hr := hguard hf
    cases ending <;> cases hb : before.isUnwinding <;>
      simp_all [Plan.ending, Plan.ended, Plan.entered, Plan.opened, Frame.leaving,
        InstrumentedDecl.outcome]
  | observing =>
    cases ending <;> cases hb : before.isUnwinding <;>
      simp [Plan.ending, Plan.ended, Plan.entered, Plan.opened, Frame.leaving,
        InstrumentedDecl.outcome, Ending.told?, hf, hb]

/-- Uniform exit: the enter hooks run once each, in order, before the body, and the exit hooks once
each, in reverse order, after it. -/
theorem exits_uniformly {d : InstrumentedDecl} (hd : d.Grouped) {hooks : Hooks ε}
    (hm : hooks.Marked see) (switch : Switch) (body : Thread ε → Ending × Thread ε) (t : Thread ε)
    {begun after : Thread ε} {ending : Ending}
    (hbegun : (Frame.opened d switch hooks t).thread = begun)
    (hbody : body begun = (ending, after))
    (hdropped : ending = .dropped → d.decl.isAsync = true) :
    begun.marks see = t.marks see ++ (d.stagesOn switch d.enters).map .entered ∧
      (Frame.perform d switch hooks body t).marks see = after.marks see ++
        (if (ending.told? d.decl.returnsResult).isSome then
          (d.stagesOn switch d.records).map .recorded else []) ++
        (d.stagesOn switch d.exits).reverse.map
          (.exited · (d.outcome ending t.isUnwinding after.isUnwinding)) := by
  obtain ⟨ss, t₁, hss, hentered, hopened⟩ := holdAll_openingFrom d switch hooks hm hd
    (fun _ hg => hg) 0 (if d.decl.isAsync then .detached else .thread) .returned ⟨t, []⟩
  rw [List.append_nil] at hopened
  have hthread : t₁ = begun := by
    rw [← hbegun, Frame.opened, Splice.opening, hopened]
  subst hthread
  obtain ⟨ss', t₂, hss', hrecorded, hobserved⟩ :=
    holdAll_observed d switch hooks hm ending hss (Frame.leaving ending t after)
  have hexit (k : Nat) : (Plan.ended d switch hooks ending t.isUnwinding k).exit = none ∨
      (Plan.ended d switch hooks ending t.isUnwinding k).exit = some (hooks.exit k) := by
    cases hx : d.exits k <;> simp [Plan.ended, Plan.entered, hx]
  have hexited := leaves_finishAll hooks hm hexit hss' t₂
  have hkinds : (fun k => (Plan.ended d switch hooks ending t.isUnwinding k).isActive &&
      (Plan.ended d switch hooks ending t.isUnwinding k).exit.isSome) =
        fun k => d.isOn switch k && d.exits k := by
    funext k
    cases hx : d.exits k <;> simp [Plan.ended, Plan.entered, Plan.opened, hx]
  have hperform : (Frame.perform d switch hooks body t).marks see =
      (Frame.finish ⟨t₂, ss'.reverse⟩).marks see := by
    simp only [Frame.perform, Frame.opened, Splice.opening, hopened, hbody, hobserved]
    rfl
  have hleaving : (Frame.leaving ending t after).marks see = after.marks see := rfl
  rw [hd, flatMap_ite] at hentered
  refine ⟨hentered.marks, ?_⟩
  rw [hperform, hexited.marks, hrecorded.marks, hleaving, hrecorded.unwinding]
  simp only [ending_ended d switch hooks hdropped, flatMap_ite, List.filter_reverse]
  rw [hkinds, hd]
  rfl

/-- Hooks that do nothing but leave their marks; those of some stages panic then. -/
def Hooks.marking (panics : Nat → Bool) : Hooks Mark where
  enter k c t := (if panics k then none else some .unit, c, t.log (.entered k))
  record k c t := (if panics k then none else some .unit, c, t.log (.recorded k))
  exit k o c t := (if panics k then none else some (), c, t.log (.exited k o))

theorem marked_marking (panics : Nat → Bool) : (Hooks.marking panics).Marked some where
  enter k c t := ⟨by simp [Hooks.marking, Thread.marks, Thread.log], rfl⟩
  record k c t := ⟨by simp [Hooks.marking, Thread.marks, Thread.log], rfl⟩
  exit k o c t := ⟨by simp [Hooks.marking, Thread.marks, Thread.log], rfl⟩

/-- A function of no parameters, with toggled stages of the rules of some names. -/
def withStages (isAsync : Bool) (rules : List String) (groups : List Group) : InstrumentedDecl where
  importPath := "store"
  decl := {
    scope := []
    name := "load"
    receiver := none
    traitName := none
    selfKind := .none
    params := []
    results := []
    returnType := none
    annotatable := true
    returnsResult := false
    isAsync
    bodyOpen := 10
    bodyClose := 11
    line := 1 }
  stages := rules.map fun id => { rule := {
    id
    order := 0
    source := "rules.toml"
    importPath := "store"
    receiver := .any
    function := "load"
    params := .any
    results := .any
    onEnter := some ⟨"hooks", "enter"⟩
    onExit := some ⟨"hooks", "exit"⟩
    version := {}
    rustc := none
    requires := []
    fusible := true
    captures := []
    hookCrate := ⟨"hooks", ⟨"hooks"⟩⟩ } }
  groups
  pruned := false

/-- A body dropped half way: the stage that is off stays silent, and a panic in a hook of another
one changes nothing. -/
theorem marks_perform_dropped :
    (Frame.perform (withStages true ["log", "time", "trace"] [.single 0, .fused 1 3])
        (.off ["log"]) (Hooks.marking (· == 1)) (fun t => (.dropped, t)) {}).marks some =
      [.entered 1, .entered 2, .exited 2 .cancelled, .exited 1 .cancelled] := by
  obtain ⟨hbegun, hended⟩ := exits_uniformly
    (d := withStages true ["log", "time", "trace"] [.single 0, .fused 1 3]) (by decide)
    (marked_marking (· == 1)) (.off ["log"]) (fun t => (.dropped, t)) {} rfl rfl (fun _ => rfl)
  rw [hended, hbegun]
  decide +kernel

/-- A guard that stages share is opened without asking the switch: its stages run their hooks even
when their rules are off. -/
theorem marks_perform_shared_off :
    (withStages false ["log"] [.fused 0 1]).Grouped ∧
      (∀ s ∈ (withStages false ["log"] [.fused 0 1]).stages,
        s.toggled = true ∧ (Switch.off ["log"]).isOn s.rule.id = false) ∧
      (Frame.perform (withStages false ["log"] [.fused 0 1]) (.off ["log"])
        (Hooks.marking fun _ => false) (fun t => (.returned, t)) {}).marks some =
          [.entered 0, .exited 0 .returned] := by
  exact ⟨by decide, by decide, by decide +kernel⟩

end Invocation
end Instrumentation
