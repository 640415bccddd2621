import Instrumentation.Proofs.Frame

/-!
A call as a list of guards. The variables of a frame only serve to name guards: which guards a call
has, outermost first, and what becomes of them, depends neither on the names nor on which guards
share a variable (`Frame.perform_eq`).
-/
namespace Instrumentation
namespace Invocation

variable {ε : Type}

/-- The guards that a frame holds, outermost first. -/
def Frame.guards (f : Frame ε) : List (Guard ε) := f.slots.reverse.flatMap fun s => s.held.stages

/-- The link of a guard inside the last of some guards, which are themselves inside a link. -/
def innerLink (link : Link) (gs : List (Guard ε)) : Link := (gs.getLast?.map Guard.link).getD link

@[simp] theorem innerLink_nil (link : Link) : innerLink link ([] : List (Guard ε)) = link := rfl

theorem innerLink_append (link : Link) (gs hs : List (Guard ε)) :
    innerLink link (gs ++ hs) = innerLink (innerLink link gs) hs := by
  cases hs with
  | nil => simp
  | cons h hs =>
    rw [innerLink, innerLink, List.getLast?_append, List.getLast?_cons]
    rfl

@[simp] theorem innerLink_cons (link : Link) (g : Guard ε) (gs : List (Guard ε)) :
    innerLink link (g :: gs) = innerLink g.link gs :=
  innerLink_append link [g] gs

theorem Held.link_eq {h : Held ε} {link : Link} (hl : h.Inside link) :
    h.link = innerLink link h.stages := by
  cases h with
  | single g => rfl
  | fused f =>
    obtain rfl : f.link = link := hl
    rfl

theorem Frame.finish_eq (f : Frame ε) : f.finish = f.guards.foldr Guard.finish f.thread := by
  obtain ⟨t, slots⟩ := f
  simp only [finish, guards]
  induction slots generalizing t with
  | nil => rfl
  | cons s slots ih => rw [List.foldl_cons, ih]; simp [Held.finish_eq]

@[simp] theorem Guard.exit_enter (g : Guard ε) (hook : EnterHook ε) (t : Thread ε) :
    (g.enter hook t).1.exit = g.exit := by
  unfold Guard.enter
  split
  · split <;> rfl
  · rfl

@[simp] theorem Guard.exit_record (g : Guard ε) (hook : EnterHook ε) (t : Thread ε) :
    (g.record hook t).1.exit = g.exit := by
  unfold Guard.record
  split <;> rfl

/-- The exit hook of a guard, if it has one, is of some kind. -/
def Guard.ExitsWith (P : ExitHook ε → Prop) (g : Guard ε) : Prop :=
  ∀ hook, g.exit = some hook → P hook

/-- Only the exit hook counts. -/
theorem Guard.ExitsWith.of_exit {P : ExitHook ε → Prop} {g g' : Guard ε} (h : g.ExitsWith P)
    (hexit : g'.exit = g.exit) : g'.ExitsWith P := by
  intro hook hhook
  rw [hexit] at hhook
  exact h hook hhook

namespace Frame

/-! ### Acting on guards in turn -/

section

variable (act : Nat → Guard ε → Thread ε → Guard ε × Thread ε)

@[simp] theorem actAll_nil (gs : List (Guard ε)) (t : Thread ε) :
    actAll act [] gs t = (gs, t) := rfl

@[simp] theorem length_actAll (ks : List Nat) (gs : List (Guard ε)) (t : Thread ε) :
    (actAll act ks gs t).1.length = gs.length := by
  induction ks generalizing gs t with
  | nil => rfl
  | cons k ks ih => cases gs <;> simp [actAll, ih]

theorem actAll_append {ks : List Nat} {gs : List (Guard ε)} (h : gs.length = ks.length)
    (ks' : List Nat) (gs' : List (Guard ε)) (t : Thread ε) :
    actAll act (ks ++ ks') (gs ++ gs') t =
      ((actAll act ks gs t).1 ++ (actAll act ks' gs' (actAll act ks gs t).2).1,
        (actAll act ks' gs' (actAll act ks gs t).2).2) := by
  induction ks generalizing gs t with
  | nil =>
    obtain rfl := List.eq_nil_of_length_eq_zero h
    simp
  | cons k ks ih =>
    cases gs with
    | nil => simp at h
    | cons g gs => simp [actAll, ih (Nat.succ.inj h)]

variable {act} in
theorem forall_actAll {P : Guard ε → Prop} (h : ∀ k g t, P g → P (act k g t).1) (ks : List Nat)
    {gs : List (Guard ε)} (hgs : ∀ g ∈ gs, P g) (t : Thread ε) :
    ∀ g ∈ (actAll act ks gs t).1, P g := by
  induction ks generalizing gs t with
  | nil => exact hgs
  | cons k ks ih =>
    cases gs with
    | nil => exact hgs
    | cons g gs =>
      rw [List.forall_mem_cons] at hgs
      simpa [actAll] using ⟨h k g t hgs.1, ih hgs.2 (act k g t).2⟩

end

/-! ### The calls before the body -/

section

variable (d : InstrumentedDecl) (switch : Switch) (hooks : Hooks ε)

/-- Whether the guard that a stage has of its own is active. -/
def asks (k : Nat) : Bool := !(d.stages[k]?).any Stage.toggled || switch.isOn (d.site k).rule

/-- Opens the guards of a group. -/
def openGroup (link : Link) (g : Group) (t : Thread ε) : List (Guard ε) × Thread ε :=
  match g with
  | .single k => ([(Guard.openAt (d.site k) link (asks d switch k) t).1],
      (Guard.openAt (d.site k) link (asks d switch k) t).2)
  | .fused start stop => Fused.openStages link ((Group.fused start stop).members.map d.site) t

/-- A guard as the form of a body wants it. -/
def inForm (form : BodyForm) (g : Guard ε) : Guard ε :=
  if form == .observing then g.observing else g

theorem map_inForm {α : Type} {view : Guard ε → α} (h : ∀ g : Guard ε, view g.observing = view g)
    (form : BodyForm) (gs : List (Guard ε)) : (gs.map (inForm form)).map view = gs.map view := by
  rw [List.map_map]
  refine List.map_congr_left fun g _ => ?_
  simp only [Function.comp_apply, inForm]
  split
  · exact h g
  · rfl

theorem filter_inForm (form : BodyForm) (gs : List (Guard ε)) :
    (gs.map (inForm form)).filter (·.isActive) = (gs.filter (·.isActive)).map (inForm form) := by
  rw [List.filter_map]
  congr 2
  funext g
  simp only [Function.comp_apply, inForm]
  split <;> rfl

/-- Opens the guards of a group, and then enters its stages. -/
def enterGroup (link : Link) (g : Group) (t : Thread ε) : List (Guard ε) × Thread ε :=
  actAll (fun k => enterStage d hooks k k) g.members
    ((openGroup d switch link g t).1.map (inForm d.form)) (openGroup d switch link g t).2

/-- Enters groups, each inside the one before it. -/
def enterGroups : Link → List Group → Thread ε → List (Guard ε) × Thread ε
  | _, [], t => ([], t)
  | link, g :: rest, t =>
    let (gs, t) := enterGroup d switch hooks link g t
    let (hs, t) := enterGroups (innerLink link gs) rest t
    (gs ++ hs, t)

theorem enterGroups_append (link : Link) (gs gs' : List Group) (t : Thread ε) :
    enterGroups d switch hooks link (gs ++ gs') t =
      ((enterGroups d switch hooks link gs t).1 ++
        (enterGroups d switch hooks (innerLink link (enterGroups d switch hooks link gs t).1) gs'
          (enterGroups d switch hooks link gs t).2).1,
        (enterGroups d switch hooks (innerLink link (enterGroups d switch hooks link gs t).1) gs'
          (enterGroups d switch hooks link gs t).2).2) := by
  induction gs generalizing link t with
  | nil => rfl
  | cons g gs ih => simp [enterGroups, ih, innerLink_append]

theorem length_openStages (link : Link) (sites : List CallSite) (t : Thread ε) :
    (Fused.openStages link sites t).1.length = sites.length := by
  induction sites generalizing link t with
  | nil => rfl
  | cons site sites ih => simp [Fused.openStages, ih]

theorem length_openGroup (link : Link) (g : Group) (t : Thread ε) :
    (openGroup d switch link g t).1.length = g.members.length := by
  cases g with
  | single k => rfl
  | fused start stop => simp [openGroup, length_openStages]

/-- The guards of a declaration when its body begins, and the thread on which it begins. -/
def begin (t : Thread ε) : List (Guard ε) × Thread ε :=
  enterGroups d switch hooks (if d.decl.isAsync then t.detachedLink else t.link) d.groups t

/-- What the guards are told of the value of an observed body. -/
def tell (told? : Option Outcome) (gs : List (Guard ε)) (t : Thread ε) :
    List (Guard ε) × Thread ε :=
  match d.form, told? with
  | .observing, some o =>
    let (gs, t) := actAll (fun k => recordStage d hooks k k) (d.groups.flatMap Group.members) gs t
    (gs.map (Guard.complete · o), t)
  | _, _ => (gs, t)

variable {d switch hooks} {P : ExitHook ε → Prop}

theorem exitsWith_enterStage {k : Nat} (h : P (hooks.exit k)) {g : Guard ε} (hg : g.ExitsWith P)
    (t : Thread ε) : (enterStage d hooks k k g t).1.ExitsWith P := by
  have hset : (if d.exits k then g.setExit (hooks.exit k) else g).ExitsWith P := by
    split
    · intro hook hhook
      obtain rfl : hooks.exit k = hook := by simpa [Guard.setExit] using hhook
      exact h
    · exact hg
  simp only [enterStage]
  generalize (if d.exits k then g.setExit (hooks.exit k) else g) = g' at hset ⊢
  split
  · exact hset.of_exit (Guard.exit_enter _ _ t)
  · exact hset

theorem exitsWith_recordStage {g : Guard ε} (hg : g.ExitsWith P) (k : Nat) (t : Thread ε) :
    (recordStage d hooks k k g t).1.ExitsWith P := by
  unfold recordStage
  split
  · exact hg.of_exit (Guard.exit_record _ _ t)
  · exact hg

theorem exitsWith_inForm {gs : List (Guard ε)} (h : ∀ g ∈ gs, g.ExitsWith P) (form : BodyForm) :
    ∀ g ∈ gs.map (inForm form), g.ExitsWith P := by
  rw [List.forall_mem_map]
  intro g hg
  simp only [inForm]
  split <;> exact h g hg

theorem exitsWith_openAt (site : CallSite) (link : Link) (active : Bool) (t : Thread ε) :
    (Guard.openAt site link active t).1.ExitsWith P := by
  simp [Guard.openAt, Guard.ExitsWith]

theorem exitsWith_openStages (link : Link) (sites : List CallSite) (t : Thread ε) :
    ∀ g ∈ (Fused.openStages link sites t).1, g.ExitsWith P := by
  induction sites generalizing link t with
  | nil => exact List.forall_mem_nil _
  | cons site sites ih =>
    rw [Fused.openStages, List.forall_mem_cons]
    exact ⟨exitsWith_openAt site link true t, ih _ _⟩

theorem exitsWith_openGroup (link : Link) (g : Group) (t : Thread ε) :
    ∀ a ∈ (openGroup d switch link g t).1, a.ExitsWith P := by
  cases g with
  | single k => exact List.forall_mem_singleton.mpr (exitsWith_openAt _ link _ t)
  | fused start stop => exact exitsWith_openStages link _ t

theorem exitsWith_enterGroups (h : ∀ k, P (hooks.exit k)) (link : Link) (gs : List Group)
    (t : Thread ε) : ∀ a ∈ (enterGroups d switch hooks link gs t).1, a.ExitsWith P := by
  induction gs generalizing link t with
  | nil => exact List.forall_mem_nil _
  | cons g gs ih =>
    rw [enterGroups, List.forall_mem_append]
    exact ⟨forall_actAll (fun k _ t hg => exitsWith_enterStage (h k) hg t) _
      (exitsWith_inForm (exitsWith_openGroup link g t) _) _, ih _ _⟩

theorem exitsWith_tell {gs : List (Guard ε)} (hgs : ∀ g ∈ gs, g.ExitsWith P)
    (told? : Option Outcome) (t : Thread ε) :
    ∀ g ∈ (tell d hooks told? gs t).1, g.ExitsWith P := by
  have hrecord : ∀ (k : Nat) (g : Guard ε) (t : Thread ε), g.ExitsWith P →
      (recordStage d hooks k k g t).1.ExitsWith P :=
    fun k _ t hg => exitsWith_recordStage hg k t
  have hrecords := forall_actAll hrecord (d.groups.flatMap Group.members) hgs t
  unfold tell
  split
  · rw [List.forall_mem_map]
    exact hrecords
  · exact hgs

end

end Frame

/-! ### The variables of a frame -/

/-- A variable holds the guards of a group, which were opened inside a link. -/
structure Slot.Carries (n : Nat) (g : Group) (link : Link) (gs : List (Guard ε)) (s : Slot ε) :
    Prop where
  name : s.name = Splice.Guard.ofGroup n g
  first : g.members ≠ [] → s.first = g.start
  stages : s.held.stages = gs
  length : gs.length = g.members.length
  inside : s.held.Inside link

/-- Variables hold the guards of the groups from number `n` on. -/
inductive CarryAll : Nat → List Group → List (Guard ε) → List (Slot ε) → Prop
  | nil (n : Nat) : CarryAll n [] [] []
  | cons {n : Nat} {g : Group} {link : Link} {as bs : List (Guard ε)} {s : Slot ε}
    {gs : List Group} {ss : List (Slot ε)} (h : s.Carries n g link as)
    (rest : CarryAll (n + 1) gs bs ss) : CarryAll n (g :: gs) (as ++ bs) (s :: ss)

namespace CarryAll

variable {m : Nat} {gs : List Group} {as : List (Guard ε)} {ss : List (Slot ε)}

theorem guards_eq (h : CarryAll m gs as ss) (t : Thread ε) :
    (⟨t, ss.reverse⟩ : Frame ε).guards = as := by
  simp only [Frame.guards, List.reverse_reverse]
  induction h with
  | nil => rfl
  | cons hs _ ih => simp [hs.stages, ih]

theorem name_ne (h : CarryAll m gs as ss) {n : Nat} (hn : n < m) (g : Group) :
    ∀ s ∈ ss, s.name ≠ Splice.Guard.ofGroup n g := by
  induction h with
  | nil => simp
  | cons hs rest ih =>
    intro s hmem
    rcases List.mem_cons.mp hmem with rfl | hmem
    · rw [hs.name]
      exact Splice.ofGroup_ne (by omega) _ _
    · exact ih (by omega) s hmem

end CarryAll

/-- What the calls to the stages of a group do: they act on its guards in turn. -/
theorem Slot.Carries.foldl_onTarget {n : Nat} {g : Group} {link : Link} {as : List (Guard ε)}
    {s : Slot ε} (hs : s.Carries n g link as) {late : List (Slot ε)}
    (hl : ∀ x ∈ late, x.name ≠ Splice.Guard.ofGroup n g) (earlier : List (Slot ε))
    (act : Nat → Nat → Guard ε → Thread ε → Guard ε × Thread ε) (t : Thread ε) :
    ∃ s' : Slot ε, s'.Carries n g link (Frame.actAll (fun k => act k k) g.members as t).1 ∧
      g.members.foldl (fun (f : Frame ε) k => f.onTarget (Splice.Target.ofStage n g k) (act k))
        ⟨t, late ++ s :: earlier⟩ =
          ⟨(Frame.actAll (fun k => act k k) g.members as t).2, late ++ s' :: earlier⟩ := by
  obtain ⟨hname, hfirst, rfl, hlength, hinside⟩ := hs
  obtain ⟨h, hstages, hinside', hrun⟩ :=
    Frame.foldl_onTarget_members hl hname hfirst hlength earlier act t
  exact ⟨{ s with held := h },
    ⟨hname, hfirst, hstages, by simpa using hlength, hinside' link hinside⟩, hrun⟩

namespace Frame

section

variable (d : InstrumentedDecl) (switch : Switch) (hooks : Hooks ε)

theorem call_openCall (n : Nat) (g : Group) (link : Splice.Link) (told : Outcome) (f : Frame ε) :
    ∃ s : Slot ε, s.Carries n g (f.link link)
        ((openGroup d switch (f.link link) g f.thread).1.map (inForm d.form)) ∧
      call d switch hooks told f (Splice.openCall d.stages n link g) =
        ⟨(openGroup d switch (f.link link) g f.thread).2, s :: f.slots⟩ := by
  have hform (h : Held ε) : (if d.form == .observing then h.observing else h).stages =
      h.stages.map (inForm d.form) := by
    have hin : inForm (ε := ε) d.form = if d.form == .observing then Guard.observing else id := by
      funext g
      simp only [inForm]
      split <;> rfl
    rw [hin]
    split <;> simp
  cases g with
  | single k =>
    refine ⟨_, ⟨rfl, fun _ => rfl, hform _, rfl, ?_⟩, rfl⟩
    split <;> trivial
  | fused start stop =>
    refine ⟨_, ⟨rfl, fun hne => ?_, hform _, ?_, ?_⟩, rfl⟩
    · exact Group.headD_members hne 0
    · simp [length_openGroup]
    · split <;> rfl

theorem calls_groupOpening (n : Nat) (g : Group) (link : Splice.Link) (told : Outcome)
    (f : Frame ε) :
    ∃ s : Slot ε, s.Carries n g (f.link link)
        (enterGroup d switch hooks (f.link link) g f.thread).1 ∧
      calls d switch hooks told f (Splice.groupOpening d.decl d.stages n link g) =
        ⟨(enterGroup d switch hooks (f.link link) g f.thread).2, s :: f.slots⟩ := by
  obtain ⟨s, hs, hcall⟩ := call_openCall d switch hooks n g link told f
  obtain ⟨s', hs', hrun⟩ := hs.foldl_onTarget (List.forall_mem_nil _) f.slots (enterStage d hooks)
    (openGroup d switch (f.link link) g f.thread).2
  refine ⟨s', hs', ?_⟩
  rw [Splice.groupOpening, ← List.singleton_append, calls_append, calls_rulesOf]
  simp only [calls, List.foldl_cons, List.foldl_nil, hcall]
  exact hrun

/-- The calls before the body enter the groups in order. -/
theorem calls_openingFrom (n : Nat) (gs : List Group) (link : Splice.Link) (told : Outcome)
    (f : Frame ε) :
    ∃ ss : List (Slot ε), CarryAll n gs (enterGroups d switch hooks (f.link link) gs f.thread).1 ss ∧
      calls d switch hooks told f (Splice.openingFrom d.decl d.stages n link gs) =
        ⟨(enterGroups d switch hooks (f.link link) gs f.thread).2, ss.reverse ++ f.slots⟩ := by
  induction gs generalizing n link f with
  | nil => exact ⟨[], .nil n, rfl⟩
  | cons g gs ih =>
    obtain ⟨s, hs, hone⟩ := calls_groupOpening d switch hooks n g link told f
    obtain ⟨ss, hss, hrest⟩ := ih (n + 1) (.outer (Splice.Guard.ofGroup n g))
      ⟨(enterGroup d switch hooks (f.link link) g f.thread).2, s :: f.slots⟩
    -- A group is inside the one before it, which is the latest variable.
    have hlink (t : Thread ε) :
        (⟨t, s :: f.slots⟩ : Frame ε).link (.outer (Splice.Guard.ofGroup n g)) =
          innerLink (f.link link) (enterGroup d switch hooks (f.link link) g f.thread).1 := by
      rw [← hs.stages, ← Held.link_eq hs.inside]
      simp [Frame.link, hs.name]
    rw [hlink] at hss hrest
    refine ⟨s :: ss, .cons hs hss, ?_⟩
    rw [Splice.openingFrom, calls_append, hone, hrest]
    simp [enterGroups]

/-- The calls after an observed body: captures of the value, and then its end. -/
theorem calls_closing (told : Outcome) {n : Nat} {gs : List Group} {as : List (Guard ε)}
    {ss : List (Slot ε)} (h : CarryAll n gs as ss) (t : Thread ε) (earlier : List (Slot ε)) :
    ∃ ss' : List (Slot ε),
      CarryAll n gs ((actAll (fun k => recordStage d hooks k k) (gs.flatMap Group.members) as t).1.map
        (Guard.complete · told)) ss' ∧
      calls d switch hooks told ⟨t, ss.reverse ++ earlier⟩
          ((gs.zipIdx n).flatMap fun (g, number) => Splice.groupClosing d.stages number g) =
        ⟨(actAll (fun k => recordStage d hooks k k) (gs.flatMap Group.members) as t).2,
          ss'.reverse ++ earlier⟩ := by
  induction h generalizing t earlier with
  | nil n => exact ⟨[], .nil n, rfl⟩
  | @cons n g link as bs s gs ss hs rest ih =>
    have hlate : ∀ x ∈ ss.reverse, x.name ≠ Splice.Guard.ofGroup n g := by
      intro x hx
      exact rest.name_ne (Nat.lt_succ_self n) g x (List.mem_reverse.mp hx)
    obtain ⟨s₁, hs₁, hrecords⟩ := hs.foldl_onTarget hlate earlier (recordStage d hooks) t
    have hcomplete (t : Thread ε) : Slot.onNamed (Splice.Guard.ofGroup n g)
        (fun s t => (s.held.complete told, t)) (ss.reverse ++ s₁ :: earlier) t =
          (ss.reverse ++ { s₁ with held := s₁.held.complete told } :: earlier, t) := by
      rw [← hs₁.name] at hlate ⊢
      exact Slot.onNamed_append hlate earlier _ t
    have hgroup : calls d switch hooks told ⟨t, ss.reverse ++ s :: earlier⟩
        (Splice.groupClosing d.stages n g) =
          ⟨(actAll (fun k => recordStage d hooks k k) g.members as t).2,
            ss.reverse ++ { s₁ with held := s₁.held.complete told } :: earlier⟩ := by
      rw [Splice.groupClosing, calls_append, calls_records, hrecords]
      simp [calls, call, onNamed, hcomplete]
    have hs₂ : ({ s₁ with held := s₁.held.complete told } : Slot ε).Carries n g link
        ((actAll (fun k => recordStage d hooks k k) g.members as t).1.map
          (Guard.complete · told)) := by
      refine ⟨hs₁.name, hs₁.first, by simp [hs₁.stages], by simpa using hs₁.length, ?_⟩
      have hinside := hs₁.inside
      revert hinside
      cases s₁.held <;> exact fun h => h
    obtain ⟨ss', hss', hrest⟩ := ih (actAll (fun k => recordStage d hooks k k) g.members as t).2
      ({ s₁ with held := s₁.held.complete told } :: earlier)
    refine ⟨{ s₁ with held := s₁.held.complete told } :: ss', ?_, ?_⟩
    · rw [List.flatMap_cons, actAll_append _ hs.length, List.map_append]
      exact .cons hs₂ hss'
    · simp only [List.zipIdx_cons, List.flatMap_cons, calls_append, List.reverse_cons,
        List.append_assoc, List.singleton_append, hgroup, actAll_append _ hs.length]
      exact hrest

/-- The frame in which a body begins. -/
theorem carryAll_opened (t : Thread ε) : ∃ ss : List (Slot ε),
    CarryAll 0 d.groups (begin d switch hooks t).1 ss ∧
      opened d switch hooks t = ⟨(begin d switch hooks t).2, ss.reverse⟩ := by
  obtain ⟨ss, hss, hrun⟩ := calls_openingFrom d switch hooks 0 d.groups
    (if d.decl.isAsync then .detached else .thread) .returned ⟨t, []⟩
  have hlink : link (⟨t, []⟩ : Frame ε) (if d.decl.isAsync then .detached else .thread) =
      if d.decl.isAsync then t.detachedLink else t.link := by
    cases d.decl.isAsync <;> rfl
  rw [hlink] at hss hrun
  rw [List.append_nil] at hrun
  exact ⟨ss, hss, hrun⟩

/-- The frame after the body. -/
theorem carryAll_observed (ending : Ending) {as : List (Guard ε)} {ss : List (Slot ε)}
    (h : CarryAll 0 d.groups as ss) (t : Thread ε) : ∃ ss' : List (Slot ε),
      CarryAll 0 d.groups (tell d hooks (ending.told? d.decl.returnsResult) as t).1 ss' ∧
      observed d switch hooks ending ⟨t, ss.reverse⟩ =
        ⟨(tell d hooks (ending.told? d.decl.returnsResult) as t).2, ss'.reverse⟩ := by
  cases hform : d.form with
  | guard => exact ⟨ss, by simpa [tell, hform] using h, by simp [observed, tell, hform]⟩
  | observing =>
    cases htold : ending.told? d.decl.returnsResult with
    | none => exact ⟨ss, by simpa [tell, hform] using h, by simp [observed, tell, hform, htold]⟩
    | some o =>
      obtain ⟨ss', hss', hrun⟩ := calls_closing d switch hooks o h t []
      simp only [List.append_nil] at hrun
      exact ⟨ss', by simpa [tell, hform] using hss',
        by simpa [observed, tell, hform, htold, Splice.closing] using hrun⟩

@[simp] theorem guards_opened (t : Thread ε) :
    (opened d switch hooks t).guards = (begin d switch hooks t).1 := by
  obtain ⟨ss, hss, hrun⟩ := carryAll_opened d switch hooks t
  rw [hrun, hss.guards_eq]

@[simp] theorem thread_opened (t : Thread ε) :
    (opened d switch hooks t).thread = (begin d switch hooks t).2 := by
  obtain ⟨ss, -, hrun⟩ := carryAll_opened d switch hooks t
  rw [hrun]

/-- The guards after the body, and the thread on which they end. -/
theorem observed_opened (ending : Ending) (t t' : Thread ε) :
    (observed d switch hooks ending { opened d switch hooks t with thread := t' }).guards =
        (tell d hooks (ending.told? d.decl.returnsResult) (begin d switch hooks t).1 t').1 ∧
      (observed d switch hooks ending { opened d switch hooks t with thread := t' }).thread =
        (tell d hooks (ending.told? d.decl.returnsResult) (begin d switch hooks t).1 t').2 := by
  obtain ⟨ss, hss, hopened⟩ := carryAll_opened d switch hooks t
  obtain ⟨ss', hss', hobserved⟩ := carryAll_observed d switch hooks ending hss t'
  simp [hopened, hobserved, hss'.guards_eq]

/-- A whole call: its guards are opened and entered, the body runs, the guards are told of its
value, and they end, the innermost first. -/
theorem perform_eq (body : Thread ε → Ending × Thread ε) (t : Thread ε) :
    perform d switch hooks body t =
      let (gs, begun) := begin d switch hooks t
      let (ending, after) := body begun
      let (gs, after) := tell d hooks (ending.told? d.decl.returnsResult) gs (leaving ending t after)
      { gs.foldr Guard.finish after with isUnwinding := t.isUnwinding } := by
  obtain ⟨hguards, hthread⟩ := observed_opened d switch hooks (body (begin d switch hooks t).2).1 t
    (leaving (body (begin d switch hooks t).2).1 t (body (begin d switch hooks t).2).2)
  simp only [perform, thread_opened, finish_eq, hguards, hthread]

end

end Frame
end Invocation
end Instrumentation
