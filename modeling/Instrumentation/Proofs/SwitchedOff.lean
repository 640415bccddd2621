import Instrumentation.Optimization
import Instrumentation.Proofs.Renaming
import Instrumentation.Proofs.UniformExit

/-!
Rules that are switched off. A call whose stages each have a guard of their own runs, when some of
its rules are switched off, as if it had been built without their stages
(`switchedOff_eq_without`). There are two sides to this, which are dealt with one after the other:
an inactive guard does nothing but take an id (`openRow_filter`, `closeRow_filter`), and where no
stage that is left looks at the value of a body, it does not matter if the body is observed
(`closeRow_form`).
-/
namespace Instrumentation

/-- The declaration as it is built without the stages of the rules that are switched off. -/
def InstrumentedDecl.without (d : InstrumentedDecl) (switch : Invocation.Switch) :
    InstrumentedDecl :=
  { d with
    stages := d.stages.filter fun s => switch.isOn s.rule.id
    groups := Group.singles (d.stages.filter fun s => switch.isOn s.rule.id).length }

theorem Stage.fuseFrom_toggled {ss : List Stage} (h : ∀ s ∈ ss, s.toggled = true) (next : Nat) :
    fuseFrom 0 next ss = (List.range' next ss.length).map Group.single := by
  induction ss generalizing next with
  | nil => rfl
  | cons s ss ih =>
    have hs : s.isFusible = false := by simp [isFusible, h s List.mem_cons_self]
    rw [fuseFrom, hs, ih fun x hx => h x (List.mem_cons_of_mem s hx)]
    rfl

/-- These are the stages that a build leaves which disables those rules and can toggle the others. -/
theorem Optimization.decl_eq_without {disabled : List String} (hall : allRules ∉ disabled)
    (f : InstrumentedFile) {d : InstrumentedDecl} (htoggled : ∀ s ∈ d.stages, s.toggled = true) :
    Optimization.decl { disabled, runtimeToggle := [allRules] } f d =
      d.without (.off disabled) := by
  have hnames (id : String) : (!namesRule disabled id) = (Invocation.Switch.off disabled).isOn id := by
    simp [namesRule, Invocation.Switch.isOn, hall]
  have hstages : Optimization.stages { disabled, runtimeToggle := [allRules] } d.stages =
      d.stages.filter fun s => (Invocation.Switch.off disabled).isOn s.rule.id := by
    simp only [stages, hnames]
    refine (List.map_congr_left fun s hs => ?_).trans (List.map_id _)
    have hs := htoggled s (List.mem_filter.mp hs).1
    cases s
    simpa [namesRule] using hs.symm
  have hfuse := Stage.fuseFrom_toggled
    (fun s (hs : s ∈ d.stages.filter fun s => (Invocation.Switch.off disabled).isOn s.rule.id) =>
      htoggled s (List.mem_filter.mp hs).1) 0
  simp only [decl, hstages, InstrumentedDecl.without, Stage.fuse, hfuse, Group.singles,
    List.range_eq_range', Bool.not_true, Bool.or_false]

namespace Invocation

variable {ε : Type}

/-- A hook whose panic does not get out. -/
def Hook.Contained {α : Type} (hook : Hook ε α) : Prop :=
  ∀ c t, (hook c t).2.2.isUnwinding = t.isUnwinding

/-- The closures that the calls of a declaration pass on, by the rules of its stages. -/
structure RuleHooks (ε : Type) where
  enter : Rule → EnterHook ε
  record : Rule → EnterHook ε
  exit : Rule → ExitHook ε

namespace RuleHooks

/-- The closures by the numbers of stages; where there is no stage, nothing is passed on. -/
def ofStages (hooks : RuleHooks ε) (stages : List Stage) : Hooks ε where
  enter k := ((stages[k]?).map fun s => hooks.enter s.rule).getD fun c t => (none, c, t)
  record k := ((stages[k]?).map fun s => hooks.record s.rule).getD fun c t => (none, c, t)
  exit k := ((stages[k]?).map fun s => hooks.exit s.rule).getD fun _ c t => (none, c, t)

/-- To these closures ids are names. -/
structure Natural (r : Renaming ε) (hooks : RuleHooks ε) : Prop where
  enter : ∀ rule, EnterHook.Natural r (hooks.enter rule)
  record : ∀ rule, EnterHook.Natural r (hooks.record rule)
  exit : ∀ rule, ExitHook.Natural r (hooks.exit rule)

structure Contained (hooks : RuleHooks ε) : Prop where
  enter : ∀ rule, Hook.Contained (hooks.enter rule)
  exit : ∀ rule o, Hook.Contained (hooks.exit rule o)

end RuleHooks

/-! ### Stages with guards of their own -/

section

variable (path : String) (decl : Source.Declaration) (switch : Switch) (hooks : RuleHooks ε)

/-- What the calls before the body do to the guard of a stage. -/
def enterOne (s : Stage) (g : Guard ε) (t : Thread ε) : Guard ε × Thread ε :=
  let g := if s.rule.onExit.isSome then g.setExit (hooks.exit s.rule) else g
  if (Splice.Entry.of? decl s.rule).isSome then g.enter (hooks.enter s.rule) t else (g, t)

/-- Opens the guard of a stage, and then enters. -/
def openOne (link : Link) (s : Stage) (t : Thread ε) : Guard ε × Thread ε :=
  let (g, t) := Guard.openAt ⟨s.rule.id, path, decl.qualifiedName⟩ link
    (!s.toggled || switch.isOn s.rule.id) t
  enterOne decl hooks s g t

def openRow : Link → List Stage → Thread ε → List (Guard ε) × Thread ε
  | _, [], t => ([], t)
  | link, s :: rest, t =>
    let (g, t) := openOne path decl switch hooks link s t
    let (gs, t) := openRow g.link rest t
    (g :: gs, t)

def recordOne (s : Stage) (g : Guard ε) (t : Thread ε) : Guard ε × Thread ε :=
  if s.rule.capturesReturn then g.record (hooks.record s.rule) t else (g, t)

def recordRow : List Stage → List (Guard ε) → Thread ε → List (Guard ε) × Thread ε
  | s :: rest, g :: gs, t =>
    let (g, t) := recordOne hooks s g t
    let (gs, t) := recordRow rest gs t
    (g :: gs, t)
  | _, gs, t => (gs, t)

/-- What comes after the body: the guards of an observed body are told of its value, and all end. -/
def closeRow (form : BodyForm) (stages : List Stage) (told? : Option Outcome) (gs : List (Guard ε))
    (t : Thread ε) : Thread ε :=
  match form, told? with
  | .observing, some o =>
    let (gs, t) := recordRow hooks stages gs t
    (gs.map (Guard.complete · o)).foldr Guard.finish t
  | _, _ => gs.foldr Guard.finish t

end

/-- Where the outermost guard of a call is linked to. -/
def outerLink (decl : Source.Declaration) (t : Thread ε) : Link :=
  if decl.isAsync then t.detachedLink else t.link

namespace Frame

variable {d : InstrumentedDecl} {switch : Switch} {hooks : RuleHooks ε}

theorem enter_inForm (form : BodyForm) (g : Guard ε) (hook : EnterHook ε) (t : Thread ε) :
    (inForm form g).enter hook t = (inForm form (g.enter hook t).1, (g.enter hook t).2) := by
  cases form with
  | guard => rfl
  | observing =>
    simp only [inForm, beq_self_eq_true, if_true, Guard.enter, Guard.observing]
    split
    · rcases hook g.context t with ⟨_ | v, c, t'⟩ <;> rfl
    · rfl

theorem enterStage_inForm {k : Nat} {s : Stage} (hk : d.stages[k]? = some s) (g : Guard ε)
    (t : Thread ε) :
    enterStage d (hooks.ofStages d.stages) k k (inForm d.form g) t =
      (inForm d.form (enterOne d.decl hooks s g t).1, (enterOne d.decl hooks s g t).2) := by
  have hset : (if s.rule.onExit.isSome then (inForm d.form g).setExit (hooks.exit s.rule)
      else inForm d.form g) =
        inForm d.form (if s.rule.onExit.isSome then g.setExit (hooks.exit s.rule) else g) := by
    simp only [inForm]
    split <;> split <;> rfl
  simp only [enterStage, InstrumentedDecl.exits, InstrumentedDecl.enters, RuleHooks.ofStages, hk,
    Option.any_some, Option.map_some, Option.getD_some, hset, enterOne]
  split
  · rw [enter_inForm]
  · rfl

theorem enterGroups_eq_openRow {before rest : List Stage} (hd : d.stages = before ++ rest)
    (link : Link) (t : Thread ε) :
    enterGroups d switch (hooks.ofStages d.stages) link
        ((List.range' before.length rest.length).map .single) t =
      ((openRow d.importPath d.decl switch hooks link rest t).1.map (inForm d.form),
        (openRow d.importPath d.decl switch hooks link rest t).2) := by
  induction rest generalizing before link t with
  | nil => rfl
  | cons s rest ih =>
    have hk : d.stages[before.length]? = some s := by simp [hd]
    have hsite : d.site before.length = ⟨s.rule.id, d.importPath, d.decl.qualifiedName⟩ := by
      simp [InstrumentedDecl.site, hk]
    have hone : enterGroup d switch (hooks.ofStages d.stages) link (.single before.length) t =
        ([inForm d.form (openOne d.importPath d.decl switch hooks link s t).1],
          (openOne d.importPath d.decl switch hooks link s t).2) := by
      simp [enterGroup, openGroup, Group.members, actAll, asks, hk, hsite, enterStage_inForm hk,
        openOne]
    have hlink (g : Guard ε) : (inForm d.form g).link = g.link := by
      simp only [inForm]
      split <;> rfl
    have hrest := @ih (before ++ [s]) (by simpa using hd)
    simp only [List.length_append, List.length_singleton] at hrest
    simp [List.range'_succ, enterGroups, hone, hlink, hrest, openRow]

theorem actAll_eq_recordRow {before rest : List Stage} (hd : d.stages = before ++ rest)
    (gs : List (Guard ε)) (t : Thread ε) :
    actAll (fun k => recordStage d (hooks.ofStages d.stages) k k)
        (List.range' before.length rest.length) gs t = recordRow hooks rest gs t := by
  induction rest generalizing before gs t with
  | nil => cases gs <;> rfl
  | cons s rest ih =>
    have hk : d.stages[before.length]? = some s := by simp [hd]
    have hone : recordStage d (hooks.ofStages d.stages) before.length before.length =
        recordOne (ε := ε) hooks s := by
      funext g t
      simp [recordStage, InstrumentedDecl.records, RuleHooks.ofStages, recordOne, hk]
    have hrest := @ih (before ++ [s]) (by simpa using hd)
    simp only [List.length_append, List.length_singleton] at hrest
    cases gs with
    | nil => rfl
    | cons g gs => simp [List.range'_succ, actAll, hone, hrest, recordRow]

variable (hd : d.groups = Group.singles d.stages.length)

include hd

variable (switch hooks) in
theorem begin_eq_openRow (t : Thread ε) :
    begin d switch (hooks.ofStages d.stages) t =
      ((openRow d.importPath d.decl switch hooks (outerLink d.decl t) d.stages t).1.map
          (inForm d.form),
        (openRow d.importPath d.decl switch hooks (outerLink d.decl t) d.stages t).2) := by
  rw [begin, hd, Group.singles, List.range_eq_range']
  exact enterGroups_eq_openRow (List.nil_append _).symm _ t

theorem tell_finish_eq_closeRow (told? : Option Outcome) (gs : List (Guard ε)) (t : Thread ε) :
    (tell d (hooks.ofStages d.stages) told? gs t).1.foldr Guard.finish
        (tell d (hooks.ofStages d.stages) told? gs t).2 =
      closeRow hooks d.form d.stages told? gs t := by
  have hmembers : d.groups.flatMap Group.members = List.range' 0 d.stages.length := by
    simp [hd, Group.singles, List.flatMap_map, Group.members, List.range_eq_range']
  have hrecord := @actAll_eq_recordRow ε d hooks [] d.stages rfl gs t
  rw [List.length_nil] at hrecord
  cases hform : d.form <;> cases told? <;> simp [tell, closeRow, hform, hmembers, hrecord]

variable (switch hooks) in
/-- A whole call, if all stages have guards of their own. -/
theorem perform_eq_closeRow (body : Thread ε → Ending × Thread ε) (t : Thread ε) :
    perform d switch (hooks.ofStages d.stages) body t =
      let (gs, begun) :=
        openRow d.importPath d.decl switch hooks (outerLink d.decl t) d.stages t
      let (ending, after) := body begun
      { closeRow hooks d.form d.stages (ending.told? d.decl.returnsResult)
          (gs.map (inForm d.form)) (leaving ending t after) with isUnwinding := t.isUnwinding } := by
  simp only [perform_eq, begin_eq_openRow switch hooks hd, tell_finish_eq_closeRow hd]

end Frame

/-! ### Inactive guards -/

section

variable (path : String) (decl : Source.Declaration) (switch : Switch) (hooks : RuleHooks ε)

theorem plan_openOne (link : Link) (s : Stage) (t : Thread ε) :
    (openOne path decl switch hooks link s t).1.plan =
      { isActive := !s.toggled || switch.isOn s.rule.id
        isObserving := false
        openedUnwinding := t.isUnwinding
        exit := if s.rule.onExit.isSome then some (hooks.exit s.rule) else none
        outcome := none } := by
  have hset (g : Guard ε) : (if s.rule.onExit.isSome then g.setExit (hooks.exit s.rule) else g).plan =
      { g.plan with
        exit := if s.rule.onExit.isSome then some (hooks.exit s.rule) else g.exit } := by
    split <;> rfl
  simp only [openOne, enterOne]
  split
  · rw [plan_enter, hset]
    rfl
  · rw [hset]
    rfl

variable {switch} in
/-- The guard of a stage that is switched off takes an id, and passes the link on. -/
theorem openOne_off {s : Stage} (htoggled : s.toggled = true) (hoff : switch.isOn s.rule.id = false)
    (link : Link) (t : Thread ε) :
    (openOne path decl switch hooks link s t).1.isActive = false ∧
      (openOne path decl switch hooks link s t).1.link = link ∧
      (openOne path decl switch hooks link s t).2 = { t with nextId := t.nextId + 1 } := by
  simp only [openOne, enterOne, htoggled, hoff]
  split <;> split <;> simp [Guard.openAt, Guard.enter, Guard.setExit, Guard.link]

variable {switch} in
theorem isActive_openOne {s : Stage} (hon : switch.isOn s.rule.id = true) (link : Link)
    (t : Thread ε) : (openOne path decl switch hooks link s t).1.isActive = true := by
  have hplan : (openOne path decl switch hooks link s t).1.isActive =
      (!s.toggled || switch.isOn s.rule.id) :=
    congrArg Plan.isActive (plan_openOne path decl switch hooks link s t)
  simpa [hon] using hplan

variable {hooks} {r : Renaming ε}

theorem RuleHooks.Natural.ofStages (hn : hooks.Natural r) (stages : List Stage) :
    (hooks.ofStages stages).Natural r := by
  refine ⟨fun k => ?_, fun k => ?_, fun k => ?_⟩ <;> simp only [RuleHooks.ofStages] <;>
    cases stages[k]?
  case refine_1.none => exact Renaming.natural_idle _
  case refine_1.some s => exact hn.enter s.rule
  case refine_2.none => exact Renaming.natural_idle _
  case refine_2.some s => exact hn.record s.rule
  case refine_3.none => exact fun _ => Renaming.natural_idle _
  case refine_3.some s => exact hn.exit s.rule

/-- A stage is the only one of a declaration of its own. -/
theorem enterOne_eq (decl : Source.Declaration) (hooks : RuleHooks ε) (s : Stage) :
    enterOne decl hooks s =
      Frame.enterStage (.ofStages "" decl [s]) (hooks.ofStages [s]) 0 0 := by
  funext g t
  simp [enterOne, Frame.enterStage, InstrumentedDecl.exits, InstrumentedDecl.enters,
    RuleHooks.ofStages, InstrumentedDecl.ofStages]

theorem lifts_openOne (hn : hooks.Natural r) (link : Link) (s : Stage) (t : Thread ε) :
    r.Lifts r.guard t (openOne path decl switch hooks link s t)
      fun ρ => openOne path decl switch hooks (link.rename ρ) s := by
  simp only [openOne, enterOne_eq]
  exact (Renaming.lifts_openAt _ link _ t).bind
    (k := fun _ => Frame.enterStage (.ofStages "" decl [s]) (hooks.ofStages [s]) 0 0)
    (Renaming.lifts_enterStage (hn.ofStages _) 0 _ _)

/-- Opening a row of which some stages are switched off is opening the row without them; the ids
that the others take are then not those that come next. -/
theorem openRow_filter (hn : hooks.Natural r) {stages : List Stage}
    (htoggled : ∀ s ∈ stages, s.toggled = true) (link : Link) (t : Thread ε) (n : Nat) :
    let kept := openRow path decl switch hooks link
      (stages.filter fun s => switch.isOn s.rule.id) t
    ∃ ids n', Given n ids n' ∧ kept.2.nextId = t.nextId + ids.length ∧
      ∀ ρ, StrictMono ρ → Follows ρ t.nextId ids →
        let all := openRow path decl switch hooks (link.rename ρ) stages (r.thread ρ n t)
        all.2 = r.thread ρ n' kept.2 ∧
          all.1.map (·.isActive) = stages.map (fun s => switch.isOn s.rule.id) ∧
          all.1.filter (·.isActive) = kept.1.map (r.guard ρ) := by
  intro kept
  induction stages generalizing link t n with
  | nil => exact ⟨[], n, .skip le_rfl, rfl, fun ρ _ _ => ⟨rfl, rfl, rfl⟩⟩
  | cons s stages ih =>
    rw [List.forall_mem_cons] at htoggled
    cases hs : switch.isOn s.rule.id with
    | false =>
      have hkept : kept = openRow path decl switch hooks link
          (stages.filter fun s => switch.isOn s.rule.id) t := by
        simp [kept, hs]
      obtain ⟨ids, n', hgiven, hid, hrun⟩ := ih htoggled.2 link t (n + 1)
      refine ⟨ids, n', (Given.skip (Nat.le_succ n)).append hgiven, hkept ▸ hid, fun ρ hρ hf => ?_⟩
      obtain ⟨hactive, hlink, hthread⟩ :=
        openOne_off path decl hooks htoggled.1 hs (link.rename ρ) (r.thread ρ n t)
      obtain ⟨hall, hmap, hfilter⟩ := hrun ρ hρ hf
      have hnext : ({ r.thread ρ n t with nextId := (r.thread ρ n t).nextId + 1 } : Thread ε) =
          r.thread ρ (n + 1) t := rfl
      simp only [openRow, hlink, hthread, hnext, hactive, hkept, hall, hmap, hfilter, hs,
        List.map_cons, List.filter_cons]
      simp
    | true =>
      obtain ⟨count, hone, hlift⟩ := lifts_openOne path decl switch hn link s t
      obtain ⟨ids, n', hgiven, hid, hrun⟩ := ih htoggled.2
        (openOne path decl switch hooks link s t).1.link
        (openOne path decl switch hooks link s t).2 (n + count)
      have hkept : kept = ((openOne path decl switch hooks link s t).1 ::
          (openRow path decl switch hooks (openOne path decl switch hooks link s t).1.link
            (stages.filter fun s => switch.isOn s.rule.id)
            (openOne path decl switch hooks link s t).2).1,
          (openRow path decl switch hooks (openOne path decl switch hooks link s t).1.link
            (stages.filter fun s => switch.isOn s.rule.id)
            (openOne path decl switch hooks link s t).2).2) := by
        simp [kept, hs, openRow]
      refine ⟨List.range' n count ++ ids, n', (Given.range n count).append hgiven, ?_,
        fun ρ hρ hf => ?_⟩
      · rw [hkept, hid, hone, List.length_append, List.length_range', Nat.add_assoc]
      · rw [follows_append, List.length_range'] at hf
        obtain ⟨hall, hmap, hfilter⟩ := hrun ρ hρ (hone ▸ hf.2)
        have hactive := isActive_openOne path decl hooks hs link t
        simp only [openRow, hlift ρ n hρ hf.1, hkept, Renaming.link_guard, hall, hmap, hfilter, hs,
          hactive, List.map_cons, List.filter_cons, Renaming.isActive_guard]
        simp

end

section

variable {switch : Switch} {hooks : RuleHooks ε}

theorem isActive_recordOne (hooks : RuleHooks ε) (s : Stage) (g : Guard ε) (t : Thread ε) :
    (recordOne hooks s g t).1.isActive = g.isActive := by
  unfold recordOne
  split
  · exact congrArg Plan.isActive (plan_record g _ t)
  · rfl

theorem recordOne_inactive {g : Guard ε} (hg : g.isActive = false) (s : Stage) (t : Thread ε) :
    recordOne hooks s g t = (g, t) := by
  unfold recordOne
  split
  · simp [Guard.record, hg]
  · rfl

theorem recordRow_filter {stages : List Stage} {gs : List (Guard ε)}
    (h : gs.map (·.isActive) = stages.map fun s => switch.isOn s.rule.id) (t : Thread ε) :
    recordRow hooks (stages.filter fun s => switch.isOn s.rule.id) (gs.filter (·.isActive)) t =
      ((recordRow hooks stages gs t).1.filter (·.isActive), (recordRow hooks stages gs t).2) := by
  induction stages generalizing gs t with
  | nil => cases gs <;> simp [recordRow] at h ⊢
  | cons s stages ih =>
    cases gs with
    | nil => simp at h
    | cons g gs =>
      simp only [List.map_cons, List.cons.injEq] at h
      cases hg : g.isActive with
      | false => simp [hg, ← h.1, recordRow, recordOne_inactive hg, ih h.2]
      | true =>
        have hrecord := isActive_recordOne hooks s g t
        simp [hg, ← h.1, recordRow, ih h.2, hrecord]

theorem foldr_finish_filter (gs : List (Guard ε)) (t : Thread ε) :
    (gs.filter (·.isActive)).foldr Guard.finish t = gs.foldr Guard.finish t := by
  induction gs with
  | nil => rfl
  | cons g gs ih =>
    cases hg : g.isActive with
    | false => simp [hg, ih, Guard.finish]
    | true => simp [hg, ih]

/-- Inactive guards do nothing after the body. -/
theorem closeRow_filter {stages : List Stage} {gs : List (Guard ε)}
    (h : gs.map (·.isActive) = stages.map fun s => switch.isOn s.rule.id) (form : BodyForm)
    (told? : Option Outcome) (t : Thread ε) :
    closeRow hooks form (stages.filter fun s => switch.isOn s.rule.id) told?
        (gs.filter (·.isActive)) t = closeRow hooks form stages told? gs t := by
  have hcomplete (o : Outcome) (gs : List (Guard ε)) :
      (gs.filter (·.isActive)).map (Guard.complete · o) =
        (gs.map (Guard.complete · o)).filter (·.isActive) := by
    rw [List.filter_map]
    rfl
  unfold closeRow
  split
  · simp only [recordRow_filter h, hcomplete, foldr_finish_filter]
  · exact foldr_finish_filter gs t

/-! ### Bodies that nobody looks at -/

theorem recordRow_of_not_capturesReturn {stages : List Stage}
    (h : ∀ s ∈ stages, s.rule.capturesReturn = false) (gs : List (Guard ε)) (t : Thread ε) :
    recordRow hooks stages gs t = (gs, t) := by
  induction stages generalizing gs t with
  | nil => cases gs <;> rfl
  | cons s stages ih =>
    rw [List.forall_mem_cons] at h
    cases gs with
    | nil => rfl
    | cons g gs => simp [recordRow, recordOne, h.1, ih h.2]

theorem Guard.finish_congr {g h : Guard ε} {t : Thread ε} (hcontext : g.context = h.context)
    (hactive : g.isActive = h.isActive) (hchained : g.isChained = h.isChained)
    (hexit : g.exit = h.exit) (hending : g.ending t = h.ending t) : g.finish t = h.finish t := by
  simp only [Guard.finish, hcontext, hactive, hchained, hexit, hending]

/-- A guard from before the body, which was opened while no panic was on its way out. -/
structure Guard.Untold (g : Guard ε) : Prop where
  outcome : g.outcome = none
  isObserving : g.isObserving = false
  openedUnwinding : g.openedUnwinding = false
  contained : g.ExitsWith fun hook => ∀ o, Hook.Contained (hook o)

theorem Guard.Untold.isUnwinding_finish {g : Guard ε} (hg : g.Untold) (t : Thread ε) :
    (g.finish t).isUnwinding = t.isUnwinding := by
  have hleave (t : Thread ε) : (if g.isChained then { t with
      chain := t.chain.leave g.context.id } else t).isUnwinding = t.isUnwinding := by
    split <;> rfl
  unfold Guard.finish
  split
  · cases hexit : g.exit with
    | none => exact hleave t
    | some hook =>
      simp only [hleave]
      exact hg.contained hook hexit _ _ t
  · rfl

/-- Guards end alike if each of them would, with or without a panic on its way out. -/
theorem foldr_finish_congr {gs : List (Guard ε)} (hgs : ∀ g ∈ gs, g.Untold) {f : Guard ε → Guard ε}
    {unwinding : Bool} (h : ∀ g ∈ gs, ∀ t, t.isUnwinding = unwinding → (f g).finish t = g.finish t)
    {t : Thread ε} (ht : t.isUnwinding = unwinding) :
    (gs.map f).foldr Guard.finish t = gs.foldr Guard.finish t ∧
      (gs.foldr Guard.finish t).isUnwinding = unwinding := by
  induction gs with
  | nil => exact ⟨rfl, ht⟩
  | cons g gs ih =>
    rw [List.forall_mem_cons] at hgs h
    obtain ⟨hrest, hunwinding⟩ := ih hgs.2 h.2
    simp only [List.map_cons, List.foldr_cons, hrest]
    exact ⟨h.1 _ hunwinding, by rw [hgs.1.isUnwinding_finish, hunwinding]⟩

/-- If no stage captures the value of a body, the guards end alike whether they are told of it or
not: they are told what they would otherwise suppose. -/
theorem closeRow_form {stages : List Stage} (hrecords : ∀ s ∈ stages, s.rule.capturesReturn = false)
    {gs : List (Guard ε)} (hgs : ∀ g ∈ gs, g.Untold) {told? : Option Outcome} {t : Thread ε}
    (htold : told? = some .returned ∧ t.isUnwinding = false ∨ told? = none ∧ t.isUnwinding = true) :
    closeRow hooks .observing stages told? (gs.map (Frame.inForm .observing)) t =
      closeRow hooks .guard stages told? (gs.map (Frame.inForm .guard)) t := by
  have hguard : gs.map (Frame.inForm .guard) = gs := List.map_id gs
  obtain ⟨rfl, ht⟩ | ⟨rfl, ht⟩ := htold
  · simp only [closeRow, recordRow_of_not_capturesReturn hrecords, hguard, List.map_map]
    refine (foldr_finish_congr hgs (fun g hg t ht => ?_) ht).1
    refine Guard.finish_congr rfl rfl rfl rfl ?_
    simp [Guard.ending, Guard.complete, Frame.inForm, ht, (hgs g hg).outcome,
      (hgs g hg).isObserving]
  · simp only [closeRow, hguard]
    refine (foldr_finish_congr hgs (fun g hg t ht => ?_) ht).1
    refine Guard.finish_congr rfl rfl rfl rfl ?_
    simp [Guard.ending, Frame.inForm, Guard.observing, ht, (hgs g hg).outcome,
      (hgs g hg).openedUnwinding]

theorem Guard.isUnwinding_enter {hook : EnterHook ε} (hc : Hook.Contained hook) (g : Guard ε)
    (t : Thread ε) : (g.enter hook t).2.isUnwinding = t.isUnwinding := by
  have hrun := hc g.context t
  unfold Guard.enter
  split
  · revert hrun
    rcases hook g.context t with ⟨_ | v, c, t'⟩ <;> exact id
  · rfl

variable (path : String) (decl : Source.Declaration) (switch : Switch)

theorem exitsWith_openOne {P : ExitHook ε → Prop} (h : ∀ rule, P (hooks.exit rule)) (link : Link)
    (s : Stage) (t : Thread ε) : (openOne path decl switch hooks link s t).1.ExitsWith P := by
  intro hook hhook
  have hexit := congrArg Plan.exit
    (plan_openOne path decl switch hooks link s t)
  have hhook := hhook.symm.trans hexit
  simp only at hhook
  split at hhook
  · obtain rfl := Option.some.inj hhook
    exact h s.rule
  · simp at hhook

theorem exitsWith_openRow {P : ExitHook ε → Prop} (h : ∀ rule, P (hooks.exit rule)) (link : Link)
    (stages : List Stage) (t : Thread ε) :
    ∀ g ∈ (openRow path decl switch hooks link stages t).1, g.ExitsWith P := by
  induction stages generalizing link t with
  | nil => exact List.forall_mem_nil _
  | cons s stages ih =>
    rw [openRow, List.forall_mem_cons]
    exact ⟨exitsWith_openOne path decl switch h link s t, ih _ _⟩

theorem untold_openOne (hc : hooks.Contained) (link : Link) (s : Stage) {t : Thread ε}
    (ht : t.isUnwinding = false) :
    (openOne path decl switch hooks link s t).1.Untold ∧
      (openOne path decl switch hooks link s t).2.isUnwinding = false := by
  have hplan := plan_openOne path decl switch hooks link s t
  simp only [Guard.plan, Plan.mk.injEq, ht] at hplan
  obtain ⟨-, hobserving, hopened, -, houtcome⟩ := hplan
  refine ⟨⟨houtcome, hobserving, hopened, exitsWith_openOne path decl switch hc.exit link s t⟩, ?_⟩
  simp only [openOne, enterOne]
  split
  · rw [Guard.isUnwinding_enter (hc.enter s.rule)]
    exact ht
  · exact ht

theorem untold_openRow (hc : hooks.Contained) (link : Link) (stages : List Stage) {t : Thread ε}
    (ht : t.isUnwinding = false) :
    ∀ g ∈ (openRow path decl switch hooks link stages t).1, g.Untold := by
  induction stages generalizing link t with
  | nil => exact List.forall_mem_nil _
  | cons s stages ih =>
    obtain ⟨hg, ht⟩ := untold_openOne path decl switch hc link s ht
    rw [openRow, List.forall_mem_cons]
    exact ⟨hg, ih _ ht⟩

end

section

variable {d : InstrumentedDecl} {switch : Switch} {hooks : RuleHooks ε}

theorem form_eq_guard_iff : d.form = .guard ↔ d.decl.isAsync = false ∧
    d.decl.returnsResult = false ∧ ∀ s ∈ d.stages, s.rule.capturesReturn = false := by
  simp only [InstrumentedDecl.form, Stage.bodyForm]
  split
  · rename_i h
    simp only [Bool.or_eq_true, List.any_eq_true] at h
    constructor
    · intro hguard
      cases hguard
    · rintro ⟨hasync, hresult, hrecords⟩
      obtain (h | h) | ⟨s, hs, h⟩ := h <;> simp_all
  · simp_all

/-- Whether a body is observed on account of stages that are switched off makes no difference. -/
theorem closeRow_form_without {ending : Ending}
    (hdropped : ending = .dropped → d.decl.isAsync = true)
    {gs : List (Guard ε)} (hgs : ∀ g ∈ gs, g.Untold) {t t' : Thread ε} (ht : t.isUnwinding = false)
    (ht' : t'.isUnwinding = (Frame.leaving ending t t').isUnwinding) :
    let kept := d.without switch
    closeRow hooks d.form kept.stages (ending.told? d.decl.returnsResult)
        (gs.map (Frame.inForm d.form)) t' =
      closeRow hooks kept.form kept.stages (ending.told? d.decl.returnsResult)
        (gs.map (Frame.inForm kept.form)) t' := by
  intro kept
  cases hform : kept.form with
  | observing =>
    cases hd : d.form with
    | observing => rfl
    | guard =>
      obtain ⟨hasync, hresult, hrecords⟩ := form_eq_guard_iff.mp hd
      have hguard : kept.form = .guard := form_eq_guard_iff.mpr
        ⟨hasync, hresult, fun s hs => hrecords s (List.mem_filter.mp hs).1⟩
      simp [hguard] at hform
  | guard =>
    cases hd : d.form with
    | guard => rfl
    | observing =>
      obtain ⟨hasync, hresult, hrecords⟩ := form_eq_guard_iff.mp hform
      have hasync : d.decl.isAsync = false := hasync
      have hresult : d.decl.returnsResult = false := hresult
      refine closeRow_form hrecords hgs ?_
      cases ending with
      | dropped => simp [hdropped rfl] at hasync
      | unwound => exact .inr ⟨rfl, ht'⟩
      | returned => exact .inl ⟨rfl, ht'.trans ht⟩
      | succeeded => exact .inl ⟨by simp [Ending.told?, hresult], ht'.trans ht⟩
      | failed e => exact .inl ⟨by simp [Ending.told?, hresult], ht'.trans ht⟩

theorem Guard.Untold.rename {g : Guard ε} (h : g.Untold) (r : Renaming ε) (ρ : Nat → Nat) :
    (r.guard ρ g).Untold :=
  ⟨h.outcome, h.isObserving, h.openedUnwinding, h.contained⟩

/-- A row of guards ends like its active ones, with other names for calls, in the form that the body
has without the stages that are switched off. -/
theorem closeRow_without (r : Renaming ε) (ρ : Nat → Nat) {gs gs' : List (Guard ε)}
    (hactive : gs.map (·.isActive) = d.stages.map fun s => switch.isOn s.rule.id)
    (hguards : gs.filter (·.isActive) = gs'.map (r.guard ρ)) (huntold : ∀ g ∈ gs', g.Untold)
    {ending : Ending} (hdropped : ending = .dropped → d.decl.isAsync = true) {t t' : Thread ε}
    (ht : t.isUnwinding = false) (ht' : t'.isUnwinding = (Frame.leaving ending t t').isUnwinding) :
    let kept := d.without switch
    let told? := ending.told? d.decl.returnsResult
    closeRow hooks d.form d.stages told? (gs.map (Frame.inForm d.form)) t' =
      closeRow hooks kept.form kept.stages told?
        ((gs'.map (Frame.inForm kept.form)).map (r.guard ρ)) t' := by
  intro kept told?
  have hactive' : (gs.map (Frame.inForm d.form)).map (·.isActive) =
      d.stages.map fun s => switch.isOn s.rule.id := by
    rw [← hactive, Frame.map_inForm fun _ => rfl]
  have huntold' : ∀ g ∈ gs'.map (r.guard ρ), g.Untold := by
    rw [List.forall_mem_map]
    exact fun g hg => (huntold g hg).rename r ρ
  calc closeRow hooks d.form d.stages told? (gs.map (Frame.inForm d.form)) t'
    _ = closeRow hooks d.form kept.stages told?
        ((gs.map (Frame.inForm d.form)).filter (·.isActive)) t' :=
      (closeRow_filter hactive' _ _ _).symm
    _ = closeRow hooks d.form kept.stages told?
        ((gs'.map (r.guard ρ)).map (Frame.inForm d.form)) t' := by
      rw [Frame.filter_inForm, hguards]
    _ = closeRow hooks kept.form kept.stages told?
        ((gs'.map (r.guard ρ)).map (Frame.inForm kept.form)) t' :=
      closeRow_form_without hdropped huntold' ht ht'
    _ = _ := by rw [Renaming.map_inForm_guard]

theorem rename_outerLink {r : Renaming ε} {t : Thread ε} (ht : r.Issued t) {ρ : Nat → Nat}
    (hρ : StrictMono ρ) (hfix : ∀ i < t.nextId, ρ i = i) (decl : Source.Declaration) :
    (outerLink decl t).rename ρ = outerLink decl t := by
  have hthread := ht ρ hρ hfix
  unfold outerLink
  split
  · rw [← Renaming.detachedLink_thread r ρ t.nextId, hthread]
  · rw [← Renaming.link_thread r ρ t.nextId, hthread]

variable (switch) in
/-- The rows of guards of a call with rules switched off, and of the call without their stages. -/
theorem openRow_closeRow_without {r : Renaming ε} (htoggled : ∀ s ∈ d.stages, s.toggled = true)
    (hnatural : hooks.Natural r) (hcontained : hooks.Contained)
    {body : Thread ε → Ending × Thread ε} (hbody : r.Fits body)
    (hdropped : ∀ t, (body t).1 = .dropped → d.decl.isAsync = true) {t : Thread ε}
    (ht : r.Issued t) (hunwinding : t.isUnwinding = false) :
    let kept := d.without switch
    let all := openRow d.importPath d.decl switch hooks (outerLink d.decl t) d.stages t
    let row := openRow d.importPath d.decl switch hooks (outerLink d.decl t) kept.stages t
    let ended := body row.2
    let told? := ended.1.told? d.decl.returnsResult
    ∃ ρ a b c, StrictMono ρ ∧ (∀ i < t.nextId, ρ i = i) ∧ all.2 = r.thread ρ a row.2 ∧
      all.1.filter (·.isActive) = row.1.map (r.guard ρ) ∧
      body all.2 = (ended.1, r.thread ρ b ended.2) ∧
      closeRow hooks d.form d.stages told? (all.1.map (Frame.inForm d.form))
          (Frame.leaving ended.1 t (r.thread ρ b ended.2)) =
        r.thread ρ c (closeRow hooks kept.form kept.stages told? (row.1.map (Frame.inForm kept.form))
          (Frame.leaving ended.1 t ended.2)) := by
  intro kept all row ended told?
  -- The ids that the calls take without the stages, from the opening to the end.
  obtain ⟨ids, a, hgiven, hid, hopen⟩ := openRow_filter d.importPath d.decl switch
    hnatural htoggled (outerLink d.decl t) t t.nextId
  obtain ⟨count, hcount, hended⟩ := hbody row.2
  have hexits : ∀ g ∈ row.1.map (Frame.inForm kept.form), g.ExitsNaturally r :=
    Frame.exitsWith_inForm (exitsWith_openRow _ _ _ hnatural.exit _ _ _) _
  obtain ⟨count', hcount', hclose⟩ := Renaming.lifts_tell_finish (d := kept)
    (hnatural.ofStages kept.stages) told? hexits (Frame.leaving ended.1 t ended.2)
  simp only [Frame.tell_finish_eq_closeRow (d := kept) rfl] at hclose
  obtain ⟨ρ, hρ, hfix, hf⟩ :=
    ((hgiven.append (Given.range a count)).append (Given.range (a + count) count')).exists_follows
  obtain ⟨hf, hfc⟩ := follows_append.mp hf
  obtain ⟨hfa, hfb⟩ := follows_append.mp hf
  -- The guards before the body, and the body.
  obtain ⟨hthread, hactive, hguards⟩ := hopen ρ hρ hfa
  rw [ht ρ hρ hfix, rename_outerLink ht hρ hfix] at hthread hactive hguards
  have hid : row.2.nextId = t.nextId + ids.length := hid
  have hthread : all.2 = r.thread ρ a row.2 := hthread
  have hended : body all.2 = (ended.1, r.thread ρ (a + count) ended.2) :=
    hthread ▸ hended ρ a hρ (hid ▸ hfb)
  refine ⟨ρ, a, a + count, a + count + count', hρ, hfix, hthread, hguards, hended, ?_⟩
  -- What the guards do behind it.
  have hnext : (Frame.leaving ended.1 t ended.2).nextId =
      t.nextId + (ids ++ List.range' a count).length := by
    rw [List.length_append, List.length_range', ← Nat.add_assoc, ← hid, ← hcount]
    rfl
  have hclose := congrArg Prod.snd (hclose ρ (a + count) hρ (hnext ▸ hfc))
  have hleaving : Frame.leaving ended.1 t (r.thread ρ (a + count) ended.2) =
      r.thread ρ (a + count) (Frame.leaving ended.1 t ended.2) := by
    cases ended.1 <;> rfl
  have huntold : ∀ g ∈ row.1, g.Untold := untold_openRow _ _ _ hcontained _ _ hunwinding
  rw [closeRow_without r ρ hactive hguards huntold (hdropped row.2) hunwinding
    (by cases ended.1 <;> rfl), hleaving]
  exact hclose

/-- Switching rules off makes the same as building without their stages, for a declaration whose
stages each have a guard of their own and ask the switch, and a call that is not made while a panic
is on its way out. The ids that the stages would take are left out: up to the names of calls, the
body begins on the same thread inside the same active guards, it does the same, and so does the
whole call. -/
theorem switchedOff_eq_without (r : Renaming ε) (hgroups : d.groups = Group.singles d.stages.length)
    (htoggled : ∀ s ∈ d.stages, s.toggled = true) (hnatural : hooks.Natural r)
    (hcontained : hooks.Contained) {body : Thread ε → Ending × Thread ε} (hbody : r.Fits body)
    (hdropped : ∀ t, (body t).1 = .dropped → d.decl.isAsync = true) {t : Thread ε}
    (ht : r.Issued t) (hunwinding : t.isUnwinding = false) :
    let kept := d.without switch
    let opened := Frame.opened d switch (hooks.ofStages d.stages) t
    let opened' := Frame.opened kept switch (hooks.ofStages kept.stages) t
    let ended := Frame.perform d switch (hooks.ofStages d.stages) body t
    let ended' := Frame.perform kept switch (hooks.ofStages kept.stages) body t
    ∃ ρ, StrictMono ρ ∧ (∀ i < t.nextId, ρ i = i) ∧
      opened.thread = r.thread ρ opened.thread.nextId opened'.thread ∧
      (opened.guards.filter (·.isActive)).map (·.context) =
        opened'.guards.map (fun g => r.context ρ g.context) ∧
      body opened.thread = ((body opened'.thread).1,
        r.thread ρ (body opened.thread).2.nextId (body opened'.thread).2) ∧
      ended = r.thread ρ ended.nextId ended' := by
  intro kept opened opened' ended ended'
  obtain ⟨ρ, a, b, c, hρ, hfix, hthread, hguards, hbody, hclose⟩ :=
    openRow_closeRow_without switch htoggled hnatural hcontained hbody hdropped ht hunwinding
  have hopened := Frame.begin_eq_openRow switch hooks hgroups t
  have hopened' := Frame.begin_eq_openRow switch hooks (d := kept) rfl t
  have hended := Frame.perform_eq_closeRow switch hooks hgroups body t
  have hended' := Frame.perform_eq_closeRow switch hooks (d := kept) rfl body t
  refine ⟨ρ, hρ, hfix, ?_, ?_, ?_, ?_⟩
  · simp only [opened, opened', Frame.thread_opened, hopened, hopened']
    rw [hthread]
    rfl
  · simp only [opened, opened', Frame.guards_opened, hopened, hopened', Frame.filter_inForm, hguards]
    rw [Frame.map_inForm fun _ => rfl, Frame.map_inForm fun _ => rfl, List.map_map]
    rfl
  · simp only [opened, opened', Frame.thread_opened, hopened, hopened', hbody]
    rfl
  · simp only [ended, ended', hended, hended', hbody]
    simp only [kept, InstrumentedDecl.without] at hclose ⊢
    rw [hclose]
    rfl

end

/-- Closures that tell of their calls. -/
def RuleHooks.seeing : RuleHooks Sighting :=
  ⟨fun _ => seeEnter, fun _ => seeEnter, fun _ => seeExit⟩

theorem RuleHooks.natural_seeing : RuleHooks.seeing.Natural .sightings :=
  ⟨fun _ => Renaming.natural_seeEnter, fun _ => Renaming.natural_seeEnter,
    fun _ => Renaming.natural_seeExit⟩

/-- A function with three stages, the first of which captures the value that is returned. -/
def capturing : InstrumentedDecl :=
  let d := withStages false ["log", "time", "trace"] (Group.singles 3)
  { d with stages := d.stages.modify 0 fun s =>
      { s with rule := { s.rule with captures := [⟨"return", .debug, none⟩] } } }

/-- A body that makes an instrumented call, and then panics. -/
def callingBody (t : Thread Sighting) : Ending × Thread Sighting :=
  (.unwound, Frame.perform (withStages false ["time"] [.single 0]) (.off [])
    (RuleHooks.seeing.ofStages (withStages false ["time"] []).stages) (fun t => (.returned, t)) t)

theorem fits_callingBody : Renaming.Fits .sightings callingBody := by
  intro t
  have hreturns : Renaming.Fits .sightings fun t => (.returned, t) := fun t => .pure fun _ => rfl
  have hcall := Renaming.lifts_perform (d := withStages false ["time"] [.single 0])
    (RuleHooks.natural_seeing.ofStages (withStages false ["time"] []).stages) (.off []) hreturns t
  exact hcall.map (f := fun _ => Ending.unwound) (g := fun _ _ => Ending.unwound) fun _ => rfl

/-- Without the stage that is switched off, the body is no longer observed. -/
theorem switchedOff_eq_without_capturing :
    capturing.form = .observing ∧ (capturing.without (.off ["log"])).form = .guard ∧
      ∃ ρ, StrictMono ρ ∧
        (Frame.perform capturing (.off ["log"]) (RuleHooks.seeing.ofStages capturing.stages)
            callingBody {}).events =
          (Frame.perform (capturing.without (.off ["log"])) (.off ["log"])
            (RuleHooks.seeing.ofStages (capturing.without (.off ["log"])).stages)
            callingBody {}).events.map (Renaming.sightings.event ρ) := by
  obtain ⟨ρ, hρ, -, -, -, -, hended⟩ := @switchedOff_eq_without Sighting capturing (.off ["log"])
    .seeing .sightings rfl (by decide) RuleHooks.natural_seeing
    ⟨fun _ _ _ => rfl, fun _ _ _ _ => rfl⟩ callingBody fits_callingBody
    (fun _ h => by simp [callingBody] at h) {} (fun _ _ _ => rfl) rfl
  exact ⟨by decide, by decide, ρ, hρ, congrArg Thread.events hended⟩

end Invocation
end Instrumentation
