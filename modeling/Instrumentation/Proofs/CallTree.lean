import Instrumentation.Proofs.Guards
import Instrumentation.Proofs.UniformExit

/-!
Call trees. The instrumented calls that a program makes on a thread form a tree. However they end,
every active stage finds its parent in the nearest active stage around it, and the chain of the
thread is in the end what it was at the start (`CallTree.parents_linked`).
-/
namespace Instrumentation
namespace Invocation

variable {ε : Type}

/-! ### Hooks that make no instrumented calls -/

/-- A hook that leaves the chain of its thread as it is, and which call its context stands for. -/
structure Hook.Quiet {α : Type} (hook : Hook ε α) : Prop where
  chain : ∀ c t, (hook c t).2.2.chain = t.chain
  site : ∀ c t, (hook c t).2.1.site = c.site
  id : ∀ c t, (hook c t).2.1.id = c.id
  parent : ∀ c t, (hook c t).2.1.parent = c.parent

structure Hooks.Quiet (hooks : Hooks ε) : Prop where
  enter : ∀ k, Hook.Quiet (hooks.enter k)
  record : ∀ k, Hook.Quiet (hooks.record k)
  exit : ∀ k o, Hook.Quiet (hooks.exit k o)

/-- What ties a guard to its call and to the guards around it. -/
structure Tie where
  site : CallSite
  id : Nat
  parent : Option Nat
  isActive : Bool
  isChained : Bool
  linkId : Option Nat

namespace Guard

def tie (g : Guard ε) : Tie :=
  ⟨g.context.site, g.context.id, g.context.parent, g.isActive, g.isChained, g.linkId⟩

/-- The exit hook of a guard, if it has one, makes no instrumented calls. -/
def ExitsQuietly (g : Guard ε) : Prop := g.ExitsWith fun hook => ∀ o, Hook.Quiet (hook o)

theorem tie_enter {hook : EnterHook ε} (hq : Hook.Quiet hook) (g : Guard ε) (t : Thread ε) :
    (g.enter hook t).1.tie = g.tie ∧ (g.enter hook t).2.chain = t.chain := by
  have hattach (c : CallContext) (v : Value) : (c.attach v).site = c.site ∧ (c.attach v).id = c.id ∧
      (c.attach v).parent = c.parent := by
    unfold CallContext.attach
    split <;> exact ⟨rfl, rfl, rfl⟩
  obtain ⟨hchain, hsite, hid, hparent⟩ := hq
  specialize hchain g.context t
  specialize hsite g.context t
  specialize hid g.context t
  specialize hparent g.context t
  unfold enter
  split
  · rcases hrun : hook g.context t with ⟨_ | v, c, t'⟩ <;> simp_all [tie]
  · exact ⟨rfl, rfl⟩

theorem tie_record {hook : EnterHook ε} (hq : Hook.Quiet hook) (g : Guard ε) (t : Thread ε) :
    (g.record hook t).1.tie = g.tie ∧ (g.record hook t).2.chain = t.chain := by
  unfold record
  split
  · simp [tie, hq.chain, hq.site, hq.id, hq.parent]
  · exact ⟨rfl, rfl⟩

end Guard

namespace Frame

variable {act : Nat → Guard ε → Thread ε → Guard ε × Thread ε}

theorem tie_actAll (h : ∀ k g t, (act k g t).1.tie = g.tie ∧ (act k g t).2.chain = t.chain)
    (ks : List Nat) (gs : List (Guard ε)) (t : Thread ε) :
    (actAll act ks gs t).1.map Guard.tie = gs.map Guard.tie ∧
      (actAll act ks gs t).2.chain = t.chain := by
  induction ks generalizing gs t with
  | nil => exact ⟨rfl, rfl⟩
  | cons k ks ih =>
    cases gs with
    | nil => exact ⟨rfl, rfl⟩
    | cons g gs =>
      obtain ⟨htie, hchain⟩ := h k g t
      obtain ⟨hties, hrest⟩ := ih gs (act k g t).2
      exact ⟨by simp [actAll, htie, hties], by simpa [actAll, hchain] using hrest⟩

variable {d : InstrumentedDecl} {hooks : Hooks ε}

theorem tie_enterStage (hq : hooks.Quiet) (k : Nat) (g : Guard ε) (t : Thread ε) :
    (enterStage d hooks k k g t).1.tie = g.tie ∧ (enterStage d hooks k k g t).2.chain = t.chain := by
  have hset : (if d.exits k then g.setExit (hooks.exit k) else g).tie = g.tie := by
    split <;> rfl
  simp only [enterStage]
  generalize (if d.exits k then g.setExit (hooks.exit k) else g) = g' at hset ⊢
  split
  · rw [← hset]
    exact Guard.tie_enter (hq.enter k) g' t
  · exact ⟨hset, rfl⟩

theorem tie_recordStage (hq : hooks.Quiet) (k : Nat) (g : Guard ε) (t : Thread ε) :
    (recordStage d hooks k k g t).1.tie = g.tie ∧
      (recordStage d hooks k k g t).2.chain = t.chain := by
  unfold recordStage
  split
  · exact Guard.tie_record (hq.record k) g t
  · exact ⟨rfl, rfl⟩

end Frame

/-! ### Guards one inside the other -/

/-- The innermost active call of a row of guards, or else of what is around them. -/
def innermost (parent : Option Nat) (xs : List Tie) : Option Nat :=
  ((xs.reverse.find? (·.isActive)).map (·.id)).or parent

@[simp] theorem innermost_nil (parent : Option Nat) : innermost parent [] = parent := rfl

theorem innermost_map_tie (parent : Option Nat) (gs : List (Guard ε)) :
    innermost parent (gs.map Guard.tie) =
      ((gs.reverse.find? (·.isActive)).map (·.context.id)).or parent := by
  rw [innermost, ← List.map_reverse, List.find?_map, Option.map_map]
  rfl

theorem innermost_append (parent : Option Nat) (xs ys : List Tie) :
    innermost parent (xs ++ ys) = innermost (innermost parent xs) ys := by
  simp only [innermost, List.reverse_append, List.find?_append, ← Option.or_assoc]
  cases ys.reverse.find? (·.isActive) <;> simp

theorem innermost_cons (parent : Option Nat) (x : Tie) (xs : List Tie) :
    innermost parent (x :: xs) = innermost (if x.isActive then some x.id else parent) xs := by
  rw [← List.singleton_append, innermost_append]
  congr 1
  cases h : x.isActive <;> simp [innermost, h]

/-- A row of guards, each linked to the one before it. -/
inductive Linked (chained : Bool) : Option Nat → List Tie → Prop
  | nil (parent : Option Nat) : Linked chained parent []
  | cons {parent : Option Nat} {x : Tie} {xs : List Tie} (hparent : x.parent = parent)
    (hchained : x.isChained = chained) (hlink : x.linkId = if x.isActive then some x.id else parent)
    (rest : Linked chained x.linkId xs) : Linked chained parent (x :: xs)

namespace Linked

variable {chained : Bool} {parent : Option Nat} {xs ys : List Tie}

theorem append_iff :
    Linked chained parent (xs ++ ys) ↔
      Linked chained parent xs ∧ Linked chained (innermost parent xs) ys := by
  induction xs generalizing parent with
  | nil => simp [Linked.nil]
  | cons x xs ih =>
    rw [innermost_cons, List.cons_append]
    constructor
    · rintro (_ | ⟨hparent, hchained, hlink, rest⟩)
      obtain ⟨hxs, hys⟩ := ih.mp rest
      exact ⟨.cons hparent hchained hlink hxs, hlink ▸ hys⟩
    · rintro ⟨_ | ⟨hparent, hchained, hlink, rest⟩, hys⟩
      exact .cons hparent hchained hlink (ih.mpr ⟨rest, hlink ▸ hys⟩)

theorem parent_eq {x : Tie} (h : Linked chained parent (xs ++ x :: ys)) :
    x.parent = innermost parent xs := by
  obtain ⟨-, _ | ⟨hparent, -, -, -⟩⟩ := append_iff.mp h
  exact hparent

end Linked

/-- The calls that guards have put on a chain, the innermost first. -/
def onChain (xs : List Tie) : Chain := ((xs.filter (·.isActive)).map (·.id)).reverse

theorem onChain_append (xs ys : List Tie) : onChain (xs ++ ys) = onChain ys ++ onChain xs := by
  simp [onChain]

theorem current_onChain (xs : List Tie) (c : Chain) :
    (onChain xs ++ c).current = innermost c.current xs := by
  simp [onChain, innermost, Chain.current, ← List.filter_reverse, ← List.map_reverse,
    List.head?_append, List.head?_filter]

/-- A row of guards that go on the chain has been opened on a thread. -/
structure OpenedOn (link : Link) (t : Thread ε) (gs : List (Guard ε)) (t' : Thread ε) : Prop where
  linked : Linked link.isChained link.parent (gs.map Guard.tie)
  chain : link.isChained = true → t'.chain = onChain (gs.map Guard.tie) ++ t.chain

namespace OpenedOn

variable {link : Link} {t t' t'' : Thread ε} {gs hs : List (Guard ε)}

theorem nil (link : Link) (t : Thread ε) : OpenedOn link t [] t :=
  ⟨.nil _, fun _ => by simp [onChain]⟩

theorem innerLink_eq (h : OpenedOn link t gs t') :
    innerLink link gs = ⟨innermost link.parent (gs.map Guard.tie), link.isChained⟩ := by
  have hlinked := h.linked
  clear h
  induction gs generalizing link with
  | nil => rfl
  | cons g gs ih =>
    obtain _ | ⟨-, hchained, hlink, rest⟩ := hlinked
    have hg : g.link = ⟨g.tie.linkId, link.isChained⟩ := by rw [← hchained]; rfl
    rw [innerLink_cons, @ih g.link (by rw [hg]; exact rest), List.map_cons, innermost_cons,
      ← hlink, hg]

theorem append (h : OpenedOn link t gs t') (h' : OpenedOn (innerLink link gs) t' hs t'') :
    OpenedOn link t (gs ++ hs) t'' := by
  have hlink := h.innerLink_eq
  refine ⟨?_, fun hc => ?_⟩
  · rw [List.map_append, Linked.append_iff]
    exact ⟨h.linked, by simpa [hlink] using h'.linked⟩
  · rw [h'.chain (by rw [hlink]; exact hc), h.chain hc, List.map_append, onChain_append,
      List.append_assoc]

theorem single (site : CallSite) (link : Link) (active : Bool) (t : Thread ε) :
    OpenedOn link t [(Guard.openAt site link active t).1] (Guard.openAt site link active t).2 := by
  refine ⟨.cons rfl rfl rfl (.nil _), fun hc => ?_⟩
  cases active <;> simp [Guard.openAt, onChain, Guard.tie, hc]

theorem openStages (link : Link) (sites : List CallSite) (t : Thread ε) :
    OpenedOn link t (Fused.openStages link sites t).1 (Fused.openStages link sites t).2 := by
  induction sites generalizing link t with
  | nil => exact nil link t
  | cons site sites ih => exact (single site link true t).append (ih _ _)

/-- The row stays what it is when its guards are acted on without instrumented calls. -/
theorem keep (h : OpenedOn link t gs t') (hties : hs.map Guard.tie = gs.map Guard.tie)
    (hchain : t''.chain = t'.chain) : OpenedOn link t hs t'' :=
  ⟨hties ▸ h.linked, fun hc => by rw [hchain, hties, h.chain hc]⟩

/-- When the guards of a row end, the chain is what it was before they were opened. -/
theorem chain_finish (h : OpenedOn link t gs t') (hexits : ∀ g ∈ gs, g.ExitsQuietly)
    (hc : link.isChained = true) : (gs.foldr Guard.finish t').chain = t.chain := by
  have hlinked := h.linked
  have hchain := h.chain hc
  clear h
  generalize t.chain = rest at hchain ⊢
  generalize link.parent = parent at hlinked
  rw [hc] at hlinked
  induction gs generalizing parent rest with
  | nil => simpa [onChain] using hchain
  | cons g gs ih =>
    obtain _ | ⟨-, hchained, -, hlinked⟩ := hlinked
    rw [List.forall_mem_cons] at hexits
    have hinner := ih hexits.2 (onChain [g.tie] ++ rest)
      (by rw [hchain, ← List.append_assoc, ← onChain_append]; rfl) _ hlinked
    obtain hchained : g.isChained = true := hchained
    simp only [List.foldr_cons]
    generalize gs.foldr Guard.finish t' = u at hinner
    cases hactive : g.isActive with
    | false => simpa [Guard.finish, hactive, onChain, Guard.tie] using hinner
    | true =>
      have hu : u.chain = g.context.id :: rest := by
        simpa [onChain, Guard.tie, hactive] using hinner
      cases hexit : g.exit with
      | none => simp [Guard.finish, hactive, hchained, hexit, hu]
      | some hook =>
        have hquiet := (hexits.1 hook hexit (g.ending u)).chain g.context u
        simp [Guard.finish, hactive, hchained, hexit, hquiet, hu]

end OpenedOn

namespace Frame

variable {d : InstrumentedDecl} {hooks : Hooks ε}

theorem openedOn_openGroup (d : InstrumentedDecl) (switch : Switch) (link : Link) (g : Group)
    (t : Thread ε) :
    OpenedOn link t (openGroup d switch link g t).1 (openGroup d switch link g t).2 := by
  cases g with
  | single k => exact .single _ link _ t
  | fused start stop => exact .openStages link _ t

theorem openedOn_enterGroups (hq : hooks.Quiet) (switch : Switch) (link : Link) (gs : List Group)
    (t : Thread ε) : OpenedOn link t (enterGroups d switch hooks link gs t).1
      (enterGroups d switch hooks link gs t).2 := by
  induction gs generalizing link t with
  | nil => exact .nil link t
  | cons g gs ih =>
    have hopened := openedOn_openGroup d switch link g t
    obtain ⟨hties, hchain⟩ := tie_actAll (tie_enterStage (d := d) hq) g.members
      ((openGroup d switch link g t).1.map (inForm d.form)) (openGroup d switch link g t).2
    exact (hopened.keep (hties.trans (map_inForm (fun _ => rfl) _ _)) hchain).append (ih _ _)

/-- The sites of the guards, and which of them are active, are those of the stages. -/
theorem sites_enterGroups (hq : hooks.Quiet) (hd : d.Grouped) (switch : Switch) (link : Link)
    {gs : List Group} (hgs : ∀ g ∈ gs, g ∈ d.groups) (t : Thread ε) :
    ((enterGroups d switch hooks link gs t).1.map fun g => (g.context.site, g.isActive)) =
      (gs.flatMap Group.members).map fun k => (d.site k, d.isOn switch k) := by
  have hview (as : List (Guard ε)) : (as.map fun g => (g.context.site, g.isActive)) =
      (as.map Guard.tie).map fun x => (x.site, x.isActive) := by
    simp [Guard.tie]
  induction gs generalizing link t with
  | nil => rfl
  | cons g gs ih =>
    obtain ⟨hties, -⟩ := tie_actAll (tie_enterStage (d := d) hq) g.members
      ((openGroup d switch link g t).1.map (inForm d.form)) (openGroup d switch link g t).2
    rw [map_inForm fun _ => rfl] at hties
    have hopened : ((openGroup d switch link g t).1.map fun g => (g.context.site, g.isActive)) =
        g.members.map fun k => (d.site k, d.isOn switch k) := by
      have hg := hgs g List.mem_cons_self
      cases g with
      | single k => simp [openGroup, Group.members, Guard.openAt, asks, hd.isOn_single hg switch]
      | fused start stop =>
        have hon : (Group.fused start stop).members.map (fun k => (d.site k, d.isOn switch k)) =
            ((Group.fused start stop).members.map d.site).map fun site => (site, true) := by
          rw [List.map_map]
          exact List.map_congr_left fun k hk => by simp [hd.isOn_fused hg hk switch]
        rw [hon]
        simp only [openGroup]
        generalize (Group.fused start stop).members.map d.site = sites
        clear hties hg hon
        induction sites generalizing link t with
        | nil => rfl
        | cons site sites ih =>
          simp only [Fused.openStages, List.map_cons, ih]
          rfl
    simp only [enterGroups, enterGroup, List.map_append, List.flatMap_cons,
      ih _ (fun g hg => hgs g (List.mem_cons_of_mem _ hg))]
    rw [hview, hties, ← hview, hopened]

theorem openedOn_tell (hq : hooks.Quiet) (told? : Option Outcome) {link : Link} {t t' : Thread ε}
    {gs : List (Guard ε)} (h : OpenedOn link t gs t') :
    OpenedOn link t (tell d hooks told? gs t').1 (tell d hooks told? gs t').2 := by
  cases hform : d.form with
  | guard => simpa [tell, hform] using h
  | observing =>
    cases told? with
    | none => simpa [tell, hform] using h
    | some o =>
      obtain ⟨hties, hchain⟩ := tie_actAll (tie_recordStage (d := d) hq)
        (d.groups.flatMap Group.members) gs t'
      simp only [tell, hform]
      refine h.keep ?_ hchain
      rw [List.map_map, ← hties]
      rfl

/-- A call whose body leaves the chain as it found it does so itself. -/
theorem chain_perform (hq : hooks.Quiet) (hsync : d.decl.isAsync = false) (switch : Switch)
    {body : Thread ε → Ending × Thread ε} (t : Thread ε)
    (hbody : (body (begin d switch hooks t).2).2.chain = (begin d switch hooks t).2.chain) :
    (perform d switch hooks body t).chain = t.chain := by
  have hopened : OpenedOn t.link t (begin d switch hooks t).1 (begin d switch hooks t).2 := by
    simpa [begin, hsync] using openedOn_enterGroups (d := d) hq switch t.link d.groups t
  have hleaving : OpenedOn t.link t (begin d switch hooks t).1
      (leaving (body (begin d switch hooks t).2).1 t (body (begin d switch hooks t).2).2) :=
    hopened.keep rfl hbody
  have hexits : ∀ g ∈ (begin d switch hooks t).1, g.ExitsQuietly :=
    exitsWith_enterGroups hq.exit _ _ _
  rw [perform_eq]
  exact (openedOn_tell (d := d) hq _ hleaving).chain_finish (exitsWith_tell hexits _ _) rfl

end Frame

/-! ### Call trees -/

/-- A synchronous declaration as a program calls it, with the hooks of its stages. -/
structure Callee (ε : Type) where
  decl : InstrumentedDecl
  hooks : Hooks ε
  isSync : decl.decl.isAsync = false
  grouped : decl.Grouped
  quiet : hooks.Quiet

/-- A call, with the calls that its body makes, in order. A call that is made for `cleanup` is made
while a panic of the body it stands in is on its way out. -/
inductive CallTree (ε : Type) where
  | node (callee : Callee ε) (cleanup : Bool) (calls : List (CallTree ε)) (ending : Ending)

/-- A call whose body is running, with the frame in which it began. -/
structure Running (ε : Type) where
  callee : Callee ε
  frame : Frame ε

namespace CallTree

def calls : CallTree ε → List (CallTree ε)
  | node _ _ calls _ => calls

/-- The thread as a call finds it. -/
def onto : CallTree ε → Thread ε → Thread ε
  | node _ cleanup _ _, t => { t with isUnwinding := t.isUnwinding || cleanup }

/-- A call as its body begins. -/
def began (switch : Switch) (c : CallTree ε) (t : Thread ε) : Running ε :=
  match c with
  | node callee _ _ _ => ⟨callee, Frame.opened callee.decl switch callee.hooks (c.onto t)⟩

mutual

/-- The thread after a call and all calls inside it. -/
def run (switch : Switch) : CallTree ε → Thread ε → Thread ε
  | node callee cleanup calls ending, t =>
    let after := Frame.perform callee.decl switch callee.hooks
      (fun t => (ending, runAll switch calls t)) { t with isUnwinding := t.isUnwinding || cleanup }
    { after with isUnwinding := t.isUnwinding }

def runAll (switch : Switch) : List (CallTree ε) → Thread ε → Thread ε
  | [], t => t
  | c :: rest, t => runAll switch rest (run switch c t)

end

/-- While a call is made on a thread, the bodies of these calls are running, the innermost first. -/
inductive Reaches (switch : Switch) : CallTree ε → Thread ε → List (Running ε) → Prop
  | self (c : CallTree ε) (t : Thread ε) : Reaches switch c t [c.began switch t]
  | inside {c b : CallTree ε} {t : Thread ε} {before after : List (CallTree ε)}
    {path : List (Running ε)} (hcalls : c.calls = before ++ b :: after)
    (hpath : Reaches switch b (runAll switch before (c.began switch t).frame.thread) path) :
    Reaches switch c t (path ++ [c.began switch t])

/-- The guards of a call as its body begins. -/
theorem openedOn_began (switch : Switch) (c : CallTree ε) (t : Thread ε) :
    OpenedOn t.link t (c.began switch t).frame.guards (c.began switch t).frame.thread := by
  obtain ⟨callee, cleanup, calls, ending⟩ := c
  have hopened := Frame.openedOn_enterGroups (d := callee.decl) callee.quiet switch t.link
    callee.decl.groups ((node callee cleanup calls ending).onto t)
  simp only [began, Frame.guards_opened, Frame.thread_opened, Frame.begin, callee.isSync]
  exact ⟨hopened.linked, hopened.chain⟩

mutual

/-- A call leaves the chain as it found it. -/
theorem chain_run (switch : Switch) (c : CallTree ε) (t : Thread ε) :
    (c.run switch t).chain = t.chain := by
  match c with
  | node callee cleanup calls ending =>
    simp only [run]
    exact Frame.chain_perform callee.quiet callee.isSync switch _
      (chain_runAll switch calls _)

theorem chain_runAll (switch : Switch) (cs : List (CallTree ε)) (t : Thread ε) :
    (runAll switch cs t).chain = t.chain := by
  match cs with
  | [] => rfl
  | c :: rest => exact (chain_runAll switch rest _).trans (chain_run switch c t)

end

theorem Reaches.ne_nil {switch : Switch} {c : CallTree ε} {t : Thread ε} {path : List (Running ε)}
    (h : c.Reaches switch t path) : path ≠ [] := by
  cases h <;> simp

theorem onChain_flatMap (path : List (Running ε)) :
    (path.flatMap fun r => onChain (r.frame.guards.map Guard.tie)) =
      onChain ((path.reverse.flatMap fun r => r.frame.guards).map Guard.tie) := by
  induction path with
  | nil => rfl
  | cons r path ih => simp [ih, onChain_append]

/-- The innermost of running bodies began on a thread whose chain holds the active stages of the
others. -/
theorem Reaches.exists_began {switch : Switch} {c : CallTree ε} {t : Thread ε}
    {path : List (Running ε)} (h : c.Reaches switch t path) {r : Running ε}
    {enclosing : List (Running ε)} (hpath : path = r :: enclosing) :
    ∃ (b : CallTree ε) (u : Thread ε), r = b.began switch u ∧
      u.chain = (enclosing.flatMap fun r => onChain (r.frame.guards.map Guard.tie)) ++ t.chain := by
  induction h generalizing enclosing with
  | self c t =>
    obtain ⟨rfl, rfl⟩ := List.cons.inj hpath
    exact ⟨c, t, rfl, rfl⟩
  | @inside c b t before after path hcalls hinner ih =>
    cases path with
    | nil => exact absurd rfl hinner.ne_nil
    | cons r' enclosing' =>
      obtain ⟨rfl, rfl⟩ := List.cons.inj hpath
      obtain ⟨b', u, hr, hchain⟩ := ih rfl
      rw [chain_runAll, (openedOn_began switch c t).chain rfl] at hchain
      exact ⟨b', u, hr, by simpa using hchain⟩

/-- In a call tree, the active stages of a call are those that are not switched off, and each has
for its parent the innermost active stage around it: the nearest one before it in its own call, or
else the nearest in the calls that its call is made in, or else the top of the chain before the
tree. After the tree the chain is what it was. -/
theorem parents_linked (switch : Switch) (c : CallTree ε) (t : Thread ε) :
    (c.run switch t).chain = t.chain ∧
      ∀ r enclosing, c.Reaches switch t (r :: enclosing) →
        (r.frame.guards.map fun g => (g.context.site, g.isActive)) =
          (List.range r.callee.decl.stages.length).map
            (fun k => (r.callee.decl.site k, r.callee.decl.isOn switch k)) ∧
        ∀ outer g inner, r.frame.guards = outer ++ g :: inner → g.isActive = true →
          g.context.parent =
            (((outer.reverse ++ enclosing.flatMap fun r => r.frame.guards.reverse).find?
              (·.isActive)).map (·.context.id)).or t.current := by
  refine ⟨chain_run switch c t, fun r enclosing hpath => ?_⟩
  obtain ⟨⟨callee, cleanup, calls, ending⟩, u, rfl, hchain⟩ := hpath.exists_began rfl
  constructor
  · have hsites := Frame.sites_enterGroups callee.quiet callee.grouped switch
      ((node callee cleanup calls ending).onto u).link (fun _ hg => hg)
      ((node callee cleanup calls ending).onto u)
    rw [callee.grouped] at hsites
    simpa [began, Frame.begin, callee.isSync] using hsites
  · intro outer g inner hguards hactive
    have hlinked := (openedOn_began switch (node callee cleanup calls ending) u).linked
    rw [hguards, List.map_append, List.map_cons] at hlinked
    have hcurrent : u.current =
        innermost t.current ((enclosing.reverse.flatMap fun r => r.frame.guards).map Guard.tie) := by
      rw [Thread.current, Thread.current, ← current_onChain, ← onChain_flatMap, ← hchain]
    calc g.context.parent
      _ = innermost u.current (outer.map Guard.tie) := hlinked.parent_eq
      _ = innermost t.current
          (((enclosing.reverse.flatMap fun r => r.frame.guards) ++ outer).map Guard.tie) := by
        rw [hcurrent, List.map_append, innermost_append]
      _ = _ := by
        rw [innermost_map_tie]
        simp [List.reverse_flatMap, Function.comp_def]

end CallTree

theorem quiet_marking (panics : Nat → Bool) : (Hooks.marking panics).Quiet where
  enter _ := ⟨fun _ _ => rfl, fun _ _ => rfl, fun _ _ => rfl, fun _ _ => rfl⟩
  record _ := ⟨fun _ _ => rfl, fun _ _ => rfl, fun _ _ => rfl, fun _ _ => rfl⟩
  exit _ _ := ⟨fun _ _ => rfl, fun _ _ => rfl, fun _ _ => rfl, fun _ _ => rfl⟩

namespace CallTree

/-- A call of a function with stages of some rules, whose hooks leave marks; that of the second
stage panics then. -/
def marking (rules : List String) (groups : List Group)
    (hd : (withStages false rules groups).Grouped) (calls : List (CallTree Mark)) (ending : Ending) :
    CallTree Mark :=
  node ⟨withStages false rules groups, Hooks.marking (· == 1), rfl, hd, quiet_marking _⟩ false calls
    ending

/-- Two calls inside each other, the inner of which panics; between them one whose only stage can
be switched off. -/
def nested : CallTree Mark :=
  marking ["time", "log"] [.single 0, .single 1] (by decide) [
    marking ["log"] [.single 0] (by decide) [
      marking ["time", "trace"] [.fused 0 2] (by decide) [] .unwound] .returned] .returned

theorem parents_linked_nested :
    (nested.run (.off ["log"]) {}).chain = [] ∧
      ∃ r enclosing, nested.Reaches (.off ["log"]) {} (r :: enclosing) ∧
        r.frame.guards.map (fun g => (g.context.id, g.isActive)) = [(4, true), (5, true)] ∧
        ∀ g inner, r.frame.guards = g :: inner → g.isActive = true → g.context.parent = some 1 := by
  have hpath := @Reaches.inside Mark (.off ["log"]) nested _ {} [] _ _ rfl
    (@Reaches.inside Mark _ _ _ _ [] _ _ rfl (.self _ _))
  obtain ⟨hchain, hparents⟩ := parents_linked (.off ["log"]) nested {}
  refine ⟨hchain, _, _, hpath, by decide +kernel, fun g inner hguards hactive => ?_⟩
  rw [(hparents _ _ hpath).2 [] g inner hguards hactive]
  decide +kernel

end CallTree
end Invocation
end Instrumentation
