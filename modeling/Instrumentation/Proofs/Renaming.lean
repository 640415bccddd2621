import Mathlib.Order.Monotone.Basic
import Instrumentation.Proofs.Guards

/-!
Calls by other names. Ids only tell calls apart: guards do the same, up to the names of the calls,
whatever ids they are given, as long as these come in the same order (`Renaming.Lifts`). So it is
for hooks that treat ids as names, and for a whole instrumented call of a body that does so
(`Renaming.lifts_perform`).
-/
namespace Instrumentation
namespace Invocation

variable {ε : Type}

/-- A renaming gives these names to the calls from number `m` on. -/
def Follows (ρ : Nat → Nat) (m : Nat) (ids : List Nat) : Prop :=
  (List.range' m ids.length).map ρ = ids

@[simp] theorem follows_nil (ρ : Nat → Nat) (m : Nat) : Follows ρ m [] := rfl

theorem follows_append {ρ : Nat → Nat} {m : Nat} {ids ids' : List Nat} :
    Follows ρ m (ids ++ ids') ↔ Follows ρ m ids ∧ Follows ρ (m + ids.length) ids' := by
  have hrange : List.range' m (ids ++ ids').length =
      List.range' m ids.length ++ List.range' (m + ids.length) ids'.length := by
    simp [List.range'_append_1]
  rw [Follows, hrange, List.map_append]
  constructor
  · intro h
    exact List.append_inj h (by simp)
  · rintro ⟨h, h'⟩
    rw [h, h']

theorem follows_range_add {ρ : Nat → Nat} {m n a b : Nat} :
    Follows ρ m (List.range' n (a + b)) ↔
      Follows ρ m (List.range' n a) ∧ Follows ρ (m + a) (List.range' (n + a) b) := by
  rw [← List.range'_append_1, follows_append, List.length_range']

@[simp] theorem follows_singleton {ρ : Nat → Nat} {m i : Nat} : Follows ρ m [i] ↔ ρ m = i := by
  simp [Follows]

/-- How the ids of calls occur in events, and in what hooks keep in their contexts. -/
structure Renaming (ε : Type) where
  event : (Nat → Nat) → ε → ε
  captured : (Nat → Nat) → Captured → Captured
  value : (Nat → Nat) → Value → Value
  kind_value : ∀ ρ v, (value ρ v).kind = v.kind

/-- The same link, with the calls called by other names. -/
def Link.rename (ρ : Nat → Nat) (l : Link) : Link := ⟨l.parent.map ρ, l.isChained⟩

theorem Chain.leave_map {ρ : Nat → Nat} (hρ : StrictMono ρ) (c : Chain) (id : Nat) :
    Chain.leave (c.map ρ) (ρ id) = (c.leave id).map ρ := by
  have hmem : ρ id ∈ c.map ρ ↔ id ∈ c := by simp [hρ.injective.eq_iff]
  have hne : ((· != ρ id) ∘ ρ) = (· != id) := by
    funext x
    simp [bne, hρ.injective.beq_eq]
  simp only [Chain.leave, hmem, List.dropWhile_map, hne]
  split <;> simp

namespace Renaming

variable (r : Renaming ε) (ρ : Nat → Nat)

def context (c : CallContext) : CallContext where
  site := c.site
  id := ρ c.id
  parent := c.parent.map ρ
  receiver := c.receiver
  params := c.params.map fun p => (p.1, r.captured ρ p.2)
  returnValue := c.returnValue.map (r.captured ρ)
  attachments := c.attachments.map (r.value ρ)

/-- The same thread, in a process whose next id is `n`. -/
def thread (n : Nat) (t : Thread ε) : Thread ε where
  nextId := n
  chain := t.chain.map ρ
  isUnwinding := t.isUnwinding
  events := t.events.map (r.event ρ)

def guard (g : Guard ε) : Guard ε :=
  { g with context := r.context ρ g.context, linkId := g.linkId.map ρ }

@[simp] theorem nextId_thread (n : Nat) (t : Thread ε) : (r.thread ρ n t).nextId = n := rfl

@[simp] theorem chain_thread (n : Nat) (t : Thread ε) :
    (r.thread ρ n t).chain = t.chain.map ρ := rfl

@[simp] theorem isUnwinding_thread (n : Nat) (t : Thread ε) :
    (r.thread ρ n t).isUnwinding = t.isUnwinding := rfl

@[simp] theorem link_thread (n : Nat) (t : Thread ε) :
    (r.thread ρ n t).link = t.link.rename ρ := by
  simp [Thread.link, Link.rename, Thread.current, Chain.current]

@[simp] theorem detachedLink_thread (n : Nat) (t : Thread ε) :
    (r.thread ρ n t).detachedLink = t.detachedLink.rename ρ := by
  simp [Thread.detachedLink, Link.rename, Thread.current, Chain.current]

@[simp] theorem link_guard (g : Guard ε) : (r.guard ρ g).link = g.link.rename ρ := rfl

@[simp] theorem isActive_guard (g : Guard ε) : (r.guard ρ g).isActive = g.isActive := rfl

@[simp] theorem isChained_guard (g : Guard ε) : (r.guard ρ g).isChained = g.isChained := rfl

@[simp] theorem context_guard (g : Guard ε) : (r.guard ρ g).context = r.context ρ g.context := rfl

@[simp] theorem id_context (c : CallContext) : (r.context ρ c).id = ρ c.id := rfl

@[simp] theorem exit_guard (g : Guard ε) : (r.guard ρ g).exit = g.exit := rfl

@[simp] theorem setExit_guard (g : Guard ε) (hook : ExitHook ε) :
    (r.guard ρ g).setExit hook = r.guard ρ (g.setExit hook) := rfl

@[simp] theorem observing_guard (g : Guard ε) :
    (r.guard ρ g).observing = r.guard ρ g.observing := rfl

@[simp] theorem complete_guard (g : Guard ε) (o : Outcome) :
    (r.guard ρ g).complete o = r.guard ρ (g.complete o) := rfl

theorem ending_guard (g : Guard ε) (n : Nat) (t : Thread ε) :
    (r.guard ρ g).ending (r.thread ρ n t) = g.ending t := rfl

theorem attach_context (c : CallContext) (v : Value) :
    (r.context ρ c).attach (r.value ρ v) = r.context ρ (c.attach v) := by
  simp only [CallContext.attach, r.kind_value]
  split <;> simp [context]

theorem innerLink_map (link : Link) (gs : List (Guard ε)) :
    innerLink (link.rename ρ) (gs.map (r.guard ρ)) = (innerLink link gs).rename ρ := by
  simp only [innerLink, List.getLast?_map]
  cases gs.getLast? <;> rfl

/-! ### Runs that do not depend on ids -/

/-- A run from a thread gives `out`, and the same up to the names of the calls from where these
have other names. It takes a number of ids; which ones, the names follow. -/
def Lifts {β : Type} (rename : (Nat → Nat) → β → β) (t : Thread ε) (out : β × Thread ε)
    (run : (Nat → Nat) → Thread ε → β × Thread ε) : Prop :=
  ∃ count, out.2.nextId = t.nextId + count ∧
    ∀ ρ n, StrictMono ρ → Follows ρ t.nextId (List.range' n count) →
      run ρ (r.thread ρ n t) = (rename ρ out.1, r.thread ρ (n + count) out.2)

end Renaming

/-- What a hook does on a thread. -/
def Hook.result {α : Type} (hook : Hook ε α) (c : CallContext) (t : Thread ε) :
    (Option α × CallContext) × Thread ε :=
  (((hook c t).1, (hook c t).2.1), (hook c t).2.2)

/-- A hook to which ids are names. -/
def Hook.Natural {α : Type} (r : Renaming ε) (value : (Nat → Nat) → α → α) (hook : Hook ε α) :
    Prop :=
  ∀ c t, r.Lifts (fun ρ x => (x.1.map (value ρ), r.context ρ x.2)) t (hook.result c t)
    fun ρ => hook.result (r.context ρ c)

def EnterHook.Natural (r : Renaming ε) (hook : EnterHook ε) : Prop := Hook.Natural r r.value hook

def ExitHook.Natural (r : Renaming ε) (hook : ExitHook ε) : Prop :=
  ∀ o, Hook.Natural r (fun _ => id) (hook o)

/-- The exit hook of a guard, if it has one, treats ids as names. -/
def Guard.ExitsNaturally (r : Renaming ε) (g : Guard ε) : Prop := g.ExitsWith (ExitHook.Natural r)

namespace Renaming

variable {r : Renaming ε}

namespace Lifts

variable {β γ : Type} {rename : (Nat → Nat) → β → β} {rename' : (Nat → Nat) → γ → γ}
  {t : Thread ε} {run : (Nat → Nat) → Thread ε → β × Thread ε}

theorem pure {x : β} {x' : (Nat → Nat) → β} (h : ∀ ρ, x' ρ = rename ρ x) :
    r.Lifts rename t (x, t) fun ρ t => (x' ρ, t) :=
  ⟨0, rfl, fun ρ n _ _ => by simp [h]⟩

theorem congr {out out' : β × Thread ε} {run' : (Nat → Nat) → Thread ε → β × Thread ε}
    (h : r.Lifts rename t out run) (hout : out' = out) (hrun : ∀ ρ t, run' ρ t = run ρ t) :
    r.Lifts rename t out' run' := by
  obtain rfl : run' = run := funext₂ hrun
  exact hout ▸ h

/-- One run after another. -/
theorem bind {out : β × Thread ε} {out' : γ × Thread ε}
    {k : (Nat → Nat) → β → Thread ε → γ × Thread ε} (h : r.Lifts rename t out run)
    (h' : r.Lifts rename' out.2 out' fun ρ => k ρ (rename ρ out.1)) :
    r.Lifts rename' t out' fun ρ t => k ρ (run ρ t).1 (run ρ t).2 := by
  obtain ⟨a, hid, hrun⟩ := h
  obtain ⟨b, hid', hrun'⟩ := h'
  refine ⟨a + b, by omega, fun ρ n hρ hf => ?_⟩
  obtain ⟨hfa, hfb⟩ := follows_range_add.mp hf
  simp only [hrun ρ n hρ hfa, hrun' ρ (n + a) hρ (hid ▸ hfb), Nat.add_assoc]

theorem map {out : β × Thread ε} {f : β → γ} {g : (Nat → Nat) → β → γ}
    (h : r.Lifts rename t out run) (hf : ∀ ρ, g ρ (rename ρ out.1) = rename' ρ (f out.1)) :
    r.Lifts rename' t (f out.1, out.2) fun ρ t => (g ρ (run ρ t).1, (run ρ t).2) :=
  @bind ε r β γ rename rename' t run out (f out.1, out.2) (fun ρ x t => (g ρ x, t)) h (pure hf)

/-- A run that gives the first member of a list, and then one that gives the others. -/
theorem cons {out : β × Thread ε} {outs : List β × Thread ε}
    {k : (Nat → Nat) → β → Thread ε → List β × Thread ε} (h : r.Lifts rename t out run)
    (h' : r.Lifts (fun ρ => List.map (rename ρ)) out.2 outs fun ρ => k ρ (rename ρ out.1)) :
    r.Lifts (fun ρ => List.map (rename ρ)) t (out.1 :: outs.1, outs.2) fun ρ t =>
      ((run ρ t).1 :: (k ρ (run ρ t).1 (run ρ t).2).1, (k ρ (run ρ t).1 (run ρ t).2).2) :=
  h.bind (k := fun ρ x t => (x :: (k ρ x t).1, (k ρ x t).2))
    (h'.map (g := fun ρ xs => rename ρ out.1 :: xs) fun _ => rfl)

end Lifts

theorem natural_idle {α : Type} (value : (Nat → Nat) → α → α) :
    Hook.Natural r value fun c (t : Thread ε) => (none, c, t) :=
  fun _ _ => .pure fun _ => rfl

theorem lifts_openAt (site : CallSite) (link : Link) (active : Bool) (t : Thread ε) :
    r.Lifts r.guard t (Guard.openAt site link active t)
      fun ρ => Guard.openAt site (link.rename ρ) active := by
  refine ⟨1, rfl, fun ρ n _ hf => ?_⟩
  rw [List.range'_one, follows_singleton] at hf
  cases active <;> cases hc : link.isChained <;>
    simp [Guard.openAt, guard, context, thread, Link.rename, hf, hc]

theorem lifts_enter {hook : EnterHook ε} (hn : EnterHook.Natural r hook) (g : Guard ε)
    (t : Thread ε) :
    r.Lifts r.guard t (g.enter hook t) fun ρ => (r.guard ρ g).enter hook := by
  cases hactive : g.isActive with
  | false =>
    have hpure : r.Lifts r.guard t (g, t) fun ρ t => (r.guard ρ g, t) := .pure fun _ => rfl
    exact hpure.congr (by simp [Guard.enter, hactive]) fun ρ t => by simp [Guard.enter, hactive]
  | true =>
    -- What a guard keeps of what its hook leaves behind.
    let keep (g : Guard ε) (x : Option Value × CallContext) : Guard ε :=
      { g with context := match x.1 with
        | some v => x.2.attach v
        | none => x.2 }
    have henter {g : Guard ε} (hg : g.isActive = true) (t : Thread ε) : g.enter hook t =
        (keep g (hook.result g.context t).1, (hook.result g.context t).2) := by
      simp only [Guard.enter, hg, if_true, Hook.result, keep]
      rcases hook g.context t with ⟨_ | v, c, t'⟩ <;> rfl
    refine ((hn g.context t).map (f := keep g) (g := fun ρ => keep (r.guard ρ g)) fun ρ => ?_).congr
      (henter hactive t) fun ρ t => henter (by exact hactive) t
    rcases (hook.result g.context t).1 with ⟨_ | v, c⟩
    · rfl
    · simp [keep, guard, attach_context]

theorem lifts_record {closure : EnterHook ε} (hn : EnterHook.Natural r closure) (g : Guard ε)
    (t : Thread ε) :
    r.Lifts r.guard t (g.record closure t) fun ρ => (r.guard ρ g).record closure := by
  cases hactive : g.isActive with
  | false =>
    have hpure : r.Lifts r.guard t (g, t) fun ρ t => (r.guard ρ g, t) := .pure fun _ => rfl
    exact hpure.congr (by simp [Guard.record, hactive]) fun ρ t => by simp [Guard.record, hactive]
  | true =>
    refine ((hn g.context t).map (f := fun x => { g with context := x.2 })
      (g := fun ρ x => { r.guard ρ g with context := x.2 }) fun _ => rfl).congr ?_ fun ρ t => ?_
    · simp [Guard.record, hactive, Hook.result]
    · simp only [Guard.record, isActive_guard, hactive, Hook.result]
      rfl

/-- The end of a guard. -/
theorem lifts_finish {g : Guard ε} (hg : g.ExitsNaturally r) (t : Thread ε) :
    r.Lifts (fun _ => id) t ((), g.finish t) fun ρ t => ((), (r.guard ρ g).finish t) := by
  have hnext (t : Thread ε) :
      (if g.isChained then { t with chain := t.chain.leave g.context.id } else t).nextId =
        t.nextId := by
    split <;> rfl
  have hleave {ρ : Nat → Nat} (hρ : StrictMono ρ) (n : Nat) (t : Thread ε) :
      (if g.isChained then { r.thread ρ n t with
          chain := Chain.leave (t.chain.map ρ) (ρ g.context.id) } else r.thread ρ n t) =
        r.thread ρ n (if g.isChained then { t with chain := t.chain.leave g.context.id } else t) := by
    rw [Chain.leave_map hρ]
    split <;> rfl
  cases hactive : g.isActive with
  | false => exact ⟨0, by simp [Guard.finish, hactive], fun ρ n _ _ => by simp [Guard.finish, hactive]⟩
  | true =>
    cases hexit : g.exit with
    | none =>
      refine ⟨0, by simp [Guard.finish, hactive, hexit, hnext], fun ρ n hρ _ => ?_⟩
      simpa [Guard.finish, hactive, hexit] using hleave hρ n t
    | some hook =>
      obtain ⟨count, hid, hrun⟩ := hg hook hexit (g.ending t) g.context t
      refine ⟨count, ?_, fun ρ n hρ hf => ?_⟩
      · rw [← hid]
        simp [Guard.finish, hactive, hexit, hnext, Hook.result]
      · have hthread := congrArg Prod.snd (hrun ρ n hρ hf)
        simp only [Hook.result] at hthread
        simpa [Guard.finish, hactive, hexit, ending_guard, hthread] using
          hleave hρ (n + count) (hook (g.ending t) g.context t).2.2

theorem lifts_foldr_finish {gs : List (Guard ε)} (hgs : ∀ g ∈ gs, g.ExitsNaturally r)
    (t : Thread ε) :
    r.Lifts (fun _ => id) t ((), gs.foldr Guard.finish t)
      fun ρ t => ((), (gs.map (r.guard ρ)).foldr Guard.finish t) := by
  induction gs with
  | nil => exact .pure fun _ => rfl
  | cons g gs ih =>
    rw [List.forall_mem_cons] at hgs
    exact (ih hgs.2).bind (k := fun ρ _ t => ((), (r.guard ρ g).finish t)) (lifts_finish hgs.1 _)

theorem lifts_openStages (link : Link) (sites : List CallSite) (t : Thread ε) :
    r.Lifts (fun ρ => List.map (r.guard ρ)) t (Fused.openStages link sites t)
      fun ρ => Fused.openStages (link.rename ρ) sites := by
  induction sites generalizing link t with
  | nil => exact .pure fun _ => rfl
  | cons site sites ih =>
    exact (lifts_openAt site link true t).cons
      (k := fun _ g => Fused.openStages g.link sites) (ih _ _)

theorem lifts_actAll {act : Nat → Guard ε → Thread ε → Guard ε × Thread ε}
    (h : ∀ k g t, r.Lifts r.guard t (act k g t) fun ρ => act k (r.guard ρ g)) (ks : List Nat)
    (gs : List (Guard ε)) (t : Thread ε) :
    r.Lifts (fun ρ => List.map (r.guard ρ)) t (Frame.actAll act ks gs t)
      fun ρ => Frame.actAll act ks (gs.map (r.guard ρ)) := by
  induction ks generalizing gs t with
  | nil => exact .pure fun _ => rfl
  | cons k ks ih =>
    cases gs with
    | nil => exact .pure fun _ => rfl
    | cons g gs =>
      exact (h k g t).cons (k := fun ρ _ => Frame.actAll act ks (gs.map (r.guard ρ))) (ih _ _)

end Renaming

structure Hooks.Natural (r : Renaming ε) (hooks : Hooks ε) : Prop where
  enter : ∀ k, EnterHook.Natural r (hooks.enter k)
  record : ∀ k, EnterHook.Natural r (hooks.record k)
  exit : ∀ k, ExitHook.Natural r (hooks.exit k)

/-- A body to which ids are names. -/
def Renaming.Fits (r : Renaming ε) (body : Thread ε → Ending × Thread ε) : Prop :=
  ∀ t, r.Lifts (fun _ => id) t (body t) fun _ => body

namespace Renaming

variable {r : Renaming ε} {d : InstrumentedDecl} {hooks : Hooks ε}

/-! ### Whole calls -/

theorem inForm_guard (form : BodyForm) (ρ : Nat → Nat) (g : Guard ε) :
    Frame.inForm form (r.guard ρ g) = r.guard ρ (Frame.inForm form g) := by
  simp only [Frame.inForm]
  split <;> rfl

theorem map_inForm_guard (form : BodyForm) (ρ : Nat → Nat) (gs : List (Guard ε)) :
    (gs.map (r.guard ρ)).map (Frame.inForm form) = (gs.map (Frame.inForm form)).map (r.guard ρ) := by
  simp [inForm_guard]

theorem lifts_enterStage (hn : hooks.Natural r) (k : Nat) (g : Guard ε) (t : Thread ε) :
    r.Lifts r.guard t (Frame.enterStage d hooks k k g t)
      fun ρ => Frame.enterStage d hooks k k (r.guard ρ g) := by
  have hset (ρ : Nat → Nat) :
      (if d.exits k then (r.guard ρ g).setExit (hooks.exit k) else r.guard ρ g) =
        r.guard ρ (if d.exits k then g.setExit (hooks.exit k) else g) := by
    split <;> rfl
  unfold Frame.enterStage
  simp only [hset]
  split
  · exact lifts_enter (hn.enter k) _ t
  · exact .pure fun _ => rfl

theorem lifts_recordStage (hn : hooks.Natural r) (k : Nat) (g : Guard ε) (t : Thread ε) :
    r.Lifts r.guard t (Frame.recordStage d hooks k k g t)
      fun ρ => Frame.recordStage d hooks k k (r.guard ρ g) := by
  unfold Frame.recordStage
  split
  · exact lifts_record (hn.record k) g t
  · exact .pure fun _ => rfl

theorem lifts_enterGroup (hn : hooks.Natural r) (switch : Switch) (link : Link) (g : Group)
    (t : Thread ε) :
    r.Lifts (fun ρ => List.map (r.guard ρ)) t (Frame.enterGroup d switch hooks link g t)
      fun ρ => Frame.enterGroup d switch hooks (link.rename ρ) g := by
  have hopen : r.Lifts (fun ρ => List.map (r.guard ρ)) t (Frame.openGroup d switch link g t)
      fun ρ => Frame.openGroup d switch (link.rename ρ) g := by
    cases g with
    | single k =>
      exact (lifts_openAt (d.site k) link (Frame.asks d switch k) t).map
        (f := fun g => [g]) (g := fun _ g => [g]) fun _ => rfl
    | fused start stop => exact lifts_openStages link _ t
  refine hopen.bind (k := fun _ gs =>
    Frame.actAll (fun k => Frame.enterStage d hooks k k) g.members (gs.map (Frame.inForm d.form))) ?_
  simp only [map_inForm_guard]
  exact lifts_actAll (lifts_enterStage hn) _ _ _

theorem lifts_enterGroups (hn : hooks.Natural r) (switch : Switch) (link : Link) (gs : List Group)
    (t : Thread ε) :
    r.Lifts (fun ρ => List.map (r.guard ρ)) t (Frame.enterGroups d switch hooks link gs t)
      fun ρ => Frame.enterGroups d switch hooks (link.rename ρ) gs := by
  induction gs generalizing link t with
  | nil => exact .pure fun _ => rfl
  | cons g gs ih =>
    refine (lifts_enterGroup hn switch link g t).bind (k := fun ρ as t =>
      (as ++ (Frame.enterGroups d switch hooks (innerLink (link.rename ρ) as) gs t).1,
        (Frame.enterGroups d switch hooks (innerLink (link.rename ρ) as) gs t).2)) ?_
    simp only [innerLink_map]
    exact (ih _ _).map
      (f := fun bs => (Frame.enterGroup d switch hooks link g t).1 ++ bs)
      (g := fun ρ bs => (Frame.enterGroup d switch hooks link g t).1.map (r.guard ρ) ++ bs)
      fun ρ => List.map_append.symm

theorem lifts_begin (hn : hooks.Natural r) (switch : Switch) (t : Thread ε) :
    r.Lifts (fun ρ => List.map (r.guard ρ)) t (Frame.begin d switch hooks t)
      fun _ => Frame.begin d switch hooks := by
  obtain ⟨count, hid, hrun⟩ := lifts_enterGroups (d := d) hn switch
    (if d.decl.isAsync then t.detachedLink else t.link) d.groups t
  refine ⟨count, hid, fun ρ n hρ hf => ?_⟩
  have hlink : (if d.decl.isAsync then (r.thread ρ n t).detachedLink else (r.thread ρ n t).link) =
      (if d.decl.isAsync then t.detachedLink else t.link).rename ρ := by
    split <;> simp
  simp only [Frame.begin, hlink, hrun ρ n hρ hf]

theorem lifts_tell (hn : hooks.Natural r) (told? : Option Outcome) (gs : List (Guard ε))
    (t : Thread ε) :
    r.Lifts (fun ρ => List.map (r.guard ρ)) t (Frame.tell d hooks told? gs t)
      fun ρ => Frame.tell d hooks told? (gs.map (r.guard ρ)) := by
  unfold Frame.tell
  split
  · exact (lifts_actAll (lifts_recordStage hn) _ gs t).map (f := List.map (Guard.complete · _))
      (g := fun _ => List.map (Guard.complete · _)) fun ρ => by simp
  · exact .pure fun _ => rfl

theorem leaving_thread (ending : Ending) (ρ : Nat → Nat) (n m : Nat) (t t' : Thread ε) :
    Frame.leaving ending (r.thread ρ n t) (r.thread ρ m t') =
      r.thread ρ m (Frame.leaving ending t t') := by
  cases ending <;> rfl

/-- What comes after the body. -/
theorem lifts_tell_finish (hn : hooks.Natural r) (told? : Option Outcome) {gs : List (Guard ε)}
    (hgs : ∀ g ∈ gs, g.ExitsNaturally r) (t : Thread ε) :
    r.Lifts (fun _ => id) t ((), (Frame.tell d hooks told? gs t).1.foldr Guard.finish
        (Frame.tell d hooks told? gs t).2)
      fun ρ t => ((), (Frame.tell d hooks told? (gs.map (r.guard ρ)) t).1.foldr Guard.finish
        (Frame.tell d hooks told? (gs.map (r.guard ρ)) t).2) :=
  (lifts_tell hn told? gs t).bind (k := fun _ gs t => ((), gs.foldr Guard.finish t))
    (lifts_foldr_finish (Frame.exitsWith_tell hgs told? t) _)

/-- A whole call takes ids for names if its hooks and its body do. -/
theorem lifts_perform (hn : hooks.Natural r) (switch : Switch) {body : Thread ε → Ending × Thread ε}
    (hbody : r.Fits body) (t : Thread ε) :
    r.Lifts (fun _ => id) t ((), Frame.perform d switch hooks body t)
      fun _ t => ((), Frame.perform d switch hooks body t) := by
  have hexits : ∀ g ∈ (Frame.begin d switch hooks t).1, g.ExitsNaturally r :=
    Frame.exitsWith_enterGroups hn.exit _ _ _
  obtain ⟨a, ha, hbegin⟩ := lifts_begin (d := d) hn switch t
  generalize hbegun : Frame.begin d switch hooks t = begun at hbegin hexits ha
  obtain ⟨b, hb, hbody⟩ := hbody begun.2
  generalize hended : body begun.2 = ended at hb hbody
  obtain ⟨c, hc, hfinish⟩ := lifts_tell_finish (d := d) hn (ended.1.told? d.decl.returnsResult) hexits
    (Frame.leaving ended.1 t ended.2)
  have hleaving : (Frame.leaving ended.1 t ended.2).nextId = t.nextId + (a + b) := by
    rw [← Nat.add_assoc, ← ha, ← hb]
    rfl
  rw [hleaving] at hc hfinish
  refine ⟨a + b + c, ?_, fun ρ n hρ hf => ?_⟩
  · simpa only [Frame.perform_eq, hbegun, hended, Nat.add_assoc] using hc
  · obtain ⟨hf, hfc⟩ := follows_range_add.mp hf
    obtain ⟨hfa, hfb⟩ := follows_range_add.mp hf
    have hfinish := congrArg Prod.snd (hfinish ρ (n + (a + b)) hρ hfc)
    simp only at hfinish
    simp only [Frame.perform_eq, hbegin ρ n hρ hfa, hbody ρ (n + a) hρ (ha ▸ hfb), id_eq,
      leaving_thread, hbegun, hended, Nat.add_assoc, hfinish]
    rfl

/-! ### Threads that know no call before it is made -/

/-- All calls that a thread knows of have been made. -/
def Issued (r : Renaming ε) (t : Thread ε) : Prop :=
  ∀ ρ, StrictMono ρ → (∀ i < t.nextId, ρ i = i) → r.thread ρ t.nextId t = t

end Renaming

/-! ### Ids in the order in which they are given -/

/-- Ids that are given to calls one after the other, between `n` and `n'`. -/
structure Given (n : Nat) (ids : List Nat) (n' : Nat) : Prop where
  sorted : ids.Pairwise (· < ·)
  le : n ≤ n'
  within : ∀ i ∈ ids, n ≤ i ∧ i < n'

namespace Given

theorem range (n count : Nat) : Given n (List.range' n count) (n + count) where
  sorted := List.pairwise_lt_range'
  le := Nat.le_add_right _ _
  within i hi := List.mem_range'_1.mp hi

theorem skip {n n' : Nat} (h : n ≤ n') : Given n [] n' := ⟨.nil, h, by simp⟩

theorem append {n n' n'' : Nat} {ids ids' : List Nat} (h : Given n ids n') (h' : Given n' ids' n'') :
    Given n (ids ++ ids') n'' where
  sorted := List.pairwise_append.mpr ⟨h.sorted, h'.sorted, fun i hi j hj =>
    (h.within i hi).2.trans_le (h'.within j hj).1⟩
  le := h.le.trans h'.le
  within i hi := by
    have := h.le
    have := h'.le
    rcases List.mem_append.mp hi with hi | hi
    · have := h.within i hi
      omega
    · have := h'.within i hi
      omega

/-- Names that come in order can be given in order. -/
theorem exists_follows {n n' : Nat} {ids : List Nat} (h : Given n ids n') :
    ∃ ρ, StrictMono ρ ∧ (∀ i < n, ρ i = i) ∧ Follows ρ n ids := by
  have hle := h.le
  have hget (k x : Nat) : k < ids.length ∧ n ≤ ids.getD k x ∧ ids.getD k x < n' ∨
      ids.length ≤ k ∧ ids.getD k x = x := by
    by_cases hk : k < ids.length
    · exact .inl ⟨hk, by simpa [hk] using h.within _ (List.getElem_mem hk)⟩
    · exact .inr ⟨Nat.le_of_not_lt hk, by simp [hk]⟩
  have hlt (a b x y : Nat) (hab : a < b) (hb : b < ids.length) : ids.getD a x < ids.getD b y := by
    simpa [hb, hab.trans hb] using List.pairwise_iff_getElem.mp h.sorted a b (hab.trans hb) hb hab
  -- Calls that are given no id here come after all that are.
  refine ⟨fun i => if i < n then i else ids.getD (i - n) (n' + i), fun i j hij => ?_,
    fun i hi => by simp [hi], List.ext_getElem (by simp) fun k hk _ => ?_⟩
  · have hi := hget (i - n) (n' + i)
    have hj := hget (j - n) (n' + j)
    have hij' := hlt (i - n) (j - n) (n' + i) (n' + j)
    simp only
    split <;> split <;> omega
  · have hk : k < ids.length := by simpa using hk
    simp [hk]

end Given
/-! ### Hooks that tell of their calls -/

/-- What is seen of a call when it begins, or when it ends. -/
structure Sighting where
  rule : String
  id : Nat
  parent : Option Nat
  outcome : Option Outcome
  deriving DecidableEq, Repr

def Sighting.of (outcome : Option Outcome) (c : CallContext) : Sighting :=
  ⟨c.site.rule, c.id, c.parent, outcome⟩

def seeEnter : EnterHook Sighting := fun c t => (some .unit, c, t.log (.of none c))

def seeExit : ExitHook Sighting := fun o c t => (some (), c, t.log (.of (some o) c))

namespace Renaming

/-- Sightings name calls by their ids; texts and values do not. -/
def sightings : Renaming Sighting where
  event ρ s := { s with id := ρ s.id, parent := s.parent.map ρ }
  captured _ c := c
  value _ v := v
  kind_value _ _ := rfl

theorem natural_seeEnter : EnterHook.Natural sightings seeEnter :=
  fun _ _ => ⟨0, rfl, fun _ _ _ _ => by
    simp [Hook.result, seeEnter, Thread.log, thread, sightings, Sighting.of, context]⟩

theorem natural_seeExit : ExitHook.Natural sightings seeExit :=
  fun _ _ _ => ⟨0, rfl, fun _ _ _ _ => by
    simp [Hook.result, seeExit, Thread.log, thread, sightings, Sighting.of, context]⟩

end Renaming
end Invocation
end Instrumentation
