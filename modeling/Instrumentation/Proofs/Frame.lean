import Instrumentation.Invocation.Frame
import Mathlib.Data.List.Basic

/-!
How frames run. A call that speaks to a stage acts on one guard of one variable, so the calls of a
group act on the guards of that group in turn, and nothing else in the frame changes.
-/
namespace Instrumentation

/-- The first stage of a group. -/
def Group.start : Group → Nat
  | single k => k
  | fused start _ => start

theorem Group.members_eq (g : Group) :
    g.members = List.range' g.start g.members.length := by
  cases g with
  | single k => rfl
  | fused start stop => simp [members, Group.start]

/-- The first member of a group, if it has any. -/
theorem Group.headD_members {g : Group} (h : g.members ≠ []) (k : Nat) :
    g.members.headD k = g.start := by
  have heq := g.members_eq
  obtain ⟨j, js, hm⟩ := List.exists_cons_of_ne_nil h
  rw [hm, List.length_cons, List.range'_succ, List.cons.injEq] at heq
  rw [hm, List.headD_cons, heq.1]

namespace InstrumentedDecl

/-- Whether a stage has something to do when a call begins. -/
def enters (d : InstrumentedDecl) (k : Nat) : Bool :=
  (d.stages[k]?).any fun s => (Splice.Entry.of? d.decl s.rule).isSome

/-- Whether a stage has an exit hook. -/
def exits (d : InstrumentedDecl) (k : Nat) : Bool :=
  (d.stages[k]?).any fun s => s.rule.onExit.isSome

/-- Whether a stage captures the value that is returned. -/
def records (d : InstrumentedDecl) (k : Nat) : Bool :=
  (d.stages[k]?).any fun s => s.rule.capturesReturn

end InstrumentedDecl

namespace Splice

@[simp] theorem guard_ofStage (n : Nat) (g : Group) (k : Nat) :
    (Target.ofStage n g k).guard = Guard.ofGroup n g := by
  cases g <;> rfl

theorem index_ofStage {n k : Nat} {g : Group} (h : k ∈ g.members) :
    (Target.ofStage n g k).index = k - g.start := by
  cases g with
  | single j =>
    simp only [Group.members, List.mem_singleton] at h
    simp [Target.ofStage, Target.index, Group.start, h]
  | fused start stop => rfl

theorem ofGroup_ne {m n : Nat} (h : m ≠ n) (g g' : Group) :
    Guard.ofGroup m g ≠ Guard.ofGroup n g' := by
  cases g <;> cases g' <;> simp [Guard.ofGroup, h]

end Splice

namespace Invocation

variable {ε : Type}

namespace Held

/-- The guards of the stages, outermost first. -/
def stages : Held ε → List (Guard ε)
  | single g => [g]
  | fused f => f.stages

/-- Guards behind one are linked from here, whichever stages they have. -/
def Inside (link : Link) : Held ε → Prop
  | single _ => True
  | fused f => f.link = link

/-- What is done to a stage is done to its guard alone. -/
theorem onStage_eq {h : Held ε} {done rest : List (Guard ε)} {g : Guard ε}
    (hs : h.stages = done ++ g :: rest) (act : Guard ε → Thread ε → Guard ε × Thread ε)
    (t : Thread ε) : ∃ h' : Held ε, h.onStage done.length act t = (h', (act g t).2) ∧
      h'.stages = done ++ (act g t).1 :: rest ∧ ∀ link, h.Inside link → h'.Inside link := by
  cases h with
  | single g' =>
    have hd : done = [] ∧ g' = g ∧ rest = [] := by
      cases done with
      | nil => simpa [stages, eq_comm] using hs
      | cons a done => simp [stages] at hs
    obtain ⟨rfl, rfl, rfl⟩ := hd
    exact ⟨.single (act g' t).1, rfl, rfl, fun _ h => h⟩
  | fused f =>
    have hf : f.stages = done ++ g :: rest := hs
    exact ⟨.fused { f with stages := done ++ (act g t).1 :: rest }, by simp [onStage, stage?, hf],
      rfl, fun _ h => h⟩

/-- The stage that was put in place is the one that is found again. -/
theorem stage?_back {h : Held ε} {i : Nat} {g : Guard ε} {back : Guard ε → Held ε}
    (hh : h.stage? i = some (g, back)) (g' : Guard ε) : (back g').stage? i = some (g', back) := by
  cases h with
  | single a =>
    simp only [stage?, Option.some.injEq, Prod.mk.injEq] at hh
    obtain ⟨-, rfl⟩ := hh
    rfl
  | fused f =>
    simp only [stage?, Option.map_eq_some_iff, Prod.mk.injEq] at hh
    obtain ⟨a, ha, -, rfl⟩ := hh
    have hi : i < f.stages.length := (List.getElem?_eq_some_iff.mp ha).1
    simp [stage?, hi]

theorem back_stage? {h : Held ε} {i : Nat} {g : Guard ε} {back : Guard ε → Held ε}
    (hh : h.stage? i = some (g, back)) : back g = h := by
  cases h with
  | single a =>
    simp only [stage?, Option.some.injEq, Prod.mk.injEq] at hh
    obtain ⟨rfl, rfl⟩ := hh
    rfl
  | fused f =>
    simp only [stage?, Option.map_eq_some_iff, Prod.mk.injEq] at hh
    obtain ⟨a, ha, rfl, rfl⟩ := hh
    simp [List.getElem?_eq_some_iff.mp ha |>.2 ▸ List.set_getElem_self _]

/-- Two calls to one stage of a guard are one that does both. -/
theorem onStage_onStage (h : Held ε) (i : Nat) (a b : Guard ε → Thread ε → Guard ε × Thread ε)
    (t : Thread ε) : (h.onStage i a t).1.onStage i b (h.onStage i a t).2 =
      h.onStage i (fun g t => b (a g t).1 (a g t).2) t := by
  unfold onStage
  cases hh : h.stage? i with
  | none => simp [hh]
  | some p =>
    obtain ⟨g, back⟩ := p
    simp [stage?_back hh (a g t).1]

theorem onStage_self (h : Held ε) (i : Nat) (t : Thread ε) :
    h.onStage i (fun g t => (g, t)) t = (h, t) := by
  unfold onStage
  cases hh : h.stage? i with
  | none => rfl
  | some p => simp [back_stage? hh]

theorem finish_eq (h : Held ε) (t : Thread ε) : h.finish t = h.stages.foldr Guard.finish t := by
  cases h <;> rfl

@[simp] theorem stages_complete (h : Held ε) (o : Outcome) :
    (h.complete o).stages = h.stages.map (Guard.complete · o) := by
  cases h <;> rfl

@[simp] theorem stages_observing (h : Held ε) :
    h.observing.stages = h.stages.map Guard.observing := by
  cases h <;> rfl

end Held

/-- Two calls to the variable of a name are one that does both. -/
theorem Slot.onNamed_onNamed (name : Splice.Guard) (a b : Slot ε → Thread ε → Held ε × Thread ε)
    (slots : List (Slot ε)) (t : Thread ε) :
    Slot.onNamed name b (Slot.onNamed name a slots t).1 (Slot.onNamed name a slots t).2 =
      Slot.onNamed name (fun s t => b { s with held := (a s t).1 } (a s t).2) slots t := by
  induction slots with
  | nil => rfl
  | cons s slots ih =>
    by_cases hs : s.name = name
    · simp [Slot.onNamed, hs]
    · simp [Slot.onNamed, hs, ih]

theorem Slot.onNamed_self {act : Slot ε → Thread ε → Held ε × Thread ε}
    (hact : ∀ s t, act s t = (s.held, t)) (name : Splice.Guard) (slots : List (Slot ε))
    (t : Thread ε) : Slot.onNamed name act slots t = (slots, t) := by
  induction slots with
  | nil => rfl
  | cons s slots ih =>
    by_cases hs : s.name = name
    · subst hs
      simp [Slot.onNamed, hact]
    · simp [Slot.onNamed, hs, ih]

/-- A variable of a name that no later one has is the one that is found. -/
theorem Slot.onNamed_append {late : List (Slot ε)} {s : Slot ε} (hl : ∀ x ∈ late, x.name ≠ s.name)
    (earlier : List (Slot ε)) (act : Slot ε → Thread ε → Held ε × Thread ε) (t : Thread ε) :
    Slot.onNamed s.name act (late ++ s :: earlier) t =
      (late ++ { s with held := (act s t).1 } :: earlier, (act s t).2) := by
  induction late with
  | nil => simp [Slot.onNamed]
  | cons x late ih =>
    have hx : x.name ≠ s.name := hl x List.mem_cons_self
    have ih := ih fun y hy => hl y (List.mem_cons_of_mem _ hy)
    simp [Slot.onNamed, hx, ih]

namespace Frame

/-- Acts on guards in turn, each by the number of its stage. -/
def actAll (act : Nat → Guard ε → Thread ε → Guard ε × Thread ε) :
    List Nat → List (Guard ε) → Thread ε → List (Guard ε) × Thread ε
  | k :: ks, g :: gs, t =>
    let (g, t) := act k g t
    let (gs, t) := actAll act ks gs t
    (g :: gs, t)
  | _, gs, t => (gs, t)

/-- A call to the stages of a group, one after the other, acts on the guards of its variable. -/
theorem foldl_onTarget {n first : Nat} {g : Group} {late earlier : List (Slot ε)}
    (hl : ∀ x ∈ late, x.name ≠ Splice.Guard.ofGroup n g)
    (act : Nat → Nat → Guard ε → Thread ε → Guard ε × Thread ε) (ks : List Nat)
    (done : List (Guard ε)) {todo : List (Guard ε)} {h : Held ε} (hs : h.stages = done ++ todo)
    (hk : ks = List.range' (first + done.length) todo.length) (hg : ks ≠ [] → first = g.start)
    (hm : ∀ k ∈ ks, k ∈ g.members) (t : Thread ε) :
    ∃ h' : Held ε, h'.stages = done ++ (actAll (fun k => act k k) ks todo t).1 ∧
      (∀ link, h.Inside link → h'.Inside link) ∧
      ks.foldl (fun (f : Frame ε) k => f.onTarget (Splice.Target.ofStage n g k) (act k))
          (Frame.mk t (late ++ ⟨Splice.Guard.ofGroup n g, first, h⟩ :: earlier)) =
        Frame.mk (actAll (fun k => act k k) ks todo t).2
          (late ++ ⟨Splice.Guard.ofGroup n g, first, h'⟩ :: earlier) := by
  induction ks generalizing done todo h t with
  | nil => exact ⟨h, by simpa [actAll] using hs, fun _ h => h, by simp [actAll]⟩
  | cons k ks ih =>
    cases todo with
    | nil => simp at hk
    | cons a todo =>
      obtain ⟨rfl, hks⟩ : k = first + done.length ∧
          ks = List.range' (first + (done ++ [a]).length) todo.length := by
        simpa [List.range'_succ, Nat.add_assoc] using hk
      have hfirst : first = g.start := hg (by simp)
      have hindex : (Splice.Target.ofStage n g (first + done.length)).index = done.length := by
        rw [Splice.index_ofStage (hm _ List.mem_cons_self), ← hfirst, Nat.add_sub_cancel_left]
      obtain ⟨h₁, hone, hstages, hinside⟩ :=
        Held.onStage_eq hs (act (first + done.length) (first + done.length)) t
      have hslot := Slot.onNamed_append (s := ⟨Splice.Guard.ofGroup n g, first, h⟩) hl earlier
        (fun s => s.held.onStage done.length (act (first + done.length) (s.first + done.length))) t
      have hs₁ : h₁.stages =
          (done ++ [(act (first + done.length) (first + done.length) a t).1]) ++ todo := by
        simpa using hstages
      -- The first guard is dealt with; the induction goes on behind it.
      obtain ⟨h', hh', hinside', hrun⟩ := ih _ hs₁ (by simpa using hks) (fun _ => hfirst)
        (fun j hj => hm j (List.mem_cons_of_mem _ hj))
        (act (first + done.length) (first + done.length) a t).2
      refine ⟨h', by simpa [actAll] using hh', fun link hl => hinside' link (hinside link hl), ?_⟩
      simp only [hone] at hslot
      simp only [List.foldl_cons, onTarget, onNamed, Splice.guard_ofStage, hindex, hslot]
      simpa [actAll, onTarget, onNamed] using hrun

/-- The calls to all stages of a group act on the guards of its variable in turn. -/
theorem foldl_onTarget_members {n : Nat} {g : Group} {late : List (Slot ε)} {s : Slot ε}
    (hl : ∀ x ∈ late, x.name ≠ Splice.Guard.ofGroup n g)
    (hname : s.name = Splice.Guard.ofGroup n g) (hfirst : g.members ≠ [] → s.first = g.start)
    (hlength : s.held.stages.length = g.members.length) (earlier : List (Slot ε))
    (act : Nat → Nat → Guard ε → Thread ε → Guard ε × Thread ε) (t : Thread ε) :
    ∃ h : Held ε, h.stages = (actAll (fun k => act k k) g.members s.held.stages t).1 ∧
      (∀ link, s.held.Inside link → h.Inside link) ∧
      g.members.foldl (fun (f : Frame ε) k => f.onTarget (Splice.Target.ofStage n g k) (act k))
        ⟨t, late ++ s :: earlier⟩ =
          ⟨(actAll (fun k => act k k) g.members s.held.stages t).2,
            late ++ { s with held := h } :: earlier⟩ := by
  obtain ⟨name, first, held⟩ := s
  obtain rfl : name = _ := hname
  have hrange : g.members =
      List.range' (first + ([] : List (Guard ε)).length) held.stages.length := by
    by_cases hm : g.members = []
    · simp [hlength, hm]
    · have hstart : first = g.start := hfirst hm
      rw [hlength, List.length_nil, Nat.add_zero, hstart]
      exact g.members_eq
  obtain ⟨h, hstages, hinside, hrun⟩ := foldl_onTarget hl act g.members [] (List.nil_append _).symm
    hrange hfirst (fun _ hk => hk) t
  exact ⟨h, by simpa using hstages, hinside, hrun⟩

/-- Two calls to one stage are one that does both. -/
theorem onTarget_onTarget (f : Frame ε) (target : Splice.Target)
    (a b : Nat → Guard ε → Thread ε → Guard ε × Thread ε) :
    (f.onTarget target a).onTarget target b =
      f.onTarget target fun k g t => b k (a k g t).1 (a k g t).2 := by
  simp only [onTarget, onNamed, Slot.onNamed_onNamed, Held.onStage_onStage]

theorem onTarget_self (f : Frame ε) (target : Splice.Target) :
    f.onTarget target (fun _ g t => (g, t)) = f := by
  rw [onTarget, onNamed, Slot.onNamed_self fun s t => s.held.onStage_self _ t]

section

variable (d : InstrumentedDecl) (switch : Switch) (hooks : Hooks ε) (told : Outcome)

/-- What the calls before the body do to a stage. -/
def enterStage (k stage : Nat) (g : Guard ε) (t : Thread ε) : Guard ε × Thread ε :=
  let g := if d.exits k then g.setExit (hooks.exit stage) else g
  if d.enters k then g.enter (hooks.enter stage) t else (g, t)

/-- What the calls after an observed body do to a stage. -/
def recordStage (k stage : Nat) (g : Guard ε) (t : Thread ε) : Guard ε × Thread ε :=
  if d.records k then g.record (hooks.record stage) t else (g, t)

theorem calls_append (f : Frame ε) (xs ys : List Splice.Call) :
    calls d switch hooks told f (xs ++ ys) =
      calls d switch hooks told (calls d switch hooks told f xs) ys := by
  simp [calls]

theorem calls_stageCalls (f : Frame ε) (target : Splice.Target) {k : Nat} {s : Stage}
    (hk : d.stages[k]? = some s) :
    calls d switch hooks told f (Splice.stageCalls d.decl target s.rule) =
      f.onTarget target (enterStage d hooks k) := by
  have hexits : d.exits k = s.rule.onExit.isSome := by simp [InstrumentedDecl.exits, hk]
  have henters : d.enters k = (Splice.Entry.of? d.decl s.rule).isSome := by
    simp [InstrumentedDecl.enters, hk]
  have henter : enterStage d hooks k = fun stage g t =>
      (if (Splice.Entry.of? d.decl s.rule).isSome then
        (if s.rule.onExit.isSome then g.setExit (hooks.exit stage) else g).enter (hooks.enter stage) t
      else (if s.rule.onExit.isSome then g.setExit (hooks.exit stage) else g, t)) := by
    funext stage g t
    simp only [enterStage, hexits, henters]
  rw [henter]
  cases hx : s.rule.onExit <;> cases he : Splice.Entry.of? d.decl s.rule <;>
    simp [Splice.stageCalls, hx, he, calls, call, onTarget_self, onTarget_onTarget]

/-- The calls for the rules of a group act on its stages in turn, if those for one rule act on its
stage; a number that is not that of a stage has no calls. -/
theorem calls_flatMap_rulesOf {callsOf : Nat × Rule → List Splice.Call}
    {act : Nat → Nat → Guard ε → Thread ε → Guard ε × Thread ε} (n : Nat) (g : Group)
    (hsome : ∀ k s, d.stages[k]? = some s → ∀ f : Frame ε, calls d switch hooks told f
      (callsOf (k, s.rule)) = f.onTarget (Splice.Target.ofStage n g k) (act k))
    (hnone : ∀ k, d.stages[k]? = none → act k = fun _ g t => (g, t)) (f : Frame ε) :
    calls d switch hooks told f ((Splice.rulesOf d.stages g).flatMap callsOf) =
      g.members.foldl (fun (f : Frame ε) k =>
        f.onTarget (Splice.Target.ofStage n g k) (act k)) f := by
  unfold Splice.rulesOf
  generalize g.members = ks
  induction ks generalizing f with
  | nil => simp [calls]
  | cons k ks ih =>
    cases hk : d.stages[k]? with
    | none => simp [hk, hnone k hk, onTarget_self, ih]
    | some s => simp [hk, calls_append, hsome k s hk, ih]

theorem calls_rulesOf (f : Frame ε) (n : Nat) (g : Group) :
    calls d switch hooks told f ((Splice.rulesOf d.stages g).flatMap fun (k, r) =>
        Splice.stageCalls d.decl (Splice.Target.ofStage n g k) r) =
      g.members.foldl (fun (f : Frame ε) k =>
        f.onTarget (Splice.Target.ofStage n g k) (enterStage d hooks k)) f := by
  refine calls_flatMap_rulesOf d switch hooks told n g (fun k s hk f => ?_) (fun k hk => ?_) f
  · exact calls_stageCalls d switch hooks told f _ hk
  · funext stage g t
    simp [enterStage, InstrumentedDecl.exits, InstrumentedDecl.enters, hk]

/-- A stage whose rule captures the returned value is told of it, and no other one. -/
theorem calls_record? (f : Frame ε) (target : Splice.Target) {k : Nat} {s : Stage}
    (hk : d.stages[k]? = some s) :
    calls d switch hooks told f ((s.rule.captures.find? Capture.isReturn).map fun c =>
        Splice.Call.record target c.mode).toList =
      f.onTarget target (recordStage d hooks k) := by
  cases hc : s.rule.captures.find? Capture.isReturn with
  | none =>
    have hrec : d.records k = false := by
      simpa [InstrumentedDecl.records, hk, Rule.capturesReturn] using hc
    have hself : recordStage d hooks k = fun _ g t => (g, t) := by
      funext stage g t
      simp [recordStage, hrec]
    simp [hself, onTarget_self, calls]
  | some c =>
    have hrec : d.records k = true := by
      have hmem := List.mem_of_find?_eq_some hc
      have hret := List.find?_some hc
      simp only [InstrumentedDecl.records, hk, Option.any_some, Rule.capturesReturn,
        List.any_eq_true]
      exact ⟨c, hmem, hret⟩
    have hone : recordStage d hooks k = fun stage g t => g.record (hooks.record stage) t := by
      funext stage g t
      simp [recordStage, hrec]
    simp [hone, calls, call]

theorem calls_records (f : Frame ε) (n : Nat) (g : Group) :
    calls d switch hooks told f ((Splice.rulesOf d.stages g).filterMap fun (k, r) =>
        (r.captures.find? Capture.isReturn).map fun c =>
          Splice.Call.record (Splice.Target.ofStage n g k) c.mode) =
      g.members.foldl (fun (f : Frame ε) k =>
        f.onTarget (Splice.Target.ofStage n g k) (recordStage d hooks k)) f := by
  rw [List.filterMap_eq_flatMap_toList]
  refine calls_flatMap_rulesOf d switch hooks told n g (fun k s hk f => ?_) (fun k hk => ?_) f
  · exact calls_record? d switch hooks told f _ hk
  · funext stage g t
    simp [recordStage, InstrumentedDecl.records, hk]

end

end Frame
end Invocation
end Instrumentation
