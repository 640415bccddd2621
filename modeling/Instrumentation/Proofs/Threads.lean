import Mathlib.Algebra.Group.Nat.Defs
import Mathlib.Data.List.Induction
import Mathlib.Data.List.Nodup
import Mathlib.Logic.Function.Basic
import Instrumentation.Proofs.Renaming
import Instrumentation.Proofs.UniformExit

/-!
Threads. The threads of a process share nothing but the counter of ids. However their steps are
interleaved, no id is given twice, and each thread does what it would do alone, up to the names of
its calls. Detached guards stay off all chains, so that they can end on any thread
(`Process.threads_apart`).
-/
namespace Instrumentation
namespace Invocation

variable {ε : Type}

/-! ### Steps -/

/-- What a thread does next: one of the calls around a body, the end of a variable, or the start or
the end of a panic. -/
inductive Frame.Step (ε : Type) where
  | call (d : InstrumentedDecl) (switch : Switch) (hooks : Hooks ε) (told : Outcome)
    (call : Splice.Call)
  | drop (name : Splice.Guard)
  | unwind (on : Bool)

namespace Frame

/-- Ends the guard of a name, if there is one. -/
def drop (f : Frame ε) (name : Splice.Guard) : Frame ε :=
  match f.slots.find? (·.name == name) with
  | some s => ⟨s.held.finish f.thread, f.slots.eraseP (·.name == name)⟩
  | none => f

def Step.run (f : Frame ε) : Step ε → Frame ε
  | call d switch hooks told c => f.call d switch hooks told c
  | drop name => f.drop name
  | unwind on => { f with thread := { f.thread with isUnwinding := on } }

/-- The ids that the process gives away in a step: those of the guards that the step opens, or
those that its hooks take. -/
def Step.ids (f : Frame ε) (s : Step ε) : List Nat :=
  match s with
  | call _ _ _ _ (.openSingle ..) | call _ _ _ _ (.openFused ..) =>
    ((s.run f).slots.take 1).flatMap fun slot => slot.held.stages.map (·.context.id)
  | _ => List.range' f.thread.nextId ((s.run f).thread.nextId - f.thread.nextId)

def Step.Natural (r : Renaming ε) : Step ε → Prop
  | call _ _ hooks _ _ => hooks.Natural r
  | drop _ => True
  | unwind _ => True

/-- The exit hooks of all guards treat ids as names. -/
def ExitsNaturally (r : Renaming ε) (f : Frame ε) : Prop :=
  ∀ s ∈ f.slots, ∀ g ∈ s.held.stages, g.ExitsNaturally r

end Frame

namespace Renaming

variable (r : Renaming ε) (ρ : Nat → Nat)

def held : Held ε → Held ε
  | .single g => .single (r.guard ρ g)
  | .fused f => .fused ⟨f.stages.map (r.guard ρ), f.link.rename ρ⟩

def slot (s : Slot ε) : Slot ε := { s with held := r.held ρ s.held }

/-- The same frame, in a process whose next id is `n`. -/
def frame (n : Nat) (f : Frame ε) : Frame ε := ⟨r.thread ρ n f.thread, f.slots.map (r.slot ρ)⟩

@[simp] theorem stages_held (h : Held ε) : (r.held ρ h).stages = h.stages.map (r.guard ρ) := by
  cases h <;> rfl

@[simp] theorem link_held (h : Held ε) : (r.held ρ h).link = h.link.rename ρ := by
  cases h with
  | single g => rfl
  | fused f => exact r.innerLink_map ρ f.link f.stages

@[simp] theorem observing_held (h : Held ε) : (r.held ρ h).observing = r.held ρ h.observing := by
  cases h <;> simp [held, Held.observing, Fused.observing]

@[simp] theorem complete_held (h : Held ε) (o : Outcome) :
    (r.held ρ h).complete o = r.held ρ (h.complete o) := by
  cases h <;> simp [held, Held.complete, Fused.complete]

theorem find?_slots (slots : List (Slot ε)) (name : Splice.Guard) :
    (slots.map (r.slot ρ)).find? (·.name == name) =
      (slots.find? (·.name == name)).map (r.slot ρ) := by
  rw [List.find?_map]
  rfl

theorem link_frame (n : Nat) (f : Frame ε) (l : Splice.Link) :
    (r.frame ρ n f).link l = (f.link l).rename ρ := by
  cases l with
  | thread => exact r.link_thread ρ n f.thread
  | detached => exact r.detachedLink_thread ρ n f.thread
  | outer name =>
    simp only [Frame.link, frame, find?_slots, Option.map_map]
    cases f.slots.find? (·.name == name) with
    | none => exact r.link_thread ρ n f.thread
    | some s => exact r.link_held ρ s.held

variable {r}

theorem lifts_onStage {act : Guard ε → Thread ε → Guard ε × Thread ε}
    (hact : ∀ g t, r.Lifts r.guard t (act g t) fun ρ => act (r.guard ρ g)) (h : Held ε) (i : Nat)
    (t : Thread ε) :
    r.Lifts r.held t (h.onStage i act t) fun ρ => (r.held ρ h).onStage i act := by
  cases h with
  | single g => exact (hact g t).map (f := Held.single) (g := fun _ => Held.single) fun _ => rfl
  | fused f =>
    cases hg : f.stages[i]? with
    | none =>
      have hpure : r.Lifts r.held t (.fused f, t) fun ρ t => (r.held ρ (.fused f), t) :=
        .pure fun _ => rfl
      exact hpure.congr (by simp [Held.onStage, Held.stage?, hg]) fun ρ t => by
        simp [Held.onStage, Held.stage?, held, hg]
    | some g =>
      refine ((hact g t).map (f := fun g => Held.fused { f with stages := f.stages.set i g })
        (g := fun ρ g => Held.fused ⟨(f.stages.map (r.guard ρ)).set i g, f.link.rename ρ⟩)
        fun ρ => ?_).congr (by simp [Held.onStage, Held.stage?, hg]) fun ρ t => by
          simp [Held.onStage, Held.stage?, held, hg]
      simp [held, List.map_set]

theorem lifts_onNamed {act : Slot ε → Thread ε → Held ε × Thread ε}
    (hact : ∀ s t, r.Lifts r.held t (act s t) fun ρ => act (r.slot ρ s)) (name : Splice.Guard)
    (slots : List (Slot ε)) (t : Thread ε) :
    r.Lifts (fun ρ => List.map (r.slot ρ)) t (Slot.onNamed name act slots t)
      fun ρ => Slot.onNamed name act (slots.map (r.slot ρ)) := by
  induction slots generalizing t with
  | nil => exact .pure fun _ => rfl
  | cons s slots ih =>
    by_cases hs : s.name = name
    · exact ((hact s t).map (f := fun h => { s with held := h } :: slots)
        (g := fun ρ h => { s with held := h } :: slots.map (r.slot ρ)) fun _ => rfl).congr
          (by simp [Slot.onNamed, hs]) fun ρ t => by simp [Slot.onNamed, slot, hs]
    · exact ((ih t).map (f := (s :: ·)) (g := fun ρ ss => r.slot ρ s :: ss) fun _ => rfl).congr
          (by simp [Slot.onNamed, hs]) fun ρ t => by simp [Slot.onNamed, slot, hs]

/-- A step from a frame is the same, up to the names of the calls, from where these have other
names. -/
def LiftsFrame (r : Renaming ε) (f : Frame ε) (step : Frame ε → Frame ε) : Prop :=
  ∃ count, (step f).thread.nextId = f.thread.nextId + count ∧
    ∀ ρ n, StrictMono ρ → Follows ρ f.thread.nextId (List.range' n count) →
      step (r.frame ρ n f) = r.frame ρ (n + count) (step f)

theorem liftsFrame_onNamed {act : Slot ε → Thread ε → Held ε × Thread ε}
    (hact : ∀ s t, r.Lifts r.held t (act s t) fun ρ => act (r.slot ρ s)) (name : Splice.Guard)
    (f : Frame ε) : r.LiftsFrame f fun f => f.onNamed name act := by
  obtain ⟨count, hid, hrun⟩ := lifts_onNamed hact name f.slots f.thread
  refine ⟨count, hid, fun ρ n hρ hf => ?_⟩
  have hslots := hrun ρ n hρ hf
  simp only [Frame.onNamed, frame, hslots]

theorem liftsFrame_onTarget {act : Nat → Guard ε → Thread ε → Guard ε × Thread ε}
    (hact : ∀ k g t, r.Lifts r.guard t (act k g t) fun ρ => act k (r.guard ρ g))
    (target : Splice.Target) (f : Frame ε) : r.LiftsFrame f fun f => f.onTarget target act := by
  have hstage (s : Slot ε) (t : Thread ε) : r.Lifts r.held t
      (s.held.onStage target.index (act (s.first + target.index)) t)
      fun ρ => (r.slot ρ s).held.onStage target.index (act (s.first + target.index)) :=
    lifts_onStage (hact _) s.held _ t
  exact liftsFrame_onNamed hstage _ f

theorem liftsFrame_hold {f : Frame ε} {o : Frame ε → Held ε × Thread ε}
    (hopen : ∃ count, (o f).2.nextId = f.thread.nextId + count ∧
      ∀ ρ n, StrictMono ρ → Follows ρ f.thread.nextId (List.range' n count) →
        o (r.frame ρ n f) = (r.held ρ (o f).1, r.thread ρ (n + count) (o f).2))
    (name : Splice.Guard) (first : Nat) (observing : Bool) :
    r.LiftsFrame f fun f => f.hold name first observing (o f) := by
  obtain ⟨count, hid, hrun⟩ := hopen
  refine ⟨count, hid, fun ρ n hρ hf => ?_⟩
  simp only [Frame.hold, hrun ρ n hρ hf]
  cases observing <;> simp [frame, slot]

theorem liftsFrame_drop {f : Frame ε} (hf : f.ExitsNaturally r) (name : Splice.Guard) :
    r.LiftsFrame f fun f => f.drop name := by
  have herase (ρ : Nat → Nat) : (f.slots.map (r.slot ρ)).eraseP (·.name == name) =
      (f.slots.eraseP (·.name == name)).map (r.slot ρ) := by
    rw [List.eraseP_map]
    rfl
  cases hs : f.slots.find? (·.name == name) with
  | none =>
    refine ⟨0, by simp [Frame.drop, hs], fun ρ n _ _ => ?_⟩
    simp only [Frame.drop, frame, find?_slots, hs, Option.map_none, Nat.add_zero]
  | some s =>
    obtain ⟨count, hid, hrun⟩ := lifts_foldr_finish (hf s (List.mem_of_find?_eq_some hs)) f.thread
    refine ⟨count, by simpa [Frame.drop, hs, Held.finish_eq] using hid, fun ρ n hρ hfollows => ?_⟩
    have hthread := congrArg Prod.snd (hrun ρ n hρ hfollows)
    simp only at hthread
    simp only [Frame.drop, frame, find?_slots, hs, Option.map_some, Held.finish_eq, slot,
      stages_held, hthread, ← herase]

theorem liftsFrame_run {s : Frame.Step ε} (hs : s.Natural r) {f : Frame ε}
    (hf : f.ExitsNaturally r) : r.LiftsFrame f fun f => s.run f := by
  cases s with
  | drop name => exact liftsFrame_drop hf name
  | unwind on => exact ⟨0, rfl, fun ρ n _ _ => rfl⟩
  | call d switch hooks told c =>
    cases c with
    | setExit target hook =>
      exact liftsFrame_onTarget (fun k g t => .pure (x := g.setExit (hooks.exit k)) fun _ => rfl)
        target f
    | enter target entry =>
      exact liftsFrame_onTarget (fun k g t => lifts_enter (hs.enter k) g t) target f
    | record target mode =>
      exact liftsFrame_onTarget (fun k g t => lifts_record (hs.record k) g t) target f
    | complete name =>
      have hcomplete (s : Slot ε) (t : Thread ε) : r.Lifts r.held t (s.held.complete told, t)
          fun ρ t => ((r.slot ρ s).held.complete told, t) := .pure fun ρ => r.complete_held ρ s.held told
      exact liftsFrame_onNamed hcomplete name f
    | openSingle n k toggled link =>
      obtain ⟨count, hid, hrun⟩ := r.lifts_openAt (d.site k) (f.link link)
        (!toggled || switch.isOn (d.site k).rule) f.thread
      refine liftsFrame_hold (o := fun (f : Frame ε) =>
        (.single (Guard.openAt (d.site k) (f.link link)
          (!toggled || switch.isOn (d.site k).rule) f.thread).1,
          (Guard.openAt (d.site k) (f.link link)
            (!toggled || switch.isOn (d.site k).rule) f.thread).2))
        ⟨count, hid, fun ρ n hρ hf => ?_⟩ _ _ _
      have hopen := hrun ρ n hρ hf
      simp only [link_frame]
      simp only [frame, hopen, held]
    | openFused n ks link =>
      obtain ⟨count, hid, hrun⟩ := r.lifts_openStages (f.link link) (ks.map d.site) f.thread
      refine liftsFrame_hold (o := fun (f : Frame ε) =>
        (.fused (Fused.openAt (ks.map d.site) (f.link link) f.thread).1,
          (Fused.openAt (ks.map d.site) (f.link link) f.thread).2))
        ⟨count, hid, fun ρ n hρ hf => ?_⟩ _ _ _
      have hopen := hrun ρ n hρ hf
      simp only [link_frame, Fused.openAt]
      simp only [frame, hopen, held]

end Renaming

namespace Frame

variable {r : Renaming ε}

theorem forall_onStage {P : Guard ε → Prop} {act : Guard ε → Thread ε → Guard ε × Thread ε}
    (hact : ∀ g t, P g → P (act g t).1) {h : Held ε} (hh : ∀ g ∈ h.stages, P g) (i : Nat)
    (t : Thread ε) : ∀ g ∈ (h.onStage i act t).1.stages, P g := by
  cases h with
  | single g =>
    simpa [Held.onStage, Held.stage?, Held.stages] using hact g t (by simpa [Held.stages] using hh)
  | fused f =>
    cases hg : f.stages[i]? with
    | none => simpa [Held.onStage, Held.stage?, hg] using hh
    | some g =>
      simp only [Held.onStage, Held.stage?, hg, Option.map_some, Held.stages]
      intro a ha
      rcases List.mem_or_eq_of_mem_set ha with ha | rfl
      · exact hh a ha
      · exact hact g t (hh g (List.mem_of_getElem? hg))

theorem forall_onNamed {P : Guard ε → Prop} {act : Slot ε → Thread ε → Held ε × Thread ε}
    (hact : ∀ s t, (∀ g ∈ s.held.stages, P g) → ∀ g ∈ (act s t).1.stages, P g) (name : Splice.Guard)
    {slots : List (Slot ε)} (hs : ∀ s ∈ slots, ∀ g ∈ s.held.stages, P g) (t : Thread ε) :
    ∀ s ∈ (Slot.onNamed name act slots t).1, ∀ g ∈ s.held.stages, P g := by
  induction slots generalizing t with
  | nil => exact hs
  | cons s slots ih =>
    rw [List.forall_mem_cons] at hs
    unfold Slot.onNamed
    split
    · exact List.forall_mem_cons.mpr ⟨hact s t hs.1, hs.2⟩
    · exact List.forall_mem_cons.mpr ⟨hs.1, ih hs.2 t⟩

theorem exitsNaturally_hold {f : Frame ε} (hf : f.ExitsNaturally r) {h : Held ε}
    (hh : ∀ g ∈ h.stages, g.ExitsNaturally r) (name : Splice.Guard) (first : Nat) (observing : Bool)
    (t : Thread ε) : (f.hold name first observing (h, t)).ExitsNaturally r := by
  refine List.forall_mem_cons.mpr ⟨?_, hf⟩
  cases observing with
  | false => exact hh
  | true =>
    simp only [↓reduceIte, Held.stages_observing, List.forall_mem_map]
    exact fun g hg => Guard.ExitsWith.of_exit (hh g hg) rfl

theorem exitsNaturally_run {s : Step ε} (hs : s.Natural r) {f : Frame ε} (hf : f.ExitsNaturally r) :
    (s.run f).ExitsNaturally r := by
  cases s with
  | drop name =>
    simp only [Step.run, drop]
    split
    · exact fun s hs => hf s (List.mem_of_mem_eraseP hs)
    · exact hf
  | unwind on => exact hf
  | call d switch hooks told c =>
    have htarget (target : Splice.Target) {act : Nat → Guard ε → Thread ε → Guard ε × Thread ε}
        (hact : ∀ k g t, g.ExitsNaturally r → (act k g t).1.ExitsNaturally r) :
        (f.onTarget target act).ExitsNaturally r := by
      have hstage (s : Slot ε) (t : Thread ε) (hs : ∀ g ∈ s.held.stages, g.ExitsNaturally r) :
          ∀ g ∈ (s.held.onStage target.index (act (s.first + target.index)) t).1.stages,
            g.ExitsNaturally r :=
        forall_onStage (hact _) hs _ t
      exact forall_onNamed hstage _ hf f.thread
    cases c with
    | setExit target hook =>
      refine htarget target fun k g t _ hook hhook => ?_
      obtain rfl : hooks.exit k = hook := by simpa [Guard.setExit] using hhook
      exact hs.exit k
    | enter target entry =>
      exact htarget target fun k g t hg => Guard.ExitsWith.of_exit hg (Guard.exit_enter g _ t)
    | record target mode =>
      exact htarget target fun k g t hg => Guard.ExitsWith.of_exit hg (Guard.exit_record g _ t)
    | complete name =>
      have hcomplete (s : Slot ε) (hs : ∀ g ∈ s.held.stages, g.ExitsNaturally r) :
          ∀ g ∈ (s.held.complete told).stages, g.ExitsNaturally r := by
        rw [Held.stages_complete, List.forall_mem_map]
        exact fun g hg => Guard.ExitsWith.of_exit (hs g hg) rfl
      exact forall_onNamed (fun s _ => hcomplete s) name hf f.thread
    | openSingle n k toggled link =>
      exact exitsNaturally_hold hf (List.forall_mem_singleton.mpr (exitsWith_openAt _ _ _ _)) _ _ _ _
    | openFused n ks link =>
      exact exitsNaturally_hold hf (exitsWith_openStages _ _ _) _ _ _ _

end Frame

/-! ### Processes -/

/-- The threads of a process. They share the next id; what their frames have for it is out of
date. -/
structure Process (ι ε : Type) where
  nextId : Nat := 1
  frames : ι → Frame ε := fun _ => ⟨{}, []⟩

namespace Process

variable {ι : Type} [DecidableEq ι]

/-- The frame of a thread that takes a step. -/
def frame (p : Process ι ε) (i : ι) : Frame ε :=
  { p.frames i with thread := { (p.frames i).thread with nextId := p.nextId } }

/-- One thread takes a step. -/
def step (p : Process ι ε) (a : ι × Frame.Step ε) : Process ι ε where
  nextId := (a.2.run (p.frame a.1)).thread.nextId
  frames := Function.update p.frames a.1 (a.2.run (p.frame a.1))

/-- Threads take steps one after the other. -/
def run (p : Process ι ε) (as : List (ι × Frame.Step ε)) : Process ι ε := as.foldl step p

/-- The ids that are given away while threads take steps. -/
def ids : Process ι ε → List (ι × Frame.Step ε) → List Nat
  | _, [] => []
  | p, a :: as => a.2.ids (p.frame a.1) ++ ids (p.step a) as

@[simp] theorem run_append_singleton (p : Process ι ε) (as : List (ι × Frame.Step ε))
    (a : ι × Frame.Step ε) : p.run (as ++ [a]) = (p.run as).step a := by
  simp [run]

variable {r : Renaming ε} {p : Process ι ε}

theorem exitsNaturally_step {a : ι × Frame.Step ε} (ha : a.2.Natural r)
    (hp : ∀ i, (p.frames i).ExitsNaturally r) (i : ι) : ((p.step a).frames i).ExitsNaturally r := by
  have hframe : (p.frame a.1).ExitsNaturally r := hp a.1
  by_cases hi : i = a.1
  · subst hi
    simpa [step] using Frame.exitsNaturally_run ha hframe
  · simpa [step, hi] using hp i

theorem exitsNaturally_run {as : List (ι × Frame.Step ε)} (has : ∀ a ∈ as, a.2.Natural r)
    (hp : ∀ i, (p.frames i).ExitsNaturally r) (i : ι) : ((p.run as).frames i).ExitsNaturally r := by
  induction as generalizing p with
  | nil => exact hp i
  | cons a as ih =>
    rw [List.forall_mem_cons] at has
    exact ih has.2 (exitsNaturally_step has.1 hp)

end Process

namespace Frame

theorem ids_openStages (link : Link) (sites : List CallSite) (t : Thread ε) :
    (Fused.openStages link sites t).1.map (·.context.id) = List.range' t.nextId sites.length ∧
      (Fused.openStages link sites t).2.nextId = t.nextId + sites.length := by
  induction sites generalizing link t with
  | nil => exact ⟨rfl, rfl⟩
  | cons site sites ih =>
    obtain ⟨hids, hnext⟩ := ih (Guard.openAt site link true t).1.link (Guard.openAt site link true t).2
    have hone : (Guard.openAt site link true t).2.nextId = t.nextId + 1 := rfl
    rw [hone] at hids hnext
    refine ⟨?_, ?_⟩
    · rw [Fused.openStages, List.map_cons, hids, List.length_cons, List.range'_succ]
      rfl
    · rw [Fused.openStages, hnext, List.length_cons]
      omega

/-- The ids of a step are the next ones. -/
theorem Step.ids_eq (s : Step ε) (f : Frame ε) :
    s.ids f = List.range' f.thread.nextId ((s.run f).thread.nextId - f.thread.nextId) := by
  have hobserving (b : Bool) (h : Held ε) : (if b then h.observing else h).stages.map (·.context.id) =
      h.stages.map (·.context.id) := by
    cases b <;> simp [Guard.observing, Function.comp_def]
  cases s with
  | drop name => rfl
  | unwind on => rfl
  | call d switch hooks told c =>
    cases c with
    | openSingle n k toggled link =>
      simp only [ids, run, Frame.call, hold, List.take_succ_cons, List.take_zero, List.flatMap_cons,
        List.flatMap_nil, List.append_nil, hobserving]
      simp [Held.stages, Guard.openAt]
    | openFused n ks link =>
      obtain ⟨hids, hnext⟩ := ids_openStages (f.link link) (ks.map d.site) f.thread
      simp only [ids, run, Frame.call, hold, List.take_succ_cons, List.take_zero, List.flatMap_cons,
        List.flatMap_nil, List.append_nil, hobserving]
      simp [Held.stages, Fused.openAt, hids, hnext]
    | _ => rfl

end Frame

namespace Process

variable {ι : Type} [DecidableEq ι] {r : Renaming ε} {p : Process ι ε}

theorem ids_eq {as : List (ι × Frame.Step ε)} (has : ∀ a ∈ as, a.2.Natural r)
    (hp : ∀ i, (p.frames i).ExitsNaturally r) :
    p.nextId ≤ (p.run as).nextId ∧
      p.ids as = List.range' p.nextId ((p.run as).nextId - p.nextId) := by
  induction as generalizing p with
  | nil => simp [ids, run]
  | cons a as ih =>
    rw [List.forall_mem_cons] at has
    have hframe : (p.frame a.1).ExitsNaturally r := hp a.1
    obtain ⟨count, hcount, -⟩ := Renaming.liftsFrame_run has.1 hframe
    have hnext : (p.step a).nextId = p.nextId + count := hcount
    obtain ⟨hle, hids⟩ := @ih (p.step a) has.2 (exitsNaturally_step has.1 hp)
    have hrun : (p.step a).run as = p.run (a :: as) := rfl
    rw [hrun, hnext] at hle hids
    have hsplit : (p.run (a :: as)).nextId - p.nextId =
        count + ((p.run (a :: as)).nextId - (p.nextId + count)) := by
      omega
    refine ⟨by omega, ?_⟩
    rw [ids, hids, Frame.Step.ids_eq, hcount, hsplit, ← List.range'_append_1]
    simp [frame]

/-- The ids of fewer calls than there are numbers of 64 bits do not come again. -/
theorem nodup_ids {as : List (ι × Frame.Step ε)} (has : ∀ a ∈ as, a.2.Natural r)
    (hp : ∀ i, (p.frames i).ExitsNaturally r) (hlength : (p.ids as).length ≤ 2 ^ 64) :
    ((p.ids as).map UInt64.ofNat).Nodup := by
  obtain ⟨-, hids⟩ := ids_eq has hp
  rw [hids] at hlength ⊢
  rw [List.length_range'] at hlength
  refine (List.nodup_range').map_on fun i hi j hj hij => ?_
  have hij := congrArg UInt64.toNat hij
  rw [List.mem_range'_1] at hi hj
  simp only [UInt64.toNat_ofNat'] at hij
  omega

/-! ### Each thread does what it would do alone -/

/-- The steps that a thread takes itself. -/
def own (i : ι) (as : List (ι × Frame.Step ε)) : List (ι × Frame.Step ε) := as.filter (·.1 = i)

/-- While threads take steps, one of them takes these ids, and is then where it would be alone. -/
structure Takes (r : Renaming ε) (i : ι) (as : List (ι × Frame.Step ε)) (ids : List Nat) : Prop where
  given : Given 1 ids (run {} as).nextId
  alone : (run {} (own i as)).nextId = 1 + ids.length
  same : ∀ ρ, StrictMono ρ → Follows ρ 1 ids → (run {} as).frames i =
    r.frame ρ ((run {} as).frames i).thread.nextId ((run {} (own i as)).frames i)

theorem exitsNaturally_fresh {as : List (ι × Frame.Step ε)} (has : ∀ a ∈ as, a.2.Natural r) (i : ι) :
    ((run {} as).frames i).ExitsNaturally r :=
  exitsNaturally_run has (fun _ _ hs => absurd hs List.not_mem_nil) i

namespace Takes

variable {i : ι} {as : List (ι × Frame.Step ε)} {ids : List Nat} {a : ι × Frame.Step ε}

theorem nil (i : ι) : Takes r i [] [] := ⟨.skip le_rfl, rfl, fun _ _ _ => rfl⟩

/-- A step of another thread. -/
theorem other (h : Takes r i as ids) (has : ∀ b ∈ as, b.2.Natural r) (ha : a.2.Natural r)
    (hi : i ≠ a.1) : Takes r i (as ++ [a]) ids := by
  have hown : own i (as ++ [a]) = own i as := by simp [own, Ne.symm hi]
  have hexits : ((run {} as).frame a.1).ExitsNaturally r := exitsNaturally_fresh has a.1
  obtain ⟨count, hcount, -⟩ := Renaming.liftsFrame_run ha hexits
  have hle : (run {} as).nextId ≤ ((run {} as).step a).nextId :=
    (Nat.le_add_right _ count).trans_eq hcount.symm
  refine ⟨?_, by rw [hown, h.alone], fun ρ hρ hf => ?_⟩
  · simpa using h.given.append (Given.skip hle)
  · have hframes : (run {} (as ++ [a])).frames i = (run {} as).frames i := by simp [step, hi]
    rw [hframes, hown]
    exact h.same ρ hρ hf

/-- A step of the thread itself takes the ids that come next in the process. -/
theorem step (h : Takes r i as ids) (has : ∀ b ∈ as, b.2.Natural r) {s : Frame.Step ε}
    (hs : s.Natural r) : ∃ new, Takes r i (as ++ [(i, s)]) (ids ++ new) := by
  have hown : own i (as ++ [(i, s)]) = own i as ++ [(i, s)] := by simp [own]
  have hexits : ((run {} (own i as)).frame i).ExitsNaturally r :=
    exitsNaturally_fresh (fun b hb => has b (List.mem_filter.mp hb).1) i
  obtain ⟨count, hcount, hlift⟩ := Renaming.liftsFrame_run hs hexits
  have hstep {ρ : Nat → Nat} (hρ : StrictMono ρ)
      (hf : Follows ρ 1 (ids ++ List.range' (run {} as).nextId count)) :
      s.run ((run {} as).frame i) = r.frame ρ ((run {} as).nextId + count)
        (s.run ((run {} (own i as)).frame i)) := by
    obtain ⟨hold, hnew⟩ := follows_append.mp hf
    have hframe : (run {} as).frame i =
        r.frame ρ (run {} as).nextId ((run {} (own i as)).frame i) := by
      unfold frame
      rw [h.same ρ hρ hold]
      rfl
    rw [← h.alone] at hnew
    rw [hframe]
    exact hlift ρ _ hρ hnew
  have hgiven := h.given.append (Given.range (run {} as).nextId count)
  -- Some names follow these ids, so that the process gives away as many as the thread takes alone.
  have hnext : ((run {} as).step (i, s)).nextId = (run {} as).nextId + count := by
    obtain ⟨ρ, hρ, -, hf⟩ := hgiven.exists_follows
    exact congrArg (·.thread.nextId) (hstep hρ hf)
  have hframes (p : Process ι ε) : (p.step (i, s)).frames i = s.run (p.frame i) := by
    simp [Process.step]
  refine ⟨List.range' (run {} as).nextId count, ?_, ?_, fun ρ hρ hf => ?_⟩
  · rw [run_append_singleton, hnext]
    exact hgiven
  · rw [hown, run_append_singleton, List.length_append, List.length_range', ← Nat.add_assoc, ← h.alone]
    exact hcount
  · rw [hown, run_append_singleton, run_append_singleton, hframes, hframes, hstep hρ hf]
    rfl

end Takes

/-- What a thread has taken at some time is what it takes first. -/
theorem exists_takes {as : List (ι × Frame.Step ε)} (has : ∀ a ∈ as, a.2.Natural r) (i : ι) :
    ∃ ids, Takes r i as ids ∧
      ∀ before, before <+: as → ∃ ids', ids' <+: ids ∧ Takes r i before ids' := by
  induction as using List.reverseRecOn with
  | nil =>
    refine ⟨[], .nil i, fun before hbefore => ?_⟩
    obtain rfl := List.prefix_nil.mp hbefore
    exact ⟨[], List.prefix_rfl, .nil i⟩
  | append_singleton as a ih =>
    obtain ⟨has, ha⟩ : (∀ a ∈ as, a.2.Natural r) ∧ a.2.Natural r := by
      simpa [or_imp, forall_and] using has
    obtain ⟨ids, htakes, hbefore⟩ := ih has
    obtain ⟨new, hnew⟩ : ∃ new, Takes r i (as ++ [a]) (ids ++ new) := by
      by_cases hi : i = a.1
      · subst hi
        exact htakes.step has ha
      · exact ⟨[], by simpa using htakes.other has ha hi⟩
    refine ⟨ids ++ new, hnew, fun before hprefix => ?_⟩
    rcases List.prefix_concat_iff.mp hprefix with rfl | hprefix
    · exact ⟨_, List.prefix_rfl, hnew⟩
    · obtain ⟨ids', hids, htakes'⟩ := hbefore before hprefix
      exact ⟨ids', hids.trans (List.prefix_append ids new), htakes'⟩

theorem exists_renaming {as : List (ι × Frame.Step ε)} (has : ∀ a ∈ as, a.2.Natural r) (i : ι) :
    ∃ ρ, StrictMono ρ ∧ ∀ before, before <+: as → (run {} before).frames i =
      r.frame ρ ((run {} before).frames i).thread.nextId ((run {} (own i before)).frames i) := by
  obtain ⟨ids, htakes, hbefore⟩ := exists_takes has i
  obtain ⟨ρ, hρ, -, hf⟩ := htakes.given.exists_follows
  refine ⟨ρ, hρ, fun before hprefix => ?_⟩
  obtain ⟨ids', ⟨rest, rfl⟩, htakes'⟩ := hbefore before hprefix
  exact htakes'.same ρ hρ (follows_append.mp hf).1

end Process

/-! ### Detached guards -/

/-- A guard that was opened with a detached link, or inside such a guard, and whatever has become
of it since. -/
inductive Held.Detached : Held ε → Prop
  | single (site : CallSite) (active : Bool) (t : Thread ε) :
    Detached (.single (Guard.openAt site t.detachedLink active t).1)
  | fused (sites : List CallSite) (t : Thread ε) :
    Detached (.fused (Fused.openAt sites t.detachedLink t).1)
  | singleInside {outer : Held ε} (h : Detached outer) (site : CallSite) (active : Bool)
    (t : Thread ε) : Detached (.single (Guard.openAt site outer.link active t).1)
  | fusedInside {outer : Held ε} (h : Detached outer) (sites : List CallSite) (t : Thread ε) :
    Detached (.fused (Fused.openAt sites outer.link t).1)
  | observing {held : Held ε} (h : Detached held) : Detached held.observing
  | setExit {held : Held ε} (h : Detached held) (i : Nat) (hook : ExitHook ε) (t : Thread ε) :
    Detached (held.onStage i (fun g t => (g.setExit hook, t)) t).1
  | enter {held : Held ε} (h : Detached held) (i : Nat) (hook : EnterHook ε) (t : Thread ε) :
    Detached (held.onStage i (fun g t => g.enter hook t) t).1
  | record {held : Held ε} (h : Detached held) (i : Nat) (closure : EnterHook ε) (t : Thread ε) :
    Detached (held.onStage i (fun g t => g.record closure t) t).1
  | complete {held : Held ε} (h : Detached held) (o : Outcome) : Detached (held.complete o)

/-- A hook that leaves the chain of its thread as it finds it. -/
def Hook.KeepsChain {α : Type} (hook : Hook ε α) : Prop := ∀ c t, (hook c t).2.2.chain = t.chain

/-- Neither these guards nor guards inside them go on a chain. -/
structure Held.OffChain (h : Held ε) : Prop where
  stages : ∀ g ∈ h.stages, g.isChained = false
  inside : ∃ parent, h.Inside ⟨parent, false⟩

namespace Held.OffChain

variable {h : Held ε}

theorem link (hh : h.OffChain) : h.link.isChained = false := by
  obtain ⟨hstages, parent, hinside⟩ := hh
  rw [Held.link_eq hinside, innerLink]
  cases hlast : h.stages.getLast? with
  | none => rfl
  | some g => exact hstages g (List.mem_of_getLast? hlast)

theorem single {g : Guard ε} (hg : g.isChained = false) : OffChain (.single g) :=
  ⟨List.forall_mem_singleton.mpr hg, none, trivial⟩

theorem openStages {link : Link} (hlink : link.isChained = false) (sites : List CallSite)
    (t : Thread ε) : ∀ g ∈ (Fused.openStages link sites t).1, g.isChained = false := by
  induction sites generalizing link t with
  | nil => exact List.forall_mem_nil _
  | cons site sites ih =>
    rw [Fused.openStages, List.forall_mem_cons]
    have hinner : (Guard.openAt site link true t).1.link.isChained = false := hlink
    exact ⟨hlink, ih hinner _⟩

theorem fused {link : Link} (hlink : link.isChained = false) (sites : List CallSite) (t : Thread ε) :
    OffChain (.fused (Fused.openAt sites link t).1) :=
  ⟨openStages hlink sites t, link.parent, by rw [← hlink]; rfl⟩

theorem onStage (hh : h.OffChain) {act : Guard ε → Thread ε → Guard ε × Thread ε}
    (hact : ∀ g t, (act g t).1.isChained = g.isChained) (i : Nat) (t : Thread ε) :
    (h.onStage i act t).1.OffChain := by
  refine ⟨Frame.forall_onStage (fun g t hg => (hact g t).trans hg) hh.stages i t, ?_⟩
  obtain ⟨parent, hinside⟩ := hh.inside
  refine ⟨parent, ?_⟩
  cases h with
  | single g => trivial
  | fused f =>
    have hlink : f.link = ⟨parent, false⟩ := hinside
    cases hg : f.stages[i]? <;> simpa [Held.onStage, Held.stage?, Held.Inside, hg] using hlink

end Held.OffChain

theorem Guard.isChained_enter (g : Guard ε) (hook : EnterHook ε) (t : Thread ε) :
    (g.enter hook t).1.isChained = g.isChained := by
  unfold Guard.enter
  split
  · split <;> rfl
  · rfl

theorem Guard.isChained_record (g : Guard ε) (closure : EnterHook ε) (t : Thread ε) :
    (g.record closure t).1.isChained = g.isChained := by
  unfold Guard.record
  split <;> rfl

/-- Nothing that is done to a detached guard puts it on a chain. -/
theorem Held.Detached.offChain {h : Held ε} (hd : h.Detached) : h.OffChain := by
  induction hd with
  | single site active t => exact .single rfl
  | fused sites t => exact .fused rfl sites t
  | singleInside _ site active t ih => exact .single ih.link
  | fusedInside _ sites t ih => exact .fused ih.link sites t
  | @observing h _ ih =>
    obtain ⟨parent, hinside⟩ := ih.inside
    refine ⟨by simpa [Guard.observing] using ih.stages, parent, ?_⟩
    cases h <;> exact hinside
  | setExit _ i hook t ih => exact ih.onStage (fun _ _ => rfl) i t
  | enter _ i hook t ih => exact ih.onStage (fun g t => g.isChained_enter hook t) i t
  | record _ i closure t ih => exact ih.onStage (fun g t => g.isChained_record closure t) i t
  | @complete h _ o ih =>
    obtain ⟨parent, hinside⟩ := ih.inside
    refine ⟨by simpa [Guard.complete] using ih.stages, parent, ?_⟩
    cases h <;> exact hinside

theorem chain_openAt {link : Link} (hlink : link.isChained = false) (site : CallSite) (active : Bool)
    (t : Thread ε) : (Guard.openAt site link active t).2.chain = t.chain := by
  simp [Guard.openAt, hlink]

theorem chain_openStages {link : Link} (hlink : link.isChained = false) (sites : List CallSite)
    (t : Thread ε) : (Fused.openStages link sites t).2.chain = t.chain := by
  induction sites generalizing link t with
  | nil => rfl
  | cons site sites ih =>
    have hinner : (Guard.openAt site link true t).1.link.isChained = false := hlink
    rw [Fused.openStages, ih hinner, chain_openAt hlink]

theorem chain_foldr_finish {gs : List (Guard ε)} (hchained : ∀ g ∈ gs, g.isChained = false)
    (hexits : ∀ g ∈ gs, g.ExitsWith fun hook => ∀ o, Hook.KeepsChain (hook o)) (t : Thread ε) :
    (gs.foldr Guard.finish t).chain = t.chain := by
  induction gs with
  | nil => rfl
  | cons g gs ih =>
    rw [List.forall_mem_cons] at hchained hexits
    rw [List.foldr_cons, ← ih hchained.2 hexits.2]
    generalize gs.foldr Guard.finish t = u
    unfold Guard.finish
    split
    · cases hexit : g.exit with
      | none => simp [hchained.1]
      | some hook => simpa [hchained.1] using hexits.1 hook hexit (g.ending u) g.context u
    · rfl

theorem Hook.KeepsChain.enter {hook : EnterHook ε} (hk : Hook.KeepsChain hook) (g : Guard ε)
    (t : Thread ε) : (g.enter hook t).2.chain = t.chain := by
  have hrun := hk g.context t
  unfold Guard.enter
  split
  · revert hrun
    rcases hook g.context t with ⟨_ | v, c, t'⟩ <;> exact id
  · rfl

theorem Hook.KeepsChain.record {closure : EnterHook ε} (hk : Hook.KeepsChain closure) (g : Guard ε)
    (t : Thread ε) : (g.record closure t).2.chain = t.chain := by
  unfold Guard.record
  split
  · exact hk g.context t
  · rfl

theorem chain_onStage {h : Held ε} {act : Guard ε → Thread ε → Guard ε × Thread ε}
    (hact : ∀ g t, (act g t).2.chain = t.chain) (i : Nat) (t : Thread ε) :
    (h.onStage i act t).2.chain = t.chain := by
  unfold Held.onStage
  split
  · exact hact _ t
  · rfl

namespace Process

variable {ι : Type} [DecidableEq ι]

/-- Threads do not get in each other's way. While fewer than 2^64 calls are made, no id is given
twice; there are names for the calls of a thread, in the same order, under which it is at every time
where it would be if it took its steps alone; and a detached guard, and guards inside it, change no
chain when they are opened, when they are used or when they end, whichever thread that happens
on. -/
theorem threads_apart (r : Renaming ε) {as : List (ι × Frame.Step ε)}
    (has : ∀ a ∈ as, a.2.Natural r) :
    ((ids {} as).length < 2 ^ 64 → ((ids {} as).map UInt64.ofNat).Nodup) ∧
      (∀ i, ∃ ρ, StrictMono ρ ∧ ∀ before, before <+: as → (run {} before).frames i =
        r.frame ρ ((run {} before).frames i).thread.nextId ((run {} (own i before)).frames i)) ∧
      (∀ (t : Thread ε) site active sites,
        (Guard.openAt site t.detachedLink active t).2.chain = t.chain ∧
          (Fused.openAt sites t.detachedLink t).2.chain = t.chain) ∧
      ∀ h : Held ε, h.Detached → ∀ t : Thread ε,
        (∀ site active sites, (Guard.openAt site h.link active t).2.chain = t.chain ∧
          (Fused.openAt sites h.link t).2.chain = t.chain) ∧
        (∀ i hook, Hook.KeepsChain hook →
          (h.onStage i (fun g t => g.enter hook t) t).2.chain = t.chain ∧
          (h.onStage i (fun g t => g.record hook t) t).2.chain = t.chain) ∧
        ((∀ g ∈ h.stages, g.ExitsWith fun hook => ∀ o, Hook.KeepsChain (hook o)) →
          (h.finish t).chain = t.chain) := by
  refine ⟨fun hlength => ?_, exists_renaming has, fun t site active sites => ?_, fun h hd t => ?_⟩
  · exact nodup_ids has (fun _ _ hs => absurd hs List.not_mem_nil) hlength.le
  · exact ⟨chain_openAt rfl site active t, chain_openStages rfl sites t⟩
  · refine ⟨fun site active sites => ?_, fun i hook hk => ?_, fun hexits => ?_⟩
    · exact ⟨chain_openAt hd.offChain.link site active t, chain_openStages hd.offChain.link sites t⟩
    · exact ⟨chain_onStage hk.enter i t, chain_onStage hk.record i t⟩
    · rw [Held.finish_eq]
      exact chain_foldr_finish hd.offChain.stages hexits t

/-- Two threads that call the same function at the same time. -/
def twoCalls : List (Bool × Frame.Step Sighting) :=
  let d := withStages false ["time", "log"] [.single 0, .single 1]
  let steps := (Splice.opening d.decl d.stages d.groups).map
      (.call d (.off []) ⟨fun _ => seeEnter, fun _ => seeEnter, fun _ => seeExit⟩ .returned) ++
    [.drop (.single 1), .drop (.single 0)]
  steps.flatMap fun s => [(true, s), (false, s)]

theorem threads_apart_twoCalls :
    ((ids {} twoCalls).map UInt64.ofNat).Nodup ∧
      ∃ ρ, StrictMono ρ ∧ ((run {} twoCalls).frames false).thread.events =
        ((run {} (own false twoCalls)).frames false).thread.events.map
          (Renaming.sightings.event ρ) := by
  have hhooks : Hooks.Natural .sightings (⟨fun _ => seeEnter, fun _ => seeEnter, fun _ => seeExit⟩) :=
    ⟨fun _ => Renaming.natural_seeEnter, fun _ => Renaming.natural_seeEnter,
      fun _ => Renaming.natural_seeExit⟩
  have hnatural : ∀ a ∈ twoCalls, a.2.Natural .sightings := by
    intro a ha
    simp only [twoCalls, List.mem_flatMap, List.mem_append, List.mem_map] at ha
    obtain ⟨s, ⟨c, -, rfl⟩ | hs, ha⟩ := ha
    · simp only [List.mem_cons, List.not_mem_nil, or_false] at ha
      rcases ha with rfl | rfl <;> exact hhooks
    · simp only [List.mem_cons, List.not_mem_nil, or_false] at ha hs
      rcases hs with rfl | rfl <;> rcases ha with rfl | rfl <;> trivial
  obtain ⟨hids, hrenaming, -, -⟩ := threads_apart .sightings hnatural
  obtain ⟨ρ, hρ, hsame⟩ := hrenaming false
  refine ⟨hids (by decide +kernel), ρ, hρ, ?_⟩
  exact congrArg (·.thread.events) (hsame twoCalls List.prefix_rfl)

end Process
end Invocation
end Instrumentation
