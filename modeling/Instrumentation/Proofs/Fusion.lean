import Instrumentation.Proofs.Guards
import Instrumentation.Proofs.UniformExit

/-!
Fusion. A guard that stages share opens them all before the first one enters, where guards of their
own are opened and entered in turn. Enter hooks that see their own context alone cannot tell the
difference, and nobody else can either (`fused_eq_singles`).
-/
namespace Instrumentation
namespace Invocation

variable {ε : Type}

/-- A thread with further events. -/
def Thread.logAll (t : Thread ε) (es : List ε) : Thread ε := { t with events := t.events ++ es }

@[simp] theorem Thread.logAll_nil (t : Thread ε) : t.logAll [] = t := by
  simp [logAll]

/-- A hook to which only its own context matters: what it returns, what becomes of the context and
which events it leaves depend on nothing else, and it changes nothing else. -/
def Hook.Local {α : Type} (hook : Hook ε α) : Prop :=
  ∀ c, ∃ r c' es, ∀ t, hook c t = (r, c', t.logAll es)

/-- Acting on a guard without a look at the thread. -/
def Guard.ActsLocally (act : Guard ε → Thread ε → Guard ε × Thread ε) : Prop :=
  ∀ g, ∃ g' es, g'.link = g.link ∧ ∀ t, act g t = (g', t.logAll es)

theorem Guard.actsLocally_enter {hook : EnterHook ε} (h : Hook.Local hook) :
    ActsLocally fun g t => g.enter hook t := by
  intro g
  obtain ⟨r, c, es, hrun⟩ := h g.context
  cases hactive : g.isActive with
  | false => exact ⟨g, [], rfl, fun t => by simp [enter, hactive]⟩
  | true =>
    cases r with
    | none => exact ⟨{ g with context := c }, es, rfl, fun t => by simp [enter, hactive, hrun]⟩
    | some v =>
      exact ⟨{ g with context := c.attach v }, es, rfl, fun t => by simp [enter, hactive, hrun]⟩

namespace Frame

variable {d : InstrumentedDecl} {switch : Switch} {hooks : Hooks ε}

theorem actsLocally_enterStage {k : Nat} (h : Hook.Local (hooks.enter k)) :
    Guard.ActsLocally (enterStage d hooks k k) := by
  intro g
  have hset : (if d.exits k then g.setExit (hooks.exit k) else g).link = g.link := by
    split <;> rfl
  obtain ⟨g', es, hlink, hrun⟩ :=
    Guard.actsLocally_enter h (if d.exits k then g.setExit (hooks.exit k) else g)
  by_cases henters : d.enters k
  · exact ⟨g', es, hlink.trans hset, fun t => by simpa [enterStage, henters] using hrun t⟩
  · exact ⟨_, [], hset, fun t => by simp [enterStage, henters]⟩

/-- How a group is entered does not depend on which groups there are. -/
theorem enterGroups_regroup (groups : List Group) (link : Link) (gs : List Group) (t : Thread ε) :
    enterGroups { d with groups } switch hooks link gs t = enterGroups d switch hooks link gs t := by
  induction gs generalizing link t with
  | nil => rfl
  | cons g gs ih =>
    simp only [enterGroups, ih]
    rfl

theorem openStages_logAll (link : Link) (sites : List CallSite) (t : Thread ε) (es : List ε) :
    Fused.openStages link sites (t.logAll es) =
      ((Fused.openStages link sites t).1, (Fused.openStages link sites t).2.logAll es) := by
  induction sites generalizing link t with
  | nil => rfl
  | cons site sites ih =>
    have hopen : Guard.openAt site link true (t.logAll es) =
        ((Guard.openAt site link true t).1, (Guard.openAt site link true t).2.logAll es) := rfl
    simp only [Fused.openStages, hopen, ih]

/-- To open each guard only after the one before it was entered makes no difference. -/
theorem enterGroups_singles {ks : List Nat} (hon : ∀ k ∈ ks, asks d switch k = true)
    (hlocal : ∀ k ∈ ks, Hook.Local (hooks.enter k)) (link : Link) (t : Thread ε) :
    enterGroups d switch hooks link (ks.map .single) t =
      actAll (fun k => enterStage d hooks k k) ks
        ((Fused.openStages link (ks.map d.site) t).1.map (inForm d.form))
        (Fused.openStages link (ks.map d.site) t).2 := by
  induction ks generalizing link t with
  | nil => rfl
  | cons k ks ih =>
    rw [List.forall_mem_cons] at hon hlocal
    have hform (g : Guard ε) : (inForm d.form g).link = g.link := by
      simp only [inForm]
      split <;> rfl
    obtain ⟨g', es, hlink, hrun⟩ :=
      actsLocally_enterStage (d := d) hlocal.1 (inForm d.form (Guard.openAt (d.site k) link true t).1)
    rw [hform] at hlink
    have hone : enterGroup d switch hooks link (.single k) t =
        ([g'], (Guard.openAt (d.site k) link true t).2.logAll es) := by
      simp [enterGroup, openGroup, hon.1, Group.members, actAll, hrun]
    simp only [List.map_cons, enterGroups, hone, ih hon.2 hlocal.2, innerLink_cons, innerLink_nil,
      hlink, openStages_logAll, Fused.openStages, actAll, hrun, List.singleton_append]

theorem enterGroups_fused {start count : Nat}
    (hon : ∀ k ∈ List.range' start count, asks d switch k = true)
    (hlocal : ∀ k ∈ List.range' start count, Hook.Local (hooks.enter k)) (link : Link)
    (t : Thread ε) :
    enterGroups d switch hooks link [.fused start (start + count)] t =
      enterGroups d switch hooks link ((List.range' start count).map .single) t := by
  rw [enterGroups_singles hon hlocal]
  simp [enterGroups, enterGroup, openGroup, Group.members]

end Frame

/-- Stages that share a guard and stages with guards of their own, each linked to the one before it,
run alike if their enter hooks see their own contexts alone. This holds whatever other groups stand
before and after them, on every thread: the body begins on the same thread, inside the same guards;
so it is after the body; and so for the whole call, which ends on the same thread. -/
theorem fused_eq_singles (d : InstrumentedDecl) (switch : Switch) (hooks : Hooks ε)
    (before after : List Group) {start count : Nat}
    (hon : ∀ k ∈ List.range' start count, Frame.asks d switch k = true)
    (hlocal : ∀ k ∈ List.range' start count, Hook.Local (hooks.enter k)) (t : Thread ε) :
    let shared := { d with groups := before ++ .fused start (start + count) :: after }
    let apart := { d with
      groups := before ++ ((List.range' start count).map .single ++ after) }
    (Frame.opened shared switch hooks t).thread = (Frame.opened apart switch hooks t).thread ∧
      (Frame.opened shared switch hooks t).guards = (Frame.opened apart switch hooks t).guards ∧
      (∀ ending t',
        let ended := Frame.observed shared switch hooks ending
          { Frame.opened shared switch hooks t with thread := t' }
        let ended' := Frame.observed apart switch hooks ending
          { Frame.opened apart switch hooks t with thread := t' }
        ended.thread = ended'.thread ∧ ended.guards = ended'.guards) ∧
      ∀ body, Frame.perform shared switch hooks body t = Frame.perform apart switch hooks body t := by
  intro shared apart
  have hbegin : Frame.begin shared switch hooks t = Frame.begin apart switch hooks t := by
    simp only [Frame.begin, shared, apart, Frame.enterGroups_regroup]
    rw [← List.singleton_append]
    simp only [Frame.enterGroups_append, Frame.enterGroups_fused hon hlocal]
  have hmembers : shared.groups.flatMap Group.members = apart.groups.flatMap Group.members := by
    simp [shared, apart, Group.members, List.flatMap_map]
  have htell (told? : Option Outcome) (gs : List (Guard ε)) (u : Thread ε) :
      Frame.tell shared hooks told? gs u = Frame.tell apart hooks told? gs u := by
    simp only [Frame.tell, hmembers]
    rfl
  refine ⟨?_, ?_, fun ending t' => ?_, fun body => ?_⟩
  · rw [Frame.thread_opened, Frame.thread_opened, hbegin]
  · rw [Frame.guards_opened, Frame.guards_opened, hbegin]
  · obtain ⟨hguards, hthread⟩ := Frame.observed_opened shared switch hooks ending t t'
    obtain ⟨hguards', hthread'⟩ := Frame.observed_opened apart switch hooks ending t t'
    rw [hbegin, htell] at hguards hthread
    exact ⟨hthread.trans hthread'.symm, hguards.trans hguards'.symm⟩
  · simp only [Frame.perform_eq, hbegin, htell]
    rfl

theorem local_marking (panics : Nat → Bool) (k : Nat) :
    Hook.Local ((Hooks.marking panics).enter k) :=
  fun c => ⟨_, c, [.entered k], fun _ => rfl⟩

/-- Two stages behind a switched-off one, the first of which panics in its enter hook; the body
panics too. -/
theorem fused_eq_singles_marking :
    (∀ k ∈ List.range' 1 2, Frame.asks (withStages false ["log", "time", "trace"] [])
        (.off ["log"]) k = true) ∧
      Frame.perform (withStages false ["log", "time", "trace"] [.single 0, .fused 1 3])
          (.off ["log"]) (Hooks.marking (· == 1)) (fun t => (.unwound, t)) {} =
        Frame.perform (withStages false ["log", "time", "trace"] [.single 0, .single 1, .single 2])
          (.off ["log"]) (Hooks.marking (· == 1)) (fun t => (.unwound, t)) {} := by
  have hon : ∀ k ∈ List.range' 1 2, Frame.asks (withStages false ["log", "time", "trace"] [])
      (.off ["log"]) k = true := by decide
  obtain ⟨-, -, -, hperform⟩ := fused_eq_singles (withStages false ["log", "time", "trace"] [])
    (.off ["log"]) (Hooks.marking (· == 1)) [.single 0] [] hon (fun k _ => local_marking _ k) {}
  exact ⟨hon, hperform _⟩

end Invocation
end Instrumentation
