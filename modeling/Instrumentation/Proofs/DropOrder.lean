import Instrumentation.Invocation.Session
import Mathlib.Data.List.Nodup

/-!
Guards that are dropped in any order. A guard that ends takes from the chain its own call and all
calls inside it, whether their guards have ended or not. Whatever guards are opened and dropped, and
in whatever order, the calls on the chain of a thread are in the order in which they began, and no
call comes back to it (`chain_inOrder`).
-/
namespace Instrumentation
namespace Invocation

variable {ε : Type}

namespace Chain

variable {c : Chain} {id : Nat}

theorem leave_of_not_mem (h : id ∉ c) : c.leave id = c := if_neg h

theorem leave_append {above : Chain} (h : id ∉ above) (below : Chain) :
    leave (above ++ id :: below) id = below := by
  have hne : ∀ x ∈ above, (x != id) = true := by
    intro x hx
    rw [bne_iff_ne]
    rintro rfl
    exact h hx
  rw [leave, if_pos (by simp), List.dropWhile_append_of_pos hne]
  simp

theorem leave_suffix (c : Chain) (id : Nat) : c.leave id <:+ c := by
  unfold leave
  split
  · exact (List.drop_suffix 1 _).trans (List.dropWhile_suffix _)
  · exact List.suffix_rfl

theorem not_mem_leave (hc : c.Nodup) (id : Nat) : id ∉ c.leave id := by
  by_cases hid : id ∈ c
  · obtain ⟨above, below, rfl⟩ := List.append_of_mem hid
    rw [List.nodup_middle, List.nodup_cons, List.mem_append, not_or] at hc
    rw [leave_append hc.1.1]
    exact hc.1.2
  · rwa [leave_of_not_mem hid]

end Chain

namespace Guard

/-- A guard that is opened puts its own id on the chain, or nothing. -/
theorem mem_chain_openAt {site : CallSite} {link : Link} {active : Bool} {t : Thread ε} {id : Nat}
    (h : id ∈ (Guard.openAt site link active t).2.chain) :
    (id = t.nextId ∧ active = true ∧ link.isChained = true) ∨ id ∈ t.chain := by
  simp only [Guard.openAt] at h
  split at h
  · next hon =>
    rw [Bool.and_eq_true] at hon
    rcases List.mem_cons.mp h with rfl | h
    · exact .inl ⟨rfl, hon⟩
    · exact .inr h
  · exact .inr h

/-- The thread after the exit hook of a guard, if it is active and has one. -/
def exited (g : Guard ε) (t : Thread ε) : Thread ε :=
  if g.isActive then
    match g.exit with
    | some hook => (hook (g.ending t) g.context t).2.2
    | none => t
  else t

theorem exited_of_exit_eq_none {g : Guard ε} (h : g.exit = none) (t : Thread ε) :
    g.exited t = t := by
  simp [exited, h]

/-- The call of a guard leaves the chain only after the exit hook. -/
theorem chain_finish (g : Guard ε) (t : Thread ε) : (g.finish t).chain =
    if g.isActive && g.isChained then (g.exited t).chain.leave g.context.id
    else (g.exited t).chain := by
  unfold finish exited
  cases g.isActive <;> cases g.isChained <;> rfl

theorem chain_finish_suffix (g : Guard ε) (t : Thread ε) :
    (g.finish t).chain <:+ (g.exited t).chain := by
  rw [chain_finish]
  split
  · exact Chain.leave_suffix _ _
  · exact List.suffix_rfl

theorem nextId_finish (g : Guard ε) (t : Thread ε) : (g.finish t).nextId = (g.exited t).nextId := by
  unfold finish exited
  cases g.isActive <;> cases g.isChained <;> rfl

end Guard

/-- What has become of a guard. -/
inductive GuardEvent where
  | opened (id : Nat) (isActive isChained : Bool)
  | dropped (id : Nat)
  deriving DecidableEq, Repr

/-- What can happen on a thread: the events, the latest first, the guards that can still be dropped,
and the thread. A guard that is leaked is never dropped. -/
inductive History : List GuardEvent → List (Guard ε) → Thread ε → Prop
  /-- It begins when the chain is empty, maybe with older guards. -/
  | start {older : List (Guard ε)} {t : Thread ε} (hchain : t.chain = [])
    (holder : ∀ g ∈ older, g.context.id < t.nextId) : History [] older t
  | opens {es : List GuardEvent} {live : List (Guard ε)} {t : Thread ε} (h : History es live t)
    (site : CallSite) (link : Link) (active : Bool) :
    History (.opened t.nextId active link.isChained :: es)
      ((Guard.openAt site link active t).1 :: live) (Guard.openAt site link active t).2
  /-- A guard is dropped: it is over with once its exit hook is, which may open and drop guards
  too. -/
  | drops {es : List GuardEvent} {before after : List (Guard ε)} {g : Guard ε} {t : Thread ε}
    (h : History es (before ++ g :: after) (g.exited t)) :
    History (.dropped g.context.id :: es) (before ++ after) (g.finish t)
  /-- A guard is told something, or its context is changed. -/
  | uses {es : List GuardEvent} {before after : List (Guard ε)} {g g' : Guard ε} {t : Thread ε}
    (h : History es (before ++ g :: after) t) (hid : g'.context.id = g.context.id)
    (hactive : g'.isActive = g.isActive) (hchained : g'.isChained = g.isChained) :
    History es (before ++ g' :: after) t
  /-- Anything else; other threads may take ids meanwhile. -/
  | works {es : List GuardEvent} {live : List (Guard ε)} {t t' : Thread ε} (h : History es live t)
    (hchain : t'.chain = t.chain) (hid : t.nextId ≤ t'.nextId) : History es live t'

/-- The ids on a chain were given to active guards, in this order, and belong to no guard that has
been dropped. -/
structure InOrder (es : List GuardEvent) (live : List (Guard ε)) (t : Thread ε) : Prop where
  descends : t.chain.Pairwise (· > ·)
  entered : ∀ id ∈ t.chain, .opened id true true ∈ es
  kept : ∀ id ∈ t.chain, .dropped id ∉ es
  chain_lt : ∀ id ∈ t.chain, id < t.nextId
  dropped_lt : ∀ id, .dropped id ∈ es → id < t.nextId
  live_lt : ∀ g ∈ live, g.context.id < t.nextId
  onChain : ∀ g ∈ live, g.context.id ∈ t.chain → g.isActive = true ∧ g.isChained = true

namespace InOrder

variable {es : List GuardEvent} {live before after : List (Guard ε)} {g g' : Guard ε}
  {t t' : Thread ε}

theorem nodup (h : InOrder es live t) : t.chain.Nodup :=
  h.descends.imp Nat.ne_of_gt

theorem start (hchain : t.chain = []) (holder : ∀ g ∈ live, g.context.id < t.nextId) :
    InOrder [] live t where
  descends := by simp [hchain]
  entered := by simp [hchain]
  kept := by simp
  chain_lt := by simp [hchain]
  dropped_lt := by simp
  live_lt := holder
  onChain := by simp [hchain]

/-- A new id is above all that are on the chain, and goes on top of them or not at all. -/
theorem opens (h : InOrder es live t) (site : CallSite) (link : Link) (active : Bool) :
    InOrder (.opened t.nextId active link.isChained :: es)
      ((Guard.openAt site link active t).1 :: live) (Guard.openAt site link active t).2 where
  descends := by
    simp only [Guard.openAt]
    split
    · exact List.pairwise_cons.mpr ⟨h.chain_lt, h.descends⟩
    · exact h.descends
  entered id hid := by
    rcases Guard.mem_chain_openAt hid with ⟨rfl, rfl, hchained⟩ | hid
    · simp [hchained]
    · exact List.mem_cons_of_mem _ (h.entered id hid)
  kept id hid hdropped := by
    have hdropped : .dropped id ∈ es := by simpa using hdropped
    rcases Guard.mem_chain_openAt hid with ⟨rfl, -, -⟩ | hid
    · exact Nat.lt_irrefl _ (h.dropped_lt _ hdropped)
    · exact h.kept id hid hdropped
  chain_lt id hid := by
    rcases Guard.mem_chain_openAt hid with ⟨rfl, -, -⟩ | hid
    · exact Nat.lt_succ_self _
    · exact Nat.lt_succ_of_lt (h.chain_lt id hid)
  dropped_lt id hdropped := by
    have hdropped : .dropped id ∈ es := by simpa using hdropped
    exact Nat.lt_succ_of_lt (h.dropped_lt id hdropped)
  live_lt := List.forall_mem_cons.mpr
    ⟨Nat.lt_succ_self _, fun g hg => Nat.lt_succ_of_lt (h.live_lt g hg)⟩
  onChain := by
    refine List.forall_mem_cons.mpr ⟨fun hid => ?_, fun g hg hid => ?_⟩
    · rcases Guard.mem_chain_openAt hid with ⟨-, hon⟩ | hid
      · exact hon
      · exact absurd (h.chain_lt _ hid) (Nat.lt_irrefl _)
    · rcases Guard.mem_chain_openAt hid with ⟨hnew, -⟩ | hid
      · exact absurd hnew (Nat.ne_of_lt (h.live_lt g hg))
      · exact h.onChain g hg hid

/-- The id of a guard is off the chain when the guard has ended: it was taken away, or had never
come to it. -/
theorem not_mem_finish (h : InOrder es (before ++ g :: after) (g.exited t)) :
    g.context.id ∉ (g.finish t).chain := by
  rw [g.chain_finish t]
  split
  · exact Chain.not_mem_leave h.nodup _
  · next hoff =>
    intro hmem
    obtain ⟨hactive, hchained⟩ := h.onChain g (by simp) hmem
    simp [hactive, hchained] at hoff

/-- A guard that is dropped takes its id from the chain; nothing else comes to it. -/
theorem drops (h : InOrder es (before ++ g :: after) (g.exited t)) :
    InOrder (.dropped g.context.id :: es) (before ++ after) (g.finish t) := by
  have hsuffix := g.chain_finish_suffix t
  have hsub : ∀ id ∈ (g.finish t).chain, id ∈ (g.exited t).chain := hsuffix.subset
  have hlive : ∀ g' ∈ before ++ after, g' ∈ before ++ g :: after := by grind
  have hnext := g.nextId_finish t
  exact {
    descends := h.descends.sublist hsuffix.sublist
    entered := fun id hid => List.mem_cons_of_mem _ (h.entered id (hsub id hid))
    kept := by
      intro id hid hdropped
      rcases List.mem_cons.mp hdropped with heq | hdropped
      · cases heq
        exact h.not_mem_finish hid
      · exact h.kept id (hsub id hid) hdropped
    chain_lt := fun id hid => hnext ▸ h.chain_lt id (hsub id hid)
    dropped_lt := by
      intro id hdropped
      rw [hnext]
      rcases List.mem_cons.mp hdropped with heq | hdropped
      · cases heq
        exact h.live_lt g (by simp)
      · exact h.dropped_lt id hdropped
    live_lt := fun g' hg' => hnext ▸ h.live_lt g' (hlive g' hg')
    onChain := fun g' hg' hid => h.onChain g' (hlive g' hg') (hsub _ hid) }

theorem uses (h : InOrder es (before ++ g :: after) t) (hid : g'.context.id = g.context.id)
    (hactive : g'.isActive = g.isActive) (hchained : g'.isChained = g.isChained) :
    InOrder es (before ++ g' :: after) t where
  __ := h
  live_lt := by
    have hlt := h.live_lt
    grind
  onChain := by
    have hon := h.onChain
    grind

theorem works (h : InOrder es live t) (hchain : t'.chain = t.chain) (hid : t.nextId ≤ t'.nextId) :
    InOrder es live t' where
  descends := hchain ▸ h.descends
  entered := hchain ▸ h.entered
  kept := hchain ▸ h.kept
  chain_lt id hmem := Nat.lt_of_lt_of_le (h.chain_lt id (hchain ▸ hmem)) hid
  dropped_lt id hmem := Nat.lt_of_lt_of_le (h.dropped_lt id hmem) hid
  live_lt g hg := Nat.lt_of_lt_of_le (h.live_lt g hg) hid
  onChain := hchain ▸ h.onChain

end InOrder

theorem History.inOrder {es : List GuardEvent} {live : List (Guard ε)} {t : Thread ε}
    (h : History es live t) : InOrder es live t := by
  induction h with
  | start hchain holder => exact .start hchain holder
  | opens _ site link active ih => exact ih.opens site link active
  | drops _ ih => exact ih.drops
  | uses _ hid hactive hchained ih => exact ih.uses hid hactive hchained
  | works _ hchain hid ih => exact ih.works hchain hid

/-- Whatever guards are opened and dropped on a thread, and in whatever order: the ids on its chain
increase from the outermost call to the innermost, and each was given to a guard that was active
when it was opened. A guard whose call is on the chain takes it away when it is dropped, with all
calls inside it, and leaves the calls around it; any other guard changes nothing. The id of a guard
that has been dropped is not on the chain, and if all guards have been dropped, no id is. -/
theorem chain_inOrder {es : List GuardEvent} {live : List (Guard ε)} {t : Thread ε}
    (h : History es live t) :
    t.chain.reverse.Pairwise (· < ·)
    ∧ (∀ id ∈ t.chain, .opened id true true ∈ es)
    ∧ (∀ g ∈ live, ∀ u, g.exited u = t →
      (g.isActive = true → g.isChained = true → ∀ above below,
        t.chain = above ++ g.context.id :: below → (g.finish u).chain = below)
      ∧ (¬ (g.isActive = true ∧ g.isChained = true ∧ g.context.id ∈ t.chain) →
        (g.finish u).chain = t.chain))
    ∧ (∀ id, .dropped id ∈ es → id ∉ t.chain)
    ∧ ((∀ id, .opened id true true ∈ es → .dropped id ∈ es) → t.chain = []) := by
  have horder := h.inOrder
  refine ⟨List.pairwise_reverse.mpr horder.descends, horder.entered, ?_,
    fun id hdropped hmem => horder.kept id hmem hdropped, ?_⟩
  · rintro g - u rfl
    rw [g.chain_finish u]
    refine ⟨fun hactive hchained above below hsplit => ?_, fun hother => ?_⟩
    · have hnodup := horder.nodup
      rw [hsplit, List.nodup_middle, List.nodup_cons, List.mem_append, not_or] at hnodup
      rw [hactive, hchained, hsplit]
      exact Chain.leave_append hnodup.1.1 below
    · split
      · next hon =>
        rw [Bool.and_eq_true] at hon
        exact Chain.leave_of_not_mem fun hmem => hother ⟨hon.1, hon.2, hmem⟩
      · rfl
  · intro hall
    apply List.eq_nil_iff_forall_not_mem.mpr
    intro id hmem
    exact horder.kept id hmem (hall id (horder.entered id hmem))

/-! ### A guard that is dropped too early -/

def outerCall : Guard Json × Thread Json :=
  Guard.openAt Session.nestedSite ({} : Thread Json).link true {}

/-- A call inside the outer one, the exit hook of which makes a call as well. -/
def middleCall : Guard Json × Thread Json :=
  let (g, t) := Guard.openAt Session.nestedSite outerCall.1.link true outerCall.2
  (g.setExit (Session.exitHook .nested), t)

def innerCall : Guard Json × Thread Json :=
  Guard.openAt Session.nestedSite middleCall.1.link true middleCall.2

/-- The call that the exit hook makes. -/
def exitCall : Guard Json × Thread Json :=
  let t := Session.logExit .returned middleCall.1.context innerCall.2
  let (g, t) := Guard.openAt Session.nestedSite t.link true t
  (g.setExit fun o c t => (some (), c, Session.logExit o c t), t)

/-- The middle call is over before the inner one is. -/
theorem history_middleCall : History
    [.dropped 2, .dropped 4, .opened 4 true true, .opened 3 true true, .opened 2 true true,
      .opened 1 true true] [innerCall.1, outerCall.1] (middleCall.1.finish innerCall.2) := by
  have hstart : History [] [] ({} : Thread Json) := .start rfl (by simp)
  have houter : History [.opened 1 true true] [outerCall.1] outerCall.2 :=
    hstart.opens Session.nestedSite ({} : Thread Json).link true
  have hmiddle : History [.opened 2 true true, .opened 1 true true]
      ([] ++ middleCall.1 :: [outerCall.1]) middleCall.2 :=
    .uses (houter.opens Session.nestedSite outerCall.1.link true) rfl rfl rfl
  have hinner : History _ [innerCall.1, middleCall.1, outerCall.1] innerCall.2 :=
    hmiddle.opens Session.nestedSite middleCall.1.link true
  have hlogged : History _ [innerCall.1, middleCall.1, outerCall.1]
      (Session.logExit .returned middleCall.1.context innerCall.2) :=
    hinner.works rfl (Nat.le_refl _)
  have hexit : History _ ([] ++ exitCall.1 :: [innerCall.1, middleCall.1, outerCall.1])
      exitCall.2 :=
    .uses (hlogged.opens Session.nestedSite _ true) rfl rfl rfl
  have hexited : History _ ([] ++ exitCall.1 :: [innerCall.1, middleCall.1, outerCall.1])
      (exitCall.1.exited exitCall.2) := hexit.works rfl (Nat.le_refl _)
  have hback : History _ ([innerCall.1] ++ middleCall.1 :: [outerCall.1])
      (middleCall.1.exited innerCall.2) := hexited.drops
  exact hback.drops

/-- The inner call has left the chain with the middle one, so the end of its guard changes nothing;
the outer call stays. -/
theorem chain_inOrder_middleCall :
    (middleCall.1.finish innerCall.2).chain = [1]
    ∧ (innerCall.1.finish (middleCall.1.finish innerCall.2)).chain = [1]
    ∧ 2 ∉ (middleCall.1.finish innerCall.2).chain
    ∧ (outerCall.1.finish (middleCall.1.finish innerCall.2)).chain = [] := by
  obtain ⟨-, -, hdrop, hdropped, -⟩ := chain_inOrder history_middleCall
  have hchain : (middleCall.1.finish innerCall.2).chain = [1] := rfl
  refine ⟨hchain, ?_, hdropped 2 (by decide), ?_⟩
  · have hgone : innerCall.1.context.id ∉ (middleCall.1.finish innerCall.2).chain := by
      rw [hchain]
      decide
    have hexited := Guard.exited_of_exit_eq_none (g := innerCall.1) rfl
      (middleCall.1.finish innerCall.2)
    rw [(hdrop innerCall.1 (by simp) _ hexited).2 fun hon => hgone hon.2.2, hchain]
  · have hexited := Guard.exited_of_exit_eq_none (g := outerCall.1) rfl
      (middleCall.1.finish innerCall.2)
    exact (hdrop outerCall.1 (by simp) _ hexited).1 rfl rfl [] [] hchain

end Invocation
end Instrumentation
