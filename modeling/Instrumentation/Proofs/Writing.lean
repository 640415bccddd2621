import Instrumentation.Writing
import Instrumentation.Proofs.Places

/-!
Runs that write, by what they leave: one rule for each way of putting runs together. A rule also
says what a failed run leaves, since what it has written stays written.
-/
namespace Instrumentation.Writing

variable {α β : Type} {pre fail : FileTree → Prop} {m : Writing α}

/-- From a tree with `pre`, a run that gives `a` leaves a tree with `post a`, and a run that fails
leaves a tree with `fail`. -/
structure Leaves (pre : FileTree → Prop) (m : Writing α) (post : α → FileTree → Prop)
    (fail : FileTree → Prop) : Prop where
  run : ∀ t, pre t → match m.on t with
    | (.ok a, t') => post a t'
    | (.error _, t') => fail t'

theorem on_bind (m : Writing α) (f : α → Writing β) (t : FileTree) :
    (m >>= f).on t = match m.on t with
      | (.ok a, t') => (f a).on t'
      | (.error e, t') => (.error e, t') := by
  simp only [on, ExceptT.run_bind, StateT.run_bind]
  cases h : StateT.run (ExceptT.run m) t with
  | mk r t' =>
    cases r <;> rfl

namespace Leaves

theorem imp {pre' fail' : FileTree → Prop} {post post' : α → FileTree → Prop}
    (h : Leaves pre m post fail) (hpre : ∀ t, pre' t → pre t) (hpost : ∀ a t, post a t → post' a t)
    (hfail : ∀ t, fail t → fail' t) : Leaves pre' m post' fail' := by
  refine ⟨fun t ht => ?_⟩
  have hm := h.run t (hpre t ht)
  split at hm
  · next heq => simpa [heq] using hpost _ _ hm
  · next heq => simpa [heq] using hfail _ hm

theorem pure {post : α → FileTree → Prop} {a : α} (h : ∀ t, pre t → post a t) :
    Leaves pre (Pure.pure a) post fail := ⟨h⟩

theorem throw {post : α → FileTree → Prop} {e : Failure} (h : ∀ t, pre t → fail t) :
    Leaves pre (MonadExcept.throw e) post fail := ⟨h⟩

theorem bind {mid : α → FileTree → Prop} {post : β → FileTree → Prop} {f : α → Writing β}
    (hm : Leaves pre m mid fail) (hf : ∀ a, Leaves (mid a) (f a) post fail) :
    Leaves pre (m >>= f) post fail := by
  refine ⟨fun t ht => ?_⟩
  have hfirst := hm.run t ht
  rw [on_bind]
  split at hfirst
  · next heq => simpa [heq] using (hf _).run _ hfirst
  · next heq => simpa [heq] using hfirst

/-- The tree is given as it is. -/
theorem get : Leaves pre (MonadState.get : Writing FileTree) (fun s t => s = t ∧ pre t) fail :=
  ⟨fun _ ht => ⟨rfl, ht⟩⟩

theorem set (post : FileTree → Prop) {s : FileTree} (h : ∀ t, pre t → post s) :
    Leaves pre (MonadState.set s : Writing PUnit) (fun _ => post) fail := ⟨h⟩

theorem orFail {r : Except Failure α} (h : ∀ t, pre t → fail t) :
    Leaves pre (Writing.orFail r) (fun a t => r = .ok a ∧ pre t) fail := by
  refine ⟨fun t ht => ?_⟩
  cases r with
  | ok a => exact ⟨rfl, ht⟩
  | error e => exact h t ht

theorem change {post : FileTree → Prop} {path : Path} {f : FileTree → Except IoFault FileTree}
    (h : ∀ t t', pre t → f t = .ok t' → post t') (hfail : ∀ t, pre t → fail t) :
    Leaves pre (Writing.change path f) (fun _ => post) fail := by
  refine get.bind fun s => ⟨?_⟩
  rintro t ⟨rfl, ht⟩
  cases hf : f s with
  | ok t' => exact h s t' ht hf
  | error e => exact hfail s ht

/-- Writing a file puts it where its path leads. -/
theorem file {post : FileTree → Prop} {path : Path} {text : String}
    (h : ∀ t, pre t → post (t.put (path.lead t.cwd) (.text text))) (hfail : ∀ t, pre t → fail t) :
    Leaves pre (Writing.file path text) (fun _ => post) fail := by
  refine change (fun t t' ht hwrite => ?_) hfail
  rw [FileTree.write_eq_ok hwrite]
  exact h t ht

/-- Making directories keeps what is kept when there are more of them. -/
theorem dirs {path : Path} (h : ∀ t dirs, t.dirs ⊆ dirs → pre t → pre { t with dirs })
    (hfail : ∀ t, pre t → fail t) :
    Leaves pre (Writing.dirs path) (fun _ => pre) fail := by
  refine change (fun t t' ht hdirs => ?_) hfail
  obtain ⟨hfiles, hgrows⟩ := FileTree.makeDirs_keeps hdirs
  have heq : t' = { t with dirs := t'.dirs } := by rw [← hfiles, ← hgrows.cwd]
  rw [heq]
  exact h t t'.dirs hgrows.dirs ht

/-- What every step keeps, all of them keep. -/
theorem forM {xs : List α} {f : α → Writing PUnit}
    (h : ∀ a ∈ xs, Leaves pre (f a) (fun _ => pre) fail) :
    Leaves pre (xs.forM f) (fun _ => pre) fail := by
  induction xs with
  | nil => exact pure fun _ ht => ht
  | cons a xs ih =>
    exact (h a (by simp)).bind fun _ => ih fun b hb => h b (List.mem_cons_of_mem a hb)

/-- What holds after some members have been passed over, holds after all of them in the end. -/
theorem foldlM {inv : List α → β → FileTree → Prop} {xs : List α} {f : β → α → Writing β} {b : β}
    (h : ∀ done, ∀ a ∈ xs, ∀ b, Leaves (inv done b) (f b a) (inv (done ++ [a])) fail)
    (done : List α) : Leaves (inv done b) (xs.foldlM f b) (inv (done ++ xs)) fail := by
  induction xs generalizing b done with
  | nil =>
    rw [List.append_nil]
    exact pure fun _ ht => ht
  | cons a xs ih =>
    rw [List.foldlM_cons, ← List.singleton_append, ← List.append_assoc]
    exact (h done a (by simp) b).bind fun _ =>
      ih (fun done b hb => h done b (List.mem_cons_of_mem a hb)) (done ++ [a])

/-- A run that does not fail leaves a tree with `post`. -/
theorem of_result {post : α → FileTree → Prop} (h : Leaves pre m post fail) {t t' : FileTree} {a : α}
    (ht : pre t) (hm : m.result t = .ok (t', a)) : post a t' := by
  have hrun := h.run t ht
  unfold result at hm
  split at hm
  · next heq =>
    cases hm
    simpa [heq] using hrun
  · cases hm

/-- What a run leaves in every case. -/
theorem always {post : α → FileTree → Prop} (h : Leaves pre m post fail)
    (hpost : ∀ a t, post a t → fail t) {t : FileTree} (ht : pre t) : fail (m.on t).2 := by
  have hrun := h.run t ht
  split at hrun
  · next heq => simpa [heq] using hpost _ _ hrun
  · next heq => simpa [heq] using hrun

end Leaves
end Instrumentation.Writing
