import Instrumentation.Proofs.GeneratedText
import Instrumentation.Proofs.StageCalls

/-!
Names in scope. Read from left to right, generated text declares each name of its own before it uses
it, and no name twice: first the statics of the stages, then the guards group by group.
-/
namespace Instrumentation.Splice

open Splice.Part (fixed name number)

variable {d : Source.Declaration} {stages : List Stage} {groups : List Group}
  {importPath : String} {known later : List OwnName} {parts more : List Part}

/-- The own names in some parts, each with whether it is declared there. -/
def uses (parts : List Part) : List (OwnName × Bool) :=
  parts.filterMap fun
    | .name declares n => some (n, declares)
    | _ => none

@[simp] theorem uses_nil : uses [] = [] := rfl

@[simp] theorem uses_append (parts more : List Part) :
    uses (parts ++ more) = uses parts ++ uses more := List.filterMap_append

/-- The names that are known after some uses, if each is declared once, and before it is used. -/
def scope : List OwnName → List (OwnName × Bool) → Option (List OwnName)
  | known, [] => some known
  | known, (x, true) :: rest => if x ∈ known then none else scope (known ++ [x]) rest
  | known, (x, false) :: rest => if x ∈ known then scope known rest else none

theorem scope_append (known : List OwnName) (us vs : List (OwnName × Bool)) :
    scope known (us ++ vs) = (scope known us).bind fun known => scope known vs := by
  fun_induction scope known us with
  | case1 => rfl
  | case2 known x rest h => simp [scope, h]
  | case3 known x rest h ih => simpa [scope, h] using ih
  | case4 known x rest h ih => simpa [scope, h] using ih
  | case5 known x rest h => simp [scope, h]

/-- Names that are known can be used. -/
theorem scope_known {xs : List OwnName} (h : xs ⊆ known) :
    scope known (xs.map (·, false)) = some known := by
  induction xs with
  | nil => rfl
  | cons x xs ih =>
    obtain ⟨hx, hxs⟩ := List.cons_subset.mp h
    rw [List.map_cons, scope, if_pos hx, ih hxs]

/-- For each use of a name, whether it is declared there. -/
def marks (x : OwnName) (us : List (OwnName × Bool)) : List Bool :=
  us.filterMap fun (y, declares) => if y = x then some declares else none

theorem flatMap_mentionsOf (x : OwnName) (parts : List Part) :
    parts.flatMap (Part.mentionsOf x) = marks x (uses parts) := by
  rw [marks, uses, List.filterMap_filterMap, List.filterMap_eq_flatMap_toList]
  refine List.flatMap_congr fun p _ => ?_
  cases p with
  | name declares n => by_cases h : n = x <;> simp [Part.mentionsOf, h]
  | _ => rfl

theorem subset_of_scope {us : List (OwnName × Bool)} (h : scope known us = some later) :
    known ⊆ later := by
  fun_induction scope known us with
  | case1 => exact List.subset_def.mpr fun hx => Option.some.inj h ▸ hx
  | case2 => cases h
  | case3 known x rest hx ih => exact List.Subset.trans (List.subset_append_left _ _) (ih h)
  | case4 known x rest hx ih => exact ih h
  | case5 => cases h

/-- A name that is not known at first is declared where it is used first, and only there. -/
theorem marks_of_scope {us : List (OwnName × Bool)} (h : scope known us = some later)
    (x : OwnName) : ∃ m, marks x us =
      if x ∈ known then List.replicate m false
      else if x ∈ later then true :: List.replicate m false else [] := by
  fun_induction scope known us with
  | case1 known =>
    obtain rfl := Option.some.inj h
    refine ⟨0, ?_⟩
    split <;> simp [marks, *]
  | case2 => cases h
  | case3 known y rest hy ih =>
    obtain ⟨m, hm⟩ := ih h
    refine ⟨m, ?_⟩
    by_cases hxy : y = x
    · subst hxy
      have hlater : y ∈ later := subset_of_scope h (by simp)
      simpa [marks, hy, hlater] using hm
    · simpa [marks, hxy, Ne.symm hxy] using hm
  | case4 known y rest hy ih =>
    obtain ⟨m, hm⟩ := ih h
    by_cases hxy : y = x
    · subst hxy
      refine ⟨m + 1, ?_⟩
      simpa [marks, hy, List.replicate_succ] using hm
    · exact ⟨m, by simpa [marks, hxy] using hm⟩
  | case5 => cases h

/-- With the names `known` before the parts, the names `later` are known after them. -/
def Scopes (known later : List OwnName) (parts : List Part) : Prop :=
  scope known (uses parts) = some later

namespace Scopes

theorem append {between : List OwnName} (h : Scopes known between parts)
    (h' : Scopes between later more) : Scopes known later (parts ++ more) := by
  rw [Scopes, uses_append, scope_append, h]
  exact h'

theorem of_uses_eq_nil (h : uses parts = []) : Scopes known known parts := by
  rw [Scopes, h, scope]

theorem of_known {x : OwnName} (h : uses parts = [(x, false)]) (hx : x ∈ known) :
    Scopes known known parts := by
  rw [Scopes, h, scope, if_pos hx, scope]

/-- A new name is declared, and then known names are used. -/
theorem of_new {x : OwnName} (xs : List OwnName)
    (h : uses parts = (x, true) :: xs.map (·, false)) (hx : x ∉ known) (hxs : xs ⊆ known) :
    Scopes known (known ++ [x]) parts := by
  rw [Scopes, h, scope, if_neg hx]
  exact scope_known fun y hy => List.mem_append_left _ (hxs hy)

theorem flatMap {α : Type} {f : α → List Part} {xs : List α}
    (h : ∀ x ∈ xs, Scopes known known (f x)) : Scopes known known (xs.flatMap f) := by
  induction xs with
  | nil => rfl
  | cons x xs ih =>
    exact (h x List.mem_cons_self).append (ih fun y hy => h y (List.mem_cons_of_mem x hy))

end Scopes

/-! ### Calls -/

/-- The names that the guard of a group brings along. -/
def groupNames (number : Nat) : Group → List OwnName
  | .single _ => [.guard (.single number)]
  | .fused _ _ => [.sites number, .guard (.fused number)]

theorem guard_mem_groupNames (number : Nat) (g : Group) :
    OwnName.guard (Guard.ofGroup number g) ∈ groupNames number g := by
  cases g <;> simp [groupNames, Guard.ofGroup]

theorem scopes_link {l : Link} (h : ∀ g, l = .outer g → OwnName.guard g ∈ known) :
    Scopes known known l.parts := by
  obtain - | - | ⟨g⟩ | ⟨g⟩ := l
  · rfl
  · rfl
  · exact Scopes.of_known rfl (h _ rfl)
  · exact Scopes.of_known rfl (h _ rfl)

theorem scopes_target {t : Target} (h : OwnName.guard t.guard ∈ known) :
    Scopes known known t.parts := by
  cases t <;> exact Scopes.of_known rfl h

theorem scopes_siteRefs {ks : List Nat} (h : ∀ k ∈ ks, OwnName.site k ∈ known) :
    Scopes known known (siteRefs ks) := by
  fun_induction siteRefs ks with
  | case1 => rfl
  | case2 k => exact Scopes.of_known rfl (h k List.mem_cons_self)
  | case3 k l rest ih =>
    refine Scopes.append ?_ (ih fun m hm => h m (List.mem_cons_of_mem k hm))
    exact Scopes.of_known rfl (h k List.mem_cons_self)

theorem uses_entry (e : Entry) : uses e.parts = [] := by
  obtain ⟨captures, receiver, hook⟩ := e
  have hcaptures : uses (captures.flatMap captureParts) = [] := by
    simp [uses, captureParts, List.filterMap_flatMap]
  rw [Entry.parts, uses_append, uses_append, hcaptures]
  cases receiver <;> cases hook <;> rfl

/-- A stage speaks to its target only. -/
theorem scopes_stageCall {observing returnsResult : Bool} {t : Target} {r : Rule}
    (ht : OwnName.guard t.guard ∈ known) {c : Call} (hc : c ∈ stageCalls d t r) :
    Scopes known known (c.parts observing returnsResult) := by
  have htarget := scopes_target ht
  rcases List.mem_append.mp hc with hc | hc
  · obtain ⟨hook, -, rfl⟩ := Option.map_eq_some_iff.mp (Option.mem_toList.mp hc)
    exact htarget.append (Scopes.of_uses_eq_nil rfl)
  · obtain ⟨e, -, rfl⟩ := Option.map_eq_some_iff.mp (Option.mem_toList.mp hc)
    have hopen : Scopes known known [fixed ".enter(", fixed "|__hw_ctx| \x7b "] := rfl
    have hentry : Scopes known known e.parts := Scopes.of_uses_eq_nil (uses_entry e)
    have hclose : Scopes known known [fixed "\x7d", fixed "); "] := rfl
    exact ((htarget.append hopen).append hentry).append hclose

/-- A guard is opened under a name that is new, over stages and a link that are known. -/
theorem scopes_openCall {observing returnsResult : Bool} {n : Nat} {link : Link} {g : Group}
    (hnew : ∀ x ∈ groupNames n g, x ∉ known) (hsites : ∀ k ∈ g.members, OwnName.site k ∈ known)
    (hlink : ∀ outer, link = .outer outer → OwnName.guard outer ∈ known) :
    Scopes known (known ++ groupNames n g)
      ((openCall stages n link g).parts observing returnsResult) := by
  have hmark {known : List OwnName} :
      Scopes known known [fixed (Call.text.mark observing), fixed "; "] := rfl
  cases g with
  | single k =>
    have hopen : Scopes known (known ++ [OwnName.guard (.single n)]) [fixed "let mut ",
        name true (.guard (.single n)), fixed " = ", fixed (support "Trampoline::"),
        fixed (if (stages[k]?).any Stage.toggled then "toggled" else "new"), fixed "(&",
        name false (.site k), fixed ", "] := by
      refine Scopes.of_new [.site k] rfl ?_ ?_
      · exact hnew _ List.mem_cons_self
      · exact List.cons_subset.mpr ⟨hsites k List.mem_cons_self, List.nil_subset _⟩
    have hparent : Scopes (known ++ [OwnName.guard (.single n)])
        (known ++ [OwnName.guard (.single n)])
        link.parts := scopes_link fun outer h => List.mem_append_left _ (hlink outer h)
    exact (hopen.append hparent).append hmark
  | fused start stop =>
    have hnames : known ++ groupNames n (.fused start stop) =
        known ++ [OwnName.sites n] ++ [OwnName.guard (.fused n)] := by
      simp [groupNames]
    have hlist : Scopes known (known ++ [OwnName.sites n]) [fixed "static ", name true (.sites n),
        fixed ": [&", fixed (support "CallSite"), fixed "; ",
        number (Group.fused start stop).members.length, fixed "] = ["] :=
      Scopes.of_new [] rfl (hnew _ List.mem_cons_self) (List.nil_subset _)
    have hrefs : Scopes (known ++ [OwnName.sites n]) (known ++ [OwnName.sites n])
        (siteRefs (Group.fused start stop).members) :=
      scopes_siteRefs fun k hk => List.mem_append_left _ (hsites k hk)
    have hopen : Scopes (known ++ [OwnName.sites n])
        (known ++ [OwnName.sites n] ++ [OwnName.guard (.fused n)])
        [fixed "; let mut ", name true (.guard (.fused n)), fixed " = ",
          fixed (support "Fused::new(&"), name false (.sites n), fixed ", "] := by
      refine Scopes.of_new [.sites n] rfl ?_ ?_
      · have hguard := hnew (.guard (.fused n)) (by simp [groupNames])
        simp [hguard]
      · exact List.cons_subset.mpr ⟨by simp, List.nil_subset _⟩
    have hparent : Scopes (known ++ [OwnName.sites n] ++ [OwnName.guard (.fused n)])
        (known ++ [OwnName.sites n] ++ [OwnName.guard (.fused n)]) link.parts :=
      scopes_link fun outer h =>
        List.mem_append_left _ (List.mem_append_left _ (hlink outer h))
    rw [hnames]
    exact (((hlist.append hrefs).append hopen).append hparent).append hmark

/-- One group more: its names are known, and no others. -/
theorem scopes_groupOpening {n : Nat} {link : Link} {g : Group}
    (hnew : ∀ x ∈ groupNames n g, x ∉ known) (hsites : ∀ k ∈ g.members, OwnName.site k ∈ known)
    (hlink : ∀ outer, link = .outer outer → OwnName.guard outer ∈ known) :
    Scopes known (known ++ groupNames n g)
      (callsParts d stages (groupOpening d stages n link g)) := by
  rw [callsParts, groupOpening, List.flatMap_cons]
  refine (scopes_openCall hnew hsites hlink).append (Scopes.flatMap fun c hc => ?_)
  obtain ⟨⟨k, r⟩, -, hc⟩ := List.mem_flatMap.mp hc
  refine scopes_stageCall ?_ hc
  rw [ofStage_guard]
  exact List.mem_append_right _ (guard_mem_groupNames n g)

/-- Where groups are still to be numbered from `n` on: of the names of guards, those before are
known at most. -/
def Numbered (n : Nat) (known : List OwnName) : Prop :=
  ∀ x ∈ known, (∃ k, x = .site k) ∨ x.number < n

theorem Numbered.notMem {n : Nat} (h : Numbered n known) (g : Group) :
    ∀ x ∈ groupNames n g, x ∉ known := by
  intro x hx hknown
  have hnumber : (∀ k, x ≠ .site k) ∧ x.number = n := by
    cases g <;> simp only [groupNames, List.mem_cons, List.not_mem_nil, or_false] at hx
    · subst hx
      exact ⟨nofun, rfl⟩
    · rcases hx with rfl | rfl <;> exact ⟨nofun, rfl⟩
  rcases h x hknown with ⟨k, hsite⟩ | hlt
  · exact hnumber.1 k hsite
  · omega

theorem Numbered.append {n : Nat} (h : Numbered n known) (g : Group) :
    Numbered (n + 1) (known ++ groupNames n g) := by
  intro x hx
  rcases List.mem_append.mp hx with hx | hx
  · exact (h x hx).imp_right Nat.lt_succ_of_lt
  · refine .inr ?_
    cases g <;> simp only [groupNames, List.mem_cons, List.not_mem_nil, or_false] at hx
    · subst hx
      exact Nat.lt_succ_self n
    · rcases hx with rfl | rfl <;> exact Nat.lt_succ_self n

/-- All groups before the body, from number `n` on. -/
theorem scopes_openingFrom {n : Nat} {link : Link} (hknown : Numbered n known)
    (hsites : ∀ g ∈ groups, ∀ k ∈ g.members, OwnName.site k ∈ known)
    (hlink : ∀ outer, link = .outer outer → OwnName.guard outer ∈ known) :
    Scopes known (known ++ (groups.zipIdx n).flatMap fun (g, i) => groupNames i g)
      (callsParts d stages (openingFrom d stages n link groups)) := by
  induction groups generalizing n link known with
  | nil => simp [openingFrom, callsParts, Scopes, scope]
  | cons g rest ih =>
    have hfirst : Scopes known (known ++ groupNames n g)
        (callsParts d stages (groupOpening d stages n link g)) :=
      scopes_groupOpening (hknown.notMem g) (hsites g List.mem_cons_self) hlink
    have hrest : Scopes (known ++ groupNames n g)
        (known ++ groupNames n g ++ (rest.zipIdx (n + 1)).flatMap fun (g, i) => groupNames i g)
        (callsParts d stages (openingFrom d stages (n + 1) (.outer (Guard.ofGroup n g)) rest)) :=
      ih (hknown.append g)
        (fun h hh k hk => List.mem_append_left _ (hsites h (List.mem_cons_of_mem g hh) k hk))
        fun outer houter => by
        obtain rfl := Link.outer.inj houter
        exact List.mem_append_right _ (guard_mem_groupNames n g)
    rw [List.append_assoc] at hrest
    rw [openingFrom, callsParts, List.flatMap_append, List.zipIdx_cons, List.flatMap_cons]
    exact hfirst.append hrest

/-- After the body, calls speak to guards that were opened. -/
theorem scopes_closing
    (hguards : ∀ i g, groups[i]? = some g → OwnName.guard (Guard.ofGroup i g) ∈ known) :
    Scopes known known (callsParts d stages (closing stages groups)) := by
  refine Scopes.flatMap fun c hc => ?_
  obtain ⟨⟨g, i⟩, hg, hc⟩ := List.mem_flatMap.mp hc
  have hguard := hguards i g (List.mk_mem_zipIdx_iff_getElem?.mp hg)
  rcases List.mem_append.mp hc with hc | hc
  · obtain ⟨⟨k, r⟩, -, hc⟩ := List.mem_filterMap.mp hc
    obtain ⟨capture, -, rfl⟩ := Option.map_eq_some_iff.mp hc
    refine (scopes_target ?_).append (Scopes.of_uses_eq_nil rfl)
    rwa [ofStage_guard]
  · rw [List.mem_singleton.mp hc]
    exact Scopes.of_known rfl hguard

theorem scopes_sites {k : Nat} (hnew : ∀ l, k ≤ l → OwnName.site l ∉ known) {function : String} :
    Scopes known (known ++ (List.range' k stages.length).map OwnName.site)
      ((stages.zipIdx k).flatMap fun (s, k) => siteParts importPath function k s) := by
  induction stages generalizing k known with
  | nil => simp [Scopes, scope]
  | cons s rest ih =>
    have hsite : Scopes known (known ++ [OwnName.site k]) (siteParts importPath function k s) :=
      Scopes.of_new [] rfl (hnew k le_rfl) (List.nil_subset _)
    have hnext : ∀ l, k + 1 ≤ l → OwnName.site l ∉ known ++ [OwnName.site k] := by
      intro l hl hmem
      rcases List.mem_append.mp hmem with hmem | hmem
      · exact hnew l (by omega) hmem
      · obtain rfl := OwnName.site.inj (List.mem_singleton.mp hmem)
        omega
    have hrest := ih hnext
    rw [List.append_assoc] at hrest
    rw [List.zipIdx_cons, List.flatMap_cons, List.length_cons, List.range'_succ, List.map_cons]
    exact hsite.append hrest

end Instrumentation.Splice
