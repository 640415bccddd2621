import Instrumentation.Proofs.RuleTexts

/-!
The whole of a splice in parts, and which of its texts are given from outside: the parameters that
rules capture, the paths of their hooks, and the type of the result.
-/
namespace Instrumentation.Splice

open Splice.Part (fixed given)

variable {importPath : String} {d : Source.Declaration} {stages : List Stage} {groups : List Group}

/-- The statics that describe the stages. -/
def sitesParts (importPath : String) (d : Source.Declaration) (stages : List Stage) : List Part :=
  stages.zipIdx.flatMap fun (s, k) => siteParts importPath d.qualifiedName k s

def callsParts (d : Source.Declaration) (stages : List Stage) (calls : List Call) : List Part :=
  calls.flatMap (Call.parts (Stage.bodyForm d stages == .observing) d.returnsResult)

/-- What stands before a body, to where the type of the result can stand. -/
def headParts (importPath : String) (d : Source.Declaration) (stages : List Stage)
    (groups : List Group) : List Part :=
  [fixed "\x7b "] ++ sitesParts importPath d stages ++
    callsParts d stages (opening d stages groups) ++
    if Stage.bodyForm d stages == .observing then [fixed (bodyHead d)] else []

def beforeParts (importPath : String) (d : Source.Declaration) (stages : List Stage)
    (groups : List Group) : List Part :=
  headParts importPath d stages groups ++ typeParts (spelledType? d stages)

def afterParts (d : Source.Declaration) (stages : List Stage) (groups : List Group) : List Part :=
  if Stage.bodyForm d stages == .observing then
    [fixed (bodyClosing d)] ++ callsParts d stages (closing stages groups) ++
      [fixed "__hw_ret \x7d"]
  else [fixed " \x7d"]

theorem spell_sitesParts : spell (sitesParts importPath d stages) = (Text.joined ""
    (stages.zipIdx.map fun (s, k) => siteText importPath d.qualifiedName k s)).toList := by
  rw [sitesParts, spell_flatMap, toList_joined, List.flatMap_map]
  exact List.flatMap_congr fun p _ => spell_site ..

theorem spell_callsParts (calls : List Call) : spell (callsParts d stages calls) =
    (Text.joined "" (calls.map
      (Call.text (Stage.bodyForm d stages == .observing) d.returnsResult))).toList := by
  rw [callsParts, spell_flatMap, toList_joined, List.flatMap_map]
  exact List.flatMap_congr fun c _ => spell_call ..

theorem spell_beforeParts : spell (beforeParts importPath d stages groups) =
    (generate importPath d stages groups).before.toList := by
  unfold beforeParts headParts generate
  dsimp only
  split
  · next hform =>
    rw [String.toList_append, ← spell_bodyOpening d stages (beq_iff_eq.mp hform)]
    simp only [spell_append, spell_cons, spell_nil, spell_sitesParts, spell_callsParts, Part.text,
      String.toList_append, List.append_nil, List.append_assoc]
  · next hform =>
    have hnone : spelledType? d stages = none := by simp [spelledType?, hform]
    simp only [hnone, typeParts, spell_append, spell_cons, spell_nil, spell_sitesParts,
      spell_callsParts, Part.text, String.toList_append, List.append_nil]

theorem spell_afterParts : spell (afterParts d stages groups) =
    (generate importPath d stages groups).after.toList := by
  unfold afterParts generate
  dsimp only
  split <;> simp only [spell_append, spell_cons, spell_nil, spell_callsParts, Part.text,
    String.toList_append, List.append_nil]

theorem fits_sitesParts : Fits (sitesParts importPath d stages) :=
  Fits.flatMap fun _ _ => fits_site ..

theorem fits_callsParts (calls : List Call) : Fits (callsParts d stages calls) :=
  Fits.flatMap fun _ _ => fits_call ..

theorem fits_headParts : Fits (headParts importPath d stages groups) := by
  refine Fits.append (Fits.append (Fits.append ?_ fits_sitesParts) (fits_callsParts _)) ?_
  · exact Fits.of_kinds (by decide)
  · split
    · exact fits_bodyHead d
    · exact fits_nil

/-- The text before a body, with a block behind it. -/
theorem fits_beforeParts : Fits (beforeParts importPath d stages groups ++ [fixed "\x7b\x7d"]) := by
  rw [beforeParts, List.append_assoc]
  exact fits_headParts.append (fits_type _)

theorem fits_afterParts : Fits (afterParts d stages groups) := by
  unfold afterParts bodyClosing
  split
  · refine (Fits.append ?_ (fits_callsParts _)).append (Fits.of_kinds (by decide))
    split <;> exact Fits.of_kinds (by decide)
  · exact Fits.of_kinds (by decide)

/-! ### Given texts -/

/-- The texts of a rule that the calls of its stage repeat. -/
def ruleTexts (r : Rule) : List String :=
  r.paramCaptures.map Capture.param ++ (Registry.hooksOf r).map fun e => e.2.absolute

def Call.givenTexts : Call → List String
  | .setExit _ hook => [hook.absolute]
  | .enter _ entry =>
    entry.captures.map Capture.param ++ (entry.hook.map HookRef.absolute).toList
  | _ => []

theorem given_notMem_link (l : Link) (s : String) : given s ∉ l.parts := by
  obtain - | - | ⟨g⟩ | ⟨g⟩ := l <;> simp [Link.parts]

theorem given_notMem_target (t : Target) (s : String) : given s ∉ t.parts := by
  cases t <;> simp [Target.parts]

theorem given_notMem_siteRefs (ks : List Nat) (s : String) : given s ∉ siteRefs ks := by
  fun_induction siteRefs ks with
  | case1 => simp
  | case2 k => simp
  | case3 k l rest ih => simp [ih]

theorem given_mem_entry_iff {e : Entry} {s : String} : given s ∈ e.parts ↔
    s ∈ e.captures.map Capture.param ++ (e.hook.map HookRef.absolute).toList := by
  have hcaptures :
      given s ∈ e.captures.flatMap captureParts ↔ s ∈ e.captures.map Capture.param := by
    simp [captureParts, eq_comm]
  have hreceiver : given s ∉ e.receiver.elim [] receiverParts := by
    cases e.receiver <;> simp [receiverParts]
  have hhook : given s ∈ e.hook.elim [] (hookParts e.receiver) ↔
      s ∈ (e.hook.map HookRef.absolute).toList := by
    cases e.hook <;> cases e.receiver <;> simp [hookParts]
  simp only [Entry.parts, List.mem_append, hcaptures, hreceiver, hhook, or_false]

theorem given_mem_call_iff {observing returnsResult : Bool} {c : Call} {s : String} :
    given s ∈ c.parts observing returnsResult ↔ s ∈ c.givenTexts := by
  cases c with
  | openSingle group stage toggled link =>
    simp [Call.parts, Call.givenTexts, given_notMem_link]
  | openFused group stages link =>
    simp [Call.parts, Call.givenTexts, given_notMem_link, given_notMem_siteRefs]
  | setExit target hook => simp [Call.parts, Call.givenTexts, given_notMem_target]
  | enter target entry =>
    simp [Call.parts, Call.givenTexts, given_notMem_target, given_mem_entry_iff]
  | record target mode => simp [Call.parts, Call.givenTexts, given_notMem_target]
  | complete guard => simp [Call.parts, Call.givenTexts]

theorem given_mem_callsParts_iff {calls : List Call} {s : String} :
    given s ∈ callsParts d stages calls ↔ ∃ c ∈ calls, s ∈ c.givenTexts := by
  simp only [callsParts, List.mem_flatMap, given_mem_call_iff]

/-- There is no entry only if it would repeat nothing. -/
theorem mem_givenTexts_entry_iff {target : Target} {r : Rule} {s : String} :
    (∃ e ∈ Entry.of? d r, s ∈ (Call.enter target e).givenTexts) ↔
      s ∈ r.paramCaptures.map Capture.param ++ (r.onEnter.map HookRef.absolute).toList := by
  unfold Entry.of?
  dsimp only
  split
  · next hempty =>
    simp only [Bool.and_eq_true, List.isEmpty_iff, Option.isNone_iff_eq_none] at hempty
    simp [hempty.1.1, hempty.2]
  · simp [Call.givenTexts]

/-- A stage repeats just the texts of its rule. -/
theorem mem_givenTexts_stageCalls_iff {target : Target} {r : Rule} {s : String} :
    (∃ c ∈ stageCalls d target r, s ∈ c.givenTexts) ↔ s ∈ ruleTexts r := by
  have hexit : (∃ c ∈ (r.onExit.map (Call.setExit target)).toList, s ∈ c.givenTexts) ↔
      s ∈ (r.onExit.map HookRef.absolute).toList := by
    cases r.onExit <;> simp [Call.givenTexts]
  have henter : (∃ c ∈ ((Entry.of? d r).map (Call.enter target)).toList, s ∈ c.givenTexts) ↔
      s ∈ r.paramCaptures.map Capture.param ++ (r.onEnter.map HookRef.absolute).toList := by
    rw [← @mem_givenTexts_entry_iff d target]
    cases Entry.of? d r <;> simp
  have hhooks : s ∈ (Registry.hooksOf r).map (fun e => e.2.absolute) ↔
      s ∈ (r.onEnter.map HookRef.absolute).toList ∨ s ∈ (r.onExit.map HookRef.absolute).toList := by
    rw [Registry.hooksOf]
    cases r.onEnter <;> cases r.onExit <;> simp
  rw [stageCalls, ruleTexts, List.mem_append, hhooks]
  simp only [List.mem_append, or_and_right, exists_or] at henter ⊢
  rw [hexit, henter, or_comm, or_assoc]

theorem mem_givenTexts_openingFrom_iff {n : Nat} {link : Link} {s : String} :
    (∃ c ∈ openingFrom d stages n link groups, s ∈ c.givenTexts) ↔
      ∃ g ∈ groups, ∃ p ∈ rulesOf stages g, s ∈ ruleTexts p.2 := by
  induction groups generalizing n link with
  | nil => simp [openingFrom]
  | cons g rest ih =>
    have hopen : s ∉ (openCall stages n link g).givenTexts := by
      cases g <;> simp [openCall, Call.givenTexts]
    have hgroup : (∃ c ∈ groupOpening d stages n link g, s ∈ c.givenTexts) ↔
        ∃ p ∈ rulesOf stages g, s ∈ ruleTexts p.2 := by
      constructor
      · rintro ⟨c, hc, hs⟩
        rcases List.mem_cons.mp hc with rfl | hc
        · exact absurd hs hopen
        · obtain ⟨p, hp, hc⟩ := List.mem_flatMap.mp hc
          exact ⟨p, hp, mem_givenTexts_stageCalls_iff.mp ⟨c, hc, hs⟩⟩
      · rintro ⟨p, hp, hs⟩
        obtain ⟨c, hc, hs⟩ := mem_givenTexts_stageCalls_iff.mpr hs
        exact ⟨c, List.mem_cons_of_mem _ (List.mem_flatMap.mpr ⟨p, hp, hc⟩), hs⟩
    simp only [openingFrom, List.mem_append, List.mem_cons, or_and_right, exists_or, exists_eq_left,
      hgroup, ih]

theorem mem_givenTexts_closing (c : Call) (hc : c ∈ closing stages groups) : c.givenTexts = [] := by
  obtain ⟨⟨g, n⟩, -, hc⟩ := List.mem_flatMap.mp hc
  rcases List.mem_append.mp hc with hc | hc
  · obtain ⟨⟨k, r⟩, -, hc⟩ := List.mem_filterMap.mp hc
    obtain ⟨c', -, rfl⟩ := Option.map_eq_some_iff.mp hc
    rfl
  · rw [List.mem_singleton.mp hc]
    rfl

theorem given_notMem_sites {s : String} : given s ∉ sitesParts importPath d stages := by
  simp [sitesParts, siteParts]

theorem given_mem_headParts_iff {s : String} : given s ∈ headParts importPath d stages groups ↔
    ∃ g ∈ groups, ∃ p ∈ rulesOf stages g, s ∈ ruleTexts p.2 := by
  have hcalls : given s ∈ callsParts d stages (opening d stages groups) ↔
      ∃ g ∈ groups, ∃ p ∈ rulesOf stages g, s ∈ ruleTexts p.2 := by
    rw [given_mem_callsParts_iff, opening, mem_givenTexts_openingFrom_iff]
  have hbody : given s ∉ if Stage.bodyForm d stages == .observing then
      [fixed (bodyHead d)] else [] := by
    split <;> simp
  simp only [headParts, List.mem_append, given_notMem_sites, hcalls, hbody, List.mem_singleton,
    reduceCtorEq, false_or, or_false]

theorem given_mem_typeParts_iff {s : String} {type : Option String} :
    given s ∈ typeParts type ↔ s ∈ type := by
  cases type <;> simp [typeParts, eq_comm]

theorem given_notMem_after {s : String} : given s ∉ afterParts d stages groups := by
  have hcalls : given s ∉ callsParts d stages (closing stages groups) := by
    rw [given_mem_callsParts_iff]
    rintro ⟨c, hc, hs⟩
    rw [mem_givenTexts_closing c hc] at hs
    cases hs
  unfold afterParts
  split <;> simp [hcalls]

theorem mem_rulesOf_iff {g : Group} {p : Nat × Rule} :
    p ∈ rulesOf stages g ↔ p.1 ∈ g.members ∧ ∃ s ∈ stages[p.1]?, s.rule = p.2 := by
  simp only [rulesOf, List.mem_filterMap, Option.map_eq_some_iff]
  constructor
  · rintro ⟨k, hk, s, hs, rfl⟩
    exact ⟨hk, s, hs, rfl⟩
  · rintro ⟨hk, s, hs, hrule⟩
    exact ⟨p.1, hk, s, hs, by rw [hrule]⟩

end Instrumentation.Splice
