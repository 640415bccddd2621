import Instrumentation.Proofs.Scopes

/-!
Generated text as a whole, around an empty block: its own names are in scope, its calls are those of
the stages and their groups, and its delimiters are balanced.
-/
namespace Instrumentation.Splice

open Splice.Part (fixed given)

variable {importPath : String} {d : Source.Declaration} {stages : List Stage} {groups : List Group}

/-- The text around an empty block. -/
def aroundBlock (s : Splice) : List Char := s.before.toList ++ "\x7b\x7d".toList ++ s.after.toList

/-- The own names that generated text declares. -/
def ownNames (stages : List Stage) (groups : List Group) : List OwnName :=
  (List.range stages.length).map OwnName.site ++ groups.zipIdx.flatMap fun (g, i) => groupNames i g

/-- A name is one of the words of a text. -/
def OwnName.StandsIn (x : OwnName) (s : String) : Prop :=
  Token.word x.text.toList ∈ (tokens? s.toList).getD []

/-- The text around an empty block, without the type of the result. -/
def untypedParts (importPath : String) (d : Source.Declaration) (stages : List Stage)
    (groups : List Group) : List Part :=
  headParts importPath d stages groups ++ ([fixed "\x7b\x7d"] ++ afterParts d stages groups)

theorem fits_untypedParts : Fits (untypedParts importPath d stages groups) :=
  fits_headParts.append ((Fits.of_kinds (by decide)).append fits_afterParts)

def aroundParts (importPath : String) (d : Source.Declaration) (stages : List Stage)
    (groups : List Group) : List Part :=
  beforeParts importPath d stages groups ++ [fixed "\x7b\x7d"] ++ afterParts d stages groups

theorem fits_aroundParts : Fits (aroundParts importPath d stages groups) :=
  fits_beforeParts.append fits_afterParts

theorem spell_aroundParts : spell (aroundParts importPath d stages groups) =
    aroundBlock (generate importPath d stages groups) := by
  simp only [aroundParts, aroundBlock, spell_append, spell_beforeParts, spell_cons, spell_nil,
    Part.text, List.append_nil]
  rw [spell_afterParts]

/-! ### Names -/

theorem scopes_headParts (hgroups : groups.flatMap Group.members = List.range stages.length) :
    Scopes [] (ownNames stages groups) (headParts importPath d stages groups) := by
  have hopen : Scopes [] [] [fixed "\x7b "] := rfl
  have hsites : Scopes [] ((List.range stages.length).map OwnName.site)
      (sitesParts importPath d stages) := by
    have hscopes : Scopes [] ([] ++ (List.range' 0 stages.length).map OwnName.site)
        (sitesParts importPath d stages) := scopes_sites (by simp)
    rwa [List.nil_append, ← List.range_eq_range'] at hscopes
  have hcalls : Scopes ((List.range stages.length).map OwnName.site) (ownNames stages groups)
      (callsParts d stages (opening d stages groups)) := by
    refine scopes_openingFrom (fun x hx => ?_) (fun g hg k hk => ?_) fun outer houter => ?_
    · obtain ⟨k, -, rfl⟩ := List.mem_map.mp hx
      exact .inl ⟨k, rfl⟩
    · refine List.mem_map_of_mem ?_
      rw [← hgroups]
      exact List.mem_flatMap.mpr ⟨g, hg, hk⟩
    · split at houter <;> cases houter
  refine ((hopen.append hsites).append hcalls).append ?_
  split <;> exact Scopes.of_uses_eq_nil rfl

theorem scopes_afterParts :
    Scopes (ownNames stages groups) (ownNames stages groups) (afterParts d stages groups) := by
  have hcalls : Scopes (ownNames stages groups) (ownNames stages groups)
      (callsParts d stages (closing stages groups)) := by
    refine scopes_closing fun i g hg => List.mem_append_right _ ?_
    exact List.mem_flatMap.mpr ⟨(g, i), List.mk_mem_zipIdx_iff_getElem?.mpr hg,
      guard_mem_groupNames i g⟩
  unfold afterParts
  split
  · have hopen : Scopes (ownNames stages groups) (ownNames stages groups)
        [fixed (bodyClosing d)] := rfl
    exact (hopen.append hcalls).append (Scopes.of_uses_eq_nil rfl)
  · exact Scopes.of_uses_eq_nil rfl

/-- The texts of rules can be read, if the names of their hook crates can be. -/
theorem readable_ruleTexts {r : Rule} (hr : r.Spelled)
    (hcrate : (tokens? r.hookCrate.name.toList).isSome = true) :
    ∀ s ∈ ruleTexts r, (tokens? s.toList).isSome = true := by
  have hpath {cs : List Char} (h : ∀ c ∈ cs, isPathChar c = true) : (tokens? cs).isSome = true := by
    obtain ⟨ts, hts, -⟩ := exists_tokensFrom_path h []
    exact Option.isSome_of_mem hts
  intro s hs
  rcases List.mem_append.mp hs with hs | hs
  · obtain ⟨c, hc, rfl⟩ := List.mem_map.mp hs
    exact hpath (isPathChar_of_isIdentifier (hr.captures c hc))
  · obtain ⟨e, he, rfl⟩ := List.mem_map.mp hs
    obtain ⟨ts, hts⟩ := Option.isSome_iff_exists.mp hcrate
    obtain ⟨us, hus⟩ := Option.isSome_iff_exists.mp
      (hpath (isPathChar_of_isPathText (hr.paths e he)))
    have hcolons : tokens? "::".toList = some [.mark ':', .mark ':'] := by decide
    have hcloses : endsWord "::".toList = false := by decide
    have hopens (rest : List Char) : opensWord ("::".toList ++ rest) = false := rfl
    rw [HookRef.absolute, hr.crates e he]
    simp only [String.toList_append, List.append_assoc]
    refine Option.isSome_of_mem (tokens?_append hcolons (tokens?_append hts
      (tokens?_append hcolons hus (.inl hcloses)) (.inr (hopens _))) (.inl hcloses))

/-- With identifiers for hook crates, the texts of rules are words with double colons. -/
theorem undelimited_ruleTexts {r : Rule} (hr : r.Spelled)
    (hcrate : isIdentifier r.hookCrate.name.toList = true) :
    ∀ s ∈ ruleTexts r, ∃ ts, tokens? s.toList = some ts ∧ delimiters ts = [] := by
  intro s hs
  refine exists_tokensFrom_path (fun c hc => ?_) []
  rcases List.mem_append.mp hs with hs | hs
  · obtain ⟨k, hk, rfl⟩ := List.mem_map.mp hs
    exact isPathChar_of_isIdentifier (hr.captures k hk) c hc
  · obtain ⟨e, he, rfl⟩ := List.mem_map.mp hs
    rw [HookRef.absolute, hr.crates e he] at hc
    simp only [String.toList_append, List.mem_append] at hc
    have hcolons : "::".toList.all isPathChar = true := by decide
    rcases hc with ((hc | hc) | hc) | hc
    · exact List.all_eq_true.mp hcolons c hc
    · exact isPathChar_of_isIdentifier hcrate c hc
    · exact List.all_eq_true.mp hcolons c hc
    · exact isPathChar_of_isPathText (hr.paths e he) c hc

theorem exists_stage_of_given {s : String} (h : given s ∈ headParts importPath d stages groups) :
    ∃ stage ∈ stages, s ∈ ruleTexts stage.rule := by
  obtain ⟨g, -, p, hp, hs⟩ := given_mem_headParts_iff.mp h
  obtain ⟨-, stage, hstage, hrule⟩ := mem_rulesOf_iff.mp hp
  exact ⟨stage, List.mem_of_getElem? hstage, hrule ▸ hs⟩

theorem exists_stage_of_given_untyped {s : String}
    (h : given s ∈ untypedParts importPath d stages groups) :
    ∃ stage ∈ stages, s ∈ ruleTexts stage.rule := by
  rcases List.mem_append.mp h with h | h
  · exact exists_stage_of_given h
  · simp [given_notMem_after] at h

/-- Without the type of the result, the text can be read, and each of its own names is declared
where it is used first, and only there. -/
theorem mentions_untyped (importPath : String) (d : Source.Declaration)
    (hgroups : groups.flatMap Group.members = List.range stages.length)
    (hstages : ∀ s ∈ stages, s.rule.Spelled)
    (hcrates : ∀ s ∈ stages, (tokens? s.rule.hookCrate.name.toList).isSome = true) :
    ∃ ts, tokens? (spell (untypedParts importPath d stages groups)) = some ts ∧
      ∀ x : OwnName, (∀ s ∈ stages, ∀ text ∈ ruleTexts s.rule, ¬ x.StandsIn text) →
        ∃ m, mentions x.text.toList false ts =
          if x ∈ ownNames stages groups then true :: List.replicate m false else [] := by
  refine ⟨_, fits_untypedParts.tokens?_spell fun s hs => ?_, fun x hx => ?_⟩
  · obtain ⟨stage, hstage, hs⟩ := exists_stage_of_given_untyped hs
    exact readable_ruleTexts (hstages stage hstage) (hcrates stage hstage) s hs
  · have hscopes : Scopes [] (ownNames stages groups) (untypedParts importPath d stages groups) :=
      (scopes_headParts hgroups).append
        ((Scopes.of_uses_eq_nil rfl).append scopes_afterParts)
    obtain ⟨m, hm⟩ := marks_of_scope hscopes x
    refine ⟨m, ?_⟩
    rw [fits_untypedParts.mentions_flatMap, flatMap_mentionsOf, hm, if_neg List.not_mem_nil]
    intro s hs hmem
    obtain ⟨stage, hstage, hs⟩ := exists_stage_of_given_untyped hs
    exact hx stage hstage s hs hmem

/-! ### Delimiters -/

theorem nests_callsParts {calls : List Call} (h : Undelimited (callsParts d stages calls)) :
    Nests [] [] (callsParts d stages calls) :=
  Nests.flatMap fun c hc => nests_call fun s hs => h s (List.mem_flatMap.mpr ⟨c, hc, hs⟩)

/-- The groups that are open where the body stands. -/
def openAtBody (d : Source.Declaration) (stages : List Stage) : List Source.Delimiter :=
  if Stage.bodyForm d stages == .observing && !d.isAsync then [.paren, .brace] else [.brace]

theorem nests_headParts (h : Undelimited (headParts importPath d stages groups)) :
    Nests [] (openAtBody d stages) (headParts importPath d stages groups) := by
  have hopen : Nests [] [.brace] [fixed "\x7b "] := Nests.of_kinds (by simp) (by decide)
  have hsites : Nests [] [] (sitesParts importPath d stages) :=
    Nests.flatMap fun _ _ => nests_site ..
  have hcalls : Nests [] [] (callsParts d stages (opening d stages groups)) :=
    nests_callsParts fun s hs => h s (by simp [headParts, hs])
  refine ((hopen.append (hsites.outer [.brace])).append (hcalls.outer [.brace])).append ?_
  unfold openAtBody
  cases Stage.bodyForm d stages with
  | guard => rfl
  | observing =>
    have hbody := (nests_bodyHead d).outer [.brace]
    cases hasync : d.isAsync <;> rw [hasync] at hbody <;> exact hbody

theorem nests_afterParts : Nests (openAtBody d stages) [] (afterParts d stages groups) := by
  have hcalls : Nests [] [] (callsParts d stages (closing stages groups)) := by
    refine nests_callsParts fun s hs => ?_
    obtain ⟨c, hc, hs⟩ := given_mem_callsParts_iff.mp hs
    rw [mem_givenTexts_closing c hc] at hs
    cases hs
  unfold openAtBody afterParts
  cases Stage.bodyForm d stages with
  | guard =>
    have hclose : Nests [.brace] [] [fixed " \x7d"] := Nests.of_kinds (by simp) (by decide)
    exact hclose
  | observing =>
    refine Nests.append (Nests.append ?_ (hcalls.outer [.brace])) ?_
    · refine Nests.of_kinds (by simp) ?_
      unfold bodyClosing
      cases d.isAsync <;> decide
    · exact Nests.of_kinds (by simp) (by decide)

theorem nests_typeParts {type : Option String} (h : ∀ t ∈ type, Balanced t.toList) :
    Nests [] [] (typeParts type) := by
  cases type with
  | none => rfl
  | some t =>
    obtain ⟨ts, hts, hnest⟩ := h t rfl
    have hgiven : Nests [] [] [given t] := by
      simpa [Nests, Part.tokens, Part.text, hts] using hnest
    have harrow : Nests [] [] [fixed "-> "] := Nests.of_kinds (by simp) (by decide)
    have hblank : Nests [] [] [fixed " "] := Nests.of_kinds (by simp) (by decide)
    exact (harrow.append hgiven).append hblank

theorem readable_aroundParts
    (hrules : ∀ stage ∈ stages, ∀ s ∈ ruleTexts stage.rule, (tokens? s.toList).isSome = true)
    (htype : ∀ t ∈ spelledType? d stages, (tokens? t.toList).isSome = true) :
    Readable (aroundParts importPath d stages groups) := by
  intro s hs
  simp only [aroundParts, beforeParts, List.mem_append, given_mem_typeParts_iff,
    given_notMem_after, List.mem_singleton, reduceCtorEq, or_false] at hs
  rcases hs with hs | hs
  · obtain ⟨stage, hstage, hs⟩ := exists_stage_of_given hs
    exact hrules stage hstage s hs
  · exact htype s hs

theorem balanced_aroundBlock (hstages : ∀ s ∈ stages, s.rule.Spelled)
    (hcrates : ∀ s ∈ stages, isIdentifier s.rule.hookCrate.name.toList = true)
    (htype : ∀ t ∈ spelledType? d stages, Balanced t.toList) :
    Balanced (aroundBlock (generate importPath d stages groups)) := by
  have htexts : ∀ stage ∈ stages, ∀ s ∈ ruleTexts stage.rule,
      ∃ ts, tokens? s.toList = some ts ∧ delimiters ts = [] := fun stage hstage =>
    undelimited_ruleTexts (hstages stage hstage) (hcrates stage hstage)
  have hread : Readable (aroundParts importPath d stages groups) := by
    refine readable_aroundParts (fun stage hstage s hs => ?_) fun t ht => ?_
    · obtain ⟨ts, hts, -⟩ := htexts stage hstage s hs
      exact Option.isSome_of_mem hts
    · obtain ⟨ts, hts, -⟩ := htype t ht
      exact Option.isSome_of_mem hts
  have hhead : Undelimited (headParts importPath d stages groups) := by
    intro s hs
    obtain ⟨stage, hstage, hs⟩ := exists_stage_of_given hs
    obtain ⟨ts, hts, hnone⟩ := htexts stage hstage s hs
    rwa [Part.tokens, Part.text, hts, Option.getD_some]
  have hblock : Nests [] [] [fixed "\x7b\x7d"] := Nests.of_kinds (by simp) (by decide)
  have hnests : Nests [] [] (aroundParts importPath d stages groups) :=
    (((nests_headParts hhead).append ((nests_typeParts htype).outer _)).append
      (hblock.outer _)).append nests_afterParts
  refine ⟨(aroundParts importPath d stages groups).flatMap Part.tokens, ?_, hnests⟩
  rw [← spell_aroundParts]
  exact fits_aroundParts.tokens?_spell hread

/-! ### The whole -/

theorem spell_typeParts (type : Option String) :
    spell (typeParts type) = (type.elim "" fun t => "-> " ++ t ++ " ").toList := by
  cases type <;> simp [typeParts, Part.text]

/-- What holds of the text around an empty block, and of the calls that it is made of. -/
structure WellScoped (importPath : String) (d : Source.Declaration) (stages : List Stage)
    (groups : List Group) : Prop where
  /-- With the type of the result left out, each own name is declared where it stands first and only
  there, and no name stands in the text that is not declared; but for names that are words of what
  the rules give, and if the names of hook crates can be read at all. -/
  names : (∀ s ∈ stages, (tokens? s.rule.hookCrate.name.toList).isSome = true) →
    ∃ head rest ts, aroundBlock (generate importPath d stages groups) =
        head ++ ((spelledType? d stages).elim "" fun t => "-> " ++ t ++ " ").toList ++ rest ∧
      tokens? (head ++ rest) = some ts ∧
      ∀ x : OwnName, (∀ s ∈ stages, ∀ text ∈ ruleTexts s.rule, ¬ x.StandsIn text) →
        ∃ m, mentions x.text.toList false ts =
          if x ∈ ownNames stages groups then true :: List.replicate m false else []
  /-- The text before the body is one static for each stage, in order, and the calls before the
  body. -/
  before : (generate importPath d stages groups).before = "\x7b " ++
    Text.joined "" (stages.zipIdx.map fun (s, k) => siteText importPath d.qualifiedName k s) ++
    Text.joined "" ((opening d stages groups).map
      (Call.text (Stage.bodyForm d stages == .observing) d.returnsResult)) ++
    if Stage.bodyForm d stages == .observing then bodyOpening d else ""
  /-- The text after an observed body is the calls after it. -/
  after : Stage.bodyForm d stages = .observing →
    (generate importPath d stages groups).after = bodyClosing d ++
      Text.joined "" ((closing stages groups).map (Call.text true d.returnsResult)) ++
      "__hw_ret \x7d"
  /-- Each stage has a target of its own, behind the guard of its group and at its place in it. -/
  placed : (targets groups).length = stages.length ∧ (targets groups).Nodup ∧
    ∀ k t, (targets groups)[k]? = some t →
      ∃ i g, groups[i]? = some g ∧ k ∈ g.members ∧ t = Target.ofStage i g k
  /-- Each stage sets its exit hook, if it has one, and enters at most once, at its target. -/
  stageCalls : (opening d stages groups).filter Call.isOfStage =
    (stages.zip (targets groups)).flatMap fun (s, t) =>
      (s.rule.onExit.map (Call.setExit t)).toList ++
        ((Entry.of? d s.rule).map (Call.enter t)).toList
  /-- Each group opens its guard once, over its stages, linked to the guard of the group before. -/
  opens : (opening d stages groups).filter Call.opens =
    groups.zipIdx.map fun (g, i) => openCall stages i (linkOf d groups i) g
  links : ∀ i g, groups[i]? = some g → (linkOf d groups (i + 1)).text = match g with
    | .single _ => support "Link::Outer(&" ++ (Guard.single i).text ++ ")"
    | .fused _ _ => support "Link::Fused(&" ++ (Guard.fused i).text ++ ")"
  /-- Each group completes its guard once. -/
  completed : (closing stages groups).filterMap Call.completed? =
    groups.zipIdx.map fun (g, i) => Guard.ofGroup i g
  /-- Each stage that captures the value records it once, at its target. -/
  recorded : (closing stages groups).filterMap Call.recorded? =
    (stages.zip (targets groups)).flatMap fun (s, t) =>
      ((s.rule.captures.find? Capture.isReturn).map fun c => (t, c.mode)).toList
  /-- What is recorded is so before the guard is completed. -/
  recordedFirst : ∀ calls more t mode,
    closing stages groups = calls ++ Call.record t mode :: more → Call.complete t.guard ∈ more
  /-- The delimiters outside of texts in quotes are balanced, if those of the type are and the hook
  crates are named by identifiers. -/
  balanced : (∀ s ∈ stages, isIdentifier s.rule.hookCrate.name.toList = true) →
    (∀ t ∈ spelledType? d stages, Balanced t.toList) →
    Balanced (aroundBlock (generate importPath d stages groups))

/-- Generated text is well scoped, for stages of rules that were made of definitions and groups that
hold the stages in order. -/
theorem wellScoped_generate (importPath : String) (d : Source.Declaration)
    (hrules : ∀ s ∈ stages, ∃ w : WrittenRule, w.Makes s.rule)
    (hgroups : groups.flatMap Group.members = List.range stages.length) :
    WellScoped importPath d stages groups := by
  have hstages : ∀ s ∈ stages, s.rule.Spelled := fun s hs => by
    obtain ⟨w, hw⟩ := hrules s hs
    exact hw.spelled
  refine {
    names := fun hcrates => ?_
    before := ?_
    after := fun hform => ?_
    placed := ⟨length_targets hgroups, nodup_targets hgroups,
      fun _ _ => exists_group_of_targets hgroups⟩
    stageCalls := filter_isOfStage_opening hgroups
    opens := filter_opens_opening
    links := fun i g hg => ?_
    completed := completed_closing
    recorded := recorded_closing hgroups
    recordedFirst := fun _ _ _ _ => complete_mem_of_closing
    balanced := balanced_aroundBlock hstages }
  · obtain ⟨ts, hts, hmentions⟩ := mentions_untyped importPath d hgroups hstages hcrates
    rw [untypedParts, spell_append] at hts
    refine ⟨_, _, ts, ?_, hts, hmentions⟩
    rw [← spell_typeParts, ← spell_aroundParts, aroundParts, beforeParts]
    simp only [spell_append, List.append_assoc]
  · unfold generate
    dsimp only
    split <;> simp
  · simp [generate, hform]
  · simp only [linkOf, hg, Option.elim_some]
    cases g <;> rfl

/-- Two stages behind one guard, and one with a guard of its own. -/
theorem wellScoped_plainSource :
    ∃ scan g, Source.Scan.read "fn f() \x7b\x7d".toList = .ok scan ∧
      Registry.load hookTree [plainSource] = .ok g ∧ ∃ d ∈ scan.declarations, ∃ r ∈ g.rules,
        WellScoped "p" d [⟨r, false⟩, ⟨r, false⟩, ⟨r, true⟩] [.fused 0 2, .single 2] ∧
        Balanced (aroundBlock
          (generate "p" d [⟨r, false⟩, ⟨r, false⟩, ⟨r, true⟩] [.fused 0 2, .single 2])) := by
  have hsource : (Source.Scan.read "fn f() \x7b\x7d".toList).toOption.any (fun scan =>
      scan.declarations.any fun d => d.returnType.isNone) = true := by decide +kernel
  have hsample : (Registry.load hookTree [plainSource]).toOption.any (fun g =>
      g.rules.any fun r => isIdentifier r.hookCrate.name.toList) = true := by decide +kernel
  obtain ⟨scan, hscan, hdecls⟩ := exists_ok_of_any hsource
  obtain ⟨g, hload, hrules⟩ := exists_ok_of_any hsample
  obtain ⟨d, hd, htype⟩ := List.any_eq_true.mp hdecls
  obtain ⟨r, hr, hcrate⟩ := List.any_eq_true.mp hrules
  have hmade := Registry.exists_makes_of_load hload hr
  have hscoped : WellScoped "p" d [⟨r, false⟩, ⟨r, false⟩, ⟨r, true⟩] [.fused 0 2, .single 2] :=
    wellScoped_generate "p" d (by simpa using hmade) rfl
  refine ⟨scan, g, hscan, hload, d, hd, r, hr, hscoped, hscoped.balanced (by simpa using hcrate) ?_⟩
  intro t ht
  simp [spelledType?, Option.isNone_iff_eq_none.mp htype] at ht

/-- A rule that captures a parameter of a given name. -/
def captureSource (param : String) : RuleSource :=
  ⟨"capture", .toml, ruleText "a" ++ "captures=[\x7bparam=\"" ++ param ++ "\"\x7d]\n", ⟨"/"⟩⟩

/-- A captured parameter can have a name that the text would declare for a second group: the name is
used, but it is declared nowhere in the text. -/
theorem undeclared_parameter :
    ∃ scan g, Source.Scan.read "fn f(__hw_t1: u8) \x7b\x7d".toList = .ok scan ∧
      Registry.load hookTree [captureSource "__hw_t1"] = .ok g ∧
      ∃ d ∈ scan.declarations, ∃ r ∈ g.rules,
        (tokens? (aroundBlock (generate "p" d [⟨r, true⟩] [.single 0]))).map
          (mentions (Guard.single 1).text.toList false) = some [false] := by
  have hsource : (Source.Scan.read "fn f(__hw_t1: u8) \x7b\x7d".toList).toOption.any (fun scan =>
      (Registry.load hookTree [captureSource "__hw_t1"]).toOption.any fun g =>
        scan.declarations.any fun d => d.returnType.isNone && g.rules.any fun r =>
          (tokens? r.hookCrate.name.toList).isSome &&
          mentions (Guard.single 1).text.toList false
            ((aroundParts "p" d [⟨r, true⟩] [.single 0]).flatMap Part.tokens) =
          [false]) = true := by
    decide +kernel
  obtain ⟨scan, hscan, hsource⟩ := exists_ok_of_any hsource
  obtain ⟨g, hload, hfacts⟩ := exists_ok_of_any hsource
  obtain ⟨d, hd, hfacts⟩ := List.any_eq_true.mp hfacts
  rw [Bool.and_eq_true] at hfacts
  obtain ⟨r, hr, hfacts'⟩ := List.any_eq_true.mp hfacts.2
  simp only [Bool.and_eq_true, decide_eq_true_eq] at hfacts'
  refine ⟨scan, g, hscan, hload, d, hd, r, hr, ?_⟩
  obtain ⟨w, hw⟩ := Registry.exists_makes_of_load hload hr
  have hread : Readable (aroundParts "p" d [⟨r, true⟩] [.single 0]) := by
    refine readable_aroundParts (fun stage hstage => ?_) fun t ht => ?_
    · rw [List.mem_singleton.mp hstage]
      exact readable_ruleTexts hw.spelled hfacts'.1
    · simp [spelledType?, Option.isNone_iff_eq_none.mp hfacts.1] at ht
  rw [← spell_aroundParts, fits_aroundParts.tokens?_spell hread, Option.map_some, hfacts'.2]

end Instrumentation.Splice
