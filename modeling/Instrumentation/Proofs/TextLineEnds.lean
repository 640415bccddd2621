import Instrumentation.Proofs.GeneratedText

/-!
Where generated text breaks a line. What stands after a body does not; what stands before it does so
in the name of a hook crate or in the type of the result, if the source has a line end inside of a
literal there.
-/
namespace Instrumentation.Splice

variable {importPath : String} {d : Source.Declaration} {stages : List Stage} {groups : List Group}

/-- The texts of a rule have line ends if the name of its hook crate does. -/
theorem newline_mem_ruleTexts_iff {r : Rule} (hr : r.Spelled) :
    (∃ s ∈ ruleTexts r, '\n' ∈ s.toList) ↔ '\n' ∈ r.hookCrate.name.toList := by
  have hline : isPathChar '\n' = false := by decide
  have hpath {cs : List Char} (h : ∀ c ∈ cs, isPathChar c = true) : '\n' ∉ cs := fun hmem => by
    rw [h _ hmem] at hline
    cases hline
  have hhook : ∀ e ∈ Registry.hooksOf r,
      ('\n' ∈ e.2.absolute.toList ↔ '\n' ∈ r.hookCrate.name.toList) := by
    intro e he
    have hnone := hpath (isPathChar_of_isPathText (hr.paths e he))
    simp [HookRef.absolute, hr.crates e he, hnone]
  constructor
  · rintro ⟨s, hs, hmem⟩
    rcases List.mem_append.mp hs with hs | hs
    · obtain ⟨c, hc, rfl⟩ := List.mem_map.mp hs
      exact absurd hmem (hpath (isPathChar_of_isIdentifier (hr.captures c hc)))
    · obtain ⟨e, he, rfl⟩ := List.mem_map.mp hs
      exact (hhook e he).mp hmem
  · intro hmem
    obtain ⟨e, he⟩ := List.exists_mem_of_ne_nil _ hr.hooked
    exact ⟨_, List.mem_append_right _ (List.mem_map_of_mem he), (hhook e he).mpr hmem⟩

theorem newline_notMem_after : '\n' ∉ (generate importPath d stages groups).after.toList := by
  rw [← spell_afterParts, newline_mem_spell_iff fits_afterParts.sound]
  rintro ⟨s, hs, -⟩
  exact given_notMem_after hs

/-- The text before a body breaks a line in the name of the hook crate of a stage, or in the type of
the result where that is spelled out. -/
theorem newline_mem_before_iff (hstages : ∀ s ∈ stages, s.rule.Spelled) :
    '\n' ∈ (generate importPath d stages groups).before.toList ↔
      (∃ g ∈ groups, ∃ k ∈ g.members, ∃ s ∈ stages[k]?, '\n' ∈ s.rule.hookCrate.name.toList) ∨
      ∃ type ∈ spelledType? d stages, '\n' ∈ type.toList := by
  have hsound : ∀ p ∈ beforeParts importPath d stages groups, p.kind.isSound = true :=
    fun p hp => fits_beforeParts.sound p (List.mem_append_left _ hp)
  rw [← spell_beforeParts, newline_mem_spell_iff hsound]
  simp only [beforeParts, List.mem_append, given_mem_headParts_iff, given_mem_typeParts_iff,
    or_and_right, exists_or]
  refine or_congr ⟨?_, ?_⟩ Iff.rfl
  · rintro ⟨text, ⟨g, hg, p, hp, htext⟩, hline⟩
    obtain ⟨hk, s, hs, hrule⟩ := mem_rulesOf_iff.mp hp
    refine ⟨g, hg, p.1, hk, s, hs, ?_⟩
    rw [← newline_mem_ruleTexts_iff (hstages s (List.mem_of_getElem? hs)), hrule]
    exact ⟨text, htext, hline⟩
  · rintro ⟨g, hg, k, hk, s, hs, hline⟩
    obtain ⟨text, htext, hline⟩ :=
      (newline_mem_ruleTexts_iff (hstages s (List.mem_of_getElem? hs))).mpr hline
    exact ⟨text, ⟨g, hg, (k, s.rule), mem_rulesOf_iff.mpr ⟨hk, s, hs, rfl⟩, htext⟩, hline⟩

/-- With the rules of a registry, what stands after a body is on one line, and so is what stands
before it, but for line ends in the name of a hook crate and for those in literals of the type that
the body is given. -/
theorem line_ends_of_load {t : FileTree} {sources : List RuleSource} {g : Registry}
    (hload : Registry.load t sources = .ok g) (hstages : ∀ s ∈ stages, s.rule ∈ g.rules) :
    '\n' ∉ (generate importPath d stages groups).after.toList ∧
    ('\n' ∈ (generate importPath d stages groups).before.toList ↔
      (∃ g ∈ groups, ∃ k ∈ g.members, ∃ s ∈ stages[k]?, '\n' ∈ s.rule.hookCrate.name.toList) ∨
      ∃ type ∈ spelledType? d stages, '\n' ∈ type.toList) := by
  refine ⟨newline_notMem_after, newline_mem_before_iff fun s hs => ?_⟩
  obtain ⟨w, hw⟩ := Registry.exists_makes_of_load hload (hstages s hs)
  exact hw.spelled

theorem line_ends_of_plainSource :
    ∃ g, Registry.load hookTree [plainSource] = .ok g ∧ ∃ r ∈ g.rules, ∀ importPath d,
      '\n' ∉ (generate importPath d [⟨r, true⟩] [.single 0]).after.toList := by
  have hsample : (Registry.load hookTree [plainSource]).toOption.any (fun g =>
      g.rules.any fun _ => true) = true := by decide +kernel
  obtain ⟨g, hload, hrules⟩ := exists_ok_of_any hsample
  obtain ⟨r, hr, -⟩ := List.any_eq_true.mp hrules
  exact ⟨g, hload, r, hr, fun importPath d => (line_ends_of_load hload (by simpa using hr)).1⟩

/-- A result whose type has a text with a line end in it. -/
def brokenResult : List Char :=
  "fn f() -> Result<[u8; \"a\nb\".len()], ()> \x7b loop \x7b\x7d \x7d".toList

/-- The type that the body is given repeats a literal as it was written, with its line end. -/
theorem line_end_before_body :
    ∃ scan g, Source.Scan.read brokenResult = .ok scan ∧
      Registry.load hookTree [plainSource] = .ok g ∧ ∃ d ∈ scan.declarations, ∃ r ∈ g.rules,
        '\n' ∈ (generate "p" d [⟨r, true⟩] [.single 0]).before.toList := by
  have hsource : (Source.Scan.read brokenResult).toOption.any (fun scan =>
      scan.declarations.any fun d => d.returnsResult && !d.isAsync && d.annotatable &&
        d.returnType.any fun type => type.toList.contains '\n') = true := by decide +kernel
  have hsample : (Registry.load hookTree [plainSource]).toOption.any (fun g =>
      g.rules.any fun _ => true) = true := by decide +kernel
  obtain ⟨scan, hscan, hdecls⟩ := exists_ok_of_any hsource
  obtain ⟨g, hload, hrules⟩ := exists_ok_of_any hsample
  obtain ⟨d, hd, hfacts⟩ := List.any_eq_true.mp hdecls
  obtain ⟨r, hr, -⟩ := List.any_eq_true.mp hrules
  simp only [Bool.and_eq_true, Bool.not_eq_true', Option.any_eq_true, List.contains_eq_mem,
    decide_eq_true_eq] at hfacts
  obtain ⟨⟨⟨hresult, hasync⟩, hspelled⟩, hline⟩ := hfacts
  refine ⟨scan, g, hscan, hload, d, hd, r, hr, ?_⟩
  obtain ⟨w, hw⟩ := Registry.exists_makes_of_load hload hr
  rw [newline_mem_before_iff (by simpa using hw.spelled)]
  refine .inr ?_
  rwa [spelledType?, Stage.bodyForm, hresult, hasync, hspelled]

end Instrumentation.Splice
