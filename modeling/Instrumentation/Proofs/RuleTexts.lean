import Instrumentation.Proofs.Loading
import Instrumentation.Proofs.SpliceTexts

/-!
The texts of rules that generated code repeats. A captured parameter is an identifier and the path
of a hook is made of identifiers, so neither has quotes, delimiters or line ends; the name of a hook
crate can be any text.
-/
namespace Instrumentation

open Splice (isWordChar isPathChar)

theorem isPathChar_of_isIdentifier {cs : List Char} (h : isIdentifier cs = true) :
    ∀ c ∈ cs, isPathChar c = true := by
  have hname (h : isIdentifier cs = true) :
      ∀ c ∈ (Text.after? ['r', '#'] cs).getD cs, isPathChar c = true := by
    unfold isIdentifier at h
    split at h
    · cases h
    · next c rest hcs =>
      rw [hcs]
      simp only [Bool.and_eq_true, Bool.or_eq_true, List.all_eq_true] at h
      refine List.forall_mem_cons.mpr ⟨?_, fun d hd => ?_⟩
      · rcases h.1.1 with hc | hc <;> simp [isPathChar, isWordChar, Text.isLetterOrNumber, hc]
      · rcases h.2 d hd with hd | hd <;> simp [isPathChar, isWordChar, hd]
  intro c hc
  cases hraw : Text.after? ['r', '#'] cs with
  | none => exact hname h c (by simpa [hraw] using hc)
  | some rest =>
    rw [Text.after?_eq_some_iff.mp hraw] at hc
    have hrest := hname h c
    simp only [hraw, Option.getD_some] at hrest
    rcases List.mem_append.mp hc with hc | hc
    · rcases List.mem_pair.mp hc with rfl | rfl <;> decide
    · exact hrest hc

theorem mem_pathSegments {cs : List Char} {c : Char} (hc : c ∈ cs) :
    c = ':' ∨ ∃ seg ∈ pathSegments cs, c ∈ seg := by
  fun_induction pathSegments cs with
  | case1 => cases hc
  | case2 rest ih =>
    simp only [List.mem_cons] at hc
    rcases hc with rfl | rfl | hc
    · exact .inl rfl
    · exact .inl rfl
    · exact (ih hc).imp_right fun ⟨seg, hseg, hin⟩ => ⟨seg, List.mem_cons_of_mem _ hseg, hin⟩
  | case3 d rest _ hnil ih =>
    rcases List.mem_cons.mp hc with rfl | hc
    · simp
    · exact .inl (by simpa [hnil] using ih hc)
  | case4 d rest _ seg segs hcons ih =>
    rcases List.mem_cons.mp hc with rfl | hc
    · exact .inr ⟨c :: seg, by simp, by simp⟩
    · refine (ih hc).imp_right fun ⟨seg', hseg', hin⟩ => ?_
      rw [hcons] at hseg'
      rcases List.mem_cons.mp hseg' with rfl | hseg'
      · exact ⟨d :: seg', by simp, by simp [hin]⟩
      · exact ⟨seg', by simp [hseg'], hin⟩

theorem isPathChar_of_isPathText {s : String} (h : isPathText s = true) :
    ∀ c ∈ s.toList, isPathChar c = true := by
  intro c hc
  rcases mem_pathSegments hc with rfl | ⟨seg, hseg, hin⟩
  · decide
  · exact isPathChar_of_isIdentifier (List.all_eq_true.mp h seg hseg) c hin

theorem isPathText_of_readHook {hookCrate what : String} {written : Option String}
    {hook : Option HookRef} (h : readHook hookCrate what written = .ok hook) :
    ∀ k ∈ hook, isPathText k.path = true := by
  intro k hk
  unfold readHook at h
  split at h
  · cases h
    cases hk
  · dsimp only at h
    split at h
    · next hpath =>
      cases h
      cases hk
      exact hpath
    · cases h

/-- What a capture names. -/
def Capture.IsNamed (c : Capture) : Prop := c.isReturn = true ∨ isIdentifier c.param.toList = true

theorem isNamed_of_readCapture {d : CaptureDefinition} {c : Capture} (h : readCapture d = .ok c) :
    c.IsNamed := by
  unfold readCapture at h
  dsimp only at h
  split at h
  · cases h
  · split at h
    · cases h
    · next hparam =>
      -- Past the name, only the mode and the type can be at fault.
      have hnamed (mode : CaptureMode) (type : Option String) :
          Capture.IsNamed ⟨Text.trimmed d.param, mode, type⟩ := by
        rw [Capture.IsNamed, Capture.isReturn, beq_iff_eq]
        by_cases hreturn : Text.trimmed d.param = "return"
        · exact .inl hreturn
        · exact .inr (by simpa [hreturn] using hparam)
      split at h
      · split at h
        · cases h
          exact hnamed _ _
        · split at h
          · cases h
            exact hnamed _ _
          · cases h
      · cases h

theorem isNamed_of_readCaptures {done captures : List Capture} {ds : List CaptureDefinition}
    (h : readCaptures done ds = .ok captures) (hdone : ∀ c ∈ done, c.IsNamed) :
    ∀ c ∈ captures, c.IsNamed := by
  induction ds generalizing done with
  | nil =>
    cases h
    exact hdone
  | cons d ds ih =>
    unfold readCaptures at h
    obtain ⟨c, hc, h⟩ := exists_of_bind_eq_ok h
    split at h
    · cases h
    · refine ih h fun e he => ?_
      rcases List.mem_append.mp he with he | he
      · exact hdone e he
      · rw [List.mem_singleton.mp he]
        exact isNamed_of_readCapture hc

/-- What is known of the texts of a rule that generated code repeats. -/
structure Rule.Spelled (r : Rule) : Prop where
  captures : ∀ c ∈ r.paramCaptures, isIdentifier c.param.toList = true
  paths : ∀ e ∈ Registry.hooksOf r, isPathText e.2.path = true
  crates : ∀ e ∈ Registry.hooksOf r, e.2.hookCrate = r.hookCrate.name
  hooked : Registry.hooksOf r ≠ []

theorem WrittenRule.Makes.spelled {w : WrittenRule} {r : Rule} (h : w.Makes r) : r.Spelled := by
  have hchecked := RuleDefinition.checked_of_toRule h
  have hfrom := RuleDefinition.from_of_toRule h
  have hnamed := isNamed_of_readCaptures hchecked.captures (List.forall_mem_nil _)
  refine ⟨fun c hc => ?_, fun e he => ?_, fun e he => ?_, fun hnil => ?_⟩
  · obtain ⟨hc, hparam⟩ := List.mem_filter.mp hc
    exact (hnamed c hc).resolve_left (by simpa using hparam)
  · rcases List.mem_append.mp he with he | he
    · obtain ⟨k, hk, rfl⟩ := Option.map_eq_some_iff.mp (Option.mem_toList.mp he)
      exact isPathText_of_readHook hchecked.onEnter k hk
    · obtain ⟨k, hk, rfl⟩ := Option.map_eq_some_iff.mp (Option.mem_toList.mp he)
      exact isPathText_of_readHook hchecked.onExit k hk
  · rw [hfrom.hookCrate_eq]
    exact Registry.hookCrate_of_mem_hooksOf hfrom he
  · have hhooked := hchecked.hooked
    rw [Registry.hooksOf] at hnil
    cases henter : r.onEnter <;> cases hexit : r.onExit <;> simp [henter, hexit] at hnil hhooked

/-- A rule of a registry was made of a definition in a rule file. -/
theorem Registry.exists_makes_of_load {t : FileTree} {sources : List RuleSource} {g : Registry}
    (hload : Registry.load t sources = .ok g) {r : Rule} (hr : r ∈ g.rules) :
    ∃ w : WrittenRule, w.Makes r := by
  obtain ⟨l, exported, hl, rfl, -, -⟩ := exists_of_load hload
  obtain ⟨-, ws, new, -, hrules, hmakes⟩ := exists_of_foldlM hl
  replace hr : r ∈ l.rules := hr
  rw [hrules] at hr
  replace hr : r ∈ new := hr
  generalize ws.flatten = written at hmakes
  clear hrules
  induction hmakes with
  | nil => cases hr
  | cons hmade _ ih =>
    rcases List.mem_cons.mp hr with rfl | hr
    · exact ⟨_, hmade⟩
    · exact ih hr

end Instrumentation
