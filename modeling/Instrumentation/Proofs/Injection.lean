import Instrumentation.Injection

/-!
Which rules become stages. The declaration decides, for each rule alone: an earlier rule that was
accepted expects the types that the declaration has, so a rule that contradicts it contradicts the
declaration as well (`rules_decided_alone`).
-/
namespace Instrumentation.Injection

open Source (Declaration)

variable {d : Declaration} {c : Capture} {r : Rule}

/-- The declaration has what a capture looks at, in the type that the rule expects, and can give it
away if it is to be kept. -/
def Fits (d : Declaration) (c : Capture) : Prop :=
  ∃ type, capturedType? d c = some type ∧ (∀ expected, c.type = some expected → expected = type) ∧
    (c.mode = .clone → isBorrowed type = false ∧ (c.isReturn = true → d.annotatable = true))

theorem captureFault?_eq_none_iff : captureFault? d c = none ↔ Fits d c := by
  unfold captureFault? Fits
  cases htype : capturedType? d c with
  | none => simp
  | some type =>
    cases hexpected : c.type with
    | none => simp [Option.filter]
    | some expected =>
      by_cases he : expected = type
      · simp [Option.filter, he]
      · simp [Option.filter, he]

instance (d : Declaration) (c : Capture) : Decidable (Fits d c) :=
  decidable_of_iff _ captureFault?_eq_none_iff

/-- The declaration fits all captures of a rule. -/
def Suits (d : Declaration) (r : Rule) : Prop := ∀ c ∈ r.captures, Fits d c

instance (d : Declaration) (r : Rule) : Decidable (Suits d r) :=
  inferInstanceAs (Decidable (∀ c ∈ r.captures, Fits d c))

/-- The stages of the rules that suit a declaration. -/
def stagesOf (d : Declaration) (rules : List Rule) : List Stage :=
  (rules.filter fun r => Suits d r).map fun r => { rule := r }

/-- What speaks against a rule: the declaration, or a rule before it that suits the declaration and
expects another type of the same thing. -/
inductive Objection (d : Declaration) (earlier : List Rule) (r : Rule) :
    (against : Option String) → (reason : String) → Prop
  | declaration {c : Capture} {reason : String} (hc : c ∈ r.captures)
      (h : captureFault? d c = some reason) : Objection d earlier r none reason
  | rule {c c' : Capture} {a : Rule} {type type' : String} (hc : c ∈ r.captures)
      (ha : a ∈ earlier) (hsuits : Suits d a) (hc' : c' ∈ a.captures) (hparam : c'.param = c.param)
      (htype : c.type = some type) (htype' : c'.type = some type') (hne : type ≠ type') :
      Objection d earlier r (some a.id) ("'" ++ c.param ++ "' is captured as " ++ type
        ++ " here but as " ++ type' ++ " by the earlier rule")

/-- The conflicts of some rules, one for each that does not suit the declaration, in order. -/
inductive Reported (file : Path) (m : DeclMatches) :
    (earlier : List Rule) → List Rule → List Conflict → Prop
  | nil {earlier : List Rule} : Reported file m earlier [] []
  | kept {earlier rest : List Rule} {r : Rule} {conflicts : List Conflict} (h : Suits m.decl r)
      (hrest : Reported file m (earlier ++ [r]) rest conflicts) :
      Reported file m earlier (r :: rest) conflicts
  | refused {earlier rest : List Rule} {r : Rule} {conflicts : List Conflict}
      {against : Option String} {reason : String} (h : ¬ Suits m.decl r)
      (hobjection : Objection m.decl earlier r against reason)
      (hrest : Reported file m (earlier ++ [r]) rest conflicts) :
      Reported file m earlier (r :: rest)
        (⟨m.importPath ++ "::" ++ m.decl.qualifiedName, file, r.id, against, reason⟩ :: conflicts)

theorem Reported.eq_nil_iff {file : Path} {m : DeclMatches} {earlier rules : List Rule}
    {conflicts : List Conflict} (h : Reported file m earlier rules conflicts) :
    conflicts = [] ↔ ∀ r ∈ rules, Suits m.decl r := by
  induction h with
  | nil => simp
  | kept h _ ih => simp [h, ih]
  | refused h _ _ _ => simp [h]

/-- An accepted capture is one of an earlier rule that suits the declaration. -/
def ComesFrom (d : Declaration) (earlier : List Rule) (a : Accepted) : Prop :=
  ∃ r ∈ earlier, r.id = a.rule ∧ Suits d r ∧ ∃ c ∈ r.captures, c.param = a.param ∧ c.type = a.type

theorem ComesFrom.later {earlier : List Rule} {a : Accepted} (h : ComesFrom d earlier a)
    (after : List Rule) : ComesFrom d (earlier ++ after) a := by
  obtain ⟨r, hr, hfrom⟩ := h
  exact ⟨r, List.mem_append_left after hr, hfrom⟩

theorem mem_accept {rule : String} {accepted : List Accepted} {a : Accepted}
    (ha : a ∈ accept rule accepted c) : a ∈ accepted ∨ a = ⟨c.param, rule, c.type⟩ := by
  induction accepted with
  | nil => simpa [accept] using ha
  | cons b rest ih =>
    rw [accept] at ha
    split at ha
    · split at ha
      · rcases List.mem_cons.mp ha with he | hrest
        · exact .inr he
        · exact .inl (List.mem_cons_of_mem b hrest)
      · exact .inl ha
    · rcases List.mem_cons.mp ha with he | hrest
      · exact .inl (he ▸ List.mem_cons_self)
      · exact (ih hrest).imp_left (List.mem_cons_of_mem b)

theorem mem_foldl_accept {rule : String} {cs : List Capture} {accepted : List Accepted}
    {a : Accepted} (ha : a ∈ cs.foldl (accept rule) accepted) :
    a ∈ accepted ∨ ∃ c ∈ cs, a = ⟨c.param, rule, c.type⟩ := by
  induction cs generalizing accepted with
  | nil => exact .inl ha
  | cons c cs ih =>
    rcases ih ha with hmem | ⟨c', hc', he⟩
    · rcases mem_accept hmem with hold | hnew
      · exact .inl hold
      · exact .inr ⟨c, List.mem_cons_self, hnew⟩
    · exact .inr ⟨c', List.mem_cons_of_mem c hc', he⟩

/-- The captures of a rule that suits the declaration may be accepted. -/
theorem comesFrom_foldl {earlier : List Rule} {accepted : List Accepted}
    (h : ∀ a ∈ accepted, ComesFrom d earlier a) (hr : Suits d r) :
    ∀ a ∈ r.captures.foldl (accept r.id) accepted, ComesFrom d (earlier ++ [r]) a := by
  intro a ha
  rcases mem_foldl_accept ha with hold | ⟨c, hc, rfl⟩
  · exact (h a hold).later [r]
  · exact ⟨r, by simp, rfl, hr, c, hc, rfl, rfl⟩

/-- Captures of one thing look at one type. -/
theorem capturedType?_congr {c' : Capture} (h : c'.param = c.param) :
    capturedType? d c' = capturedType? d c := by
  rw [capturedType?, capturedType?, Capture.isReturn, Capture.isReturn, h]

theorem clash?_eq_some {accepted : List Accepted} {other reason : String}
    (h : clash? accepted c = some (other, reason)) :
    ∃ a ∈ accepted, ∃ type type', a.param = c.param ∧ a.rule = other ∧ c.type = some type ∧
      a.type = some type' ∧ type ≠ type' ∧ reason = "'" ++ c.param ++ "' is captured as " ++ type
        ++ " here but as " ++ type' ++ " by the earlier rule" := by
  obtain ⟨type, htype, h⟩ := Option.bind_eq_some_iff.mp h
  obtain ⟨a, ha, h⟩ := Option.bind_eq_some_iff.mp h
  obtain ⟨type', htype', h⟩ := Option.bind_eq_some_iff.mp h
  have hparam : a.param = c.param := by simpa using List.find?_some ha
  split at h
  · cases h
  · next hne =>
    cases h
    exact ⟨a, List.mem_of_find?_eq_some ha, type, type', hparam, rfl, htype, htype',
      by simpa using hne, rfl⟩

section

variable {earlier : List Rule} {accepted : List Accepted}

/-- What contradicts an accepted capture contradicts the declaration. -/
theorem objection_of_clash (h : ∀ a ∈ accepted, ComesFrom d earlier a) (hc : c ∈ r.captures)
    {other reason : String} (hclash : clash? accepted c = some (other, reason)) :
    ¬ Fits d c ∧ Objection d earlier r (some other) reason := by
  obtain ⟨a, ha, type, type', hparam, rfl, htype, htype', hne, rfl⟩ := clash?_eq_some hclash
  obtain ⟨k, hk, hid, hsuits, c', hc', hparam', hsame⟩ := h a ha
  have htype'' : c'.type = some type' := hsame.trans htype'
  constructor
  · rintro ⟨actual, hactual, hexpected, -⟩
    obtain ⟨actual', hactual', hexpected', -⟩ := hsuits c' hc'
    rw [capturedType?_congr (hparam'.trans hparam), hactual] at hactual'
    have heq : actual = actual' := Option.some.inj hactual'
    apply hne
    rw [hexpected type htype, hexpected' type' htype'', heq]
  · rw [← hid]
    exact .rule hc hk hsuits hc' (hparam'.trans hparam) htype htype'' hne

/-- Whether a rule is refused does not hang on what has been accepted. -/
theorem ruleFault?_eq_none_iff (h : ∀ a ∈ accepted, ComesFrom d earlier a) {cs : List Capture}
    (hcs : cs ⊆ r.captures) : ruleFault? d accepted cs = none ↔ ∀ c ∈ cs, Fits d c := by
  induction cs with
  | nil => simp [ruleFault?]
  | cons c cs ih =>
    obtain ⟨hc, hrest⟩ := List.cons_subset.mp hcs
    rw [ruleFault?, List.forall_mem_cons]
    split
    · next other reason hclash =>
      have hno := (objection_of_clash h hc hclash).1
      simp [hno]
    · split
      · next reason hfault =>
        have hno : ¬ Fits d c := by
          intro hfits
          rw [captureFault?_eq_none_iff.mpr hfits] at hfault
          cases hfault
        simp [hno]
      · next hfault => simp [ih hrest, captureFault?_eq_none_iff.mp hfault]

theorem objection_of_ruleFault (h : ∀ a ∈ accepted, ComesFrom d earlier a) {cs : List Capture}
    (hcs : cs ⊆ r.captures) {against : Option String} {reason : String}
    (hfault : ruleFault? d accepted cs = some (against, reason)) :
    Objection d earlier r against reason := by
  induction cs with
  | nil => cases hfault
  | cons c cs ih =>
    obtain ⟨hc, hrest⟩ := List.cons_subset.mp hcs
    rw [ruleFault?] at hfault
    split at hfault
    · next other reason hclash =>
      cases hfault
      exact (objection_of_clash h hc hclash).2
    · split at hfault
      · next reason hreason =>
        cases hfault
        exact .declaration hc hreason
      · exact ih hrest hfault

/-- Rule by rule, those that suit the declaration become stages and the others are reported. -/
theorem injectRules_eq (file : Path) (m : DeclMatches)
    (h : ∀ a ∈ accepted, ComesFrom m.decl earlier a) (rules : List Rule) :
    (injectRules file m accepted rules).1 = stagesOf m.decl rules ∧
      Reported file m earlier rules (injectRules file m accepted rules).2 := by
  induction rules generalizing earlier accepted with
  | nil => exact ⟨rfl, .nil⟩
  | cons r rest ih =>
    have hdecides := ruleFault?_eq_none_iff h (List.Subset.refl r.captures)
    rw [injectRules]
    split
    · next against reason hfault =>
      have hno : ¬ Suits m.decl r := by
        intro hsuits
        rw [hdecides.mpr hsuits] at hfault
        cases hfault
      have hold : ∀ a ∈ accepted, ComesFrom m.decl (earlier ++ [r]) a := by
        intro a ha
        exact (h a ha).later [r]
      obtain ⟨hstages, hreported⟩ := ih hold
      constructor
      · rw [hstages]
        simp [stagesOf, hno]
      · exact .refused hno (objection_of_ruleFault h (List.Subset.refl _) hfault) hreported
    · next hfault =>
      have hsuits : Suits m.decl r := hdecides.mp hfault
      obtain ⟨hstages, hreported⟩ := ih (comesFrom_foldl h hsuits)
      constructor
      · simp only [hstages]
        simp [stagesOf, hsuits]
      · exact .kept hsuits hreported

end

theorem injectDecl_eq (file : Path) (m : DeclMatches) :
    (injectDecl file m).1 = .ofStages m.importPath m.decl (stagesOf m.decl m.rules) ∧
      Reported file m [] m.rules (injectDecl file m).2 := by
  have hnone : ∀ a ∈ ([] : List Accepted), ComesFrom m.decl [] a := by simp
  obtain ⟨hstages, hreported⟩ := injectRules_eq file m hnone m.rules
  constructor
  · simp only [injectDecl, hstages]
  · exact hreported

/-- A file with the stages that suit its declarations. -/
def settled (f : FileMatches) : InstrumentedFile where
  package := f.package
  source := f.file
  decls := sortedBy (fun a b => decide (a.decl.bodyOpen ≤ b.decl.bodyOpen))
    (f.decls.map fun m => .ofStages m.importPath m.decl (stagesOf m.decl m.rules))

theorem injectFile_eq (f : FileMatches) :
    injectFile f = (settled f, f.decls.flatMap fun m => (injectDecl f.file.path m).2) := by
  have hdecls : (f.decls.map (injectDecl f.file.path)).map Prod.fst =
      f.decls.map fun m => .ofStages m.importPath m.decl (stagesOf m.decl m.rules) := by
    rw [List.map_map]
    apply List.map_congr_left
    intro m _
    exact (injectDecl_eq f.file.path m).1
  rw [injectFile, settled, ← hdecls, List.flatMap_map]

/-- All conflicts of some files, in the order of the files and their declarations. -/
def conflictsOf (files : List FileMatches) : List Conflict :=
  files.flatMap fun f => f.decls.flatMap fun m => (injectDecl f.file.path m).2

theorem conflictsOf_eq_nil_iff {files : List FileMatches} :
    conflictsOf files = [] ↔ ∀ f ∈ files, ∀ m ∈ f.decls, ∀ r ∈ m.rules, Suits m.decl r := by
  have hdecl (file : Path) (m : DeclMatches) :
      (injectDecl file m).2 = [] ↔ ∀ r ∈ m.rules, Suits m.decl r :=
    (injectDecl_eq file m).2.eq_nil_iff
  simp only [conflictsOf, List.flatMap_eq_nil_iff, hdecl]

theorem injectAll_eq (files : List FileMatches) (policy : ConflictPolicy) :
    injectAll files policy =
      if !(conflictsOf files).isEmpty && policy == .abort then .error (.conflicts (conflictsOf files))
      else .ok (files.map settled) := by
  have hfiles : (files.map injectFile).map Prod.fst = files.map settled := by
    simp [injectFile_eq]
  have hconflicts : (files.map injectFile).flatMap Prod.snd = conflictsOf files := by
    simp [injectFile_eq, List.flatMap_map, conflictsOf]
  rw [injectAll, hfiles, hconflicts]

/-- Each rule of a declaration is kept or refused by the declaration alone, and a conflict names an
earlier rule only if that one was kept and expects another type. So files get the stages that suit
them, unless conflicts end the run, and then all of them are told. -/
theorem rules_decided_alone (files : List FileMatches) :
    (∀ file m, (injectDecl file m).1 = .ofStages m.importPath m.decl (stagesOf m.decl m.rules) ∧
      Reported file m [] m.rules (injectDecl file m).2) ∧
    injectAll files .skip = .ok (files.map settled) ∧
    injectAll files .abort =
      if ∃ f ∈ files, ∃ m ∈ f.decls, ∃ r ∈ m.rules, ¬ Suits m.decl r then
        .error (.conflicts (files.flatMap fun f =>
          f.decls.flatMap fun m => (injectDecl f.file.path m).2))
      else .ok (files.map settled) := by
  refine ⟨injectDecl_eq, ?_, ?_⟩
  · rw [injectAll_eq]
    simp
  · rw [injectAll_eq, ← conflictsOf]
    by_cases hrefused : ∃ f ∈ files, ∃ m ∈ f.decls, ∃ r ∈ m.rules, ¬ Suits m.decl r
    · have hsome : conflictsOf files ≠ [] := by
        intro hnone
        obtain ⟨f, hf, m, hm, r, hr, hno⟩ := hrefused
        exact hno (conflictsOf_eq_nil_iff.mp hnone f hf m hm r hr)
      rw [if_pos hrefused, if_pos (by simp [hsome])]
    · have hnone : conflictsOf files = [] := by
        apply conflictsOf_eq_nil_iff.mpr
        simpa using hrefused
      rw [if_neg hrefused, if_neg (by simp [hnone])]

end Instrumentation.Injection
