import Instrumentation.Build
import Instrumentation.Proofs.Diagnostics
import Instrumentation.Proofs.Isolation

/-!
What a failed build shows. The compiler's errors are told in its order, each at the place that it
stands for, but those that are taken for complaints about instrumentation are left out, whatever
made errors of them.
-/
namespace Instrumentation

namespace Rendering

/-- A character of the source is in the rendered text. -/
theorem mem_woven_of_source (is : List Insertion) (pos : Nat) (before rest : List Char) (c : Char) :
    (c, ⟨pos + Text.byteLength before, false⟩) ∈ woven is pos (before ++ c :: rest) := by
  induction before generalizing pos with
  | nil => simp [woven]
  | cons d before ih =>
    have hlater := ih (pos + d.utf8Size)
    rw [Nat.add_assoc] at hlater
    rw [List.cons_append, woven, Text.byteLength_cons]
    exact List.mem_append_right _ (List.mem_cons_of_mem _ hlater)

theorem byteLength_copiedOf_le (xs : List (Char × Mapped)) :
    Text.byteLength (copiedOf xs) ≤ Text.byteLength (xs.map Prod.fst) := by
  induction xs with
  | nil => exact Nat.le_refl _
  | cons x xs ih =>
    obtain ⟨c, offset, generated⟩ := x
    cases generated <;> simp [copiedOf] at ih ⊢ <;> omega

end Rendering

namespace InstrumentedFile

open Source (Scan)

/-- The compiler has a name for the brace of an instrumented body, which is a site although it
stands for the brace in the source. -/
theorem exists_braceSite {f : InstrumentedFile} {text : List Char}
    (hread : Scan.read text = .ok f.source.scan) (hmark : Source.OneMark text)
    (hmem : ∀ d ∈ f.decls, d.decl ∈ f.source.scan.declarations) {d : InstrumentedDecl}
    (hd : d ∈ f.activeDecls) :
    ∃ line column, f.isInstrumentationSite line column = true ∧
      f.toSource line column = ⟨f.path,
        (Text.compilerPlace (Text.slice text 0 d.decl.bodyOpen)).1,
        (Text.compilerPlace (Text.slice text 0 d.decl.bodyOpen)).2, false⟩ := by
  obtain ⟨-, hbraces, hplaces⟩ := toSource_compilerPlace hread hmem (.inl hmark)
  obtain ⟨rest, before, htext, hoffset⟩ := hbraces hmark d hd
  have hwoven := Rendering.mem_woven_of_source f.insertions 0 before rest '{'
  rw [← htext, Nat.zero_add, hoffset] at hwoven
  obtain ⟨pre, post, hsplit⟩ := List.append_of_mem hwoven
  have hpast : f.source.scan.bom ≤ Text.byteLength (pre.map Prod.fst) := by
    have hbehind := ((Scan.behind_mark hread).2.2 _ (hmem d (activeDecls_subset hd))).1
    obtain ⟨-, -, ⟨hm, -⟩ | ⟨i, -, -, -, hm⟩⟩ := Rendering.woven_split hsplit
    · have hlen := Rendering.byteLength_copiedOf_le pre
      rw [Mapped.mk.injEq] at hm
      omega
    · simp at hm
  obtain ⟨-, hsource, hsite⟩ := hplaces pre '{' _ post hsplit hpast
  exact ⟨_, _, hsite.mpr (.inr ⟨d, hd, rfl⟩), hsource⟩

end InstrumentedFile

namespace Remapping

variable {w : WorkingCopy} {files : List InstrumentedFile} {d : RawDiagnostic} {s : Span}

/-- A span lies in a modified file, in what was inserted or at the brace of an instrumented body. -/
def PointsAtInstrumentation (w : WorkingCopy) (files : List InstrumentedFile) (s : Span) : Prop :=
  ∃ f, instrumented? w files s = some f ∧ f.isInstrumentationSite s.line s.column = true

/-- A diagnostic is a complaint about braces that nothing needs, and all that it points at first is
instrumentation. -/
structure IsBraceLint (w : WorkingCopy) (files : List InstrumentedFile) (d : RawDiagnostic) :
    Prop where
  code : d.code = some "unused_braces"
  primary : ∃ s ∈ d.spans, s.isPrimary = true
  pointing : ∀ s ∈ d.spans, s.isPrimary = true → PointsAtInstrumentation w files s

theorem atInstrumentation_iff :
    atInstrumentation w files s = true ↔ PointsAtInstrumentation w files s := by
  unfold atInstrumentation PointsAtInstrumentation
  cases instrumented? w files s <;> simp

theorem isInjectionLint_iff : isInjectionLint w files d = true ↔ IsBraceLint w files d := by
  simp only [isInjectionLint, Bool.and_eq_true, beq_iff_eq, Bool.not_eq_true',
    List.isEmpty_eq_false_iff, List.all_eq_true, List.mem_filter, atInstrumentation_iff]
  constructor
  · rintro ⟨⟨hcode, hsome⟩, hall⟩
    obtain ⟨s, hs⟩ := List.exists_mem_of_ne_nil _ hsome
    exact ⟨hcode, ⟨s, List.mem_filter.mp hs⟩, fun s hs hprimary => hall s ⟨hs, hprimary⟩⟩
  · rintro ⟨hcode, ⟨s, hs, hprimary⟩, hall⟩
    refine ⟨⟨hcode, ?_⟩, fun s hs => hall s hs.1 hs.2⟩
    exact List.ne_nil_of_mem (List.mem_filter.mpr ⟨hs, hprimary⟩)

instance : Decidable (IsBraceLint w files d) := decidable_of_iff _ isInjectionLint_iff

/-- The errors among the diagnostics of a build that are shown. -/
def shownErrors (w : WorkingCopy) (files : List InstrumentedFile) (out : CompileOutput) :
    List RawDiagnostic :=
  (out.diagnostics.filter fun d => d.level = "error").filter fun d => ¬ IsBraceLint w files d

theorem errors_eq (w : WorkingCopy) (files : List InstrumentedFile) (out : CompileOutput) :
    errors w files out = (shownErrors w files out).map (diagnostic w files) := by
  rw [errors, relevant, shownErrors, List.filter_filter, List.filter_filter]
  congr 1
  refine List.filter_congr fun d _ => ?_
  rw [isError, Bool.and_comm, Bool.beq_eq_decide_eq]
  simp [← isInjectionLint_iff, Bool.and_comm]

end Remapping

namespace Build

open Remapping (IsBraceLint shownErrors)

theorem finish_failed {b : Build} {out : CompileOutput} (h : out.success = false) :
    finish b out = .error (.compilation
      ((shownErrors b.copy b.files out).map (Remapping.diagnostic b.copy b.files))) := by
  rw [finish, h, ← Remapping.errors_eq]
  rfl

/-- A failed build shows its errors in their order, all of them if none is taken for a complaint
about instrumentation, and none of them if all are. -/
theorem failed_shows_errors (b : Build) (out : CompileOutput) (hfailed : out.success = false) :
    finish b out = .error (.compilation
      ((shownErrors b.copy b.files out).map (Remapping.diagnostic b.copy b.files))) ∧
    (shownErrors b.copy b.files out = (out.diagnostics.filter fun d => d.level = "error") ↔
      ∀ d ∈ out.diagnostics, d.level = "error" → ¬ IsBraceLint b.copy b.files d) ∧
    (shownErrors b.copy b.files out = [] ↔
      ∀ d ∈ out.diagnostics, d.level = "error" → IsBraceLint b.copy b.files d) := by
  refine ⟨finish_failed hfailed, ?_, ?_⟩
  · rw [shownErrors, List.filter_eq_self]
    simp
  · rw [shownErrors, List.filter_eq_nil_iff]
    simp

/-- A crate that forbids braces which nothing needs. -/
def strictText : String := "#![deny(unused_braces)]\npub fn f() -> u8 { 1 }\n"

def strictTree : FileTree where
  files := [(["w", "Cargo.toml"], .text ""), (["w", "src", "lib.rs"], .text strictText)]
  dirs := [["t"]]

/-- The function of the crate with one stage. -/
def strictFile (scan : Source.Scan) : InstrumentedFile :=
  { InstrumentedFile.staged scan with source := ⟨⟨"/w/src/lib.rs"⟩, scan⟩, externs := [] }

/-- A place in the file, as a compiler names it in the working copy. -/
def strictSpan (line column : Nat) : Span := ⟨⟨"src/lib.rs"⟩, line, column, true⟩

/-- What a compiler that forbids such braces says of the second block of the function. -/
def braceError (line column : Nat) : RawDiagnostic where
  level := "error"
  code := some "unused_braces"
  message := "unnecessary braces around block return value"
  spans := [strictSpan line column]

def typeError (line column : Nat) : RawDiagnostic where
  level := "error"
  code := some "E0308"
  message := "mismatched types"
  spans := [strictSpan line column]

def ofFile (t : FileTree) (w : WorkingCopy) (f : InstrumentedFile) : Build where
  tree := t
  copy := w
  files := [f]
  request := { manifestPath := w.manifestPath }
  keepsCopy := false

/-- The copy of the crate, with its function instrumented: the compiler names the brace of the body
by a place that stands for the one in the source. -/
theorem exists_strictCopy : ∃ t w scan line column,
    WorkingCopy.materialize strictTree ⟨"/t"⟩ WorkingCopy.bareGraph WorkingCopy.barePlan =
      .ok (t, w) ∧
    Source.Scan.read strictText.toList = .ok scan ∧
    Remapping.position w [strictFile scan] (strictSpan line column) =
      ⟨⟨"/w/src/lib.rs"⟩, 2, 18, false⟩ ∧
    IsBraceLint w [strictFile scan] (braceError line column) := by
  have hmade : (WorkingCopy.materialize strictTree ⟨"/t"⟩ WorkingCopy.bareGraph
      WorkingCopy.barePlan).toOption.any (fun r =>
        decide (r.2.sourcePath? (Remapping.fileInCopy r.2 (strictSpan 0 0)) =
          some ⟨"/w/src/lib.rs"⟩)) = true := by decide +kernel
  obtain ⟨⟨t, w⟩, hw, hsource⟩ := exists_ok_of_any hmade
  have hscan : (Source.Scan.read strictText.toList).toOption.any (fun scan =>
      decide ((∀ d ∈ (strictFile scan).decls, d.decl ∈ scan.declarations) ∧
        ∃ d ∈ (strictFile scan).activeDecls,
          Text.compilerPlace (Text.slice strictText.toList 0 d.decl.bodyOpen) = (2, 18))) =
      true := by decide +kernel
  obtain ⟨scan, hread, hscan⟩ := exists_ok_of_any hscan
  obtain ⟨hmem, d, hd, hplace⟩ := of_decide_eq_true hscan
  obtain ⟨line, column, hsite, htoSource⟩ := InstrumentedFile.exists_braceSite
    (f := strictFile scan) hread (by decide) hmem hd
  rw [hplace] at htoSource
  have hmodified : (strictFile scan).isModified = true := by
    simp [InstrumentedFile.isModified, List.ne_nil_of_mem hd]
  have hpath : (strictFile scan).path.normalize.same ⟨"/w/src/lib.rs"⟩ = true := by
    change Path.same (Path.normalize ⟨"/w/src/lib.rs"⟩) ⟨"/w/src/lib.rs"⟩ = true
    decide +kernel
  have hat : Remapping.modifiedAt? [strictFile scan] ⟨"/w/src/lib.rs"⟩ =
      some (strictFile scan) := by simp [Remapping.modifiedAt?, hmodified, hpath]
  have hfile : w.sourcePath? (Remapping.fileInCopy w (strictSpan line column)) =
      some ⟨"/w/src/lib.rs"⟩ := of_decide_eq_true hsource
  refine ⟨t, w, scan, line, column, hw, hread, ?_, rfl, ⟨_, List.mem_singleton_self _, rfl⟩, ?_⟩
  · simp only [Remapping.position, hfile, hat]
    exact htoSource
  · intro s hs _
    obtain rfl := List.mem_singleton.mp hs
    refine ⟨strictFile scan, ?_, hsite⟩
    rw [Remapping.instrumented?, hfile]
    exact hat

/-- A type error in the body is shown, and the complaint about its braces beside it is not. -/
theorem strictFile_shows_errors :
    ∃ t w scan line column, WorkingCopy.materialize strictTree ⟨"/t"⟩ WorkingCopy.bareGraph
        WorkingCopy.barePlan = .ok (t, w) ∧
      Source.Scan.read strictText.toList = .ok scan ∧
      finish (ofFile t w (strictFile scan))
          { diagnostics := [braceError line column, typeError line column] } =
        .error (.compilation
          [Remapping.diagnostic w [strictFile scan] (typeError line column)]) := by
  obtain ⟨t, w, scan, line, column, hw, hread, -, hlint⟩ := exists_strictCopy
  obtain ⟨hfinish, -⟩ := failed_shows_errors (ofFile t w (strictFile scan))
    { diagnostics := [braceError line column, typeError line column] } rfl
  have htype : ¬ IsBraceLint w [strictFile scan] (typeError line column) := by
    intro h
    simpa [typeError] using h.code
  have hshown : shownErrors w [strictFile scan]
      { diagnostics := [braceError line column, typeError line column] } =
        [typeError line column] := by
    have herrors : (braceError line column).level = "error" ∧
      (typeError line column).level = "error" := ⟨rfl, rfl⟩
    simp [shownErrors, herrors, hlint, htype]
  refine ⟨t, w, scan, line, column, hw, hread, hfinish.trans ?_⟩
  rw [ofFile, hshown, List.map_singleton]

/-- A crate forbids braces that nothing needs, and the one error of its build is about those of the
body: the build fails without any error. -/
theorem strictFile_fails_without_errors :
    ∃ t w scan line column, WorkingCopy.materialize strictTree ⟨"/t"⟩ WorkingCopy.bareGraph
        WorkingCopy.barePlan = .ok (t, w) ∧
      Source.Scan.read strictText.toList = .ok scan ∧
      (braceError line column).level = "error" ∧
      Remapping.position w [strictFile scan] (strictSpan line column) =
        ⟨⟨"/w/src/lib.rs"⟩, 2, 18, false⟩ ∧
      finish (ofFile t w (strictFile scan)) { diagnostics := [braceError line column] } =
        .error (.compilation []) := by
  obtain ⟨t, w, scan, line, column, hw, hread, hplace, hlint⟩ := exists_strictCopy
  refine ⟨t, w, scan, line, column, hw, hread, rfl, hplace, ?_⟩
  simp [finish_failed, shownErrors, ofFile, hlint]

end Build
end Instrumentation
