import Instrumentation.Rule.Basic
import Instrumentation.Sorting

/-!
Matches of rules with declarations. A match set is sorted by file, by place in the file and by the
order of the rules, and holds each such triple once.
-/
namespace Instrumentation

open Std (OrientedCmp TransCmp)

/-- A scanned file and where it lies. -/
structure SourceFile where
  path : Path
  scan : Source.Scan

/-- A declaration that a rule selects. -/
structure Match where
  rule : Rule
  /-- The number of the package that owns the file. -/
  package : Nat
  importPath : String
  file : SourceFile
  decl : Source.Declaration

/-- The rules of one declaration, in the order of registration. -/
structure DeclMatches where
  importPath : String
  decl : Source.Declaration
  rules : List Rule

/-- The matches of one file, declarations in source order. -/
structure FileMatches where
  package : Nat
  file : SourceFile
  decls : List DeclMatches

namespace Match

/-- The declaration with the module it is in. -/
def declaration (m : Match) : String := m.importPath ++ "::" ++ m.decl.qualifiedName

/-- Matches are compared by file, place and rule. -/
def cmp (a b : Match) : Ordering :=
  (a.file.path.cmp b.file.path).then <|
    (compare a.decl.bodyOpen b.decl.bodyOpen).then (compare a.rule.order b.rule.order)

instance : TransCmp cmp :=
  have : TransCmp fun a b : Match => a.file.path.cmp b.file.path := transCmp_on _ Path.cmp
  inferInstanceAs (TransCmp (compareLex (fun a b : Match => a.file.path.cmp b.file.path)
    (compareLex (compareOn fun m : Match => m.decl.bodyOpen)
      (compareOn fun m : Match => m.rule.order))))

def sameFile (a b : Match) : Bool := a.file.path.same b.file.path

def sameDecl (a b : Match) : Bool := a.decl.bodyOpen == b.decl.bodyOpen

end Match

/-- Matches in order, none of them twice. Those in one file are neighbours, and of these those with
one declaration. -/
structure MatchSet where
  toList : List Match
  increasing : toList.Pairwise fun a b => a.cmp b = .lt

namespace MatchSet

/-- The first of each run of equal neighbours. -/
def firsts : List Match → List Match
  | [] => []
  | m :: rest => m :: (after m rest)
where
  after (last : Match) : List Match → List Match
    | [] => []
    | m :: rest => if last.cmp m == .eq then after last rest else m :: after m rest

/-- The matches in order, with or without repetitions. -/
def sorted (ms : List Match) : List Match := sortedBy (fun a b => a.cmp b != .gt) ms

theorem pairwise_sorted (ms : List Match) : (sorted ms).Pairwise fun a b => a.cmp b ≠ .gt := by
  have hpairs : (sorted ms).Pairwise fun a b => (a.cmp b != .gt) = true := by
    refine pairwise_sortedBy (fun a b c hab hbc => ?_) (fun a b => ?_) ms
    · simp only [bne_iff_ne, ← Ordering.isLE_iff_ne_gt] at hab hbc ⊢
      exact TransCmp.isLE_trans hab hbc
    · cases h : a.cmp b with
      | lt => rfl
      | eq => rfl
      | gt => simp [OrientedCmp.lt_of_gt h]
  exact hpairs.imp fun h => by simpa using h

/-- What is left after a match is above it, and increasing. -/
theorem pairwise_after {last : Match} {ms : List Match}
    (h : (last :: ms).Pairwise fun a b => a.cmp b ≠ .gt) :
    (last :: firsts.after last ms).Pairwise fun a b => a.cmp b = .lt := by
  induction ms generalizing last with
  | nil => exact List.pairwise_singleton _ _
  | cons a rest ih =>
    obtain ⟨hlast, hrest⟩ := List.pairwise_cons.mp h
    rw [firsts.after]
    split
    · exact ih (List.pairwise_cons.mpr
        ⟨fun b hb => hlast b (List.mem_cons_of_mem a hb), (List.pairwise_cons.mp hrest).2⟩)
    · next hne =>
      have hlt : last.cmp a = .lt := by
        have hle := hlast a List.mem_cons_self
        cases hcmp : last.cmp a <;> simp_all
      have hafter := ih hrest
      refine List.pairwise_cons.mpr ⟨?_, hafter⟩
      intro b hb
      rcases List.mem_cons.mp hb with rfl | hb
      · exact hlt
      · exact TransCmp.lt_trans hlt ((List.pairwise_cons.mp hafter).1 b hb)

theorem pairwise_firsts {ms : List Match} (h : ms.Pairwise fun a b => a.cmp b ≠ .gt) :
    (firsts ms).Pairwise fun a b => a.cmp b = .lt := by
  cases ms with
  | nil => exact List.Pairwise.nil
  | cons a rest => exact pairwise_after h

def ofList (ms : List Match) : MatchSet where
  toList := firsts (sorted ms)
  increasing := pairwise_firsts (pairwise_sorted ms)

/-- The matches of a set determine it. -/
@[ext] theorem ext {s s' : MatchSet} (h : s.toList = s'.toList) : s = s' := by
  cases s
  cases s'
  cases h
  rfl

/-- Insertion into an increasing list without repetition. -/
def insertNumber (n : Nat) : List Nat → List Nat
  | [] => [n]
  | m :: rest => if n < m then n :: m :: rest else if n = m then m :: rest else m :: insertNumber n rest

/-- The packages with a match, increasing. -/
def packages (s : MatchSet) : List Nat :=
  s.toList.foldr (fun m ns => insertNumber m.package ns) []

end MatchSet

/-- A run of matches with one declaration. -/
def DeclMatches.ofRun? (run : List Match) : Option DeclMatches :=
  run.head?.map fun m => ⟨m.importPath, m.decl, run.map Match.rule⟩

/-- A run of matches in one file. -/
def FileMatches.ofRun? (run : List Match) : Option FileMatches :=
  run.head?.map fun m =>
    ⟨m.package, m.file, (run.splitBy Match.sameDecl).filterMap DeclMatches.ofRun?⟩

/-- The matches by file and by declaration. -/
def MatchSet.files (s : MatchSet) : List FileMatches :=
  (s.toList.splitBy Match.sameFile).filterMap FileMatches.ofRun?

end Instrumentation
