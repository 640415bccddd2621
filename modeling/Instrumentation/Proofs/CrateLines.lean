import Instrumentation.Proofs.Runs
import Instrumentation.Splice.Text
import Mathlib.Tactic.IntervalCases

/-!
Lines that make crates known. Wherever such a line stands between two tokens, it is read as one
item for each crate.
-/
namespace Instrumentation.Source

open Text (byteLength isWordStart isWordContinue)

/-! ### Words -/

/-- The code points of blanks. -/
def blankPoints : List Nat :=
  [0x9, 0xA, 0xB, 0xC, 0xD, 0x20, 0x85, 0xA0, 0x1680, 0x2000, 0x2001, 0x2002, 0x2003, 0x2004, 0x2005,
   0x2006, 0x2007, 0x2008, 0x2009, 0x200A, 0x200E, 0x200F, 0x2028, 0x2029, 0x202F, 0x205F, 0x3000]

theorem isWordStart_of_isGap {c : Char} (h : isGap c) : isWordStart c = false := by
  have hpoint : c.toNat ∈ blankPoints := by
    simp only [isGap, Text.isBlank, Bool.or_eq_true, Bool.and_eq_true, decide_eq_true_eq,
      beq_iff_eq] at h
    rcases h with (h | rfl) | rfl
    · generalize c.toNat = n at h ⊢
      rcases h with (((((((((⟨_, _⟩ | rfl) | rfl) | rfl) | rfl) | ⟨_, _⟩) | rfl) | rfl) | rfl) | rfl) | rfl
      any_goals decide
      · interval_cases n <;> decide
      · interval_cases n <;> decide
    · decide
    · decide
  have hall : (blankPoints.all fun n => !isWordStart (Char.ofNat n)) = true := by decide +kernel
  have hc := List.all_eq_true.mp hall c.toNat hpoint
  rw [Char.ofNat_toNat] at hc
  simpa using hc

/-- A text that starts with a word starts with no blank. -/
theorem gapOf_word {c : Char} (hc : isWordStart c) (cs : List Char) :
    gapOf (c :: cs) = ([], c :: cs) := by
  have hgap : isGap c = false := by
    by_contra hgap
    rw [isWordStart_of_isGap (by simpa using hgap)] at hc
    cases hc
  have hslash : c ≠ '/' := by
    rintro rfl
    exact absurd hc (by decide)
  have hblank : readBlank (c :: cs) = none := by
    simp [readBlank, opensLine, opensBlock, List.isPrefixOf, beq_eq_false_iff_ne.mpr (Ne.symm hslash),
      hgap]
  exact gapOf_of_none hblank

theorem gapOf_blank (cs : List Char) : gapOf (' ' :: cs) = (gapOf cs).after [' '] := by
  have hblank : readBlank (' ' :: cs) = some ([' '], cs) := by
    simp [readBlank, opensLine, opensBlock, List.isPrefixOf, isGap, Text.isBlank]
  exact gapOf_of_blank hblank

/-- A text that is one name. -/
theorem readName_all {cs name : List Char} (h : readName cs = some (name, [])) :
    name = cs ∧ ∃ c rest, cs = c :: rest ∧ isWordStart c ∧ ∀ d ∈ rest, isWordContinue d := by
  obtain ⟨c, rest, rfl, hchars⟩ := exists_of_readName h
  have hcut : c :: rest ++ [] = cs := (cuts_readName h).1
  rw [List.append_nil] at hcut
  exact ⟨hcut, c, rest, hcut.symm, hchars⟩

/-- A text that is one word, raw or not. -/
theorem readAnyWord_all {w name : List Char} {raw : Bool}
    (h : readAnyWord w = some (raw, name, [])) : w = (if raw then ['r', '#'] else []) ++ name ∧
      ∃ c rest, name = c :: rest ∧ isWordStart c ∧ ∀ d ∈ rest, isWordContinue d := by
  obtain ⟨body, rfl, hname⟩ := exists_readName_of_readAnyWord h
  obtain ⟨rfl, hchars⟩ := readName_all hname
  exact ⟨rfl, hchars⟩

/-- No word starts like a quoted text. -/
theorem any_quoteStarts_word {w name : List Char} {raw : Bool}
    (h : readAnyWord w = some (raw, name, [])) : (quoteStarts.any fun q => q.isPrefixOf w) = false := by
  obtain ⟨rfl, c, rest, rfl, hc, hrest⟩ := readAnyWord_all h
  have hne {d : Char} (hd : isWordStart d = false) : (d == c) = false :=
    beq_eq_false_iff_ne.mpr fun heq => by
      rw [heq, hc] at hd
      cases hd
  cases raw with
  | true =>
    simp [quoteStarts, List.isPrefixOf, hne (by decide : isWordStart '"' = false),
      hne (by decide : isWordStart '#' = false)]
  | false =>
    -- Each start of a quoted text has a character that no word has.
    have hquotes : (quoteStarts.all fun q => q.any fun d => !isWordStart d && !isWordContinue d) =
        true := by decide
    rw [Bool.eq_false_iff, ne_eq, List.any_eq_true]
    rintro ⟨q, hq, hpre⟩
    obtain ⟨d, hd, hno⟩ := List.any_eq_true.mp (List.all_eq_true.mp hquotes q hq)
    have hmem : d ∈ c :: rest := (List.isPrefixOf_iff_prefix.mp hpre).subset hd
    simp only [Bool.and_eq_true, Bool.not_eq_true'] at hno
    rcases List.mem_cons.mp hmem with rfl | hmem
    · rw [hc] at hno
      exact absurd hno.1 (by decide)
    · rw [hrest d hmem] at hno
      exact absurd hno.2 (by decide)

/-- No operator starts a word. -/
theorem readMark_eq_none_of_word {c : Char} (hc : isWordStart c) (cs : List Char) :
    readMark (c :: cs) = none := by
  have hmarks : ("~!@#$%^&*-=+|;:,<.>/?'".toList.all fun d => !isWordStart d) = true := by decide
  rw [readMark_cons]
  split
  · rfl
  · split
    · next hmark =>
      have hno := List.all_eq_true.mp hmarks c (List.elem_iff.mp hmark)
      rw [hc] at hno
      cases hno
    · rfl

/-- A word is read up to its end. -/
theorem readLeaf_word {w name r : List Char} {raw : Bool} (h : readAnyWord w = some (raw, name, []))
    (hr : Ends r) (pos : Nat) :
    readLeaf pos (w ++ r) = some (.word raw (String.ofList name) pos, w, r) := by
  obtain ⟨hw, -⟩ := readAnyWord_all h
  obtain ⟨c, x, rfl, hc⟩ := readAnyWord_head h
  have hquote : (quoteStarts.any fun q => q.isPrefixOf (c :: x ++ r)) = false := by
    rw [any_quoteStarts_append hr, any_quoteStarts_word h]
  have hlit : readLiteral (c :: x ++ r) = none := readLiteral_eq_none_of_word hc hquote
  have hmark : readMark (c :: x ++ r) = none := readMark_eq_none_of_word hc _
  have hword := readAnyWord_append hr (c :: x)
  rw [h] at hword
  simp only [readLeaf, hlit, hmark, hquote, hword, Bool.false_eq_true, ↓reduceIte, Option.map_some,
    List.nil_append, ← hw]

/-! ### Lines -/

/-- An identifier, raw or not. -/
def isCrateName (crate : String) : Bool :=
  match readAnyWord crate.toList with
  | some (raw, name, []) => raw || !keywords.contains (String.ofList name)
  | _ => false

/-- The trees of a line that makes a crate known and starts at `pos`; the operator at its end is
`joint` to what follows. -/
def crateTrees (pos : Nat) (joint : Bool) (crate : String) : List Tree :=
  match readAnyWord crate.toList with
  | some (raw, name, _) =>
    [.word false "extern" pos, .word false "crate" (pos + 7),
      .word raw (String.ofList name) (pos + 13), .mark ';' joint (pos + 13 + byteLength crate.toList)]
  | none => []

/-- The trees of the lines for some crates, which stand one behind the other. -/
def cratesTrees (pos : Nat) (joint : Bool) : List String → List Tree
  | [] => []
  | [crate] => crateTrees pos joint crate
  | crate :: next :: crates => crateTrees pos false crate ++
    cratesTrees (pos + 15 + byteLength crate.toList) joint (next :: crates)

theorem toList_externCrateLine_one (crate : String) : (Splice.externCrateLine [crate]).toList =
    "extern crate ".toList ++ (crate.toList ++ [';']) := by
  simp [Splice.externCrateLine, Text.joined]

theorem toList_externCrateLine_cons (crate next : String) (crates : List String) :
    (Splice.externCrateLine (crate :: next :: crates)).toList =
      (Splice.externCrateLine [crate]).toList ++
        ' ' :: (Splice.externCrateLine (next :: crates)).toList := by
  simp [Splice.externCrateLine, Text.joined]

/-- A crate's name is one word. -/
theorem exists_crateTrees {crate : String} (h : isCrateName crate) : ∃ raw name,
    readAnyWord crate.toList = some (raw, name, []) ∧
    isIdent [.word raw (String.ofList name) 0] = true ∧ ∀ pos joint, crateTrees pos joint crate =
      [.word false "extern" pos, .word false "crate" (pos + 7),
        .word raw (String.ofList name) (pos + 13),
        .mark ';' joint (pos + 13 + byteLength crate.toList)] := by
  unfold isCrateName at h
  split at h
  · next raw name hword => exact ⟨raw, name, hword, h, fun pos joint => by rw [crateTrees, hword]⟩
  · cases h

theorem exists_cratesTrees {names : List String} (h : ∀ c ∈ names, isCrateName c) (hne : names ≠ [])
    (pos : Nat) (joint : Bool) :
    ∃ ts, cratesTrees pos joint names = .word false "extern" pos :: ts := by
  match names with
  | [] => exact absurd rfl hne
  | c :: names =>
    obtain ⟨raw, name, -, -, htrees⟩ := exists_crateTrees (h c List.mem_cons_self)
    cases names with
    | nil => exact ⟨_, htrees pos joint⟩
    | cons d names => exact ⟨_, by rw [cratesTrees, htrees]; rfl⟩

namespace Lexes

/-- A blank before a run. -/
theorem blank {pos stop : Nat} {cs rest : List Char} {ts : List Tree} (hne : ts ≠ [])
    (h : Lexes (pos + 1) cs ts stop rest) : Lexes pos (' ' :: cs) ts stop rest := by
  have hgap {gap cs' : List Char} (h : readGap (cs.length + 1) cs = (gap, cs')) :
      readGap ((' ' :: cs).length + 1) (' ' :: cs) = (' ' :: gap, cs') := by
    have hblank := gapOf_blank cs
    rw [show gapOf cs = _ from h] at hblank
    exact hblank
  have hplace (gap : List Char) : pos + 1 + byteLength gap = pos + byteLength (' ' :: gap) := by
    have hsize : ' '.utf8Size = 1 := rfl
    simp [hsize]
    omega
  cases h with
  | done => exact absurd rfl hne
  | doc h hdoc hpaired hts =>
    rw [hplace] at hts ⊢
    exact .doc (hgap h) hdoc hpaired hts
  | leaf h hleaf hts =>
    rw [hplace] at hts hleaf
    exact .leaf (hgap h) hleaf hts
  | group h hinside h' hts =>
    rw [hplace] at hinside ⊢
    exact .group (hgap h) hinside h' hts

/-- A word and the run behind it. -/
theorem word {pos stop : Nat} {w name r rest : List Char} {raw : Bool} {ts : List Tree}
    (h : readAnyWord w = some (raw, name, [])) (hr : Ends r)
    (hts : Lexes (pos + byteLength w) r ts stop rest) :
    Lexes pos (w ++ r) (.word raw (String.ofList name) pos :: ts) stop rest := by
  have hleaf := readLeaf_word h hr pos
  obtain ⟨c, x, rfl, hc⟩ := readAnyWord_head h
  have hgap : gapOf (c :: (x ++ r)) = ([], c :: (x ++ r)) := gapOf_word hc (x ++ r)
  exact .leaf hgap hleaf hts

theorem semicolon {pos stop : Nat} {r rest : List Char} {ts : List Tree}
    (hts : Lexes (pos + 1) r ts stop rest) :
    Lexes pos (';' :: r) (.mark ';' (readMark r).isSome pos :: ts) stop rest := by
  have hgap : gapOf (';' :: r) = ([], ';' :: r) := by
    refine gapOf_of_none ?_
    simp [readBlank, opensLine, opensBlock, List.isPrefixOf, isGap, Text.isBlank]
  have hmark : readMark (';' :: r) = some (';', r) := by
    rw [readMark_cons]
    rfl
  have hleaf : readLeaf pos (';' :: r) = some (.mark ';' (readMark r).isSome pos, [';'], r) :=
    readLeaf_eq_some_iff.mpr
      (.mark (readLiteral_eq_none_of_mark hmark (by decide) r) hmark (by decide))
  exact .leaf hgap hleaf hts

/-- The line for a crate and the run behind it. -/
theorem crate {pos stop : Nat} {name : String} {r rest : List Char} {ts : List Tree}
    (hname : isCrateName name) (hts : Lexes (pos + 14 + byteLength name.toList) r ts stop rest) :
    Lexes pos ((Splice.externCrateLine [name]).toList ++ r)
      (crateTrees pos (readMark r).isSome name ++ ts) stop rest := by
  obtain ⟨raw, word, hword, -, htrees⟩ := exists_crateTrees hname
  have hline : (Splice.externCrateLine [name]).toList ++ r =
      "extern".toList ++ (' ' :: ("crate".toList ++ (' ' :: (name.toList ++ (';' :: r))))) := by
    simp [toList_externCrateLine_one]
  rw [hline, htrees]
  have hsemicolon : Lexes (pos + 13 + byteLength name.toList) (';' :: r)
      (.mark ';' (readMark r).isSome (pos + 13 + byteLength name.toList) :: ts) stop rest := by
    refine .semicolon ?_
    have hplace : pos + 13 + byteLength name.toList + 1 = pos + 14 + byteLength name.toList := by
      omega
    rwa [hplace]
  have hkeyword (k : String) (hk : k = "extern" ∨ k = "crate") :
      readAnyWord k.toList = some (false, k.toList, []) := by
    rcases hk with rfl | rfl <;> decide
  have hname := hsemicolon.word hword (.semicolon r)
  have hbehind := Lexes.blank (by simp) (show Lexes (pos + 12 + 1) _ _ _ _ from hname)
  have hcrate := Lexes.word (hkeyword "crate" (.inr rfl)) (.blank _)
    (show Lexes (pos + 7 + byteLength "crate".toList) _ _ _ _ from hbehind)
  have hbetween := Lexes.blank (by simp) (show Lexes (pos + 6 + 1) _ _ _ _ from hcrate)
  have hextern := Lexes.word (hkeyword "extern" (.inl rfl)) (.blank _)
    (show Lexes (pos + byteLength "extern".toList) _ _ _ _ from hbetween)
  simpa using hextern

/-- The lines for some crates and the run behind them. -/
theorem crates {pos stop : Nat} {names : List String} {r rest : List Char} {ts : List Tree}
    (hnames : ∀ c ∈ names, isCrateName c) (hne : names ≠ [])
    (hts : Lexes (pos + byteLength (Splice.externCrateLine names).toList) r ts stop rest) :
    Lexes pos ((Splice.externCrateLine names).toList ++ r)
      (cratesTrees pos (readMark r).isSome names ++ ts) stop rest := by
  have hlength (c : String) : byteLength (Splice.externCrateLine [c]).toList =
      14 + byteLength c.toList := by
    have hextern : byteLength "extern crate ".toList = 13 := by decide
    have hsemicolon : byteLength [';'] = 1 := by decide
    simp only [toList_externCrateLine_one, Text.byteLength_append, hextern, hsemicolon]
    omega
  induction names generalizing pos with
  | nil => exact absurd rfl hne
  | cons c names ih =>
    cases names with
    | nil =>
      refine .crate (hnames c List.mem_cons_self) ?_
      rwa [hlength, ← Nat.add_assoc] at hts
    | cons d names =>
      have hline := toList_externCrateLine_cons c d names
      have hblank : ' '.utf8Size = 1 := rfl
      rw [hline, Text.byteLength_append, hlength, Text.byteLength_cons, hblank] at hts
      have hplace : pos + 15 + byteLength c.toList +
          byteLength (Splice.externCrateLine (d :: names)).toList = pos + (14 + byteLength c.toList +
          (1 + byteLength (Splice.externCrateLine (d :: names)).toList)) := by omega
      rw [← hplace] at hts
      have hrest := ih (fun c hc => hnames c (List.mem_cons_of_mem _ hc)) (by simp) hts
      have hnext : pos + 15 + byteLength c.toList = pos + 14 + byteLength c.toList + 1 := by omega
      rw [hline, List.append_assoc, cratesTrees, List.append_assoc, List.cons_append]
      obtain ⟨us, hus⟩ := exists_cratesTrees (fun c hc => hnames c (List.mem_cons_of_mem _ hc))
        (by simp : d :: names ≠ []) (pos + 15 + byteLength c.toList) (readMark r).isSome
      refine .crate (hnames c List.mem_cons_self) (.blank (by simp [hus]) ?_)
      rwa [← hnext]

end Lexes

end Instrumentation.Source
