import Instrumentation.Proofs.WrittenVersions

/-!
What is read as a loose version. A text that is no full version is read up to its first hyphen: it
starts with one to three numbers that have dots between them, and what follows the dot behind a
third number is passed over. The prerelease stands behind the hyphen.
-/
namespace Instrumentation

namespace Version

variable {v : Version} {n : Nat} {s : String} {cs core ending : List Char}

/-! ### Numbers -/

/-- A number as it stands in a loose version: decimal digits, with a plus in front or without. -/
structure IsNumber (n : Nat) (cs : List Char) : Prop where
  lt : n < componentBound
  digits : ∃ ds, ds ≠ [] ∧ (∀ c ∈ ds, c.isDigit = true) ∧ decimal ds = n ∧
    (cs = ds ∨ cs = '+' :: ds)

theorem readComponent?_eq_some_iff : readComponent? cs = some n ↔ IsNumber n cs := by
  unfold readComponent?
  extract_lets ds
  have hds : cs = ds ∨ cs = '+' :: ds := by
    dsimp only [ds]
    split
    · exact .inr rfl
    · exact .inl rfl
  simp only [ite_eq_iff, reduceCtorEq, Option.some.injEq, and_false, or_false, false_or,
    Bool.or_eq_true, List.isEmpty_iff, Bool.not_eq_true', not_or, Bool.not_eq_false,
    List.all_eq_true]
  constructor
  · rintro ⟨⟨hne, hall⟩, hlt, rfl⟩
    exact ⟨hlt, ds, hne, hall, rfl, hds⟩
  · rintro ⟨hlt, digits, hne, hall, hvalue, hcs⟩
    have hsame : ds = digits := by
      rcases hcs with rfl | rfl
      · dsimp only [ds]
        split
        · next rest => exact absurd (hall '+' List.mem_cons_self) (by decide)
        · rfl
      · rfl
    rw [hsame]
    exact ⟨⟨hne, hall⟩, hvalue ▸ hlt, hvalue⟩

theorem IsNumber.chars (h : IsNumber n cs) {c : Char} (hc : c ∈ cs) :
    c.isDigit = true ∨ c = '+' := by
  obtain ⟨ds, -, hall, -, rfl | rfl⟩ := h.digits
  · exact .inl (hall c hc)
  · rcases List.mem_cons.mp hc with rfl | hc
    · exact .inr rfl
    · exact .inl (hall c hc)

theorem IsNumber.not_mem (h : IsNumber n cs) {c : Char} (hdigit : c.isDigit = false)
    (hplus : c ≠ '+') : c ∉ cs := by
  intro hc
  rcases h.chars hc with hc | hc
  · rw [hdigit] at hc
    cases hc
  · exact hplus hc

/-- The first numbers of a version with dots between them; the numbers behind them are zero. -/
inductive Numbers (v : Version) : Nat → List Char → Prop where
  | one {a : List Char} (major : IsNumber v.major a) (minor : v.minor = 0) (patch : v.patch = 0) :
    Numbers v 1 a
  | two {a b : List Char} (major : IsNumber v.major a) (minor : IsNumber v.minor b)
    (patch : v.patch = 0) : Numbers v 2 (a ++ '.' :: b)
  | three {a b c : List Char} (major : IsNumber v.major a) (minor : IsNumber v.minor b)
    (patch : IsNumber v.patch c) : Numbers v 3 (a ++ '.' :: (b ++ '.' :: c))

/-- What may follow the numbers and is passed over: text behind a dot, once there are three. -/
inductive PassedOver : Nat → List Char → Prop where
  | nothing (count : Nat) : PassedOver count []
  | more (cs : List Char) (h : '-' ∉ cs) : PassedOver 3 ('.' :: cs)

/-- The number that stands in one of the pieces; one that is missing is zero. -/
def numberAt? (parts : List (List Char)) (i : Nat) : Option Nat :=
  match parts[i]? with
  | none => some 0
  | some p => readComponent? p

/-- The first three pieces are read as the numbers of the version. -/
def ReadsNumbers (v : Version) (parts : List (List Char)) : Prop :=
  numberAt? parts 0 = some v.major ∧ numberAt? parts 1 = some v.minor ∧
    numberAt? parts 2 = some v.patch

theorem IsNumber.dot_not_mem (h : IsNumber n cs) : '.' ∉ cs := h.not_mem rfl (by decide)

theorem pieces_number (h : IsNumber n cs) (rest : List Char) :
    Text.pieces '.' (cs ++ '.' :: rest) = cs :: Text.pieces '.' rest := by
  rw [Text.pieces_append, Text.pieces_of_not_mem h.dot_not_mem]
  rfl

theorem pieces_number_end (h : IsNumber n cs) : Text.pieces '.' cs = [cs] :=
  Text.pieces_of_not_mem h.dot_not_mem

theorem Numbers.reads {count : Nat} {numbers passed : List Char} (h : Numbers v count numbers)
    (hpassed : PassedOver count passed) :
    ReadsNumbers v (Text.pieces '.' (numbers ++ passed)) := by
  cases h with
  | one major minor patch =>
    cases hpassed
    simp [ReadsNumbers, numberAt?, readComponent?_eq_some_iff, pieces_number_end major, major,
      minor, patch]
  | two major minor patch =>
    cases hpassed
    simp [ReadsNumbers, numberAt?, readComponent?_eq_some_iff, pieces_number major,
      pieces_number_end minor, major, minor, patch]
  | three major minor patch =>
    cases hpassed with
    | nothing =>
      simp [ReadsNumbers, numberAt?, readComponent?_eq_some_iff, pieces_number major,
        pieces_number minor, pieces_number_end patch, major, minor, patch]
    | more cs h =>
      simp [ReadsNumbers, numberAt?, readComponent?_eq_some_iff, pieces_number major,
        pieces_number minor, pieces_number patch, major, minor, patch]

theorem exists_of_readsNumbers (hcore : '-' ∉ core)
    (h : ReadsNumbers v (Text.pieces '.' core)) : ∃ count numbers passed,
      core = numbers ++ passed ∧ Numbers v count numbers ∧ PassedOver count passed := by
  have htext := Text.intercalate_pieces '.' core
  simp only [ReadsNumbers] at h
  -- As many numbers are written as there are pieces; from a fourth piece on nothing is read.
  match hparts : Text.pieces '.' core with
  | [] => exact absurd hparts (Text.pieces_ne_nil '.' core)
  | [a] =>
    rw [hparts] at htext h
    simp [numberAt?, readComponent?_eq_some_iff] at htext h
    obtain ⟨hmajor, hminor, hpatch⟩ := h
    exact ⟨1, core, [], by simp, .one (htext ▸ hmajor) hminor.symm hpatch.symm, .nothing 1⟩
  | [a, b] =>
    rw [hparts] at htext h
    simp [numberAt?, readComponent?_eq_some_iff] at htext h
    obtain ⟨hmajor, hminor, hpatch⟩ := h
    exact ⟨2, core, [], by simp, htext ▸ .two hmajor hminor hpatch.symm, .nothing 2⟩
  | [a, b, c] =>
    rw [hparts] at htext h
    simp [numberAt?, readComponent?_eq_some_iff] at htext h
    obtain ⟨hmajor, hminor, hpatch⟩ := h
    exact ⟨3, core, [], by simp, htext ▸ .three hmajor hminor hpatch, .nothing 3⟩
  | a :: b :: c :: d :: rest =>
    rw [hparts] at htext h
    simp [numberAt?, readComponent?_eq_some_iff] at htext h
    obtain ⟨hmajor, hminor, hpatch⟩ := h
    have hrest : '-' ∉ ['.'].intercalate (d :: rest) := by
      intro hd
      refine hcore ?_
      rw [← htext]
      simp [hd]
    refine ⟨3, a ++ '.' :: (b ++ '.' :: c), '.' :: ['.'].intercalate (d :: rest), ?_,
      .three hmajor hminor hpatch, .more _ hrest⟩
    simpa using htext.symm

/-! ### Prereleases -/

theorem eq_of_readLabels_nil {α : Type} {label : List Char → Except VersionFault α}
    {rest : List Char} (h : readLabels label cs = .ok ([], rest)) : rest = cs := by
  obtain ⟨run, rfl, -, -, hlabels⟩ := readLabels_eq_ok_iff_run.mp h
  split at hlabels
  · next hrun =>
    rw [hrun]
    rfl
  · obtain ⟨p, hp⟩ := List.exists_mem_of_ne_nil _ (Text.pieces_ne_nil '.' run)
    obtain ⟨l, hl, -⟩ := exists_of_mapM hlabels hp
    cases hl

theorem readPreOnly_eq_ok_iff {labels : List PreLabel} : readPreOnly cs = .ok labels ↔
    (∀ l ∈ labels, l.Valid) ∧ cs = (dotted (labels.map PreLabel.text)).toList := by
  have hread : readPreOnly cs = .ok labels ↔ readLabels PreLabel.read cs = .ok (labels, []) := by
    simp only [readPreOnly, bind_eq_ok_iff, Prod.exists]
    constructor
    · rintro ⟨found, rest, hfound, h⟩
      split at h
      · next hrest =>
        cases h
        rw [hfound, List.isEmpty_iff.mp hrest]
      · cases h
    · intro h
      exact ⟨labels, [], h, rfl⟩
  rw [hread]
  by_cases hne : labels = []
  · subst hne
    constructor
    · intro h
      exact ⟨by simp, (eq_of_readLabels_nil h).symm⟩
    · rintro ⟨-, rfl⟩
      rfl
  · simp [readsPre.readLabels_eq_ok_iff hne]

/-- The prerelease of a version behind a hyphen, or nothing if there is none; the hyphen may also
stand there with nothing behind it. -/
inductive Prerelease (v : Version) : List Char → Prop where
  | absent (pre : v.pre = []) : Prerelease v []
  | behind (pre : ∀ l ∈ v.pre, l.Valid) :
    Prerelease v ('-' :: (dotted (v.pre.map PreLabel.text)).toList)

/-- The prerelease that is read from what stands behind the first hyphen. -/
def ReadsPre (v : Version) : Option (List Char) → Prop
  | none => v.pre = []
  | some pre => readPreOnly pre = .ok v.pre

/-! ### Loose versions -/

/-- A text without the blanks at its ends and without the `v` in front. -/
def bareText (s : String) : List Char :=
  match Text.trim s.toList with
  | 'v' :: rest => rest
  | _ => Text.trim s.toList

/-- A text as it is cut at its first hyphen. -/
def splitPre (bare : List Char) : List Char × Option (List Char) :=
  match Text.cut '-' bare with
  | some (core, pre) => (core, some pre)
  | none => (bare, none)

theorem bareText_subset (s : String) : bareText s ⊆ s.toList := by
  have htrim := Text.trim_subset s.toList
  unfold bareText
  split
  · next heq => exact List.Subset.trans (List.subset_cons_self _ _) (heq ▸ htrim)
  · exact htrim

/-- The number in one of the pieces, or the fault that none stands there. -/
def readPart (text name : String) (parts : List (List Char)) (i : Nat) : Except LooseFault Nat :=
  match parts[i]? with
  | none => .ok 0
  | some p => match readComponent? p with
    | some n => .ok n
    | none => .error (.component name text)

theorem readPart_eq_ok_iff {text name : String} {parts : List (List Char)} {i : Nat} :
    readPart text name parts i = .ok n ↔ numberAt? parts i = some n := by
  unfold readPart numberAt?
  cases parts[i]? with
  | none => simp
  | some p =>
    dsimp only
    cases readComponent? p <;> simp

/-- The version of three numbers and of the prerelease behind a hyphen. -/
def readEnding (text : String) (major minor patch : Nat) :
    Option (List Char) → Except LooseFault Version
  | none => .ok { major, minor, patch }
  | some pre => match readPreOnly pre with
    | .ok labels => .ok { major, minor, patch, pre := labels }
    | .error fault => .error (.prerelease text fault)

theorem readEnding_eq_ok_iff {text : String} {major minor patch : Nat} {pre : Option (List Char)} :
    readEnding text major minor patch pre = .ok v ↔
      major = v.major ∧ minor = v.minor ∧ patch = v.patch ∧ v.build = [] ∧ ReadsPre v pre := by
  constructor
  · intro h
    cases pre with
    | none =>
      cases h
      exact ⟨rfl, rfl, rfl, rfl, rfl⟩
    | some pre =>
      simp only [readEnding] at h
      split at h
      · next labels hlabels =>
        cases h
        exact ⟨rfl, rfl, rfl, rfl, hlabels⟩
      · cases h
  · obtain ⟨major', minor', patch', labels, build⟩ := v
    rintro ⟨rfl, rfl, rfl, rfl, hpre⟩
    cases pre with
    | none =>
      obtain rfl : labels = [] := hpre
      rfl
    | some pre =>
      simp only [readEnding, show readPreOnly pre = .ok labels from hpre]

/-- The parts of a text that is no full version, read one by one. -/
def readParts (text : String) (bare : List Char) : Except LooseFault Version := do
  let parts := Text.pieces '.' (splitPre bare).1
  let major ← readPart text "major" parts 0
  let minor ← readPart text "minor" parts 1
  let patch ← readPart text "patch" parts 2
  readEnding text major minor patch (splitPre bare).2

theorem readParts_eq_ok_iff {text : String} {bare : List Char} : readParts text bare = .ok v ↔
    v.build = [] ∧ ReadsNumbers v (Text.pieces '.' (splitPre bare).1) ∧
      ReadsPre v (splitPre bare).2 := by
  simp only [readParts, bind_eq_ok_iff, readPart_eq_ok_iff, readEnding_eq_ok_iff, ReadsNumbers]
  constructor
  · rintro ⟨_, hmajor, _, hminor, _, hpatch, rfl, rfl, rfl, hbuild, hpre⟩
    exact ⟨hbuild, ⟨hmajor, hminor, hpatch⟩, hpre⟩
  · rintro ⟨hbuild, ⟨hmajor, hminor, hpatch⟩, hpre⟩
    exact ⟨_, hmajor, _, hminor, _, hpatch, rfl, rfl, rfl, hbuild, hpre⟩

theorem readLoose_of_full (h : readFull (bareText s) = .ok v) : readLoose s = .ok v := by
  unfold readLoose
  dsimp -zeta only
  extract_lets trimmed text bare
  rw [show bare = bareText s from rfl, h]
  rfl

theorem readLoose_of_not_full {fault : VersionFault} (h : readFull (bareText s) = .error fault) :
    readLoose s = readParts (String.ofList (Text.trim s.toList)) (bareText s) := by
  unfold readLoose
  dsimp -zeta only
  extract_lets trimmed text bare
  rw [show bare = bareText s from rfl, h]
  rfl

theorem readLoose_eq_ok_iff_split : readLoose s = .ok v ↔
    readFull (bareText s) = .ok v ∨ (∃ fault, readFull (bareText s) = .error fault) ∧ v.build = [] ∧
      ReadsNumbers v (Text.pieces '.' (splitPre (bareText s)).1) ∧
      ReadsPre v (splitPre (bareText s)).2 := by
  cases hfull : readFull (bareText s) with
  | ok w => simp [readLoose_of_full hfull]
  | error fault => simp [readLoose_of_not_full hfull, readParts_eq_ok_iff]

theorem numberAt?_lt {parts : List (List Char)} {i : Nat} (h : numberAt? parts i = some n) :
    n < componentBound := by
  unfold numberAt? at h
  split at h
  · cases h
    decide
  · exact (readComponent?_eq_some_iff.mp h).lt

theorem ReadsPre.valid {pre : Option (List Char)} (h : ReadsPre v pre) : ∀ l ∈ v.pre, l.Valid := by
  cases pre with
  | none =>
    rw [show v.pre = [] from h]
    simp
  | some pre => exact (readPreOnly_eq_ok_iff.mp h).1

/-- What is read as a loose version is a full one, or its numbers and its prerelease are read one by
one. -/
theorem full_or_valid_of_readLoose (h : readLoose s = .ok v) :
    (∃ bare, bare ⊆ s.toList ∧ readFull bare = .ok v) ∨ v.Valid ∧ v.build = [] := by
  rcases readLoose_eq_ok_iff_split.mp h with hfull | ⟨-, hbuild, ⟨hmajor, hminor, hpatch⟩, hpre⟩
  · exact .inl ⟨bareText s, bareText_subset s, hfull⟩
  · exact .inr ⟨⟨numberAt?_lt hmajor, numberAt?_lt hminor, numberAt?_lt hpatch, hpre.valid,
      by simp [hbuild]⟩, hbuild⟩

/-- What is read as a version is a valid one, also where it is written loosely. -/
theorem valid_of_readLoose (h : readLoose s = .ok v) : v.Valid := by
  rcases full_or_valid_of_readLoose h with ⟨bare, -, hfull⟩ | ⟨hvalid, -⟩
  · exact (readFull_eq_ok_iff.mp hfull).1
  · exact hvalid

theorem bareText_text (hv : v.Valid) : bareText v.text = v.text.toList := by
  obtain ⟨d, cs, hd, htext⟩ := v.exists_digit_cons
  unfold bareText
  rw [Text.trim_of_not_blank hv.not_blank]
  split
  · next heq =>
    rw [htext] at heq
    cases heq
    cases hd
  · rfl

/-- A valid version is read from its text, also as a loose one. -/
theorem readLoose_text (hv : v.Valid) : readLoose v.text = .ok v :=
  readLoose_of_full (readFull_eq_ok_iff.mpr ⟨hv, bareText_text hv⟩)

theorem Numbers.hyphen_not_mem {count : Nat} (h : Numbers v count cs) : '-' ∉ cs := by
  have hnumber {n : Nat} {ds : List Char} (h : IsNumber n ds) : '-' ∉ ds :=
    h.not_mem rfl (by decide)
  cases h with
  | one major minor patch => exact hnumber major
  | two major minor patch => simp [hnumber major, hnumber minor]
  | three major minor patch => simp [hnumber major, hnumber minor, hnumber patch]

theorem PassedOver.hyphen_not_mem {count : Nat} (h : PassedOver count cs) : '-' ∉ cs := by
  cases h with
  | nothing => simp
  | more cs h => simp [h]

/-- How a text is made up that is read as a loose version although it is no full one: one to three
numbers, text that is passed over behind the third, and the prerelease. -/
def LooselyWritten (v : Version) (cs : List Char) : Prop :=
  v.build = [] ∧ ∃ count numbers passed pre, cs = numbers ++ (passed ++ pre) ∧
    Numbers v count numbers ∧ PassedOver count passed ∧ Prerelease v pre

theorem looselyWritten_iff : LooselyWritten v cs ↔ v.build = [] ∧
    ReadsNumbers v (Text.pieces '.' (splitPre cs).1) ∧ ReadsPre v (splitPre cs).2 := by
  refine and_congr_right fun _ => ?_
  constructor
  · rintro ⟨count, numbers, passed, pre, rfl, hnumbers, hpassed, hpre⟩
    have hcore : '-' ∉ numbers ++ passed := by
      simp [hnumbers.hyphen_not_mem, hpassed.hyphen_not_mem]
    have hread := hnumbers.reads hpassed
    rw [← List.append_assoc]
    cases hpre with
    | absent hnone =>
      rw [List.append_nil, splitPre, Text.cut_eq_none_iff.mpr hcore]
      exact ⟨hread, hnone⟩
    | behind hvalid =>
      rw [splitPre, Text.cut_append hcore]
      exact ⟨hread, readPreOnly_eq_ok_iff.mpr ⟨hvalid, rfl⟩⟩
  · rintro ⟨hread, hpre⟩
    cases hcut : Text.cut '-' cs with
    | none =>
      have hcore := Text.cut_eq_none_iff.mp hcut
      simp only [splitPre, hcut] at hread hpre
      obtain ⟨count, numbers, passed, rfl, hnumbers, hpassed⟩ := exists_of_readsNumbers hcore hread
      exact ⟨count, numbers, passed, [], by simp, hnumbers, hpassed, .absent hpre⟩
    | some halves =>
      obtain ⟨core, pre⟩ := halves
      have hcore := Text.not_mem_of_cut hcut
      simp only [splitPre, hcut] at hread hpre
      obtain ⟨count, numbers, passed, rfl, hnumbers, hpassed⟩ := exists_of_readsNumbers hcore hread
      obtain ⟨hvalid, rfl⟩ := readPreOnly_eq_ok_iff.mp hpre
      refine ⟨count, numbers, passed, _, ?_, hnumbers, hpassed, .behind hvalid⟩
      rw [Text.cut_eq_some hcut, List.append_assoc]

/-- A text is read as a loose version if it is that version in full, or no full version and loosely
written. -/
theorem readLoose_eq_ok_iff : readLoose s = .ok v ↔ v.Valid ∧ bareText s = v.text.toList ∨
    (∀ w : Version, w.Valid → bareText s ≠ w.text.toList) ∧ LooselyWritten v (bareText s) := by
  have hfails : (∃ fault, readFull (bareText s) = .error fault) ↔
      ∀ w : Version, w.Valid → bareText s ≠ w.text.toList := by
    constructor
    · rintro ⟨fault, hfault⟩ w hw htext
      rw [readFull_eq_ok_iff.mpr ⟨hw, htext⟩] at hfault
      cases hfault
    · intro hnone
      cases hfull : readFull (bareText s) with
      | ok w =>
        obtain ⟨hw, htext⟩ := readFull_eq_ok_iff.mp hfull
        exact absurd htext (hnone w hw)
      | error fault => exact ⟨fault, rfl⟩
  rw [readLoose_eq_ok_iff_split, readFull_eq_ok_iff, hfails, looselyWritten_iff]

theorem Numbers.count_dot_lt {count : Nat} (h : Numbers v count cs) : cs.count '.' < 3 := by
  have hnumber {n : Nat} {ds : List Char} (h : IsNumber n ds) : ds.count '.' = 0 :=
    List.count_eq_zero.mpr h.dot_not_mem
  cases h with
  | one major minor patch => simp [hnumber major]
  | two major minor patch => simp [hnumber major, hnumber minor]
  | three major minor patch => simp [hnumber major, hnumber minor, hnumber patch]

/-- Four numbers are read as the version of the first three, although they are neither its full text
nor some of its numbers with a prerelease behind them. -/
theorem readLoose_fourNumbers : readLoose "1.2.3.4" = .ok ⟨1, 2, 3, [], []⟩ ∧
    bareText "1.2.3.4" ≠ (⟨1, 2, 3, [], []⟩ : Version).text.toList ∧
    ¬ ∃ count numbers pre, bareText "1.2.3.4" = numbers ++ pre ∧
      Numbers ⟨1, 2, 3, [], []⟩ count numbers ∧ Prerelease ⟨1, 2, 3, [], []⟩ pre := by
  have hbare : bareText "1.2.3.4" = "1.2.3.4".toList := by decide +kernel
  refine ⟨by decide +kernel, by decide +kernel, ?_⟩
  rintro ⟨count, numbers, pre, htext, hnumbers, hpre⟩
  rw [hbare] at htext
  have hhyphen : '-' ∉ numbers ++ pre := by
    rw [← htext]
    decide
  cases hpre with
  | absent =>
    have hdots := hnumbers.count_dot_lt
    rw [← List.append_nil numbers, ← htext] at hdots
    revert hdots
    decide
  | behind => simp at hhyphen

end Version
end Instrumentation
