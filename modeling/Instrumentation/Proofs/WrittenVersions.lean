import Instrumentation.Proofs.WrittenLabels

/-!
Versions have one written form: what is read as a full version is the text of a valid version, and
the text of a valid version is read as that version (`readFull_eq_ok_iff`).
-/
namespace Instrumentation

namespace Text

/-- A text without blanks is trimmed already. -/
theorem trim_of_not_blank {cs : List Char} (h : ∀ c ∈ cs, isBlank c = false) : trim cs = cs := by
  have hhead : ∀ c ∈ cs.head?, isBlank c = false := fun c hc => h c (List.mem_of_head? hc)
  have hlast : ∀ c ∈ cs.reverse.head?, isBlank c = false := by
    intro c hc
    exact h c (List.mem_reverse.mp (List.mem_of_head? hc))
  rw [trim, trimEnd, ← List.nil_append cs, dropWhile_run (by simp) hhead,
    ← List.nil_append cs.reverse, dropWhile_run (by simp) hlast, List.reverse_reverse]
  rfl

theorem trim_subset (cs : List Char) : trim cs ⊆ cs := by
  intro c hc
  rw [trim, trimEnd, List.mem_reverse] at hc
  have hdropped := (List.dropWhile_sublist isBlank).subset hc
  exact (List.dropWhile_sublist isBlank).subset (List.mem_reverse.mp hdropped)

end Text

namespace Version

theorem readsPre : ReadsLabels PreLabel.read PreLabel.text PreLabel.Valid where
  read _ hseg _ := PreLabel.read_eq_ok_iff hseg
  chars _ := PreLabel.Valid.chars
  nonempty _ := PreLabel.Valid.nonempty

theorem readsBuild : ReadsLabels BuildLabel.read BuildLabel.text BuildLabel.Valid where
  read _ hseg _ := BuildLabel.read_eq_ok_iff hseg
  chars _ := BuildLabel.Valid.chars
  nonempty _ := BuildLabel.Valid.nonempty

/-! ### Labels after their mark -/

/-- The text of labels with a mark in front of them, if there are any. -/
def marked (mark : Char) (texts : List String) : List Char :=
  if texts = [] then [] else mark :: (dotted texts).toList

@[simp] theorem marked_nil (mark : Char) : marked mark [] = [] := rfl

theorem head?_marked {mark c : Char} {texts : List String} (h : c ∈ (marked mark texts).head?) :
    c = mark := by
  unfold marked at h
  split at h
  · cases h
  · exact (Option.some.inj h).symm

theorem head?_marked_append {mark c : Char} {texts : List String} {rest : List Char}
    (h : c ∈ (marked mark texts ++ rest).head?) : c = mark ∨ c ∈ rest.head? := by
  cases htext : marked mark texts with
  | nil =>
    rw [htext] at h
    exact .inr h
  | cons d ds =>
    have hhead : c ∈ (marked mark texts).head? := by
      rw [htext] at h ⊢
      exact h
    exact .inl (head?_marked hhead)

section

variable {α : Type} {label : List Char → Except VersionFault α} {text : α → String}
  {valid : α → Prop} {part : VersionPart} {mark : Char} {cs rest : List Char} {labels : List α}

/-- The labels after a mark that has been read; there is one at least. -/
def readSome (part : VersionPart) (label : List Char → Except VersionFault α) (cs : List Char) :
    Except VersionFault (List α × List Char) := do
  let (labels, rest) ← readLabels label cs
  if labels.isEmpty then throw (.emptySegment part)
  return (labels, rest)

/-- The labels after a mark, if the text goes on with the mark. -/
def readMarked (part : VersionPart) (label : List Char → Except VersionFault α) (mark : Char) :
    List Char → Except VersionFault (List α × List Char)
  | [] => .ok ([], [])
  | c :: cs => if c = mark then readSome part label cs else .ok ([], c :: cs)

theorem readPre_eq (cs : List Char) : readPre cs = readSome .pre PreLabel.read cs := rfl

theorem readBuild_eq (cs : List Char) : readBuild cs = readSome .build BuildLabel.read cs := rfl

theorem readSome_eq_ok_iff : readSome part label cs = .ok (labels, rest) ↔
    labels ≠ [] ∧ readLabels label cs = .ok (labels, rest) := by
  simp only [readSome, bind_eq_ok_iff, Prod.exists]
  constructor
  · rintro ⟨read, rest', hread, h⟩
    split at h
    · cases h
    · next hne =>
      cases h
      exact ⟨by simpa using hne, hread⟩
  · rintro ⟨hne, hread⟩
    exact ⟨labels, rest, hread, if_neg (by simpa using hne)⟩

theorem readMarked_cons (more : List Char) :
    readMarked part label mark (mark :: more) = readSome part label more := if_pos rfl

theorem readMarked_of_ne (h : ∀ more, cs = mark :: more → False) :
    readMarked part label mark cs = .ok ([], cs) := by
  cases cs with
  | nil => rfl
  | cons c cs =>
    refine if_neg ?_
    rintro rfl
    exact h cs rfl

theorem readMarked_eq_ok_iff_readLabels : readMarked part label mark cs = .ok (labels, rest) ↔
    labels = [] ∧ cs = rest ∧ cs.head? ≠ some mark ∨
    labels ≠ [] ∧ ∃ more, cs = mark :: more ∧ readLabels label more = .ok (labels, rest) := by
  cases cs with
  | nil => simp [readMarked, eq_comm]
  | cons c cs =>
    by_cases hc : c = mark
    · simp [readMarked, hc, readSome_eq_ok_iff]
    · have hmark : mark ≠ c := Ne.symm hc
      simp [readMarked, hc, hmark, eq_comm]

/-- Labels are read from their text behind the mark, up to a character that is none of theirs; none
are read where the mark is missing. -/
theorem ReadsLabels.readMarked_eq_ok_iff (h : ReadsLabels label text valid) :
    readMarked part label mark cs = .ok (labels, rest) ↔ (∀ l ∈ labels, valid l) ∧
      cs = marked mark (labels.map text) ++ rest ∧
      ∀ c ∈ rest.head?, if labels = [] then c ≠ mark else (isLabelChar c || c == '.') = false := by
  rw [readMarked_eq_ok_iff_readLabels]
  rcases eq_or_ne labels [] with rfl | hne
  · simp only [ne_eq, not_true_eq_false, false_and, or_false, true_and, List.not_mem_nil,
      false_implies, implies_true, List.map_nil, marked_nil, List.nil_append, if_true]
    refine and_congr_right ?_
    rintro rfl
    constructor
    · rintro hhead c hc rfl
      exact hhead hc
    · intro hhead hmark
      exact hhead mark hmark rfl
  · have hmarked : marked mark (labels.map text) = mark :: (dotted (labels.map text)).toList := by
      rw [marked, if_neg (by simpa using hne)]
    simp only [h.readLabels_eq_ok_iff hne, hmarked, hne, if_false, ne_eq, not_false_eq_true,
      false_and, false_or, true_and, List.cons_append]
    constructor
    · rintro ⟨_, rfl, hvalid, rfl, hrest⟩
      exact ⟨hvalid, rfl, hrest⟩
    · rintro ⟨hvalid, rfl, hrest⟩
      exact ⟨_, rfl, hvalid, rfl, hrest⟩

end

/-! ### Full versions -/

/-- The steps that read a text as a version: three numbers with dots between them, and the two lists
of labels behind their marks. -/
def Steps (cs : List Char) (v : Version) : Prop :=
  ∃ cs₁ cs₂ cs₃ cs₄ cs₅ cs₆, readNumber .major cs = .ok (v.major, cs₁) ∧
    readDot .major cs₁ = .ok cs₂ ∧ readNumber .minor cs₂ = .ok (v.minor, cs₃) ∧
    readDot .minor cs₃ = .ok cs₄ ∧ readNumber .patch cs₄ = .ok (v.patch, cs₅) ∧
    readMarked .pre PreLabel.read '-' cs₅ = .ok (v.pre, cs₆) ∧
    readMarked .build BuildLabel.read '+' cs₆ = .ok (v.build, [])

theorem steps_of_readFull {cs : List Char} {v : Version} (h : readFull cs = .ok v) : Steps cs v := by
  unfold readFull at h
  dsimp -zeta only at h
  split at h
  · cases h
  obtain ⟨⟨major, cs₁⟩, hmajor, h⟩ := exists_of_bind_eq_ok h
  obtain ⟨cs₂, hdot, h⟩ := exists_of_bind_eq_ok h
  obtain ⟨⟨minor, cs₃⟩, hminor, h⟩ := exists_of_bind_eq_ok h
  obtain ⟨cs₄, hdot', h⟩ := exists_of_bind_eq_ok h
  obtain ⟨⟨patch, cs₅⟩, hpatch, h⟩ := exists_of_bind_eq_ok h
  dsimp -zeta only at h
  -- What follows the labels is read in one way, whether labels stand there or not.
  extract_lets afterPre at h
  have hafterPre (pre : List PreLabel) (part : VersionPart) (cs₆ : List Char)
      (h : afterPre (pre, part, cs₆) = .ok v) : ∃ build, v = ⟨major, minor, patch, pre, build⟩ ∧
      readMarked .build BuildLabel.read '+' cs₆ = .ok (build, []) := by
    dsimp -zeta only [afterPre] at h
    extract_lets afterBuild at h
    have hafterBuild (build : List BuildLabel) (part : VersionPart) (cs₇ : List Char)
        (h : afterBuild (build, part, cs₇) = .ok v) :
        v = ⟨major, minor, patch, pre, build⟩ ∧ cs₇ = [] := by
      cases cs₇ with
      | nil =>
        cases h
        exact ⟨rfl, rfl⟩
      | cons c cs₇ => cases h
    split at h
    · obtain ⟨⟨build, cs₇⟩, hbuild, h⟩ := exists_of_bind_eq_ok h
      obtain ⟨hv, rfl⟩ := hafterBuild build _ cs₇ h
      exact ⟨build, hv, (readMarked_cons _).trans (readBuild_eq _ ▸ hbuild)⟩
    · next hmark =>
      obtain ⟨hv, rfl⟩ := hafterBuild [] _ cs₆ h
      exact ⟨[], hv, readMarked_of_ne hmark⟩
  split at h
  · obtain ⟨⟨pre, cs₆⟩, hpre, h⟩ := exists_of_bind_eq_ok h
    obtain ⟨build, rfl, hbuild⟩ := hafterPre pre _ cs₆ h
    exact ⟨cs₁, cs₂, cs₃, cs₄, _, cs₆, hmajor, hdot, hminor, hdot', hpatch,
      (readMarked_cons _).trans hpre, hbuild⟩
  · next hmark =>
    obtain ⟨build, rfl, hbuild⟩ := hafterPre [] _ cs₅ h
    exact ⟨cs₁, cs₂, cs₃, cs₄, cs₅, cs₅, hmajor, hdot, hminor, hdot', hpatch,
      readMarked_of_ne hmark, hbuild⟩

theorem readFull_of_steps {cs : List Char} {v : Version} (h : Steps cs v) : readFull cs = .ok v := by
  obtain ⟨major, minor, patch, pre, build⟩ := v
  obtain ⟨cs₁, cs₂, cs₃, cs₄, cs₅, cs₆, hmajor, hdot, hminor, hdot', hpatch, hpre, hbuild⟩ := h
  have hne : ¬ cs.isEmpty = true := by
    intro hempty
    rw [List.isEmpty_iff.mp hempty] at hmajor
    cases hmajor
  unfold readFull
  rw [if_neg hne]
  refine bind_eq_ok hmajor <| bind_eq_ok hdot <| bind_eq_ok hminor <| bind_eq_ok hdot' <|
    bind_eq_ok hpatch ?_
  dsimp -zeta only
  extract_lets afterPre
  have hafterPre (part : VersionPart) :
      afterPre (pre, part, cs₆) = .ok ⟨major, minor, patch, pre, build⟩ := by
    dsimp -zeta only [afterPre]
    split
    · next more =>
      rw [readMarked_cons] at hbuild
      exact bind_eq_ok (readBuild_eq more ▸ hbuild) rfl
    · next hmark =>
      rw [readMarked_of_ne hmark] at hbuild
      cases hbuild
      rfl
  split
  · next more =>
    rw [readMarked_cons] at hpre
    exact bind_eq_ok hpre (hafterPre _)
  · next hmark =>
    rw [readMarked_of_ne hmark] at hpre
    cases hpre
    exact hafterPre _

/-- A version that can be written: its numbers are in bounds and its labels have a text. -/
structure Valid (v : Version) : Prop where
  major_lt : v.major < componentBound
  minor_lt : v.minor < componentBound
  patch_lt : v.patch < componentBound
  pre : ∀ l ∈ v.pre, l.Valid
  build : ∀ l ∈ v.build, l.Valid

theorem valid_release {major minor patch : Nat} (hmajor : major < componentBound)
    (hminor : minor < componentBound) (hpatch : patch < componentBound) :
    (⟨major, minor, patch, [], []⟩ : Version).Valid :=
  ⟨hmajor, hminor, hpatch, by simp, by simp⟩

theorem toList_text (v : Version) : v.text.toList =
    Nat.toDigits 10 v.major ++ '.' :: (Nat.toDigits 10 v.minor ++ '.' ::
      (Nat.toDigits 10 v.patch ++
        (marked '-' (v.pre.map PreLabel.text) ++ marked '+' (v.build.map BuildLabel.text)))) := by
  simp only [text, preText, buildText, String.toList_append, toList_toString, marked,
    List.map_eq_nil_iff, List.isEmpty_iff]
  split <;> split <;> simp

/-- The full versions are the texts of valid versions. -/
theorem readFull_eq_ok_iff {cs : List Char} {v : Version} :
    readFull cs = .ok v ↔ v.Valid ∧ cs = v.text.toList := by
  have hsteps : readFull cs = .ok v ↔ Steps cs v := ⟨steps_of_readFull, readFull_of_steps⟩
  rw [hsteps, toList_text]
  simp only [Steps, readNumber_eq_ok_iff, readDot_eq_ok_iff, readsPre.readMarked_eq_ok_iff,
    readsBuild.readMarked_eq_ok_iff]
  constructor
  · rintro ⟨_, _, _, _, _, _, ⟨hmajor, rfl, -⟩, rfl, ⟨hminor, rfl, -⟩, rfl, ⟨hpatch, rfl, -⟩,
      ⟨hpre, rfl, -⟩, ⟨hbuild, rfl, -⟩⟩
    exact ⟨⟨hmajor, hminor, hpatch, hpre, hbuild⟩, by simp⟩
  · rintro ⟨hv, rfl⟩
    refine ⟨_, _, _, _, _, _, ⟨hv.major_lt, rfl, by simp⟩, rfl, ⟨hv.minor_lt, rfl, by simp⟩, rfl,
      ⟨hv.patch_lt, rfl, ?_⟩, ⟨hv.pre, rfl, ?_⟩, ⟨hv.build, (List.append_nil _).symm, by simp⟩⟩
    · intro c hc
      rcases head?_marked_append hc with rfl | hc
      · rfl
      · rw [head?_marked hc]
        rfl
    · intro c hc
      rw [head?_marked hc]
      split
      · decide
      · rfl

/-- Valid versions are those that some text is in full. -/
theorem valid_iff_ofString? {v : Version} : v.Valid ↔ ∃ s, ofString? s = some v := by
  unfold ofString?
  constructor
  · intro hv
    exact ⟨v.text, by rw [readFull_eq_ok_iff.mpr ⟨hv, rfl⟩]; rfl⟩
  · rintro ⟨s, hs⟩
    cases hread : readFull s.toList with
    | ok w =>
      rw [hread] at hs
      cases hs
      exact (readFull_eq_ok_iff.mp hread).1
    | error fault =>
      rw [hread] at hs
      cases hs

theorem valid_of_readPre {cs rest : List Char} {labels : List PreLabel}
    (h : readPre cs = .ok (labels, rest)) : ∀ l ∈ labels, l.Valid := by
  rw [readPre_eq, readSome_eq_ok_iff] at h
  exact ((readsPre.readLabels_eq_ok_iff h.1).mp h.2).1

/-! ### The characters of a version -/

theorem mem_marked {mark c : Char} {texts : List String} (h : c ∈ marked mark texts) :
    c = mark ∨ c = '.' ∨ ∃ t ∈ texts, c ∈ t.toList := by
  unfold marked at h
  split at h
  · cases h
  · rw [List.mem_cons, toList_dotted] at h
    rcases h with rfl | h
    · exact .inl rfl
    · rcases Text.mem_or_of_mem_intercalate h with rfl | ⟨cs, hcs, hc⟩
      · exact .inr (.inl rfl)
      · obtain ⟨t, ht, rfl⟩ := List.mem_map.mp hcs
        exact .inr (.inr ⟨t, ht, hc⟩)

/-- The text of a version has the characters of labels, dots and a plus. -/
theorem Valid.chars {v : Version} (hv : v.Valid) {c : Char} (hc : c ∈ v.text.toList) :
    isLabelChar c = true ∨ c = '.' ∨ c = '+' := by
  have hnumber (n : Nat) (h : c ∈ Nat.toDigits 10 n) : isLabelChar c = true :=
    isLabelChar_of_isDigit (isDigit_of_mem_toDigits c h)
  rw [toList_text] at hc
  simp only [List.mem_append, List.mem_cons] at hc
  rcases hc with hc | rfl | hc | rfl | hc | hc | hc
  · exact .inl (hnumber _ hc)
  · exact .inr (.inl rfl)
  · exact .inl (hnumber _ hc)
  · exact .inr (.inl rfl)
  · exact .inl (hnumber _ hc)
  · rcases mem_marked hc with rfl | rfl | ⟨t, ht, hc⟩
    · exact .inl rfl
    · exact .inr (.inl rfl)
    · obtain ⟨l, hl, rfl⟩ := List.mem_map.mp ht
      exact .inl ((hv.pre l hl).chars c hc)
  · rcases mem_marked hc with rfl | rfl | ⟨t, ht, hc⟩
    · exact .inr (.inr rfl)
    · exact .inr (.inl rfl)
    · obtain ⟨l, hl, rfl⟩ := List.mem_map.mp ht
      exact .inl ((hv.build l hl).chars c hc)

/-- The characters of labels are upper and lower case letters, digits and the hyphen. -/
theorem isLabelChar_eq (c : Char) : isLabelChar c =
    (decide ('A'.val ≤ c.val ∧ c.val ≤ 'Z'.val) ||
      (decide ('a'.val ≤ c.val) && decide (c.val ≤ 'z'.val)) ||
      (decide ('0'.val ≤ c.val) && decide (c.val ≤ '9'.val)) || c == '-') := rfl

theorem isBlank_of_isLabelChar {c : Char} (h : isLabelChar c = true) : Text.isBlank c = false := by
  have hrange : 45 ≤ c.toNat ∧ c.toNat ≤ 122 := by
    simp [isLabelChar_eq, UInt32.le_iff_toNat_le] at h
    rcases h with (((h | h) | h) | rfl)
    · omega
    · omega
    · omega
    · decide
  simp [Text.isBlank]
  omega

theorem Valid.not_blank {v : Version} (hv : v.Valid) :
    ∀ c ∈ v.text.toList, Text.isBlank c = false := by
  intro c hc
  rcases hv.chars hc with hlabel | rfl | rfl
  · exact isBlank_of_isLabelChar hlabel
  · rfl
  · rfl

theorem Valid.comma_not_mem {v : Version} (hv : v.Valid) : ',' ∉ v.text.toList := by
  intro hc
  have h := hv.chars hc
  revert h
  decide

theorem exists_digit_cons (v : Version) : ∃ d cs, d.isDigit = true ∧ v.text.toList = d :: cs := by
  rw [toList_text]
  cases hds : Nat.toDigits 10 v.major with
  | nil => exact absurd hds Nat.toDigits_ne_nil
  | cons d ds => exact ⟨d, _, isDigit_of_mem_toDigits (n := v.major) d (by simp [hds]), rfl⟩

end Version
end Instrumentation
