import Instrumentation.Proofs.Outcome
import Instrumentation.Proofs.Paths
import Instrumentation.Version.Reader
import Mathlib.Data.List.Basic

/-!
The parts of a version have one written form each: a number is read from its numeral, a label from
its text and a list of labels from their texts with dots between them.
-/
namespace Instrumentation

open Text (pieces)

namespace Text

variable {p : Char → Bool} {xs ys : List Char}

/-- A run ends where the next character does not belong to it. -/
theorem takeWhile_run (hxs : ∀ c ∈ xs, p c = true) (hys : ∀ c ∈ ys.head?, p c = false) :
    (xs ++ ys).takeWhile p = xs := by
  rw [List.takeWhile_append_of_pos hxs]
  cases ys with
  | nil => simp
  | cons c ys => simp [hys c (by simp)]

theorem dropWhile_run (hxs : ∀ c ∈ xs, p c = true) (hys : ∀ c ∈ ys.head?, p c = false) :
    (xs ++ ys).dropWhile p = ys := by
  rw [List.dropWhile_append_of_pos hxs]
  cases ys with
  | nil => rfl
  | cons c ys => simp [hys c (by simp)]

theorem head?_dropWhile (p : Char → Bool) (cs : List Char) :
    ∀ c ∈ (cs.dropWhile p).head?, p c = false := by
  intro c hc
  have h := List.head?_dropWhile_not p cs
  rw [Option.mem_def.mp hc] at h
  simpa using h

/-- A text falls in one way into a run and the rest, which goes on with no member of the run. -/
theorem run_iff {cs : List Char} : cs.takeWhile p = xs ∧ cs.dropWhile p = ys ↔
    cs = xs ++ ys ∧ (∀ c ∈ xs, p c = true) ∧ ∀ c ∈ ys.head?, p c = false := by
  constructor
  · rintro ⟨rfl, rfl⟩
    exact ⟨List.takeWhile_append_dropWhile.symm, List.all_eq_true.mp List.all_takeWhile,
      head?_dropWhile p cs⟩
  · rintro ⟨rfl, hxs, hys⟩
    exact ⟨takeWhile_run hxs hys, dropWhile_run hxs hys⟩

variable {sep c : Char} {ps : List (List Char)}

theorem mem_intercalate_of_mem {q : List Char} (hq : q ∈ ps) (hc : c ∈ q) :
    c ∈ [sep].intercalate ps := by
  induction ps with
  | nil => cases hq
  | cons p ps ih =>
    rcases eq_or_ne ps [] with rfl | hne
    · obtain rfl := List.mem_singleton.mp hq
      simpa using hc
    · rw [List.intercalate_cons_of_ne_nil hne]
      rcases List.mem_cons.mp hq with rfl | hq
      · simp [hc]
      · simp [ih hq]

theorem mem_or_of_mem_intercalate (h : c ∈ [sep].intercalate ps) :
    c = sep ∨ ∃ q ∈ ps, c ∈ q := by
  induction ps with
  | nil => cases h
  | cons p ps ih =>
    rcases eq_or_ne ps [] with rfl | hne
    · exact .inr ⟨p, by simp, by simpa using h⟩
    · rw [List.intercalate_cons_of_ne_nil hne, List.append_assoc, List.mem_append, List.mem_append,
        List.mem_singleton] at h
      rcases h with h | rfl | h
      · exact .inr ⟨p, by simp, h⟩
      · exact .inl rfl
      · rcases ih h with rfl | ⟨q, hq, hcq⟩
        · exact .inl rfl
        · exact .inr ⟨q, by simp [hq], hcq⟩

theorem mem_of_mem_pieces {s q : List Char} (hq : q ∈ pieces sep s) (hc : c ∈ q) : c ∈ s := by
  rw [← intercalate_pieces sep s]
  exact mem_intercalate_of_mem hq hc

end Text

namespace Version

/-! ### Numerals -/

theorem toNat_sub_zero_lt {c : Char} (h : c.isDigit = true) : c.toNat - '0'.toNat < 10 := by
  have hrange : 48 ≤ c.toNat ∧ c.toNat ≤ 57 := by
    simpa [Char.isDigit, UInt32.le_iff_toNat_le] using h
  have hzero : '0'.toNat = 48 := rfl
  omega

theorem digitChar_of_isDigit {c : Char} (h : c.isDigit = true) :
    Nat.digitChar (c.toNat - '0'.toNat) = c := by
  have hrange : 48 ≤ c.toNat ∧ c.toNat ≤ 57 := by
    simpa [Char.isDigit, UInt32.le_iff_toNat_le] using h
  have hzero : '0'.toNat = 48 := rfl
  apply Char.toNat_inj.mp
  rw [Nat.toNat_digitChar_of_lt_ten (toNat_sub_zero_lt h)]
  omega

/-- Further digits continue a numeral. -/
theorem toDigits_ofDigitChars {ds : List Char} (hds : ∀ c ∈ ds, c.isDigit = true) {n : Nat}
    (hn : 0 < n) : Nat.toDigits 10 (Nat.ofDigitChars 10 ds n) = Nat.toDigits 10 n ++ ds := by
  induction ds generalizing n with
  | nil => simp
  | cons c ds ih =>
    have hc : c.isDigit = true := hds c (by simp)
    have hnext := Nat.toDigits_append_toDigits (by decide : 1 < 10) hn (toNat_sub_zero_lt hc)
    rw [Nat.toDigits_of_lt_base (toNat_sub_zero_lt hc), digitChar_of_isDigit hc] at hnext
    rw [Nat.ofDigitChars_cons, ih (fun d hd => hds d (by simp [hd])) (by omega), ← hnext]
    simp

/-- Decimal digits of which the first is a zero just if it is the only one. -/
structure IsNumeral (ds : List Char) : Prop where
  nonempty : ds ≠ []
  digits : ∀ c ∈ ds, c.isDigit = true
  lead : ∀ more, ds = '0' :: more → more = []

theorem toDigits_decimal {ds : List Char} (h : IsNumeral ds) :
    Nat.toDigits 10 (decimal ds) = ds := by
  obtain ⟨d, more, rfl⟩ := List.exists_cons_of_ne_nil h.nonempty
  by_cases hd : d = '0'
  · subst hd
    rw [h.lead more rfl]
    rfl
  · have hdigit : d.isDigit = true := h.digits d (by simp)
    have hpos : 0 < d.toNat - '0'.toNat := by
      rw [Nat.pos_iff_ne_zero]
      intro he
      have hchar := digitChar_of_isDigit hdigit
      rw [he] at hchar
      exact hd hchar.symm
    have hvalue : decimal (d :: more) = Nat.ofDigitChars 10 more (d.toNat - '0'.toNat) := by
      simp [decimal, Nat.ofDigitChars]
    rw [hvalue, toDigits_ofDigitChars (fun c hc => h.digits c (by simp [hc])) hpos,
      Nat.toDigits_of_lt_base (toNat_sub_zero_lt hdigit), digitChar_of_isDigit hdigit]
    rfl

theorem decimal_toDigits (n : Nat) : decimal (Nat.toDigits 10 n) = n :=
  Nat.ofDigitChars_ten_toDigits

theorem isDigit_of_mem_toDigits {n : Nat} : ∀ c ∈ Nat.toDigits 10 n, c.isDigit = true :=
  fun _ => Nat.isDigit_of_mem_toDigits (by decide) (by decide)

theorem head?_toDigits {n : Nat} (hn : 0 < n) : (Nat.toDigits 10 n).head? ≠ some '0' := by
  induction n using Nat.strongRecOn with
  | ind n ih =>
    rw [Nat.toDigits_eq_if (by decide)]
    split
    · next hlt =>
      intro h
      have hchar := Nat.toNat_digitChar_of_lt_ten hlt
      rw [Option.some.inj h] at hchar
      have hzero : '0'.toNat = 48 := rfl
      omega
    · rw [List.head?_append_of_ne_nil _ Nat.toDigits_ne_nil]
      exact ih (n / 10) (by omega) (by omega)

theorem isNumeral_toDigits (n : Nat) : IsNumeral (Nat.toDigits 10 n) where
  nonempty := Nat.toDigits_ne_nil
  digits := isDigit_of_mem_toDigits
  lead more h := by
    rcases Nat.eq_zero_or_pos n with rfl | hn
    · rw [Nat.toDigits_zero] at h
      exact (List.cons.inj h).2.symm
    · exact absurd (by rw [h]; rfl) (head?_toDigits hn)

/-- Each number has one numeral. -/
theorem isNumeral_and_decimal_iff {ds : List Char} {n : Nat} :
    IsNumeral ds ∧ decimal ds = n ↔ ds = Nat.toDigits 10 n := by
  constructor
  · rintro ⟨h, rfl⟩
    exact (toDigits_decimal h).symm
  · rintro rfl
    exact ⟨isNumeral_toDigits n, decimal_toDigits n⟩

/-- The test for a leading zero tells the numerals among the digits. -/
theorem isNumeral_cons_iff {d : Char} {more : List Char} : IsNumeral (d :: more) ↔
    (∀ c ∈ d :: more, c.isDigit = true) ∧ ¬ (d = '0' && !more.isEmpty) = true := by
  constructor
  · intro h
    refine ⟨h.digits, ?_⟩
    rintro hlead
    simp only [Bool.and_eq_true, decide_eq_true_eq, Bool.not_eq_true', List.isEmpty_eq_false_iff]
      at hlead
    exact hlead.2 (h.lead more (by rw [hlead.1]))
  · rintro ⟨hdigits, hlead⟩
    refine ⟨by simp, hdigits, ?_⟩
    rintro _ he
    cases he
    simpa using hlead

theorem readNumber_eq_ok_iff_isNumeral {part : VersionPart} {cs rest : List Char} {n : Nat} :
    readNumber part cs = .ok (n, rest) ↔ n < componentBound ∧
      (IsNumeral (cs.takeWhile Char.isDigit) ∧ decimal (cs.takeWhile Char.isDigit) = n) ∧
      cs.dropWhile Char.isDigit = rest := by
  have hdigits : ∀ c ∈ cs.takeWhile Char.isDigit, c.isDigit = true :=
    List.all_eq_true.mp List.all_takeWhile
  unfold readNumber
  dsimp only
  split
  · next hds =>
    have hnone : ¬ IsNumeral [] := fun h => h.nonempty rfl
    rw [hds]
    split <;> simp [hnone]
  · next d more hds =>
    rw [hds] at hdigits ⊢
    have hnumeral : IsNumeral (d :: more) ↔ ¬ (d = '0' && !more.isEmpty) = true := by
      rw [isNumeral_cons_iff, and_iff_right hdigits]
    split
    · next hlead =>
      have hnone : ¬ IsNumeral (d :: more) := fun h => hnumeral.mp h hlead
      simp [hnone]
    · next hlead =>
      have hnum : IsNumeral (d :: more) := hnumeral.mpr hlead
      split
      · next hlt =>
        constructor
        · intro h
          cases h
          exact ⟨hlt, ⟨hnum, rfl⟩, rfl⟩
        · rintro ⟨-, ⟨-, rfl⟩, rfl⟩
          rfl
      · next hlt =>
        refine iff_of_false nofun ?_
        rintro ⟨hn, ⟨-, rfl⟩, -⟩
        exact hlt hn

/-- A number is read from its numeral, which is all the digits that stand there. -/
theorem readNumber_eq_ok_iff {part : VersionPart} {cs rest : List Char} {n : Nat} :
    readNumber part cs = .ok (n, rest) ↔ n < componentBound ∧ cs = Nat.toDigits 10 n ++ rest ∧
      ∀ c ∈ rest.head?, c.isDigit = false := by
  rw [readNumber_eq_ok_iff_isNumeral, isNumeral_and_decimal_iff, Text.run_iff,
    and_iff_right isDigit_of_mem_toDigits]

theorem readDot_eq_ok_iff {part : VersionPart} {cs rest : List Char} :
    readDot part cs = .ok rest ↔ cs = '.' :: rest := by
  fun_cases readDot part cs <;> simp_all

/-! ### Labels -/

theorem toList_toString (n : Nat) : (toString n).toList = Nat.toDigits 10 n := by
  rw [Nat.toString_eq_ofList_toDigits, String.toList_ofList]

theorem isLabelChar_of_isDigit {c : Char} (h : c.isDigit = true) : isLabelChar c = true := by
  simp [isLabelChar, Char.isAlphanum, h]

/-- A text of the characters of labels that is no number. -/
structure IsWord (s : String) : Prop where
  chars : ∀ c ∈ s.toList, isLabelChar c = true
  nonDigit : ∃ c ∈ s.toList, c.isDigit = false

theorem IsWord.not_all_isDigit {s : String} (h : IsWord s) : s.toList.all Char.isDigit = false := by
  obtain ⟨c, hc, hdigit⟩ := h.nonDigit
  exact List.all_eq_false.mpr ⟨c, hc, by simp [hdigit]⟩

theorem IsWord.nonempty {s : String} (h : IsWord s) : s.toList ≠ [] := by
  obtain ⟨c, hc, -⟩ := h.nonDigit
  exact List.ne_nil_of_mem hc

theorem isWord_ofList {seg : List Char} (hchars : ∀ c ∈ seg, isLabelChar c = true)
    (h : seg.all Char.isDigit = false) : IsWord (String.ofList seg) := by
  obtain ⟨c, hc, hdigit⟩ := List.all_eq_false.mp h
  exact ⟨by simpa using hchars, c, by simpa using hc, by simpa using hdigit⟩

end Version

namespace PreLabel

open Version (isLabelChar IsWord)

/-- A label that can be written. -/
def Valid : PreLabel → Prop
  | number _ => True
  | word s => IsWord s

theorem Valid.chars {l : PreLabel} (h : l.Valid) : ∀ c ∈ l.text.toList, isLabelChar c = true := by
  cases l with
  | number n =>
    intro c hc
    rw [text, Version.toList_toString] at hc
    exact Version.isLabelChar_of_isDigit (Version.isDigit_of_mem_toDigits c hc)
  | word s => exact IsWord.chars h

theorem Valid.nonempty {l : PreLabel} (h : l.Valid) : l.text.toList ≠ [] := by
  cases l with
  | number n =>
    rw [text, Version.toList_toString]
    exact Nat.toDigits_ne_nil
  | word s => exact IsWord.nonempty h

/-- A text is read as a number if it is a numeral and as a word if not all of it are digits. -/
theorem eq_ok_iff {seg : List Char} {l : PreLabel} : Version.PreLabel.read seg = .ok l ↔
    Version.IsNumeral seg ∧ l = number (Version.decimal seg) ∨
    seg ≠ [] ∧ seg.all Char.isDigit = false ∧ l = word (String.ofList seg) := by
  unfold Version.PreLabel.read
  split
  · have hnone : ¬ Version.IsNumeral [] := fun h => h.nonempty rfl
    simp [hnone]
  · next d more =>
    rw [Version.isNumeral_cons_iff, ← List.all_eq_true]
    split
    · next hdigits =>
      split
      · next hlead => simp [hdigits, hlead]
      · next hlead => simp [hdigits, hlead, eq_comm (a := l)]
    · next hdigits => simp [hdigits, eq_comm (a := l)]

/-- A prerelease label is read from its text. -/
theorem read_eq_ok_iff {seg : List Char} (hseg : ∀ c ∈ seg, isLabelChar c = true) {l : PreLabel} :
    Version.PreLabel.read seg = .ok l ↔ l.Valid ∧ seg = l.text.toList := by
  rw [eq_ok_iff]
  constructor
  · rintro (⟨hnumeral, rfl⟩ | ⟨hne, hdigits, rfl⟩)
    · exact ⟨trivial, by rw [text, Version.toList_toString, Version.toDigits_decimal hnumeral]⟩
    · exact ⟨Version.isWord_ofList hseg hdigits, by simp [text]⟩
  · rintro ⟨hl, rfl⟩
    cases l with
    | number n =>
      rw [text, Version.toList_toString, Version.decimal_toDigits]
      exact .inl ⟨Version.isNumeral_toDigits n, rfl⟩
    | word s => exact .inr ⟨hl.nonempty, IsWord.not_all_isDigit hl, by simp [text]⟩

end PreLabel

namespace BuildLabel

open Version (isLabelChar IsWord decimal)

/-- A label that can be written. -/
def Valid : BuildLabel → Prop
  | number zeros value => zeros ≠ 0 ∨ value ≠ 0
  | word s => IsWord s

theorem toList_text_number (zeros value : Nat) : (number zeros value).text.toList =
    List.replicate zeros '0' ++ if value = 0 then [] else Nat.toDigits 10 value := by
  rw [text]
  split <;> simp

theorem isDigit_of_mem_text {zeros value : Nat} :
    ∀ c ∈ (number zeros value).text.toList, c.isDigit = true := by
  intro c hc
  rw [toList_text_number, List.mem_append] at hc
  rcases hc with hc | hc
  · rw [List.eq_of_mem_replicate hc]
    rfl
  · split at hc
    · cases hc
    · exact Version.isDigit_of_mem_toDigits c hc

theorem Valid.chars {l : BuildLabel} (h : l.Valid) : ∀ c ∈ l.text.toList, isLabelChar c = true := by
  cases l with
  | number zeros value => exact fun c hc => Version.isLabelChar_of_isDigit (isDigit_of_mem_text c hc)
  | word s => exact IsWord.chars h

theorem decimal_replicate_append (zeros : Nat) (ds : List Char) :
    decimal (List.replicate zeros '0' ++ ds) = decimal ds := by
  induction zeros with
  | zero => rfl
  | succ n ih =>
    rw [← ih]
    simp [decimal, List.replicate_succ]

/-- Digits are some zeros and the numeral of their value, if that is not zero. -/
theorem eq_text_number {seg : List Char} (hseg : ∀ c ∈ seg, c.isDigit = true) :
    seg = (number (seg.takeWhile (· == '0')).length (decimal seg)).text.toList := by
  have hzeros : seg.takeWhile (· == '0') = List.replicate (seg.takeWhile (· == '0')).length '0' := by
    rw [List.eq_replicate_iff]
    refine ⟨rfl, fun c hc => ?_⟩
    exact beq_iff_eq.mp (List.all_eq_true.mp List.all_takeWhile c hc)
  have hsplit := (List.takeWhile_append_dropWhile (p := (· == '0')) (l := seg)).symm
  generalize (seg.takeWhile (· == '0')).length = zeros at hzeros
  rw [hzeros] at hsplit
  have hhead := Text.head?_dropWhile (· == '0') seg
  generalize seg.dropWhile (· == '0') = ds at hsplit hhead
  subst hsplit
  rw [toList_text_number, decimal_replicate_append]
  cases ds with
  | nil => rfl
  | cons d more =>
    have hd : d ≠ '0' := by simpa using hhead
    have hdigits : ∀ c ∈ d :: more, c.isDigit = true := fun c hc => hseg c (by simp [hc])
    have hnumeral := Version.toDigits_decimal ⟨by simp, hdigits, by simp [hd]⟩
    have hvalue : decimal (d :: more) ≠ 0 := by
      intro he
      rw [he, Nat.toDigits_zero] at hnumeral
      exact hd (List.cons.inj hnumeral).1.symm
    rw [if_neg hvalue, hnumeral]

theorem Valid.nonempty {l : BuildLabel} (h : l.Valid) : l.text.toList ≠ [] := by
  cases l with
  | number zeros value =>
    rw [toList_text_number]
    intro hnil
    simp only [List.append_eq_nil_iff, List.replicate_eq_nil_iff, ite_eq_left_iff] at hnil
    rcases h with hzeros | hvalue
    · exact hzeros hnil.1
    · exact Nat.toDigits_ne_nil (hnil.2 hvalue)
  | word s => exact IsWord.nonempty h

theorem takeWhile_text (zeros value : Nat) :
    ((number zeros value).text.toList.takeWhile (· == '0')).length = zeros := by
  rw [toList_text_number, Text.takeWhile_run, List.length_replicate]
  · intro c hc
    rw [List.eq_of_mem_replicate hc]
    rfl
  · intro c hc
    split at hc
    · cases hc
    · next hvalue =>
      rw [beq_eq_false_iff_ne]
      rintro rfl
      exact Version.head?_toDigits (Nat.pos_of_ne_zero hvalue) hc

theorem decimal_text (zeros value : Nat) : decimal (number zeros value).text.toList = value := by
  rw [toList_text_number, decimal_replicate_append]
  split
  · next hvalue => rw [hvalue]; rfl
  · exact Version.decimal_toDigits value

/-- A text is read as zeros and a number if all of it are digits, and as a word if not. -/
theorem eq_ok_iff {seg : List Char} {l : BuildLabel} : Version.BuildLabel.read seg = .ok l ↔
    seg ≠ [] ∧ (seg.all Char.isDigit = true ∧
        l = number (seg.takeWhile (· == '0')).length (decimal seg) ∨
      seg.all Char.isDigit = false ∧ l = word (String.ofList seg)) := by
  unfold Version.BuildLabel.read
  split
  · simp
  · split
    · next hdigits => simp [hdigits, eq_comm (a := l)]
    · next hdigits => simp [hdigits, eq_comm (a := l)]

/-- A build label is read from its text. -/
theorem read_eq_ok_iff {seg : List Char} (hseg : ∀ c ∈ seg, isLabelChar c = true) {l : BuildLabel} :
    Version.BuildLabel.read seg = .ok l ↔ l.Valid ∧ seg = l.text.toList := by
  rw [eq_ok_iff]
  constructor
  · rintro ⟨hne, ⟨hdigits, rfl⟩ | ⟨hdigits, rfl⟩⟩
    · have htext := eq_text_number (List.all_eq_true.mp hdigits)
      refine ⟨?_, htext⟩
      by_contra hzero
      simp only [Valid, ne_eq, not_or, not_not] at hzero
      rw [hzero.1, hzero.2, toList_text_number] at htext
      exact hne htext
    · exact ⟨Version.isWord_ofList hseg hdigits, by simp [text]⟩
  · rintro ⟨hl, rfl⟩
    refine ⟨hl.nonempty, ?_⟩
    cases l with
    | number zeros value =>
      rw [takeWhile_text, decimal_text]
      exact .inl ⟨List.all_eq_true.mpr isDigit_of_mem_text, rfl⟩
    | word s => exact .inr ⟨IsWord.not_all_isDigit hl, by simp [text]⟩

end BuildLabel

namespace Version

/-! ### Lists of labels -/

theorem toList_dotted (parts : List String) :
    (dotted parts).toList = ['.'].intercalate (parts.map String.toList) := by
  induction parts with
  | nil => rfl
  | cons s rest ih =>
    cases rest with
    | nil => simp [dotted]
    | cons t rest => simp [dotted, ih]

theorem isLabelChar_dot : isLabelChar '.' = false := rfl

section

variable {α : Type} {label : List Char → Except VersionFault α} {text : α → String}
  {valid : α → Prop}

/-- Reading of labels that have one text each. -/
structure ReadsLabels (label : List Char → Except VersionFault α) (text : α → String)
    (valid : α → Prop) : Prop where
  read : ∀ seg, (∀ c ∈ seg, isLabelChar c = true) →
    ∀ l, label seg = .ok l ↔ valid l ∧ seg = (text l).toList
  chars : ∀ l, valid l → ∀ c ∈ (text l).toList, isLabelChar c = true
  nonempty : ∀ l, valid l → (text l).toList ≠ []

theorem ReadsLabels.mapM_eq_ok_iff (h : ReadsLabels label text valid) {segs : List (List Char)}
    (hsegs : ∀ seg ∈ segs, ∀ c ∈ seg, isLabelChar c = true) {labels : List α} :
    segs.mapM label = .ok labels ↔
      (∀ l ∈ labels, valid l) ∧ segs = labels.map fun l => (text l).toList := by
  induction segs generalizing labels with
  | nil =>
    constructor
    · intro hread
      cases hread
      simp
    · rintro ⟨-, hmap⟩
      rw [List.map_eq_nil_iff.mp hmap.symm]
      rfl
  | cons seg segs ih =>
    have hseg := h.read seg (hsegs seg (by simp))
    have ih' (labels : List α) : segs.mapM label = .ok labels ↔
        (∀ l ∈ labels, valid l) ∧ segs = labels.map fun l => (text l).toList :=
      ih fun s hs => hsegs s (by simp [hs])
    constructor
    · intro hread
      obtain ⟨l, hl, ls, hls, rfl⟩ := mapM_cons_eq_ok_iff.mp hread
      obtain ⟨hvalid, rfl⟩ := (hseg l).mp hl
      obtain ⟨hvalids, rfl⟩ := (ih' ls).mp hls
      exact ⟨by simpa using ⟨hvalid, hvalids⟩, rfl⟩
    · rintro ⟨hvalid, hmap⟩
      obtain ⟨l, ls, rfl, hl, hls⟩ := List.map_eq_cons_iff.mp hmap.symm
      exact mapM_cons_eq_ok_iff.mpr ⟨l, (hseg l).mpr ⟨hvalid l (by simp), hl.symm⟩, ls,
        (ih' ls).mpr ⟨fun k hk => hvalid k (by simp [hk]), hls.symm⟩, rfl⟩

/-- Labels are read from the run of their characters and of dots that starts a text, piece by piece;
no run is no label. -/
theorem readLabels_eq_ok_iff_run {cs rest : List Char} {labels : List α} :
    readLabels label cs = .ok (labels, rest) ↔ ∃ run, cs = run ++ rest ∧
      (∀ c ∈ run, (isLabelChar c || c == '.') = true) ∧
      (∀ c ∈ rest.head?, (isLabelChar c || c == '.') = false) ∧
      if run = [] then labels = [] else (pieces '.' run).mapM label = .ok labels := by
  have hread : readLabels label cs = .ok (labels, rest) ↔
      (cs.dropWhile fun c => isLabelChar c || c == '.') = rest ∧
      if (cs.takeWhile fun c => isLabelChar c || c == '.') = [] then labels = []
      else (pieces '.' (cs.takeWhile fun c => isLabelChar c || c == '.')).mapM label = .ok labels := by
    have hsplit := List.takeWhile_append_dropWhile (p := fun c => isLabelChar c || c == '.') (l := cs)
    unfold readLabels
    dsimp only
    by_cases hrun : (cs.takeWhile fun c => isLabelChar c || c == '.') = []
    · rw [hrun, List.nil_append] at hsplit
      simp only [hrun, hsplit, List.isEmpty_nil, if_true, pure_eq_ok_iff, Prod.mk.injEq, and_comm,
        eq_comm (a := labels)]
    · simp only [hrun, List.isEmpty_iff, if_false, bind_eq_ok_iff, pure_eq_ok_iff, Prod.mk.injEq]
      constructor
      · rintro ⟨_, hlabels, rfl, rfl⟩
        exact ⟨rfl, hlabels⟩
      · rintro ⟨rfl, hlabels⟩
        exact ⟨labels, hlabels, rfl, rfl⟩
  constructor
  · intro h
    obtain ⟨hrest, hlabels⟩ := hread.mp h
    obtain ⟨hcs, hrun, hstop⟩ := Text.run_iff.mp ⟨rfl, hrest⟩
    exact ⟨_, hcs, hrun, hstop, hlabels⟩
  · rintro ⟨run, hcs, hrun, hstop, hlabels⟩
    obtain ⟨rfl, rfl⟩ := Text.run_iff.mpr ⟨hcs, hrun, hstop⟩
    exact hread.mpr ⟨rfl, hlabels⟩

/-- Labels are read from their texts with dots between them. -/
theorem ReadsLabels.readLabels_eq_ok_iff (h : ReadsLabels label text valid) {cs rest : List Char}
    {labels : List α} (hne : labels ≠ []) :
    readLabels label cs = .ok (labels, rest) ↔ (∀ l ∈ labels, valid l) ∧
      cs = (dotted (labels.map text)).toList ++ rest ∧
      ∀ c ∈ rest.head?, (isLabelChar c || c == '.') = false := by
  have htext : (dotted (labels.map text)).toList =
      ['.'].intercalate (labels.map fun l => (text l).toList) := by
    rw [toList_dotted, List.map_map]
    rfl
  rw [readLabels_eq_ok_iff_run, htext]
  constructor
  · rintro ⟨run, rfl, hrun, hrest, hlabels⟩
    split at hlabels
    · exact absurd hlabels hne
    · have hsegs : ∀ seg ∈ pieces '.' run, ∀ c ∈ seg, isLabelChar c = true := by
        intro seg hseg c hc
        have hdot : c ≠ '.' := by
          rintro rfl
          exact Text.not_mem_of_mem_pieces hseg hc
        simpa [hdot] using hrun c (Text.mem_of_mem_pieces hseg hc)
      obtain ⟨hvalid, hpieces⟩ := (h.mapM_eq_ok_iff hsegs).mp hlabels
      exact ⟨hvalid, by rw [← hpieces, Text.intercalate_pieces], hrest⟩
  · rintro ⟨hvalid, rfl, hrest⟩
    have hsegs : ∀ seg ∈ labels.map fun l => (text l).toList, ∀ c ∈ seg, isLabelChar c = true := by
      intro seg hseg
      obtain ⟨l, hl, rfl⟩ := List.mem_map.mp hseg
      exact h.chars l (hvalid l hl)
    have hdots : ∀ seg ∈ labels.map fun l => (text l).toList, '.' ∉ seg := by
      intro seg hseg hdot
      have hlabel := hsegs seg hseg '.' hdot
      rw [isLabelChar_dot] at hlabel
      cases hlabel
    have hpieces := Text.pieces_intercalate (by simpa using hne) hdots
    refine ⟨_, rfl, ?_, hrest, ?_⟩
    · intro c hc
      rcases Text.mem_or_of_mem_intercalate hc with rfl | ⟨seg, hseg, hc⟩
      · rfl
      · simp [hsegs seg hseg c hc]
    · rw [hpieces, if_neg]
      · exact (h.mapM_eq_ok_iff hsegs).mpr ⟨hvalid, rfl⟩
      · -- No label has an empty text, so neither has a list of them.
        intro hempty
        rw [hempty] at hpieces
        obtain ⟨l, _, rfl, hnil, -⟩ := List.map_eq_cons_iff.mp hpieces.symm
        exact h.nonempty l (hvalid l (by simp)) hnil

end

end Version
end Instrumentation
