import Instrumentation.Proofs.SpliceTokens
import Instrumentation.Proofs.WrittenLabels

/-!
Generated text in parts: words and marks that are always the same, names that the text declares for
itself, numbers, texts in quotes, and what is given from outside. Which tokens and line ends the
whole has, and where it mentions its own names, follows from a test of the parts that do not change.
-/
namespace Instrumentation.Splice

/-- A name that generated text declares for itself. -/
inductive OwnName where
  | site (stage : Nat)
  | sites (group : Nat)
  | guard (guard : Guard)
  deriving DecidableEq, Repr

/-- The name of the static that lists the stages behind a shared guard. -/
def sitesName (group : Nat) : String := "__HW_SITES_" ++ toString group

def OwnName.text : OwnName → String
  | .site k => siteName k
  | .sites g => sitesName g
  | .guard g => g.text

inductive Part where
  | fixed (s : String)
  | name (declares : Bool) (n : OwnName)
  | number (n : Nat)
  | quoted (s : String)
  | given (s : String)
  deriving DecidableEq, Repr

def Part.text : Part → String
  | .fixed s => s
  | .name _ n => n.text
  | .number n => toString n
  | .quoted s => Text.quoted s
  | .given s => s

/-- The text of some parts. -/
def spell (parts : List Part) : List Char := parts.flatMap fun p => p.text.toList

@[simp] theorem spell_nil : spell [] = [] := rfl

@[simp] theorem spell_cons (p : Part) (parts : List Part) :
    spell (p :: parts) = p.text.toList ++ spell parts := rfl

@[simp] theorem spell_append (parts more : List Part) :
    spell (parts ++ more) = spell parts ++ spell more := List.flatMap_append

def Part.tokens (p : Part) : List Token := (tokens? p.text.toList).getD []

/-- What is known of a part without its names, numbers and given texts. -/
inductive Kind where
  | fixed (text : List Char)
  | word (declares : Bool)
  | quoted
  deriving DecidableEq, Repr

def Part.kind : Part → Kind
  | .fixed s => .fixed s.toList
  | .name declares _ => .word declares
  | .number _ => .word false
  | .quoted _ => .quoted
  | .given _ => .word false

/-- Own names end in a digit, and no other word of a part that does not change does. -/
def Token.isNumbered : Token → Bool
  | .word w => w.getLast?.any Char.isDigit
  | _ => false

namespace Kind

/-- Whether the last token declares what comes next. -/
def declaresNext? (text : List Char) : Option Bool :=
  ((tokens? text).bind List.getLast?).map Token.declares

/-- The text can be read, on one line, and has no own name in it. -/
def isSound : Kind → Bool
  | .fixed text =>
    ((tokens? text).any fun ts => !ts.any Token.isNumbered) && !text.contains '\n'
  | _ => true

theorem exists_of_isSound {text : List Char} (h : (Kind.fixed text).isSound = true) :
    ∃ ts, tokens? text = some ts ∧ (∀ t ∈ ts, t.isNumbered = false) ∧ '\n' ∉ text := by
  simp only [isSound, Bool.and_eq_true, Option.any_eq_true, Bool.not_eq_true', List.any_eq_false,
    Bool.not_eq_true, List.contains_eq_mem, decide_eq_false_iff_not] at h
  obtain ⟨⟨ts, hts, hnumbered⟩, hline⟩ := h
  exact ⟨ts, hts, hnumbered, hline⟩

/-- The text does not start with a part of a word, and is not empty. -/
def startsApart (text : List Char) : Bool := text.head?.any fun c => !isWordChar c

/-- A part may follow another one: no word runs over, and own names stand behind what says whether
they are declared. -/
def follows : Kind → Kind → Bool
  | .fixed text, .word declares => !endsWord text && declaresNext? text == some declares
  | _, .word _ => false
  | .fixed text, .fixed next => !endsWord text || startsApart next
  | .word _, .fixed next => startsApart next
  | .quoted, .fixed _ => true
  | _, .quoted => true

/-- Any other text may follow this part. -/
def closes : Kind → Bool
  | .fixed text => !endsWord text && declaresNext? text == some false
  | _ => false

/-- Each part may follow the one before. -/
def chained : List Kind → Bool
  | k :: l :: rest => k.follows l && chained (l :: rest)
  | _ => true

end Kind

/-- Parts that go together and that other ones may follow. -/
structure Fits (parts : List Part) : Prop where
  sound : ∀ p ∈ parts, p.kind.isSound = true
  chained : Kind.chained (parts.map Part.kind) = true
  starts : ∀ k ∈ (parts.map Part.kind).head?, k ≠ .word true
  closes : ∀ k ∈ (parts.map Part.kind).getLast?, k.closes = true

/-- The test for `Fits`, which looks at the kinds of the parts only. -/
def fits (kinds : List Kind) : Bool :=
  kinds.all Kind.isSound && Kind.chained kinds && kinds.head?.all (· != .word true) &&
    kinds.getLast?.all Kind.closes

theorem Fits.of_kinds {parts : List Part} (h : fits (parts.map Part.kind) = true) : Fits parts := by
  simp only [fits, Bool.and_eq_true, List.all_map, List.all_eq_true, Option.all_eq_true,
    bne_iff_ne, ne_eq] at h
  exact ⟨h.1.1.1, h.1.1.2, h.1.2, h.2⟩

theorem fits_nil : Fits [] := Fits.of_kinds rfl

theorem chained_append {kinds more : List Kind} (h : Kind.chained kinds = true)
    (h' : Kind.chained more = true)
    (hborder : ∀ k ∈ kinds.getLast?, ∀ l ∈ more.head?, k.follows l = true) :
    Kind.chained (kinds ++ more) = true := by
  induction kinds with
  | nil => exact h'
  | cons k kinds ih =>
    cases kinds with
    | nil =>
      cases more with
      | nil => exact h
      | cons l more =>
        simp only [List.cons_append, List.nil_append, Kind.chained, Bool.and_eq_true]
        exact ⟨hborder k (by simp) l (by simp), h'⟩
    | cons k' kinds =>
      simp only [List.cons_append, Kind.chained, Bool.and_eq_true] at h ⊢
      exact ⟨h.1, ih h.2 (by simpa using hborder)⟩

theorem Kind.follows_of_closes {k l : Kind} (hk : k.closes = true) (hl : l ≠ .word true) :
    k.follows l = true := by
  cases k with
  | word declares => cases hk
  | quoted => cases hk
  | fixed s =>
    simp only [Kind.closes, Bool.and_eq_true] at hk
    cases l with
    | fixed t => simp [Kind.follows, hk.1]
    | quoted => rfl
    | word declares =>
      cases declares with
      | true => exact absurd rfl hl
      | false => simpa [Kind.follows] using hk

namespace Fits

variable {parts more : List Part}

theorem append (h : Fits parts) (h' : Fits more) : Fits (parts ++ more) := by
  by_cases hmore : more = []
  · rwa [hmore, List.append_nil]
  by_cases hparts : parts = []
  · rwa [hparts, List.nil_append]
  refine ⟨fun p hp => ?_, ?_, ?_, ?_⟩
  · exact (List.mem_append.mp hp).elim (h.sound p) (h'.sound p)
  · rw [List.map_append]
    refine chained_append h.chained h'.chained fun k hk l hl => ?_
    exact Kind.follows_of_closes (h.closes k hk) (h'.starts l hl)
  · rw [List.map_append, List.head?_append_of_ne_nil _ (by simpa using hparts)]
    exact h.starts
  · rw [List.map_append, List.getLast?_append_of_ne_nil _ (by simpa using hmore)]
    exact h'.closes

theorem flatMap {α : Type} {f : α → List Part} {xs : List α} (h : ∀ x ∈ xs, Fits (f x)) :
    Fits (xs.flatMap f) := by
  induction xs with
  | nil => exact fits_nil
  | cons x xs ih =>
    exact (h x List.mem_cons_self).append (ih fun y hy => h y (List.mem_cons_of_mem x hy))

end Fits

/-! ### Own names -/

theorem isWordChar_of_isDigit {c : Char} (h : c.isDigit = true) : isWordChar c = true := by
  simp [isWordChar, Text.isLetterOrNumber, h]

theorem isWordChar_of_mem_number (n : Nat) : ∀ c ∈ (toString n).toList, isWordChar c = true := by
  intro c hc
  rw [Version.toList_toString] at hc
  exact isWordChar_of_isDigit (Version.isDigit_of_mem_toDigits c hc)

namespace OwnName

/-- What an own name starts with. -/
def lead : OwnName → String
  | .site _ => "__HW_SITE_"
  | .sites _ => "__HW_SITES_"
  | .guard (.single _) => "__hw_t"
  | .guard (.fused _) => "__hw_f"

def number : OwnName → Nat
  | .site k => k
  | .sites g => g
  | .guard (.single g) => g
  | .guard (.fused g) => g

theorem toList_text (n : OwnName) :
    n.text.toList = n.lead.toList ++ Nat.toDigits 10 n.number := by
  rw [← Version.toList_toString, ← String.toList_append]
  obtain k | g | ⟨g⟩ | ⟨g⟩ := n <;> rfl

/-- No own name starts with a digit or has one before its number. -/
def leads : List String := ["__HW_SITE_", "__HW_SITES_", "__hw_t", "__hw_f"]

theorem lead_mem (n : OwnName) : n.lead ∈ leads := by
  obtain k | g | ⟨g⟩ | ⟨g⟩ := n <;> simp [lead, leads]

theorem lead_chars (n : OwnName) :
    ∀ c ∈ n.lead.toList, isWordChar c = true ∧ c.isDigit = false := by
  have hleads : leads.all (fun s => s.toList.all fun c => isWordChar c && !c.isDigit) = true := by
    decide +kernel
  simp only [List.all_eq_true, Bool.and_eq_true, Bool.not_eq_true'] at hleads
  exact hleads n.lead n.lead_mem

theorem lead_ne_nil (n : OwnName) : n.lead.toList ≠ [] := by
  have hleads : ∀ s ∈ leads, s.toList ≠ [] := by decide
  exact hleads n.lead n.lead_mem

theorem text_injective {m n : OwnName} (h : m.text = n.text) : m = n := by
  have htext := congrArg String.toList h
  rw [toList_text, toList_text] at htext
  have hlead (n : OwnName) : ∀ c ∈ n.lead.toList, (!c.isDigit) = true := fun c hc => by
    rw [(n.lead_chars c hc).2]
    rfl
  have hdigits (n : OwnName) : ∀ c ∈ (Nat.toDigits 10 n.number).head?, (!c.isDigit) = false := by
    intro c hc
    rw [Version.isDigit_of_mem_toDigits c (List.mem_of_mem_head? hc)]
    rfl
  have hleads := congrArg (List.takeWhile fun c => !c.isDigit) htext
  have hnumbers := congrArg (List.dropWhile fun c => !c.isDigit) htext
  rw [Text.takeWhile_run (hlead m) (hdigits m), Text.takeWhile_run (hlead n) (hdigits n),
    String.toList_inj] at hleads
  rw [Text.dropWhile_run (hlead m) (hdigits m), Text.dropWhile_run (hlead n) (hdigits n)]
    at hnumbers
  have hnumber : m.number = n.number := by
    rw [← Version.decimal_toDigits m.number, hnumbers, Version.decimal_toDigits]
  obtain k | g | ⟨g⟩ | ⟨g⟩ := m <;> obtain k' | g' | ⟨g'⟩ | ⟨g'⟩ := n <;>
    simp only [lead, number, String.reduceEq] at hleads hnumber <;> rw [hnumber]

theorem isWordChar_of_mem_text (n : OwnName) : ∀ c ∈ n.text.toList, isWordChar c = true := by
  intro c hc
  rw [toList_text] at hc
  rcases List.mem_append.mp hc with hc | hc
  · exact (n.lead_chars c hc).1
  · exact isWordChar_of_isDigit (Version.isDigit_of_mem_toDigits c hc)

theorem tokens?_text (n : OwnName) : tokens? n.text.toList = some [.word n.text.toList] := by
  refine tokens?_word n.isWordChar_of_mem_text ?_
  rw [toList_text]
  simp [Nat.toDigits_ne_nil]

theorem isNumbered_text (n : OwnName) : (Token.word n.text.toList).isNumbered = true := by
  have hdigits := List.getLast?_eq_some_getLast (l := Nat.toDigits 10 n.number) Nat.toDigits_ne_nil
  rw [Token.isNumbered, toList_text, List.getLast?_append_of_ne_nil _ Nat.toDigits_ne_nil, hdigits]
  exact Version.isDigit_of_mem_toDigits _ (List.getLast_mem _)

end OwnName

/-! ### The whole of some parts -/

theorem tokens?_number (n : Nat) :
    tokens? (toString n).toList = some [.word (toString n).toList] := by
  refine tokens?_word (isWordChar_of_mem_number n) ?_
  rw [Version.toList_toString]
  exact Nat.toDigits_ne_nil

/-- A number is none of the own names, which do not start with a digit. -/
theorem number_ne_text (n : Nat) (x : OwnName) : (toString n).toList ≠ x.text.toList := by
  intro h
  obtain ⟨c, cs, hlead⟩ := List.exists_cons_of_ne_nil x.lead_ne_nil
  rw [Version.toList_toString, OwnName.toList_text, hlead] at h
  have hdigit : c.isDigit = true := Version.isDigit_of_mem_toDigits c (by rw [h]; simp)
  have hletter := (x.lead_chars c (by rw [hlead]; simp)).2
  rw [hdigit] at hletter
  cases hletter

/-- The given texts can be read. -/
def Readable (parts : List Part) : Prop :=
  ∀ s, Part.given s ∈ parts → (tokens? s.toList).isSome = true

/-- Where a part is an own name: whether it is declared there. -/
def Part.mentionsOf (x : OwnName) : Part → List Bool
  | .name declares n => if n = x then [declares] else []
  | _ => []

namespace Part

variable {p q : Part}

theorem tokens?_text (hsound : p.kind.isSound = true)
    (hread : ∀ s, p = .given s → (tokens? s.toList).isSome = true) :
    tokens? p.text.toList = some p.tokens := by
  have hgetD (h : (tokens? p.text.toList).isSome = true) :
      tokens? p.text.toList = some p.tokens := by
    obtain ⟨ts, hts⟩ := Option.isSome_iff_exists.mp h
    rw [tokens, hts, Option.getD_some]
  apply hgetD
  cases p with
  | fixed s =>
    obtain ⟨ts, hts, -⟩ := Kind.exists_of_isSound hsound
    exact Option.isSome_of_mem hts
  | name declares n => exact Option.isSome_of_mem (OwnName.tokens?_text n)
  | number n => exact Option.isSome_of_mem (tokens?_number n)
  | quoted s => exact Option.isSome_of_mem (tokens?_quoted s)
  | given s => exact hread s rfl

theorem endsWord_quoted (s : String) : endsWord (Text.quoted s).toList = false := by
  rw [Text.quoted, String.toList_ofList, endsWord, List.getLast?_concat]
  decide

/-- No word runs on from a part into one that may follow it. -/
theorem apart (h : p.kind.follows q.kind = true) (rest : List Char) :
    Apart p.text.toList (q.text.toList ++ rest) := by
  have hstarts {next : List Char} (hnext : Kind.startsApart next = true) :
      opensWord (next ++ rest) = false := by
    cases next with
    | nil => cases hnext
    | cons c cs => simpa [Kind.startsApart, opensWord] using hnext
  cases q with
  | quoted t =>
    refine .inr ?_
    rw [text, Text.quoted, String.toList_ofList, List.cons_append, List.cons_append, opensWord,
      List.head?_cons, Option.any_some]
    decide
  | fixed t =>
    cases p with
    | fixed s =>
      simp only [kind, Kind.follows, Bool.or_eq_true, Bool.not_eq_true'] at h
      exact h.imp_right hstarts
    | quoted s => exact .inl (endsWord_quoted s)
    | name declares n => exact .inr (hstarts h)
    | number n => exact .inr (hstarts h)
    | given s => exact .inr (hstarts h)
  | name _ _ | number _ | given _ =>
    cases p with
    | fixed s =>
      simp only [kind, Kind.follows, Bool.and_eq_true, Bool.not_eq_true'] at h
      exact .inl h.1
    | name declares n => cases h
    | number n => cases h
    | quoted s => cases h
    | given s => cases h

/-- A part says of a name that follows it whether it is declared. -/
theorem declaresNext_tokens (hsound : p.kind.isSound = true) {b : Bool}
    (h : p.kind.follows (.word b) = true) (declares : Bool) :
    declaresNext declares p.tokens = b := by
  cases p with
  | fixed s =>
    simp only [kind, Kind.follows, Bool.and_eq_true, beq_iff_eq, Kind.declaresNext?] at h
    obtain ⟨ts, hts, -⟩ := Kind.exists_of_isSound hsound
    rw [hts, Option.bind_some] at h
    rw [tokens, text, hts, Option.getD_some, declaresNext, h.2, Option.getD_some]
  | name _ _ => cases h
  | number _ => cases h
  | quoted _ => cases h
  | given _ => cases h

/-- A part mentions an own name if it is that name. -/
theorem mentions_tokens (hsound : p.kind.isSound = true) {x : OwnName}
    (hgiven : ∀ s, p = .given s → Token.word x.text.toList ∉ p.tokens) {declares : Bool}
    (hdeclares : ∀ b, p.kind = .word b → declares = b) :
    mentions x.text.toList declares p.tokens = p.mentionsOf x := by
  cases p with
  | fixed s =>
    refine mentions_of_not_mem (fun hmem => ?_) declares
    obtain ⟨ts, hts, hnumbered, -⟩ := Kind.exists_of_isSound hsound
    rw [tokens, text, hts, Option.getD_some] at hmem
    have hname := hnumbered _ hmem
    rw [x.isNumbered_text] at hname
    cases hname
  | name b n =>
    obtain rfl := hdeclares b rfl
    rw [tokens, text, OwnName.tokens?_text, Option.getD_some, mentions, mentions, List.append_nil,
      mentionsOf]
    have hiff : Token.word n.text.toList = .word x.text.toList ↔ n = x := by
      rw [Token.word.injEq, String.toList_inj]
      exact ⟨OwnName.text_injective, congrArg OwnName.text⟩
    simp only [hiff]
  | number n =>
    refine mentions_of_not_mem (fun hmem => ?_) declares
    rw [tokens, text, tokens?_number, Option.getD_some, List.mem_singleton, Token.word.injEq]
      at hmem
    exact number_ne_text n x hmem.symm
  | quoted s =>
    refine mentions_of_not_mem (fun hmem => ?_) declares
    rw [tokens, text, tokens?_quoted, Option.getD_some, List.mem_singleton] at hmem
    cases hmem
  | given s => exact mentions_of_not_mem (hgiven s rfl) declares

end Part

namespace Fits

variable {parts : List Part}

theorem tail {p : Part} (hchained : Kind.chained ((p :: parts).map Part.kind) = true) :
    Kind.chained (parts.map Part.kind) = true := by
  cases parts with
  | nil => rfl
  | cons q rest =>
    simp only [List.map_cons, Kind.chained, Bool.and_eq_true] at hchained
    exact hchained.2

/-- The tokens of parts that fit together are those of each part. -/
theorem tokens?_spell (h : Fits parts) (hread : Readable parts) :
    tokens? (spell parts) = some (parts.flatMap Part.tokens) := by
  obtain ⟨hsound, hchained, -, -⟩ := h
  induction parts with
  | nil => rfl
  | cons p rest ih =>
    have hp := Part.tokens?_text (hsound p List.mem_cons_self) fun s hs =>
      hread s (hs ▸ List.mem_cons_self)
    have hrest := ih (fun s hs => hread s (List.mem_cons_of_mem p hs))
      (fun q hq => hsound q (List.mem_cons_of_mem p hq)) (tail hchained)
    rw [spell_cons, List.flatMap_cons]
    refine tokens?_append hp hrest ?_
    cases rest with
    | nil => exact .inr rfl
    | cons q rest =>
      simp only [List.map_cons, Kind.chained, Bool.and_eq_true] at hchained
      exact Part.apart hchained.1 (spell rest)

/-- Where parts that fit together mention an own name that no given text has. -/
theorem mentions_flatMap (h : Fits parts) {x : OwnName}
    (hgiven : ∀ s, Part.given s ∈ parts → Token.word x.text.toList ∉ (Part.given s).tokens) :
    mentions x.text.toList false (parts.flatMap Part.tokens) =
      parts.flatMap (Part.mentionsOf x) := by
  obtain ⟨hsound, hchained, hstarts, -⟩ := h
  have hhead : ∀ b, .word b ∈ (parts.map Part.kind).head? → false = b := by
    intro b hb
    cases b with
    | false => rfl
    | true => exact absurd rfl (hstarts _ hb)
  clear hstarts
  generalize false = declares at hhead ⊢
  induction parts generalizing declares with
  | nil => rfl
  | cons p rest ih =>
    have hp := hsound p List.mem_cons_self
    rw [List.flatMap_cons, List.flatMap_cons, mentions_append,
      Part.mentions_tokens hp (fun s hs => hs ▸ hgiven s (hs ▸ List.mem_cons_self))
        fun b hb => hhead b (by simp [hb])]
    congr 1
    refine ih (fun s hs => hgiven s (List.mem_cons_of_mem p hs))
      (fun q hq => hsound q (List.mem_cons_of_mem p hq)) (tail hchained) _ fun b hb => ?_
    cases rest with
    | nil => cases hb
    | cons q rest =>
      simp only [List.map_cons, Kind.chained, Bool.and_eq_true] at hchained
      obtain hb : q.kind = .word b := by simpa using hb
      exact Part.declaresNext_tokens hp (hb ▸ hchained.1) declares

end Fits

/-- A line ends in parts just where it does in a given text. -/
theorem newline_mem_spell_iff {parts : List Part} (h : ∀ p ∈ parts, p.kind.isSound = true) :
    '\n' ∈ spell parts ↔ ∃ s, Part.given s ∈ parts ∧ '\n' ∈ s.toList := by
  have hword : isWordChar '\n' = false := by decide
  constructor
  · intro hmem
    obtain ⟨p, hp, hline⟩ := List.mem_flatMap.mp hmem
    cases p with
    | given s => exact ⟨s, hp, hline⟩
    | fixed s =>
      obtain ⟨ts, -, -, hnone⟩ := Kind.exists_of_isSound (h _ hp)
      exact absurd hline hnone
    | quoted s => exact absurd hline (newline_notMem_quoted s)
    | name b n => exact absurd (n.isWordChar_of_mem_text _ hline) (by simp [hword])
    | number n => exact absurd (isWordChar_of_mem_number n _ hline) (by simp [hword])
  · rintro ⟨s, hs, hline⟩
    exact List.mem_flatMap.mpr ⟨_, hs, hline⟩

/-! ### Delimiters -/

/-- The delimiters of a part that is no given text. -/
def Kind.delimiters : Kind → List Char
  | .fixed text => Splice.delimiters ((tokens? text).getD [])
  | _ => []

/-- With the groups `opened` before the parts, the groups `later` are open after them. -/
def Nests (opened later : List Source.Delimiter) (parts : List Part) : Prop :=
  nest opened (delimiters (parts.flatMap Part.tokens)) = some later

theorem delimiters_flatMap (parts : List Part) :
    delimiters (parts.flatMap Part.tokens) = parts.flatMap fun p => delimiters p.tokens :=
  List.filterMap_flatMap

theorem Part.delimiters_tokens {p : Part} (hgiven : ∀ s, p = .given s → delimiters p.tokens = []) :
    delimiters p.tokens = p.kind.delimiters := by
  cases p with
  | fixed s => rfl
  | name declares n =>
    rw [tokens, text, OwnName.tokens?_text]
    rfl
  | number n =>
    rw [tokens, text, tokens?_number]
    rfl
  | quoted s =>
    rw [tokens, text, tokens?_quoted]
    rfl
  | given s => exact hgiven s rfl

namespace Nests

variable {opened later : List Source.Delimiter} {parts more : List Part}

theorem of_kinds (hgiven : ∀ s, Part.given s ∈ parts → delimiters (Part.given s).tokens = [])
    (h : nest opened ((parts.map Part.kind).flatMap Kind.delimiters) = some later) :
    Nests opened later parts := by
  rw [Nests, delimiters_flatMap, ← h, List.flatMap_map]
  congr 1
  refine List.flatMap_congr fun p hp => Part.delimiters_tokens fun s hs => ?_
  rw [hs]
  exact hgiven s (hs ▸ hp)

theorem append {between : List Source.Delimiter} (h : Nests opened between parts)
    (h' : Nests between later more) : Nests opened later (parts ++ more) := by
  rw [Nests, List.flatMap_append, delimiters_append, nest_append, h]
  exact h'

theorem outer (h : Nests opened later parts) (outer : List Source.Delimiter) :
    Nests (opened ++ outer) (later ++ outer) parts := nest_outer h

theorem flatMap {α : Type} {f : α → List Part} {xs : List α} (h : ∀ x ∈ xs, Nests [] [] (f x)) :
    Nests [] [] (xs.flatMap f) := by
  induction xs with
  | nil => rfl
  | cons x xs ih =>
    exact (h x List.mem_cons_self).append (ih fun y hy => h y (List.mem_cons_of_mem x hy))

end Nests

end Instrumentation.Splice
