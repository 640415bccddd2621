import Instrumentation.Source.Lexer

/-!
Lexemes and gaps are cut from the start of a text: what a reader takes and what it leaves make up
the text again, so that offsets can be counted along with the readers.
-/
namespace Instrumentation.Source

/-- A lexeme and what follows it make up a text. -/
def Split.Cuts (s : Split) (cs : List Char) : Prop := s.1 ++ s.2 = cs

namespace Split

@[simp] theorem cuts_nil (cs : List Char) : Split.Cuts ([], cs) cs := rfl

@[simp] theorem cuts_singleton (c : Char) (cs : List Char) : Split.Cuts ([c], cs) (c :: cs) := rfl

theorem Cuts.after {s : Split} {cs : List Char} (h : s.Cuts cs) (lead : List Char) :
    (s.after lead).Cuts (lead ++ cs) := by
  simpa [Cuts, Split.after] using h

/-- What is cut from the rest adds to the lexeme. -/
theorem Cuts.trans {taken rest cs : List Char} {s : Split} (h : Split.Cuts (taken, rest) cs)
    (hs : s.Cuts rest) : (s.after taken).Cuts cs := by
  rw [← (h : taken ++ rest = cs)]
  exact hs.after taken

/-- A reader that puts a lead in front of what another one has read. -/
theorem Cuts.of_map_after {α : Type} (split : α → Split) {o : Option α} {f : α → α} {a : α}
    {lead cs : List Char} (hf : ∀ b, split (f b) = (split b).after lead) (h : o.map f = some a)
    (ho : ∀ b, o = some b → (split b).Cuts cs) : (split a).Cuts (lead ++ cs) := by
  obtain ⟨b, hb, rfl⟩ := Option.map_eq_some_iff.mp h
  rw [hf]
  exact (ho b hb).after lead

/-- The same for readers of a lexeme alone. -/
theorem Cuts.of_after {o : Option Split} {s : Split} {lead cs : List Char}
    (h : o.map (Split.after lead) = some s) (ho : ∀ b, o = some b → b.Cuts cs) :
    s.Cuts (lead ++ cs) :=
  of_map_after id (fun _ => rfl) h ho

end Split

theorem cuts_readName {cs : List Char} {s : Split} (h : readName cs = some s) :
    s.Cuts cs ∧ s.1 ≠ [] := by
  cases cs with
  | nil => simp [readName] at h
  | cons c cs =>
    simp only [readName] at h
    split at h
    · cases h
      simp [Split.Cuts]
    · cases h

theorem exists_of_readName {cs name rest : List Char} (h : readName cs = some (name, rest)) :
    ∃ c tail, name = c :: tail ∧ Text.isWordStart c ∧ ∀ d ∈ tail, Text.isWordContinue d := by
  cases cs with
  | nil => cases h
  | cons c cs =>
    simp only [readName] at h
    split at h
    · next hc =>
      cases h
      exact ⟨c, _, rfl, hc, List.all_eq_true.mp List.all_takeWhile⟩
    · cases h

theorem cuts_readSuffix (cs : List Char) : (readSuffix cs).Cuts cs := by
  unfold readSuffix
  cases h : readName cs with
  | none => simp
  | some s => simpa using (cuts_readName h).1

theorem Split.Cuts.withSuffix {s : Split} {cs : List Char} (h : s.Cuts cs) :
    (withSuffix s).Cuts cs := by
  have hs := cuts_readSuffix s.2
  simp only [Split.Cuts, Source.withSuffix] at h hs ⊢
  rw [List.append_assoc, hs, h]

theorem cuts_readCode {count value : Nat} {cs : List Char} {r : Nat × Split}
    (h : readCode count value cs = some r) : r.2.Cuts cs := by
  fun_induction readCode count value cs generalizing r with
  | case1 => cases h
  | case2 => cases h
  | case3 count value c cs _ _ ih => exact .of_map_after Prod.snd (fun _ => rfl) h fun _ => ih
  | case4 count value c cs _ _ ih => exact .of_map_after Prod.snd (fun _ => rfl) h fun _ => ih
  | case5 => cases h; simp
  | case6 => cases h

theorem cuts_readCodeEscape {cs : List Char} {r : Nat × Split} (h : readCodeEscape cs = some r) :
    r.2.Cuts cs := by
  cases cs with
  | nil => cases h
  | cons c cs =>
    simp only [readCodeEscape] at h
    split at h
    · exact .of_map_after Prod.snd (fun _ => rfl) h fun _ => cuts_readCode
    · cases h

theorem cuts_readQuoted {kind : TextKind} {state : TextState} {cs : List Char} {s : Split}
    (h : readQuoted kind state cs = some s) : s.Cuts cs := by
  fun_induction readQuoted kind state cs generalizing s with
  | case1 => cases h
  | case2 => cases h; simp
  | case3 => cases h
  | case4 state c cs _ next _ ih => exact .of_after h fun _ => ih

theorem cuts_readRaw {kind : TextKind} {hashes : List Char} {returned : Bool} {cs : List Char}
    {s : Split} (h : readRaw kind hashes returned cs = some s) : s.Cuts cs := by
  fun_induction readRaw kind hashes returned cs generalizing s with
  | case1 => cases h
  | case2 => next ih => exact .of_after h fun _ => ih
  | case3 => cases h
  | case4 returned c cs _ hc =>
    cases h
    simp only [Bool.and_eq_true, List.isPrefixOf_iff_prefix] at hc
    obtain ⟨rest, rfl⟩ := hc.2
    simp [Split.Cuts]
  | case5 => next ih => exact .of_after h fun _ => ih
  | case6 => cases h
  | case7 => next ih => exact .of_after h fun _ => ih

theorem cuts_readRawText {kind : TextKind} {cs : List Char} {s : Split}
    (h : readRawText kind cs = some s) : s.Cuts cs := by
  simp only [readRawText] at h
  split at h
  · next rest hrest =>
    split at h
    · cases h
    · have hcs : cs.takeWhile (· == '#') ++ ['"'] ++ rest = cs := by
        have hpre := List.prefix_iff_eq_append.mp (List.takeWhile_prefix (l := cs) (· == '#'))
        rw [hrest] at hpre
        simpa using hpre
      rw [← hcs]
      exact .of_after h fun _ => cuts_readRaw
  · cases h

/-- The letter that tells the kind of a text. -/
def TextKind.letter : TextKind → List Char
  | .chars => []
  | .bytes => ['b']
  | .zeroFree => ['c']

/-- A quoted or raw text at the start of a text, with the letter of its kind and without its suffix. -/
inductive TextLexeme : List Char → Split → Prop
  | quoted (kind : TextKind) {cs : List Char} {s : Split}
      (h : readQuoted kind .plain cs = some s) :
      TextLexeme (kind.letter ++ '"' :: cs) (s.after (kind.letter ++ ['"']))
  | raw (kind : TextKind) {cs : List Char} {s : Split} (h : readRawText kind cs = some s) :
      TextLexeme (kind.letter ++ 'r' :: cs) (s.after (kind.letter ++ ['r']))

theorem readTextLiteral_eq_some_iff {cs : List Char} {s : Split} :
    readTextLiteral cs = some s ↔ ∃ s', TextLexeme cs s' ∧ withSuffix s' = s := by
  simp only [readTextLiteral, Option.map_eq_some_iff]
  refine exists_congr fun s' => and_congr_left fun _ => ?_
  constructor
  · intro h
    split at h
    · obtain ⟨s, hs, rfl⟩ := Option.map_eq_some_iff.mp h
      exact .quoted .chars hs
    · obtain ⟨s, hs, rfl⟩ := Option.map_eq_some_iff.mp h
      exact .raw .chars hs
    · obtain ⟨s, hs, rfl⟩ := Option.map_eq_some_iff.mp h
      exact .quoted .bytes hs
    · obtain ⟨s, hs, rfl⟩ := Option.map_eq_some_iff.mp h
      exact .raw .bytes hs
    · obtain ⟨s, hs, rfl⟩ := Option.map_eq_some_iff.mp h
      exact .quoted .zeroFree hs
    · obtain ⟨s, hs, rfl⟩ := Option.map_eq_some_iff.mp h
      exact .raw .zeroFree hs
    · cases h
  · intro h
    cases h with
    | quoted kind h => cases kind <;> simp [TextKind.letter, h]
    | raw kind h => cases kind <;> simp [TextKind.letter, h]

theorem TextLexeme.cuts {cs : List Char} {s : Split} (h : TextLexeme cs s) : s.Cuts cs := by
  cases h with
  | quoted kind hread => simpa using (cuts_readQuoted hread).after (kind.letter ++ ['"'])
  | raw kind hread => simpa using (cuts_readRawText hread).after (kind.letter ++ ['r'])

theorem cuts_readTextLiteral {cs : List Char} {s : Split} (h : readTextLiteral cs = some s) :
    s.Cuts cs := by
  obtain ⟨s', hs', rfl⟩ := readTextLiteral_eq_some_iff.mp h
  exact hs'.cuts.withSuffix

/-- No simple escape is the start of a longer one. -/
theorem ne_of_isSimpleEscape {c : Char} (h : isSimpleEscape c = true) : c ≠ 'x' ∧ c ≠ 'u' := by
  constructor <;> rintro rfl <;> exact absurd h (by decide)

/-- What stands between the quotes of a byte. -/
inductive IsByteBody : List Char → Prop where
  | hex {a b : Char} (h : (isHex a && isHex b) = true) : IsByteBody ['\\', 'x', a, b]
  | escape {c : Char} (h : isSimpleEscape c = true) : IsByteBody ['\\', c]
  | plain {c : Char} (hlow : c.toNat < 0x80) (h : c ≠ '\\') : IsByteBody [c]

/-- Whether a byte is read, and how far it goes, does not depend on what follows it. -/
theorem readByteBody_eq_some_iff {cs t z : List Char} :
    readByteBody cs = some (t, z) ↔ cs = t ++ z ∧ IsByteBody t := by
  constructor
  · intro h
    unfold readByteBody at h
    split at h
    · split at h
      · next hhex =>
        cases h
        exact ⟨rfl, .hex hhex⟩
      · cases h
    · split at h
      · next hescape =>
        cases h
        exact ⟨rfl, .escape hescape⟩
      · cases h
    · split at h
      · next hplain =>
        cases h
        simp only [Bool.and_eq_true, decide_eq_true_eq] at hplain
        exact ⟨rfl, .plain hplain.1 hplain.2⟩
      · cases h
    · cases h
  · rintro ⟨rfl, hbody⟩
    cases hbody with
    | hex h => exact if_pos h
    | escape h => simp [readByteBody, ne_of_isSimpleEscape h, h]
    | plain hlow h => simp [readByteBody, hlow, h]

/-- What stands between the quotes of a character. -/
inductive IsCharBody : List Char → Prop where
  | hex {a b : Char} (h : (decide ('0' ≤ a) && decide (a ≤ '7') && isHex b) = true) :
    IsCharBody ['\\', 'x', a, b]
  | code {t : List Char} {value : Nat} (h : readCodeEscape t = some (value, t, [])) :
    IsCharBody ('\\' :: 'u' :: t)
  | escape {c : Char} (h : isSimpleEscape c = true) : IsCharBody ['\\', c]
  | plain {c : Char} (h : c ≠ '\\') : IsCharBody [c]

theorem readCode_local {count value v : Nat} (h : readCode count value cs = some (v, t, z))
    (z' : List Char) : readCode count value (t ++ z') = some (v, t, z') := by
  have hafter {c : Char} {o : Option (Nat × Split)} {t : List Char}
      (h : o.map (fun r => (r.1, r.2.after [c])) = some (v, t, z)) :
      ∃ t', t = c :: t' ∧ o = some (v, t', z) := by
    obtain ⟨⟨v', t', z''⟩, hb, heq⟩ := Option.map_eq_some_iff.mp h
    cases heq
    exact ⟨t', rfl, hb⟩
  fun_induction readCode count value cs generalizing t with
  | case1 => cases h
  | case2 => cases h
  | case3 count value c cs hhex hcount ih =>
    obtain ⟨t', rfl, h'⟩ := hafter h
    simp [readCode, hhex, hcount, ih h', Split.after]
  | case4 count value c cs hhex hblank ih =>
    obtain ⟨t', rfl, h'⟩ := hafter h
    simp only [List.cons_append, readCode, hhex, hblank, Bool.false_eq_true, ↓reduceIte, ih h',
      Option.map_some, Split.after, List.nil_append]
  | case5 count value c cs hhex hblank hend =>
    cases h
    simp only [List.cons_append, List.nil_append, readCode, hhex, hblank, hend, Bool.false_eq_true,
      ↓reduceIte]
  | case6 => cases h

theorem readCodeEscape_local {v : Nat} {cs t z : List Char}
    (h : readCodeEscape cs = some (v, t, z)) (z' : List Char) :
    readCodeEscape (t ++ z') = some (v, t, z') := by
  cases cs with
  | nil => cases h
  | cons c cs =>
    simp only [readCodeEscape] at h
    split at h
    · next hc =>
      obtain ⟨⟨v', t', z''⟩, hread, heq⟩ := Option.map_eq_some_iff.mp h
      cases heq
      simp [readCodeEscape, hc, Split.after, readCode_local hread]
    · cases h

/-- The same for a character. -/
theorem readCharBody_eq_some_iff {cs t z : List Char} :
    readCharBody cs = some (t, z) ↔ cs = t ++ z ∧ IsCharBody t := by
  constructor
  · intro h
    unfold readCharBody at h
    split at h
    · split at h
      · next hhex =>
        cases h
        exact ⟨rfl, .hex hhex⟩
      · cases h
    · obtain ⟨⟨v, t', z'⟩, hcode, heq⟩ := Option.map_eq_some_iff.mp h
      cases heq
      have hcut := cuts_readCodeEscape hcode
      simp only [Split.Cuts] at hcut
      exact ⟨by simp [← hcut], .code (by simpa using readCodeEscape_local hcode [])⟩
    · split at h
      · next hescape =>
        cases h
        exact ⟨rfl, .escape hescape⟩
      · cases h
    · split at h
      · next hplain =>
        cases h
        exact ⟨rfl, .plain hplain⟩
      · cases h
    · cases h
  · rintro ⟨rfl, hbody⟩
    cases hbody with
    | hex h => exact if_pos h
    | code h => simp [readCharBody, readCodeEscape_local h z, Split.after]
    | escape h => simp [readCharBody, ne_of_isSimpleEscape h, h]
    | plain h => simp [readCharBody, h]

theorem closeQuote_eq_some_iff {lead : List Char} {body : Option Split} {s : Split} :
    closeQuote lead body = some s ↔ ∃ inside rest, body = some (inside, '\'' :: rest) ∧
      withSuffix (lead ++ inside ++ ['\''], rest) = s := by
  unfold closeQuote
  split
  · next inside rest =>
    constructor
    · intro h
      exact ⟨inside, rest, rfl, Option.some.inj h⟩
    · rintro ⟨_, _, hbody, rfl⟩
      cases hbody
      rfl
  · next hnone =>
    refine iff_of_false nofun ?_
    rintro ⟨inside, rest, rfl, -⟩
    exact hnone inside rest rfl

/-- A byte or a character with its quotes. -/
inductive IsCharLexeme : List Char → Prop where
  | byte {t : List Char} (h : IsByteBody t) : IsCharLexeme ('b' :: '\'' :: (t ++ ['\'']))
  | char {t : List Char} (h : IsCharBody t) : IsCharLexeme ('\'' :: (t ++ ['\'']))

theorem readCharLiteral_eq_some_iff {cs : List Char} {s : Split} : readCharLiteral cs = some s ↔
    ∃ t z, cs = t ++ z ∧ IsCharLexeme t ∧ withSuffix (t, z) = s := by
  constructor
  · intro h
    unfold readCharLiteral at h
    split at h
    · obtain ⟨inside, z, hread, rfl⟩ := closeQuote_eq_some_iff.mp h
      obtain ⟨rfl, hbody⟩ := readByteBody_eq_some_iff.mp hread
      exact ⟨_, z, by simp, .byte hbody, rfl⟩
    · obtain ⟨inside, z, hread, rfl⟩ := closeQuote_eq_some_iff.mp h
      obtain ⟨rfl, hbody⟩ := readCharBody_eq_some_iff.mp hread
      exact ⟨_, z, by simp, .char hbody, rfl⟩
    · cases h
  · rintro ⟨_, z, rfl, hlexeme, rfl⟩
    cases hlexeme with
    | byte hbody =>
      exact closeQuote_eq_some_iff.mpr
        ⟨_, z, readByteBody_eq_some_iff.mpr ⟨by simp, hbody⟩, rfl⟩
    | char hbody =>
      exact closeQuote_eq_some_iff.mpr
        ⟨_, z, readCharBody_eq_some_iff.mpr ⟨by simp, hbody⟩, rfl⟩

theorem cuts_readCharLiteral {cs : List Char} {s : Split} (h : readCharLiteral cs = some s) :
    s.Cuts cs := by
  obtain ⟨t, z, rfl, -, rfl⟩ := readCharLiteral_eq_some_iff.mp h
  exact Split.Cuts.withSuffix rfl

theorem cuts_endNumber {s s' : Split} {cs : List Char} (hs : s.Cuts cs)
    (h : endNumber s = some s') : s'.Cuts cs := by
  have hw := hs.withSuffix
  simp only [endNumber] at h
  split at h
  · split at h
    · cases h
    · cases h; exact hw
  · cases h; exact hw

theorem cuts_readMantissa {dot : Bool} {cs : List Char} {r : Bool × Bool × Split}
    (h : readMantissa dot cs = some r) : r.2.2.Cuts cs := by
  fun_induction readMantissa dot cs generalizing r with
  | case1 => cases h; simp
  | case2 => next ih => exact .of_map_after (·.2.2) (fun _ => rfl) h fun _ => ih
  | case3 => cases h
  | case4 => next ih => exact .of_map_after (·.2.2) (fun _ => rfl) h fun _ => ih
  | case5 => cases h; simp
  | case6 => cases h; simp
  | case7 => cases h; simp

theorem cuts_readExponent {signed valued : Bool} {cs : List Char} {r : Bool × Split}
    (h : readExponent signed valued cs = some r) : r.2.Cuts cs := by
  fun_induction readExponent signed valued cs generalizing r with
  | case1 => cases h; simp
  | case2 => cases h; simp
  | case3 => cases h
  | case4 => next ih => exact .of_map_after Prod.snd (fun _ => rfl) h fun _ => ih
  | case5 => next ih => exact .of_map_after Prod.snd (fun _ => rfl) h fun _ => ih
  | case6 => next ih => exact .of_map_after Prod.snd (fun _ => rfl) h fun _ => ih
  | case7 => cases h; simp

theorem cuts_readFloatDigits {cs : List Char} {s : Split} (h : readFloatDigits cs = some s) :
    s.Cuts cs := by
  unfold readFloatDigits at h
  split at h
  · split at h
    · cases h
    · split at h
      · cases h
      · next hm =>
        split at h
        · cases h; exact cuts_readMantissa hm
        · cases h
      · next dot lexeme rest hm =>
        have hcs : lexeme ++ rest = _ := cuts_readMantissa hm
        split at h
        · next he =>
          cases h
          rw [← hcs]
          exact (cuts_readExponent he).after lexeme
        · split at h
          · cases h
            simp only [Split.Cuts, List.dropLast_eq_take, ← List.append_assoc,
              List.take_append_drop, hcs]
          · cases h
  · cases h

theorem cuts_readDigits {base : Nat} {blank : Bool} {cs : List Char} {r : Bool × Split}
    (h : readDigits base blank cs = some r) : r.2.Cuts cs := by
  fun_induction readDigits base blank cs generalizing r with
  | case1 => cases h; simp
  | case2 => next ih => exact .of_map_after Prod.snd (fun _ => rfl) h fun _ => ih
  | case3 => cases h
  | case4 => next ih => exact .of_map_after Prod.snd (fun _ => rfl) h fun _ => ih
  | case5 => cases h
  | case6 => next ih => exact .of_map_after Prod.snd (fun _ => rfl) h fun _ => ih
  | case7 => cases h; simp

theorem cuts_readIntDigits {cs : List Char} {s : Split} (h : readIntDigits cs = some s) :
    s.Cuts cs := by
  have hbase : (readBase cs).2.1 ++ (readBase cs).2.2 = cs := by
    unfold readBase
    split <;> rfl
  simp only [readIntDigits] at h
  split at h
  · next hd =>
    cases h
    have hafter := (cuts_readDigits hd).after (readBase cs).2.1
    rw [hbase] at hafter
    exact hafter
  · cases h

theorem cuts_readNumber {cs : List Char} {s : Split} (h : readNumber cs = some s) : s.Cuts cs := by
  simp only [readNumber, Option.or_eq_some_iff, Option.bind_eq_some_iff] at h
  rcases h with ⟨s', hs', h⟩ | ⟨-, s', hs', h⟩
  · exact cuts_endNumber (cuts_readFloatDigits hs') h
  · exact cuts_endNumber (cuts_readIntDigits hs') h

theorem cuts_readLiteral {cs : List Char} {s : Split} (h : readLiteral cs = some s) :
    s.Cuts cs := by
  simp only [readLiteral, Option.or_eq_some_iff] at h
  rcases h with h | ⟨-, h | ⟨-, h⟩⟩
  · exact cuts_readTextLiteral h
  · exact cuts_readCharLiteral h
  · exact cuts_readNumber h

theorem cuts_readBlockComment {fuel depth : Nat} {cs : List Char} {s : Split}
    (h : readBlockComment fuel depth cs = some s) : s.Cuts cs := by
  fun_induction readBlockComment fuel depth cs generalizing s with
  | case1 => cases h
  | case2 => next ih => exact .of_after h fun _ => ih
  | case3 => cases h; rfl
  | case4 => next ih => exact .of_after h fun _ => ih
  | case5 => next ih => exact .of_after h fun _ => ih
  | case6 => cases h

theorem cuts_readLine (cs : List Char) : (readLine cs).2.Cuts cs := by
  fun_induction readLine cs with
  | case1 => rfl
  | case2 => rfl
  | case3 => rfl
  | case4 c rest _ _ line s hs ih =>
    rw [hs] at ih
    exact ih.after [c]

theorem cuts_readGap (fuel : Nat) (cs : List Char) : (readGap fuel cs).Cuts cs := by
  fun_induction readGap fuel cs with
  | case1 => rfl
  | case2 => rfl
  | case3 fuel rest _ _ _ taken rest' hline ih =>
    have hcut := cuts_readLine ('/' :: '/' :: rest)
    change (Split.after (readLine ('/' :: '/' :: rest)).2.1
      (readGap fuel (readLine ('/' :: '/' :: rest)).2.2)).Cuts _
    rw [hline] at hcut ⊢
    exact hcut.trans ih
  | case4 fuel rest ih => exact ih.after ['/', '*', '*', '/']
  | case5 => rfl
  | case6 fuel rest _ _ _ taken rest' hcomment ih =>
    rw [hcomment]
    exact (cuts_readBlockComment hcomment).trans ih
  | case7 fuel rest _ _ _ hcomment =>
    rw [hcomment]
    rfl
  | case8 fuel c rest _ _ _ _ ih => exact ih.after [c]
  | case9 => rfl
  | case10 => rfl

/-- The blanks and what stands behind them make up a text. -/
theorem append_of_readGap {fuel : Nat} {cs gap rest : List Char}
    (h : readGap fuel cs = (gap, rest)) : gap ++ rest = cs := by
  have hcut : (readGap fuel cs).Cuts cs := cuts_readGap fuel cs
  rwa [h] at hcut

theorem Split.after_ne_nil {s : Split} {lead : List Char} (h : lead ≠ []) :
    (s.after lead).1 ≠ [] := by
  simp [Split.after, h]

theorem readBlockComment_ne_nil {fuel depth : Nat} {cs : List Char} {s : Split}
    (h : readBlockComment fuel depth cs = some s) : s.1 ≠ [] := by
  have hmap {o : Option Split} {lead : List Char} (hl : lead ≠ [])
      (h : o.map (Split.after lead) = some s) : s.1 ≠ [] := by
    obtain ⟨s', -, rfl⟩ := Option.map_eq_some_iff.mp h
    exact Split.after_ne_nil hl
  cases fuel with
  | zero => cases h
  | succ fuel =>
    unfold readBlockComment at h
    split at h
    · exact hmap (by simp) h
    · split at h
      · cases h
        simp
      · exact hmap (by simp) h
    · exact hmap (by simp) h
    · cases h

theorem isPrefixOf_eq_false_iff (q cs : List Char) :
    q.isPrefixOf cs = false ↔ ∀ t, cs ≠ q ++ t := by
  rw [← Bool.not_eq_true, List.isPrefixOf_iff_prefix, List.prefix_iff_exists_eq_append, not_exists]

/-- A comment that documents starts here: one to the end of its line or one with an end of its own,
as its second character says, on what it stands in or on what follows it. -/
def opensDoc (second : Char) (inner : Bool) (cs : List Char) : Bool :=
  if inner then ['/', second, '!'].isPrefixOf cs
  else ['/', second, second].isPrefixOf cs && !(['/', second, second, second].isPrefixOf cs)

/-- The words of a documenting comment to the end of its line. -/
def lineDoc (inner : Bool) (cs : List Char) : List Char × Bool × Split :=
  ((readLine (cs.drop 3)).1, inner, (readLine (cs.drop 3)).2.after (cs.take 3))

/-- The words of a documenting comment with an end of its own. -/
def blockDoc? (inner : Bool) (cs : List Char) : Option (List Char × Bool × Split) :=
  (readComment cs).map fun s => ((s.1.drop 3).dropLast.dropLast, inner, s)

theorem exists_cons_of_opensDoc {second : Char} {inner : Bool} {cs : List Char}
    (h : opensDoc second inner cs) : ∃ third rest, cs = '/' :: second :: third :: rest := by
  cases inner with
  | true =>
    obtain ⟨rest, rfl⟩ := List.isPrefixOf_iff_prefix.mp (h : ['/', second, '!'].isPrefixOf cs)
    exact ⟨_, rest, rfl⟩
  | false =>
    simp only [opensDoc, Bool.false_eq_true, ↓reduceIte, Bool.and_eq_true] at h
    obtain ⟨rest, rfl⟩ := List.isPrefixOf_iff_prefix.mp h.1
    exact ⟨_, rest, rfl⟩

/-- A text documents something just if a comment that documents starts it. -/
theorem readDoc_eq_some_iff {cs : List Char} {d : List Char × Bool × Split} :
    readDoc cs = some d ↔ ∃ inner, opensDoc '/' inner cs ∧ lineDoc inner cs = d ∨
      opensDoc '*' inner cs ∧ blockDoc? inner cs = some d := by
  unfold readDoc
  split
  · simp [opensDoc, List.isPrefixOf, lineDoc]
  · simp [opensDoc, List.isPrefixOf, blockDoc?]
  · next rest =>
    split
    · simp [opensDoc, List.isPrefixOf]
    · next hne =>
      have hnext : ['/'].isPrefixOf rest = false := (isPrefixOf_eq_false_iff _ _).mpr hne
      simp [opensDoc, List.isPrefixOf, lineDoc, hnext]
  · next rest =>
    split
    · simp [opensDoc, List.isPrefixOf]
    · next hne =>
      have hnext : ['*'].isPrefixOf rest = false := (isPrefixOf_eq_false_iff _ _).mpr hne
      simp [opensDoc, List.isPrefixOf, blockDoc?, hnext]
  · next hline hblock houter houter' =>
    have hclosed : ∀ inner, opensDoc '/' inner cs = false ∧ opensDoc '*' inner cs = false := by
      simp only [opensDoc]
      intro inner
      cases inner <;>
        simp only [Bool.false_eq_true, ↓reduceIte, Bool.and_eq_false_iff, isPrefixOf_eq_false_iff]
      · exact ⟨.inl houter, .inl houter'⟩
      · exact ⟨hline, hblock⟩
    simp [hclosed]

/-- A documentation comment is cut from the text, and is not empty. -/
theorem cuts_readDoc {cs : List Char} {r : List Char × Bool × Split} (h : readDoc cs = some r) :
    r.2.2.Cuts cs ∧ r.2.2.1 ≠ [] := by
  obtain ⟨inner, ⟨hopens, rfl⟩ | ⟨-, hblock⟩⟩ := readDoc_eq_some_iff.mp h
  · obtain ⟨third, rest, rfl⟩ := exists_cons_of_opensDoc hopens
    exact ⟨(cuts_readLine rest).after ['/', '/', third], Split.after_ne_nil (by simp)⟩
  · obtain ⟨s, hs, rfl⟩ := Option.map_eq_some_iff.mp hblock
    exact ⟨cuts_readBlockComment hs, readBlockComment_ne_nil hs⟩

theorem readMark_eq_some {cs rest : List Char} {c : Char} (h : readMark cs = some (c, rest)) :
    cs = c :: rest := by
  unfold readMark at h
  split at h
  · cases h
  · cases h
  · split at h
    · cases h; rfl
    · cases h
  · cases h

theorem exists_readName_of_readAnyWord {cs name rest : List Char} {raw : Bool}
    (h : readAnyWord cs = some (raw, name, rest)) :
    ∃ body, cs = (if raw then ['r', '#'] else []) ++ body ∧ readName body = some (name, rest) := by
  unfold readAnyWord at h
  split at h
  · split at h
    · next hname =>
      split at h
      · cases h
      · cases h
        exact ⟨_, rfl, hname⟩
    · cases h
  · obtain ⟨s, hname, hs⟩ := Option.map_eq_some_iff.mp h
    cases hs
    exact ⟨cs, rfl, hname⟩

theorem cuts_readAnyWord {cs name rest : List Char} {raw : Bool}
    (h : readAnyWord cs = some (raw, name, rest)) :
    Split.Cuts ((if raw then ['r', '#'] else []) ++ name, rest) cs ∧ name ≠ [] := by
  obtain ⟨body, rfl, hname⟩ := exists_readName_of_readAnyWord h
  exact ⟨(cuts_readName hname).1.after _, (cuts_readName hname).2⟩

/-- What a text is read as that starts with one token that is no group, by the kind of the token. -/
inductive StartsLeaf (pos : Nat) (cs : List Char) : Tree → Split → Prop
  | literal {lexeme rest : List Char} (h : readLiteral cs = some (lexeme, rest)) :
      StartsLeaf pos cs (.literal (String.ofList lexeme) pos) (lexeme, rest)
  | tick {rest name after : List Char} {raw : Bool} (hlit : readLiteral cs = none)
      (hmark : readMark cs = some ('\'', rest)) (hword : readAnyWord rest = some (raw, name, after))
      (hfree : (after.head? == some '\'' || (after.head? == some '#' && !raw)) = false) :
      StartsLeaf pos cs (.mark '\'' true pos) (['\''], rest)
  | mark {c : Char} {rest : List Char} (hlit : readLiteral cs = none)
      (hmark : readMark cs = some (c, rest)) (hc : c ≠ '\'') :
      StartsLeaf pos cs (.mark c (readMark rest).isSome pos) ([c], rest)
  | word {raw : Bool} {name rest : List Char} (hlit : readLiteral cs = none)
      (hmark : readMark cs = none) (hquote : (quoteStarts.any fun q => q.isPrefixOf cs) = false)
      (hword : readAnyWord cs = some (raw, name, rest)) :
      StartsLeaf pos cs (.word raw (String.ofList name) pos)
        ((if raw then ['r', '#'] else []) ++ name, rest)

theorem readLeaf_eq_some_iff {pos : Nat} {cs : List Char} {t : Tree} {s : Split} :
    readLeaf pos cs = some (t, s) ↔ StartsLeaf pos cs t s := by
  constructor
  · intro h
    unfold readLeaf at h
    split at h
    · next hlit => cases h; exact .literal hlit
    · next hlit =>
      split at h
      · next hmark =>
        split at h
        · next hword =>
          split at h
          · cases h
          · next hfree => cases h; exact .tick hlit hmark hword (by simpa using hfree)
        · cases h
      · next hc hmark => cases h; exact .mark hlit hmark fun h => hc h
      · next hmark =>
        split at h
        · cases h
        · next hquote =>
          split at h
          · next hword => cases h; exact .word hlit hmark (by simpa using hquote) hword
          · cases h
  · intro h
    unfold readLeaf
    cases h with
    | literal h => simp only [h]
    | tick hlit hmark hword hfree =>
      simp only [hlit, hmark, hword, hfree, Bool.false_eq_true, ↓reduceIte]
    | mark hlit hmark hc => simp only [hlit, hmark]
    | word hlit hmark hquote hword =>
      simp only [hlit, hmark, hquote, hword, Bool.false_eq_true, ↓reduceIte]

theorem cuts_readLeaf {pos : Nat} {cs : List Char} {tree : Tree} {s : Split}
    (h : readLeaf pos cs = some (tree, s)) : s.Cuts cs := by
  cases readLeaf_eq_some_iff.mp h with
  | literal hlit => exact cuts_readLiteral hlit
  | tick _ hmark =>
    rw [readMark_eq_some hmark]
    rfl
  | mark _ hmark =>
    rw [readMark_eq_some hmark]
    rfl
  | word _ _ _ hword => exact (cuts_readAnyWord hword).1

end Instrumentation.Source
