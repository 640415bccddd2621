import Instrumentation.Proofs.PutItems
import Instrumentation.Proofs.ScannedBodies

/-!
The text of a file with lines that make crates known put in: at its start, or behind its inner
attributes. Unless that is before a line for the loader or in a comment, the lines are read as
items, and everything else is read as before.
-/
namespace Instrumentation.Source

open Text (At byteLength)

/-! ### Whole texts -/

/-- The trees of a text from the offset `pos` on, up to its end. -/
def LexesAll (pos : Nat) (cs : List Char) (ts : List Tree) : Prop :=
  ∃ stop rest, Lexes pos cs ts stop rest ∧ (gapOf rest).2 = []

theorem treesFrom_iff {pos : Nat} {cs : List Char} {ts : List Tree}
    (hmark : withoutMark cs = (0, cs)) : treesFrom pos cs = .ok ts ↔ LexesAll pos cs ts := by
  rw [treesFrom_eq_ok_iff hmark]
  constructor
  · rintro ⟨stop, rest, gap, h, hgap⟩
    exact ⟨stop, rest, h, by rw [gapOf, hgap]⟩
  · rintro ⟨stop, rest, h, hgap⟩
    exact ⟨stop, rest, (gapOf rest).1, h, Prod.ext rfl hgap⟩

theorem Lexes.lexesAll {pos mid : Nat} {cs cs' : List Char} {ts us : List Tree}
    (h : Lexes pos cs ts mid cs') (hus : LexesAll mid cs' us) : LexesAll pos cs (ts ++ us) := by
  obtain ⟨stop, rest, hus, hend⟩ := hus
  exact ⟨stop, rest, h.append hus, hend⟩

namespace LexesAll

variable {pos : Nat} {cs : List Char} {ts : List Tree}

theorem shift {base : Nat} (h : LexesAll pos cs ts) (hbase : base ≤ pos) (d : Nat) :
    ∃ ts', LexesAll (pos + d) cs ts' ∧ AlikeIn (Shifted base d) ts ts' := by
  obtain ⟨stop, rest, h, hend⟩ := h
  obtain ⟨ts', h', halike⟩ := h.shift (d := d) hbase
  exact ⟨ts', ⟨stop + d, rest, h', hend⟩, halike⟩

theorem blank (h : LexesAll (pos + 1) cs ts) : LexesAll pos (' ' :: cs) ts := by
  obtain ⟨stop, rest, h, hend⟩ := h
  cases ts with
  | nil =>
    cases h
    exact ⟨pos, ' ' :: cs, .done, by rw [gapOf_blank]; exact hend⟩
  | cons => exact ⟨stop, rest, h.blank (by simp), hend⟩

theorem crates {names : List String} (hnames : ∀ c ∈ names, isCrateName c) (hne : names ≠ [])
    (h : LexesAll (pos + byteLength (Splice.externCrateLine names).toList) cs ts) :
    LexesAll pos ((Splice.externCrateLine names).toList ++ cs)
      (cratesTrees pos (readMark cs).isSome names ++ ts) := by
  obtain ⟨stop, rest, h, hend⟩ := h
  exact ⟨stop, rest, .crates hnames hne h, hend⟩

/-- A text that starts with an asterisk has one for its first tree. -/
theorem asterisk (h : LexesAll pos ('*' :: cs) ts) :
    ∃ joint p us, ts = .mark '*' joint p :: us := by
  have hgap : gapOf ('*' :: cs) = ([], '*' :: cs) := gapOf_of_none rfl
  obtain ⟨stop, rest, h, hend⟩ := h
  generalize hcs : '*' :: cs = text at h
  cases h with
  | done =>
    rw [← hcs, hgap] at hend
    cases hend
  | doc hgap' hdoc hpaired hts =>
    rw [← hcs, show readGap _ _ = _ from hgap] at hgap'
    cases hgap'
    cases hdoc
  | leaf hgap' hleaf hts =>
    rw [← hcs, show readGap _ _ = _ from hgap] at hgap'
    cases hgap'
    rw [readLeaf_mark (.inr (.inr rfl))] at hleaf
    cases hleaf
    exact ⟨_, _, _, rfl⟩
  | @group _ _ _ _ _ _ _ _ _ _ d _ _ hgap' hinside hgap'' hts =>
    rw [← hcs, show readGap _ _ = _ from hgap] at hgap'
    cases d <;> cases hgap'

end LexesAll

/-- A tree takes some text. -/
theorem Lexes.lt_stop {pos stop : Nat} {cs rest : List Char} {ts : List Tree}
    (h : Lexes pos cs ts stop rest) (hne : ts ≠ []) : pos < stop := by
  have hle {pos stop : Nat} {cs rest : List Char} {ts : List Tree}
      (h : Lexes pos cs ts stop rest) : pos ≤ stop := by
    obtain ⟨taken, -, hstop⟩ := h.cuts
    omega
  cases h with
  | done => exact absurd rfl hne
  | doc hgap hdoc hpaired hts =>
    have hlater := hle hts
    have htaken := Text.byteLength_pos (cuts_readDoc hdoc).2
    dsimp only at htaken
    omega
  | leaf hgap hleaf hts =>
    have hlater := hle hts
    have htaken := Text.byteLength_pos (readLeaf_ne_nil hleaf)
    dsimp only at htaken
    omega
  | group hgap hinside hgap' hts =>
    have hlater := hle hts
    have hwithin := hle hinside
    omega

/-! ### The line for the loader -/

/-- The trees of a file. -/
def File.trees (cs : List Char) : Except Nat (List Tree) :=
  treesFrom (byteLength (loaderLine cs)) (cs.drop (loaderLine cs).length)

theorem File.read_eq (cs : List Char) : File.read cs =
    match File.trees cs with
    | .error place => .error (some place)
    | .ok trees => Grammar.readAll Grammar.file trees := rfl

theorem withoutMark_eq_zero {cs : List Char} :
    withoutMark cs = (0, cs) ↔ cs.head? ≠ some byteOrderMark := by
  cases cs with
  | nil => simp [withoutMark]
  | cons c cs =>
    by_cases hc : c = byteOrderMark
    · simp [withoutMark, hc]
    · simp [withoutMark, hc]

/-- What follows a line for the loader starts with no mark. -/
theorem withoutMark_drop {cs : List Char} (h : withoutMark cs = (0, cs)) :
    withoutMark (cs.drop (loaderLine cs).length) =
      (0, cs.drop (loaderLine cs).length) := by
  by_cases hnone : loaderLine cs = []
  · rw [hnone]
    exact h
  · rw [withoutMark_eq_zero]
    intro hhead
    exact absurd (head?_behind_loaderLine hnone _ hhead) (by decide)

/-- What is put in behind a line for the loader, and behind more text, does not change the line. -/
theorem loaderLine_put {c : Char} {cs ds es : List Char} (h : loaderLine (cs ++ c :: ds) = cs)
    (hloader : Grammar.hasLoaderLine (cs ++ c :: es) = Grammar.hasLoaderLine (cs ++ c :: ds)) :
    loaderLine (cs ++ c :: es) = cs := by
  unfold loaderLine at h ⊢
  rw [hloader]
  split at h
  · next hcode =>
    have hwithin : ∀ d ∈ cs, (d != '\n') = true := fun d hd =>
      List.mem_takeWhile_imp (p := (· != '\n')) (l := cs ++ c :: ds) (by rwa [h])
    rw [List.takeWhile_append_of_pos hwithin, List.append_right_eq_self, List.takeWhile_cons] at h
    obtain rfl : c = '\n' := by simpa using h
    rw [if_pos hcode, List.takeWhile_append_of_pos hwithin]
    simp
  · next hcode =>
    rw [if_neg hcode]
    exact h

/-- The trees of a file are those behind its line for the loader. -/
theorem File.trees_iff {cs : List Char} {ts : List Tree} (hmark : withoutMark cs = (0, cs)) :
    File.trees cs = .ok ts ↔
      LexesAll (byteLength (loaderLine cs)) (cs.drop (loaderLine cs).length) ts :=
  treesFrom_iff (withoutMark_drop hmark)

/-! ### Where lines are put in -/

/-- An attribute that ends at `stop` is a comment up to the end of its line. -/
def File.endsInLine (code : List Char) (stop : Nat) : Bool :=
  match File.trees code with
  | .ok ts => ts.any fun t => match t with
    | .group _ start stop' _ =>
      stop' == stop && Text.slice code start (start + 3) == ['/', '/', '!']
    | _ => false
  | .error _ => false

/-- Where the inner attributes of a file end; without any, at its start. -/
def File.innerEnd (f : File) : Nat := (f.innerAttrs.getLast?.map Attribute.stop).getD 0

/-- The text that makes crates known, set apart from what it is put in behind or before. -/
def crateText (names : List String) (start : Nat) : List Char :=
  let line := Splice.externCrateLine names
  (if start = 0 then line ++ " " else " " ++ line).toList

/-- `File.Knows names code code' f f'`: the file `f'` with the text `code'` is `f` with the text
`code`, and makes some crates known. Behind the inner attributes there are the trees of the lines
that do, an item for each crate, and then the trees and the items that there were, further on. -/
structure File.Knows (names : List String) (code code' : List Char) (f f' : File) : Prop where
  line : loaderLine code' = loaderLine code
  attrs : f'.innerAttrs = f.innerAttrs
  trees : ∃ head tail tail' joint, File.trees code = .ok (head ++ tail) ∧
    Grammar.InnerTrees head (f.innerAttrs.map Attribute.stop) ∧
    File.trees code' = .ok (head ++
      (cratesTrees (if f.innerEnd = 0 then 0 else f.innerEnd + 1) joint names ++ tail')) ∧
    AlikeIn (Shifted f.innerEnd (byteLength (crateText names f.innerEnd))) tail tail'
  items : ∃ items, f'.items = names.map (fun _ => .other) ++ items ∧ List.Forall₂ (Item.Alike
    (Shifted f.innerEnd (byteLength (crateText names f.innerEnd)))) f.items items

theorem File.exists_trees {code : List Char} {f : File} (h : File.read code = .ok f) :
    ∃ ts, File.trees code = .ok ts ∧ Grammar.readAll Grammar.file ts = .ok f := by
  rw [File.read_eq] at h
  split at h
  · cases h
  · next ts hts => exact ⟨ts, hts, h⟩

theorem File.read_of_trees {code : List Char} {ts : List Tree} (hts : File.trees code = .ok ts) :
    File.read code = Grammar.readAll Grammar.file ts := by
  rw [File.read_eq, hts]

/-- Inner attributes end where the last one does. -/
theorem Lexes.getLast?_inner {pos stop : Nat} {cs rest : List Char} {head : List Tree}
    {stops : List Nat} (hhead : Grammar.InnerTrees head stops) (h : Lexes pos cs head stop rest) :
    stops.getLast?.getD pos = stop := by
  induction hhead generalizing pos cs with
  | nil =>
    cases h
    rfl
  | @cons _ _ _ _ _ stop' _ ts stops hrest ih =>
    obtain ⟨cs', -, hts⟩ := h.cases_inner
    rw [← ih hts]
    cases stops with
    | nil => rfl
    | cons => rw [List.getLast?_cons_cons, List.getLast?_cons, Option.getD_some, Option.getD_some]

section

variable {names : List String} {code : List Char} {f : File}

theorem crateText_start (names : List String) :
    crateText names 0 = (Splice.externCrateLine names).toList ++ [' '] := by
  simp [crateText]

theorem crateText_behind (names : List String) {start : Nat} (h : start ≠ 0) :
    crateText names start = ' ' :: (Splice.externCrateLine names).toList := by
  simp [crateText, h]

theorem exists_externCrateLine {names : List String} (hne : names ≠ []) :
    ∃ rest, (Splice.externCrateLine names).toList = 'e' :: rest := by
  obtain ⟨c, names, rfl⟩ := List.exists_cons_of_ne_nil hne
  cases names with
  | nil => exact ⟨_, toList_externCrateLine_one c⟩
  | cons d names =>
    rw [toList_externCrateLine_cons, toList_externCrateLine_one]
    exact ⟨_, rfl⟩

theorem neutral_of_all {w : List Char}
    (h : (w.all fun d => d != '/' && d != '*' && d != '\n') = true) : Neutral w := by
  intro d hd
  simpa [and_assoc] using List.all_eq_true.mp h d hd

theorem Neutral.append {v w : List Char} (hv : Neutral v) (hw : Neutral w) : Neutral (v ++ w) := by
  intro d hd
  rcases List.mem_append.mp hd with hd | hd
  · exact hv d hd
  · exact hw d hd

/-- A crate's name has no character that comments or lines are made of. -/
theorem neutral_crate {crate : String} (h : isCrateName crate) : Neutral crate.toList := by
  obtain ⟨raw, name, hword, -, -⟩ := exists_crateTrees h
  obtain ⟨hcrate, c, rest, rfl, hc, hrest⟩ := readAnyWord_all hword
  have hletter {d e : Char} (hd : d ∈ c :: rest) (he : Text.isWordStart e = false ∧
      Text.isWordContinue e = false) : d ≠ e := by
    rintro rfl
    rcases List.mem_cons.mp hd with rfl | hd
    · rw [he.1] at hc
      cases hc
    · rw [hrest d hd] at he
      cases he.2
  have hname : Neutral (c :: rest) := fun d hd =>
    ⟨hletter hd (by decide), hletter hd (by decide), hletter hd (by decide)⟩
  rw [hcrate]
  cases raw with
  | true => exact (neutral_of_all (by decide)).append hname
  | false => exact hname

theorem neutral_externCrateLine {names : List String} (hnames : ∀ c ∈ names, isCrateName c) :
    Neutral (Splice.externCrateLine names).toList := by
  have hone {c : String} (hc : isCrateName c) : Neutral (Splice.externCrateLine [c]).toList := by
    rw [toList_externCrateLine_one]
    exact (neutral_of_all (by decide)).append ((neutral_crate hc).append (neutral_of_all (by decide)))
  induction names with
  | nil => exact neutral_of_all (by decide)
  | cons c names ih =>
    have hc := hone (hnames c List.mem_cons_self)
    cases names with
    | nil => exact hc
    | cons d names =>
      have hblank : Neutral [' '] := neutral_of_all (by decide)
      rw [toList_externCrateLine_cons]
      exact hc.append (hblank.append (ih fun c hc => hnames c (List.mem_cons_of_mem _ hc)))

/-- What makes crates known at the start of a text. -/
theorem LexesAll.start {pos : Nat} {cs : List Char} {ts : List Tree}
    (hnames : ∀ c ∈ names, isCrateName c) (hne : names ≠ [])
    (h : LexesAll (pos + byteLength (crateText names 0)) cs ts) :
    LexesAll pos (crateText names 0 ++ cs)
      (cratesTrees pos (readMark (' ' :: cs)).isSome names ++ ts) := by
  have hsize : ' '.utf8Size = 1 := rfl
  rw [crateText_start] at h ⊢
  simp only [Text.byteLength_append, Text.byteLength_cons, Text.byteLength_nil, hsize,
    ← Nat.add_assoc, Nat.add_zero] at h
  rw [List.append_assoc]
  exact .crates hnames hne h.blank

/-- What makes crates known behind other text. -/
theorem LexesAll.behind {pos start : Nat} {cs : List Char} {ts : List Tree}
    (hnames : ∀ c ∈ names, isCrateName c) (hne : names ≠ []) (hstart : start ≠ 0)
    (h : LexesAll (pos + byteLength (crateText names start)) cs ts) :
    LexesAll pos (crateText names start ++ cs)
      (cratesTrees (pos + 1) (readMark cs).isSome names ++ ts) := by
  have hsize : ' '.utf8Size = 1 := rfl
  rw [crateText_behind names hstart] at h ⊢
  rw [Text.byteLength_cons, hsize, ← Nat.add_assoc] at h
  exact (LexesAll.crates hnames hne h).blank

/-- Lines put in at the start of a file, which has neither inner attributes nor a line for the
loader. -/
theorem File.read_put_start (hread : File.read code = .ok f) (hmark : withoutMark code = (0, code))
    (hnames : ∀ c ∈ names, isCrateName c) (hne : names ≠ []) (hinner : f.innerAttrs = [])
    (hloader : Grammar.hasLoaderLine code = false) :
    withoutMark (crateText names 0 ++ code) = (0, crateText names 0 ++ code) ∧
      ∃ f', File.read (crateText names 0 ++ code) = .ok f' ∧
        File.Knows names code (crateText names 0 ++ code) f f' := by
  obtain ⟨ts, hts, hall⟩ := File.exists_trees hread
  obtain ⟨head, tail, rfl, hhead, -, hput⟩ := Grammar.readAll_put hall
  have hend : f.innerEnd = 0 := by simp [innerEnd, hinner]
  obtain rfl : head = [] := by
    rw [hinner] at hhead
    cases hhead
    rfl
  have hline : loaderLine code = [] := by simp [loaderLine, hloader]
  have hlex := (File.trees_iff hmark).mp hts
  rw [hline] at hlex
  obtain ⟨tail', htail', halike⟩ :=
    hlex.shift (Nat.zero_le _ : 0 ≤ _) (byteLength (crateText names 0))
  -- The text that is put in starts with a letter.
  obtain ⟨rest, hrest⟩ := exists_externCrateLine hne
  have hline' : loaderLine (crateText names 0 ++ code) = [] := by
    simp [loaderLine, crateText_start, hrest, Grammar.hasLoaderLine]
  have hmark' : withoutMark (crateText names 0 ++ code) = (0, crateText names 0 ++ code) := by
    rw [withoutMark_eq_zero, crateText_start, hrest]
    exact fun h => absurd (Option.some.inj h) (by decide)
  have htrees' := (File.trees_iff hmark').mpr (by rw [hline']; exact htail'.start hnames hne)
  obtain ⟨items, hitems, hread'⟩ :=
    hput hnames hne halike 0 (readMark (' ' :: code)).isSome
  refine ⟨hmark', _, (File.read_of_trees htrees').trans hread', ?_⟩
  refine ⟨by rw [hline, hline'], rfl, ⟨[], tail, tail', (readMark (' ' :: code)).isSome, hts, hhead,
    ?_, ?_⟩, items, rfl, ?_⟩
  · rw [hend]
    exact htrees'
  · rw [hend]
    exact halike
  · rw [hend]
    exact hitems

/-- No inner attribute at the end is a comment up to the end of its line. -/
theorem File.not_line_of_endsInLine {ts : List Tree} {start stop : Nat} {inside : List Tree}
    {cs : List Char} (hts : File.trees code = .ok ts) (h : File.endsInLine code stop = false)
    (hmem : .group .bracket start stop inside ∈ ts) : ¬At code start ('/' :: '/' :: '!' :: cs) := by
  intro hat
  have hlength : byteLength ['/', '/', '!'] = 3 := by decide
  have hslice : Text.slice code start (start + 3) = ['/', '/', '!'] := by
    rw [← hlength]
    exact Text.slice_eq hat
  simp only [endsInLine, hts] at h
  have hno := List.any_eq_false.mp h _ hmem
  simp [hslice] at hno

/-- What is put in behind inner attributes does not change what a text starts with. -/
theorem loaderLine_behind {head : List Tree} {stops : List Nat} {pos stop : Nat}
    {body after w rest : List Char} (hcode : code = loaderLine code ++ (body ++ after))
    (hhead : Grammar.InnerTrees head stops) (hstops : stops ≠ [])
    (hlex : Lexes pos (body ++ (w ++ after)) head stop rest) (hends : EndsWell body)
    (hbody : body ≠ []) (hw : Neutral w)
    (hlead : ∃ c w', w = ' ' :: c :: w' ∧ Text.isWordStart c) (hafter : after.head? ≠ some '*') :
    loaderLine (loaderLine code ++ (body ++ (w ++ after))) = loaderLine code := by
  have hloader : Grammar.hasLoaderLine (loaderLine code ++ (body ++ (w ++ after))) =
      Grammar.hasLoaderLine code := by
    cases hl : Grammar.hasLoaderLine code with
    | false =>
      have hnone : loaderLine code = [] := by simp [loaderLine, hl]
      rw [hnone]
      exact hasLoaderLine_of_inner hhead hstops hlex
    | true =>
      have hlong : 2 ≤ (loaderLine code).length := by
        obtain ⟨cs, rfl⟩ := exists_of_hasLoaderLine hl
        simp [loaderLine, hl]
      rw [← List.append_assoc]
      refine hasLoaderLine_put hw hlead hafter (hends.prepend hbody _) (by simp; omega) ?_
      rwa [List.append_assoc, ← hcode]
  obtain ⟨c, body, rfl⟩ := List.exists_cons_of_ne_nil hbody
  have hline : loaderLine (loaderLine code ++ c :: (body ++ after)) = loaderLine code :=
    congrArg loaderLine hcode.symm
  refine loaderLine_put hline ?_
  rw [show loaderLine code ++ c :: (body ++ after) = code from hcode.symm]
  exact hloader

/-- Inner attributes end where the trees of the last one do. -/
theorem File.innerEnd_eq {head : List Tree} {pos mid : Nat} {cs rest : List Char}
    (hhead : Grammar.InnerTrees head (f.innerAttrs.map Attribute.stop))
    (hlex : Lexes pos cs head mid rest) (hinner : f.innerAttrs ≠ []) : f.innerEnd = mid := by
  have hlast := hlex.getLast?_inner hhead
  rw [List.getLast?_map, List.getLast?_eq_some_getLast hinner] at hlast
  rw [innerEnd, List.getLast?_eq_some_getLast hinner]
  exact hlast

theorem File.innerEnd_ne_zero (hread : File.read code = .ok f)
    (hmark : withoutMark code = (0, code)) (hinner : f.innerAttrs ≠ []) : f.innerEnd ≠ 0 := by
  obtain ⟨ts, hts, hall⟩ := File.exists_trees hread
  obtain ⟨head, tail, rfl, hhead, -, -⟩ := Grammar.readAll_put hall
  obtain ⟨stop, rest, hlex, -⟩ := (File.trees_iff hmark).mp hts
  obtain ⟨mid, after, hlexHead, -⟩ := hlex.split_inner hhead
  have hne : head ≠ [] := by
    rintro rfl
    generalize hstops : f.innerAttrs.map Attribute.stop = stops at hhead
    cases hhead
    exact hinner (List.map_eq_nil_iff.mp hstops)
  have hlt := hlexHead.lt_stop hne
  rw [File.innerEnd_eq hhead hlexHead hinner]
  omega

/-- The parts of a text with inner attributes: they end behind `body`, wherever the text goes on, and
`after` stands behind them. -/
structure File.Parts (code : List Char) (stop : Nat) (head tail : List Tree)
    (body after : List Char) : Prop where
  code_eq : code = loaderLine code ++ (body ++ after)
  body_ne : body ≠ []
  ends : EndsWell body
  stop_eq : byteLength (loaderLine code ++ body) = stop
  head : ∀ rest, Lexes (byteLength (loaderLine code)) (body ++ rest) head stop rest
  tail : LexesAll stop after tail
  after_ne : after.head? ≠ some '*'

theorem File.exists_parts {head tail : List Tree} (hmark : withoutMark code = (0, code))
    (hts : File.trees code = .ok (head ++ tail))
    (hhead : Grammar.InnerTrees head (f.innerAttrs.map Attribute.stop))
    (hstar : ∀ joint p us, tail ≠ .mark '*' joint p :: us) (hinner : f.innerAttrs ≠ [])
    (hline : File.endsInLine code f.innerEnd = false) :
    ∃ body after, File.Parts code f.innerEnd head tail body after := by
  obtain ⟨stop, rest, hlex, hrest⟩ := (File.trees_iff hmark).mp hts
  obtain ⟨mid, after, hlexHead, hlexTail⟩ := hlex.split_inner hhead
  have hstops : f.innerAttrs.map Attribute.stop ≠ [] := by simpa using hinner
  obtain rfl := File.innerEnd_eq hhead hlexHead hinner
  have hat : At code (byteLength (loaderLine code)) (code.drop (loaderLine code).length) :=
    ⟨loaderLine code, (loaderLine_append code).symm, rfl⟩
  obtain ⟨-, y, k, hbody, hends, hsame, hcarry⟩ := Lexes.carry_inner hhead hstops hlexHead hat
    fun start inside cs' hmem =>
      File.not_line_of_endsInLine hts hline (List.mem_append_left tail hmem)
  refine ⟨y ++ k, after, ?_, ?_, hends, ?_, fun rest => ?_, ⟨stop, rest, hlexTail, hrest⟩, ?_⟩
  · rw [List.append_assoc, ← hbody, loaderLine_append]
  · have hk := (hsame []).ne_nil
    rw [List.append_nil] at hk
    exact List.append_ne_nil_of_right_ne_nil y hk
  · obtain ⟨taken, htaken, hstop⟩ := hlexHead.cuts
    rw [hbody, ← List.append_assoc] at htaken
    obtain rfl := List.append_cancel_right htaken
    rw [Text.byteLength_append, hstop]
  · rw [List.append_assoc]
    exact hcarry rest
  · intro hfirst
    obtain ⟨cs, rfl⟩ := List.head?_eq_some_iff.mp hfirst
    obtain ⟨joint, p, us, rfl⟩ := LexesAll.asterisk ⟨stop, rest, hlexTail, hrest⟩
    exact hstar joint p us rfl

theorem neutral_crateText (hnames : ∀ c ∈ names, isCrateName c) {start : Nat} (h : start ≠ 0) :
    Neutral (crateText names start) := by
  rw [crateText_behind names h]
  exact (neutral_of_all (w := [' ']) (by decide)).append (neutral_externCrateLine hnames)

/-- Text that is put in behind other text starts with a blank and a letter. -/
theorem exists_crateText_behind (hne : names ≠ []) {start : Nat} (h : start ≠ 0) :
    ∃ c w, crateText names start = ' ' :: c :: w ∧ Text.isWordStart c := by
  obtain ⟨cs, hcs⟩ := exists_externCrateLine hne
  exact ⟨'e', cs, by rw [crateText_behind names h, hcs], by decide⟩

/-- Lines put in behind the inner attributes of a file, the last of which is no comment up to the
end of its line. -/
theorem File.read_put_behind (hread : File.read code = .ok f) (hmark : withoutMark code = (0, code))
    (hnames : ∀ c ∈ names, isCrateName c) (hne : names ≠ []) (hinner : f.innerAttrs ≠ [])
    (hline : File.endsInLine code f.innerEnd = false) :
    ∃ before after, code = before ++ after ∧ byteLength before = f.innerEnd ∧
      loaderLine code <+: before ∧
      withoutMark (before ++ (crateText names f.innerEnd ++ after)) =
        (0, before ++ (crateText names f.innerEnd ++ after)) ∧
      ∃ f', File.read (before ++ (crateText names f.innerEnd ++ after)) = .ok f' ∧
        File.Knows names code (before ++ (crateText names f.innerEnd ++ after)) f f' := by
  obtain ⟨ts, hts, hall⟩ := File.exists_trees hread
  obtain ⟨head, tail, rfl, hhead, hstar, hput⟩ := Grammar.readAll_put hall
  obtain ⟨body, after, hparts⟩ := File.exists_parts hmark hts hhead hstar hinner hline
  have hstops : f.innerAttrs.map Attribute.stop ≠ [] := by simpa using hinner
  have hpos := File.innerEnd_ne_zero hread hmark hinner
  refine ⟨loaderLine code ++ body, after, by rw [List.append_assoc]; exact hparts.code_eq,
    hparts.stop_eq, List.prefix_append _ _, ?_⟩
  have hhead' := hparts.head (crateText names f.innerEnd ++ after)
  have hline' := loaderLine_behind hparts.code_eq hhead hstops hhead' hparts.ends hparts.body_ne
    (neutral_crateText hnames hpos) (exists_crateText_behind hne hpos) hparts.after_ne
  have hfirst (z : List Char) : (loaderLine code ++ (body ++ z)).head? =
      (loaderLine code ++ body).head? := by
    rw [← List.append_assoc]
    exact List.head?_append_of_ne_nil _ (List.append_ne_nil_of_right_ne_nil _ hparts.body_ne)
  have hmark' : withoutMark (loaderLine code ++ (body ++ (crateText names f.innerEnd ++ after))) =
      (0, loaderLine code ++ (body ++ (crateText names f.innerEnd ++ after))) := by
    rw [withoutMark_eq_zero] at hmark ⊢
    rw [hfirst, ← hfirst after, ← hparts.code_eq]
    exact hmark
  obtain ⟨tail', htail', halike⟩ :=
    hparts.tail.shift (Nat.le_refl _) (byteLength (crateText names f.innerEnd))
  have htrees' := (File.trees_iff hmark').mpr (by
    rw [hline', List.drop_left]
    exact hhead'.lexesAll (htail'.behind hnames hne hpos))
  obtain ⟨items, hitems, hread'⟩ :=
    hput hnames hne halike (f.innerEnd + 1) (readMark after).isSome
  rw [List.append_assoc]
  refine ⟨hmark', _, (File.read_of_trees htrees').trans hread', hline', rfl,
    ⟨head, tail, tail', (readMark after).isSome, hts, hhead, ?_, halike⟩, items, rfl, hitems⟩
  rw [if_neg hpos]
  exact htrees'

end

end Instrumentation.Source
