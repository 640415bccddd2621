import Instrumentation.Source.Token

/-!
Parsers over token trees. A parser moves a cursor over a list of trees. Beside the trees that are
left, the cursor keeps the trees as they will be printed, the first place where the end of a group
was expected and not found, and whether a type was met that a closure signature cannot spell. A
parser fails at the tree that cannot continue; at the end of a group that is its closing
delimiter, and at the end of the text there is no place to point to.
-/
namespace Instrumentation.Source

/-- The offset a fault is reported at; `none` stands for the end of the text. -/
abbrev Blame := Option Nat

structure Cursor where
  rest : List Tree
  /-- The closing delimiter of the group that is read, if the trees are inside one. -/
  close : Blame
  /-- The trees passed over, last first. -/
  printed : List Tree := []
  /-- The first tree left over in a group that was read to its end. -/
  stray : Option Nat := none
  /-- Whether a reference, lifetime or other type without a closure spelling was met. -/
  unspellable : Bool := false

/-- The place where the cursor stands. -/
def Cursor.here (c : Cursor) : Blame :=
  match c.rest with
  | t :: _ => some t.start
  | [] => c.close

/-- A parser. It moves forward only: what it leaves is the end of what there was. -/
structure Parser (α : Type) where
  run : Cursor → Except Blame (α × Cursor)
  forward {c d : Cursor} {a : α} : run c = .ok (a, d) → d.rest <:+ c.rest

namespace Parser

/-- Asks about the cursor. -/
def asks {α : Type} (f : Cursor → α) : Parser α where
  run c := .ok (f c, c)
  forward h := by cases h; exact List.suffix_rfl

instance : Monad Parser where
  pure a := asks fun _ => a
  bind p f := {
    run := fun c => match p.run c with
      | .ok (a, c) => (f a).run c
      | .error e => .error e
    forward := by
      intro c d b h
      split at h
      · next a c' hp => exact ((f a).forward h).trans (p.forward hp)
      · cases h }

def failAt {α : Type} (place : Blame) : Parser α where
  run _ := .error place
  forward h := by cases h

/-- Fails where the cursor stands. -/
def fail {α : Type} : Parser α where
  run c := .error c.here
  forward h := by cases h

/-- Asks about the trees that are left. -/
def peek (test : List Tree → Bool) : Parser Bool := asks fun c => test c.rest

def here : Parser Blame := asks Cursor.here

def atEnd : Parser Bool := peek List.isEmpty

/-- The number of trees that are left. -/
def left : Parser Nat := asks fun c => c.rest.length

/-- Runs a parser; does not move if it fails. -/
def attempt {α : Type} (p : Parser α) : Parser (Option α) where
  run c := match p.run c with
    | .ok (a, c) => .ok (some a, c)
    | .error _ => .ok (none, c)
  forward h := by
    split at h
    · next hp => have hf := p.forward hp; cases h; exact hf
    · cases h; exact List.suffix_rfl

/-- Runs a parser without moving. -/
def ahead {α : Type} (p : Parser α) : Parser α where
  run c := match p.run c with
    | .ok (a, _) => .ok (a, c)
    | .error e => .error e
  forward h := by
    split at h
    · cases h; exact List.suffix_rfl
    · cases h

/-- Runs a parser when the trees that are left pass a test. -/
def optional {α : Type} (test : List Tree → Bool) (p : Parser α) : Parser (Option α) := do
  if ← peek test then return some (← p) else return none

/-- Runs a parser and hands out the trees that it prints. -/
def captured {α : Type} (p : Parser α) : Parser (α × List Tree) where
  run c := match p.run { c with printed := [] } with
    | .ok (a, d) => .ok ((a, d.printed.reverse), { d with printed := d.printed ++ c.printed })
    | .error e => .error e
  forward h := by
    split at h
    · next hp => have hf := p.forward hp; cases h; exact hf
    · cases h

/-- Runs a parser and lets `f` rearrange the trees that it prints. -/
def reprinted {α : Type} (p : Parser (α × List Tree)) : Parser α where
  run c := match p.run { c with printed := [] } with
    | .ok ((a, trees), d) => .ok (a, { d with printed := trees.reverse ++ c.printed })
    | .error e => .error e
  forward h := by
    split at h
    · next hp => have hf := p.forward hp; cases h; exact hf
    · cases h

/-- Notes that a type was met which a closure signature cannot spell. -/
def markUnspellable : Parser Unit where
  run c := .ok ((), { c with unspellable := true })
  forward h := by cases h; exact List.suffix_rfl

/-- Runs a parser and says whether everything it met can be spelled in a closure signature. -/
def spellable {α : Type} (p : Parser α) : Parser (α × Bool) where
  run c := match p.run { c with unspellable := false } with
    | .ok (a, d) =>
      .ok ((a, !d.unspellable), { d with unspellable := c.unspellable || d.unspellable })
    | .error e => .error e
  forward h := by
    split at h
    · next hp => have hf := p.forward hp; cases h; exact hf
    · cases h

/-- Runs a parser whose types no one looks at. -/
def verbatim {α : Type} (p : Parser α) : Parser α where
  run c := match p.run c with
    | .ok (a, d) => .ok (a, { d with unspellable := c.unspellable })
    | .error e => .error e
  forward h := by
    split at h
    · next hp => have hf := p.forward hp; cases h; exact hf
    · cases h

end Parser

/-! ### Tests on the trees that are left -/

/-- The operator `op` starts here: its characters in a row, all but the last one joined. -/
def isMark : (op : List Char) → List Tree → Bool
  | [], _ => true
  | [o], .mark c _ _ :: _ => c == o && c != '\''
  | o :: op, .mark c joint _ :: rest => c == o && joint && c != '\'' && isMark op rest
  | _ :: _, _ => false

/-- The operator written `op` starts here. -/
def isOp (op : String) (ts : List Tree) : Bool := isMark op.toList ts

/-- Words that are no identifiers unless raw. -/
def keywords : List String :=
  ["_", "abstract", "as", "async", "await", "become", "box", "break", "const", "continue", "crate",
   "do", "dyn", "else", "enum", "extern", "false", "final", "fn", "for", "if", "impl", "in", "let",
   "loop", "macro", "match", "mod", "move", "mut", "override", "priv", "pub", "ref", "return",
   "Self", "self", "static", "struct", "super", "trait", "true", "try", "type", "typeof", "unsafe",
   "unsized", "use", "virtual", "where", "while", "yield"]

def isKeyword (k : String) : List Tree → Bool
  | .word false name _ :: _ => name == k
  | _ => false

def isOneOf (ks : List String) : List Tree → Bool
  | .word false name _ :: _ => ks.contains name
  | _ => false

def isAnyWord : List Tree → Bool
  | .word _ _ _ :: _ => true
  | _ => false

/-- An identifier starts here. -/
def isIdent : List Tree → Bool
  | .word raw name _ :: _ => raw || !keywords.contains name
  | _ => false

def isLifetime : List Tree → Bool
  | .mark '\'' true _ :: .word _ _ _ :: _ => true
  | _ => false

def isGroup (d : Delimiter) : List Tree → Bool
  | .group e _ _ _ :: _ => d == e
  | _ => false

def isParen : List Tree → Bool := isGroup .paren

def isBracket : List Tree → Bool := isGroup .bracket

def isBrace : List Tree → Bool := isGroup .brace

/-- Whether the text of a literal is a number. -/
def isNumeral (text : String) : Bool :=
  match text.toList with
  | c :: _ => c.isDigit
  | [] => false

/-- A literal starts here; a number may be negative. -/
def isLit : List Tree → Bool
  | .literal _ _ :: _ => true
  | .word false name _ :: _ => name == "true" || name == "false"
  | .mark '-' _ _ :: .literal t _ :: _ => isNumeral t
  | _ => false

/-- Whether a literal's text is a text, not one of bytes. -/
def isTextLiteral (text : String) : Bool :=
  match text.toList with
  | '"' :: _ => true
  | 'r' :: _ => true
  | _ => false

def isLitText : List Tree → Bool
  | .literal t _ :: _ => isTextLiteral t
  | _ => false

/-- The trees after the first one; a lifetime counts as one. -/
def past : List Tree → List Tree
  | .mark '\'' true _ :: .word _ _ _ :: rest => rest
  | _ :: rest => rest
  | [] => []

/-- The second tree passes a test. -/
def second (test : List Tree → Bool) (ts : List Tree) : Bool :=
  !ts.isEmpty && test (past ts)

/-- The third tree passes a test. -/
def third (test : List Tree → Bool) (ts : List Tree) : Bool :=
  !ts.isEmpty && second test (past ts)

namespace Parser

/-- Moves past an operator; its characters print joined to each other and to nothing else. -/
def op (o : String) : Parser Unit where
  run c :=
    if isOp o c.rest then
      let n := o.toList.length
      let marks := (c.rest.take n).zipIdx.map fun (t, i) => match t with
        | .mark m _ p => Tree.mark m (i + 1 < n) p
        | t => t
      .ok ((), { c with rest := c.rest.drop n, printed := marks.reverse ++ c.printed })
    else .error c.here
  forward h := by
    split at h
    · cases h; exact List.drop_suffix _ _
    · cases h

/-- Moves past one tree that passes a test. -/
def token (test : List Tree → Bool) : Parser Tree where
  run c := match c.rest with
    | t :: rest =>
      if test c.rest then .ok (t, { c with rest, printed := t :: c.printed }) else .error c.here
    | [] => .error c.here
  forward h := by
    split at h
    · next hc =>
      split at h
      · cases h; rw [hc]; exact List.suffix_cons _ _
      · cases h
    · cases h

def keyword (k : String) : Parser Unit := do
  let _ ← token (isKeyword k)

/-- Moves past an operator if it stands here. -/
def op? (o : String) : Parser Bool := do
  return (← optional (isOp o) (op o)).isSome

/-- Moves past a keyword if it stands here. -/
def keyword? (k : String) : Parser Bool := do
  return (← optional (isKeyword k) (keyword k)).isSome

/-- A word with the offset it stands at, as it is written. -/
structure Name where
  text : String
  pos : Nat
  deriving DecidableEq, Repr

def nameOf : Tree → Name
  | .word raw name pos => ⟨Tree.spelled raw name, pos⟩
  | t => ⟨"", t.start⟩

def ident : Parser Name := do return nameOf (← token isIdent)

def anyWord : Parser Name := do return nameOf (← token isAnyWord)

/-- Moves past a lifetime. No closure signature can name one. -/
def lifetime : Parser Unit where
  run c := match c.rest with
    | .mark '\'' true p :: w@(.word _ _ _) :: rest =>
      .ok ((), { c with
        rest, printed := w :: .mark '\'' true p :: c.printed, unspellable := true })
    | _ => .error c.here
  forward h := by
    split at h
    · next hc => cases h; rw [hc]; exact (List.suffix_cons _ _).trans (List.suffix_cons _ _)
    · cases h

/-- Moves past a literal and hands out its text. -/
def lit : Parser String where
  run c := match c.rest with
    | .literal t p :: rest => .ok (t, { c with rest, printed := .literal t p :: c.printed })
    | .word false name p :: rest =>
      if name == "true" || name == "false" then
        .ok (name, { c with rest, printed := .word false name p :: c.printed })
      else .error c.here
    | .mark '-' _ m :: .literal t p :: rest =>
      if isNumeral t then
        .ok ("-" ++ t, { c with rest, printed := .literal t p :: .mark '-' false m :: c.printed })
      else .error c.here
    | _ => .error c.here
  forward h := by
    split at h
    · next hc => cases h; rw [hc]; exact List.suffix_cons _ _
    · next hc =>
      split at h
      · cases h; rw [hc]; exact List.suffix_cons _ _
      · cases h
    · next hc =>
      split at h
      · cases h; rw [hc]; exact (List.suffix_cons _ _).trans (List.suffix_cons _ _)
      · cases h
    · cases h

/-- What is known of a group besides its inside. -/
structure GroupSpan where
  delim : Delimiter
  start : Nat
  stop : Nat
  deriving DecidableEq, Repr

/-- Moves past a group, reading its inside. Trees left over inside are noted as stray. -/
def inside {α : Type} (d : Delimiter) (p : Parser α) : Parser (GroupSpan × α) where
  run c := match c.rest with
    | .group e start stop trees :: rest =>
      if d = e then
        match p.run { c with rest := trees, close := some (stop - 1), printed := [] } with
        | .ok (a, i) =>
          .ok ((⟨d, start, stop⟩, a), {
            rest
            close := c.close
            printed := .group d start stop i.printed.reverse :: c.printed
            stray := i.stray.or (i.rest.head?.map Tree.start)
            unspellable := i.unspellable })
        | .error e => .error e
      else .error c.here
    | _ => .error c.here
  forward h := by
    split at h
    · next hc =>
      split at h
      · split at h
        · cases h; rw [hc]; exact List.suffix_cons _ _
        · cases h
      · cases h
    · cases h

/-- Moves past a group of any kind without reading it. -/
def rawGroup : Parser (Delimiter × List Tree) where
  run c := match c.rest with
    | .group d start stop trees :: rest =>
      .ok ((d, trees), { c with rest, printed := .group d start stop trees :: c.printed })
    | _ => .error c.here
  forward h := by
    split at h
    · next hc => cases h; rw [hc]; exact List.suffix_cons _ _
    · cases h

/-- Moves past all trees that are left. -/
def everything : Parser Unit where
  run c := .ok ((), { c with rest := [], printed := c.rest.reverse ++ c.printed })
  forward h := by cases h; exact List.nil_suffix

/-- Repeats a step as long as it asks for more; `fuel` bounds the number of steps. -/
def loop {σ : Type} (step : σ → Parser (σ × Bool)) : (fuel : Nat) → σ → Parser σ
  | 0, _ => fail
  | fuel + 1, s => do
    let (s, more) ← step s
    if more then loop step fuel s else pure s

/-- Repeats a step, which is to move the cursor, as long as it asks for more. -/
def repeating {σ : Type} (init : σ) (step : σ → Parser (σ × Bool)) : Parser σ := do
  loop step ((← left) + 2) init

/-- Values separated, and maybe followed, by an operator, up to the end of the group. -/
def terminated {α : Type} (sep : String) (p : Parser α) : Parser (List α) := do
  let xs ← repeating [] fun xs => do
    if ← atEnd then return (xs, false)
    let x ← p
    if ← atEnd then return (x :: xs, false)
    op sep
    return (x :: xs, true)
  return xs.reverse

/-- Values that fill the group. -/
def many {α : Type} (p : Parser α) : Parser (List α) := do
  let xs ← repeating [] fun xs => do
    if ← atEnd then return (xs, false)
    let x ← p
    return (x :: xs, true)
  return xs.reverse

end Parser
end Instrumentation.Source
