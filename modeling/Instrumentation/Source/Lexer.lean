import Instrumentation.Source.Literal
import Instrumentation.Source.Token
import Instrumentation.Text.Blank
import Instrumentation.Text.Quoted

/-!
From a source text to its token trees. Blanks and comments are dropped, except that a
documentation comment stands for the attribute it abbreviates. A fault is reported at the offset
of the lexeme that is none, of the closing delimiter that does not match, or of the innermost
opening delimiter that is never closed.
-/
namespace Instrumentation.Source

open Instrumentation.Text (byteLength isBlank)

/-- Blanks between tokens: white space and the two direction marks. -/
def isGap (c : Char) : Bool := isBlank c || c == '\u200e' || c == '\u200f'

/-- A block comment, nested ones included; `depth` counts the comments still open. -/
def readBlockComment : (fuel depth : Nat) → List Char → Option Split
  | 0, _, _ => none
  | fuel + 1, depth, cs =>
    match cs with
    | '/' :: '*' :: rest =>
      (readBlockComment fuel (depth + 1) rest).map (Split.after ['/', '*'])
    | '*' :: '/' :: rest =>
      if depth = 1 then some (['*', '/'], rest)
      else (readBlockComment fuel (depth - 1) rest).map (Split.after ['*', '/'])
    | c :: rest => (readBlockComment fuel depth rest).map (Split.after [c])
    | [] => none

def readComment (cs : List Char) : Option Split := readBlockComment (cs.length + 1) 0 cs

/-- The rest of a line, without its line feed; a carriage return before it is passed over. -/
def readLine : List Char → List Char × Split
  | [] => ([], [], [])
  | '\n' :: rest => ([], [], '\n' :: rest)
  | '\r' :: '\n' :: rest => ([], ['\r'], '\n' :: rest)
  | c :: rest =>
    let (line, s) := readLine rest
    (c :: line, s.after [c])

/-- The blanks and plain comments at the start of a text. -/
def readGap : (fuel : Nat) → List Char → Split
  | 0, cs => ([], cs)
  | fuel + 1, cs =>
    match cs with
    | '/' :: '/' :: rest =>
      let doc := match rest with
        | '!' :: _ => true
        | '/' :: '/' :: _ => false
        | '/' :: _ => true
        | _ => false
      if doc then ([], cs)
      else
        let (_, taken, rest) := readLine cs
        (readGap fuel rest).after taken
    | '/' :: '*' :: '*' :: '/' :: rest => (readGap fuel rest).after ['/', '*', '*', '/']
    | '/' :: '*' :: rest =>
      let doc := match rest with
        | '!' :: _ => true
        | '*' :: '*' :: _ => false
        | '*' :: _ => true
        | _ => false
      if doc then ([], cs)
      else match readComment cs with
        | some (taken, rest) => (readGap fuel rest).after taken
        | none => ([], cs)
    | c :: rest => if isGap c then (readGap fuel rest).after [c] else ([], cs)
    | [] => ([], [])

/-- The words of a documentation comment, and whether it documents what it stands in. -/
def readDoc (cs : List Char) : Option (List Char × Bool × Split) :=
  let block (inner : Bool) := (readComment cs).map fun (taken, rest) =>
    ((taken.drop 3).dropLast.dropLast, inner, (taken, rest))
  let line (inner : Bool) (lead rest : List Char) :=
    let (words, s) := readLine rest
    some (words, inner, s.after lead)
  match cs with
  | '/' :: '/' :: '!' :: rest => line true ['/', '/', '!'] rest
  | '/' :: '*' :: '!' :: _ => block true
  | '/' :: '/' :: '/' :: rest => match rest with
    | '/' :: _ => none
    | _ => line false ['/', '/', '/'] rest
  | '/' :: '*' :: '*' :: rest => match rest with
    | '*' :: _ => none
    | _ => block false
  | _ => none

/-- Whether every carriage return stands before a line feed. -/
def returnsPaired : List Char → Bool
  | '\r' :: '\n' :: rest => returnsPaired rest
  | '\r' :: _ => false
  | _ :: rest => returnsPaired rest
  | [] => true

/-- The words of a documentation comment as a text literal. -/
def docLiteral : List Char → List Char
  | [] => []
  | c :: rest =>
    (if c = '\x00' then
      match rest with
      | d :: _ => if '0' ≤ d && d ≤ '7' then ['\\', 'x', '0', '0'] else ['\\', '0']
      | [] => ['\\', '0']
    else Text.escapeChar '"' c) ++ docLiteral rest

/-- The attribute that a documentation comment abbreviates. -/
def docTrees (words : List Char) (inner : Bool) (start stop : Nat) : List Tree :=
  .mark '#' false start ::
    ((if inner then [.mark '!' false start] else []) ++
      [.group .bracket start stop
        [.word false "doc" start, .mark '=' false start,
          .literal (String.ofList ('"' :: docLiteral words ++ ['"'])) start]])

/-- The character of an operator at the start of a text; a comment's slash is none. -/
def readMark : List Char → Option (Char × List Char)
  | '/' :: '/' :: _ => none
  | '/' :: '*' :: _ => none
  | c :: rest => if "~!@#$%^&*-=+|;:,<.>/?'".toList.contains c then some (c, rest) else none
  | [] => none

/-- An identifier, raw or not, as it stands after a quote too. -/
def readAnyWord (cs : List Char) : Option (Bool × List Char × List Char) :=
  match cs with
  | 'r' :: '#' :: rest => match readName rest with
    | some (name, rest) =>
      if ["_", "super", "self", "Self", "crate"].contains (String.ofList name) then none
      else some (true, name, rest)
    | none => none
  | _ => (readName cs).map fun (name, rest) => (false, name, rest)

/-- Starts of texts that are not identifiers. -/
def quoteStarts : List (List Char) :=
  ["r\"", "r#\"", "r##", "b\"", "b'", "br\"", "br#", "c\"", "cr\"", "cr#"].map String.toList

/-- One token that is no group: the tree and the text after it. -/
def readLeaf (pos : Nat) (cs : List Char) : Option (Tree × Split) :=
  match readLiteral cs with
  | some (lexeme, rest) => some (.literal (String.ofList lexeme) pos, lexeme, rest)
  | none => match readMark cs with
    | some ('\'', rest) => match readAnyWord rest with
      | some (raw, _, after) =>
        if after.head? == some '\'' || (after.head? == some '#' && !raw) then none
        else some (.mark '\'' true pos, ['\''], rest)
      | none => none
    | some (c, rest) => some (.mark c (readMark rest).isSome pos, [c], rest)
    | none =>
      if quoteStarts.any fun q => q.isPrefixOf cs then none
      else match readAnyWord cs with
        | some (raw, name, rest) =>
          some (.word raw (String.ofList name) pos, (if raw then ['r', '#'] else []) ++ name, rest)
        | none => none

/-- An opened group: its delimiter, its offset, and the trees before it, last first. -/
structure OpenGroup where
  delim : Delimiter
  start : Nat
  before : List Tree

def openingOf? (c : Char) : Option Delimiter :=
  [Delimiter.paren, .bracket, .brace].find? fun d => d.opening == c

def closingOf? (c : Char) : Option Delimiter :=
  [Delimiter.paren, .bracket, .brace].find? fun d => d.closing == c

/-- Reads the trees of a text; `done` holds the trees of the innermost open group, last first. -/
def readTrees : (fuel : Nat) → (pos : Nat) → List OpenGroup → (done : List Tree) → List Char →
    Except Nat (List Tree)
  | 0, pos, _, _, _ => .error pos
  | fuel + 1, pos, opened, done, cs =>
    let (gap, cs) := readGap (cs.length + 1) cs
    let pos := pos + byteLength gap
    match readDoc cs with
    | some (words, inner, (taken, rest)) =>
      if returnsPaired words then
        let stop := pos + byteLength taken
        readTrees fuel stop opened ((docTrees words inner pos stop).reverse ++ done) rest
      else .error pos
    | none => match cs with
      | [] => match opened with
        | [] => .ok done.reverse
        | g :: _ => .error g.start
      | c :: rest =>
        match openingOf? c, closingOf? c with
        | some d, _ => readTrees fuel (pos + 1) (⟨d, pos, done⟩ :: opened) [] rest
        | none, some d => match opened with
          | [] => .error pos
          | g :: outer =>
            if g.delim = d then
              readTrees fuel (pos + 1) outer
                (.group d g.start (pos + 1) done.reverse :: g.before) rest
            else .error pos
        | none, none => match readLeaf pos cs with
          | some (tree, (taken, rest)) =>
            readTrees fuel (pos + byteLength taken) opened (tree :: done) rest
          | none => .error pos

/-- The byte order mark that may start a text. -/
def byteOrderMark : Char := '\ufeff'

/-- A text without the mark at its start, and the number of bytes of the mark. -/
def withoutMark : List Char → Nat × List Char
  | c :: rest => if c = byteOrderMark then (c.utf8Size, rest) else (0, c :: rest)
  | [] => (0, [])

/-- The token trees of a text whose first character stands at offset `pos`. -/
def treesFrom (pos : Nat) (cs : List Char) : Except Nat (List Tree) :=
  let (mark, cs) := withoutMark cs
  readTrees (cs.length + 1) (pos + mark) [] [] cs

end Instrumentation.Source
