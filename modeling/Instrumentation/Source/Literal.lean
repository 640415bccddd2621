import Instrumentation.Text.Word

/-!
Lexemes of literals and identifiers. Each reader splits a text into a lexeme and the rest, and
fails if the text does not start with a lexeme of its kind.
-/
namespace Instrumentation.Source

open Instrumentation.Text (isWordStart isWordContinue)

/-- A lexeme and what follows it. -/
abbrev Split := List Char × List Char

/-- Puts `lead` in front of the lexeme. -/
def Split.after (lead : List Char) (s : Split) : Split := (lead ++ s.1, s.2)

/-- An identifier without `r#`. -/
def readName : List Char → Option Split
  | [] => none
  | c :: cs =>
    if isWordStart c then some (c :: cs.takeWhile isWordContinue, cs.dropWhile isWordContinue)
    else none

/-- The identifier that may be attached to a literal. -/
def readSuffix (cs : List Char) : Split := (readName cs).getD ([], cs)

def isHex (c : Char) : Bool :=
  c.isDigit || ('a' ≤ c && c ≤ 'f') || ('A' ≤ c && c ≤ 'F')

def hexDigitValue (c : Char) : Nat :=
  if c.isDigit then c.toNat - '0'.toNat
  else if 'a' ≤ c && c ≤ 'f' then c.toNat - 'a'.toNat + 10
  else c.toNat - 'A'.toNat + 10

/-- Whether a number is the code point of a character. -/
def isCodePoint (n : Nat) : Bool := n < 0xD800 || (0xDFFF < n && n < 0x110000)

/-- The digits of a code point up to the closing brace, with at most six digits. -/
def readCode (count value : Nat) : List Char → Option (Nat × Split)
  | [] => none
  | c :: cs =>
    if isHex c then
      if count = 6 then none
      else (readCode (count + 1) (16 * value + hexDigitValue c) cs).map
        fun (v, s) => (v, s.after [c])
    else if c = '_' && count > 0 then (readCode count value cs).map fun (v, s) => (v, s.after [c])
    else if c = Char.ofNat 0x7D && count > 0 && isCodePoint value then some (value, [c], cs)
    else none

/-- The braces and digits after `\u`. -/
def readCodeEscape : List Char → Option (Nat × Split)
  | [] => none
  | c :: cs =>
    if c = Char.ofNat 0x7B then (readCode 0 0 cs).map fun (v, s) => (v, s.after [c]) else none

/-- The kinds of quoted text: characters, bytes, or characters without a terminating zero. -/
inductive TextKind where
  | chars | bytes | zeroFree
  deriving DecidableEq, Repr

/-- Where in a quoted text a reader stands. -/
inductive TextState where
  | plain
  | afterReturn
  | escaped
  | hexHigh
  | hexLow (high : Char)
  | codeOpen
  | code (count value : Nat)
  | skipping
  | skippingReturn
  deriving DecidableEq, Repr

/-- The state after a character that stands for itself. -/
def TextKind.plainStep (kind : TextKind) (c : Char) : Option TextState :=
  if c = '\r' then some .afterReturn
  else if c = '\\' then some .escaped
  else match kind with
    | .chars => some .plain
    | .bytes => if c.toNat < 0x80 then some .plain else none
    | .zeroFree => if c = '\x00' then none else some .plain

/-- The state after the character that follows a backslash. -/
def TextKind.escapeStep (kind : TextKind) (c : Char) : Option TextState :=
  if c = 'x' then some .hexHigh
  else if c = 'n' || c = 'r' || c = 't' || c = '\\' || c = '\'' || c = '"' then some .plain
  else if c = '0' then if kind = .zeroFree then none else some .plain
  else if c = 'u' then if kind = .bytes then none else some .codeOpen
  else if c = '\n' then some .skipping
  else if c = '\r' then some .skippingReturn
  else none

/-- One character of quoted text; the closing quote is seen to by `readQuoted`. -/
def TextKind.step (kind : TextKind) (state : TextState) (c : Char) : Option TextState :=
  match state with
  | .plain => kind.plainStep c
  | .afterReturn => if c = '\n' then some .plain else none
  | .escaped => kind.escapeStep c
  | .hexHigh =>
    if kind = .chars then if '0' ≤ c && c ≤ '7' then some (.hexLow c) else none
    else if isHex c then some (.hexLow c) else none
  | .hexLow high =>
    if isHex c && !(kind = .zeroFree && high = '0' && c = '0') then some .plain else none
  | .codeOpen => if c = Char.ofNat 0x7B then some (.code 0 0) else none
  | .code count value =>
    if isHex c then
      if count = 6 then none else some (.code (count + 1) (16 * value + hexDigitValue c))
    else if c = '_' && count > 0 then some (.code count value)
    else if c = Char.ofNat 0x7D && count > 0 && isCodePoint value
        && !(kind = .zeroFree && value = 0) then some .plain
    else none
  | .skipping =>
    if c = ' ' || c = '\t' || c = '\n' then some .skipping
    else if c = '\r' then some .skippingReturn
    else kind.plainStep c
  | .skippingReturn => if c = '\n' then some .skipping else none

/-- Quoted text up to and with its closing quote. -/
def readQuoted (kind : TextKind) (state : TextState) : List Char → Option Split
  | [] => none
  | c :: cs =>
    if c = '"' && (state = .plain || state = .skipping) then some ([c], cs)
    else match kind.step state c with
      | none => none
      | some next => (readQuoted kind next cs).map (Split.after [c])

/-- Raw text up to its closing quote and hashes; a carriage return stands before a line feed. -/
def readRaw (kind : TextKind) (hashes : List Char) (returned : Bool) : List Char → Option Split
  | [] => none
  | c :: cs =>
    if returned then
      if c = '\n' then (readRaw kind hashes false cs).map (Split.after [c]) else none
    else if c = '"' && hashes.isPrefixOf cs then some (c :: hashes, cs.drop hashes.length)
    else if c = '\r' then (readRaw kind hashes true cs).map (Split.after [c])
    else if (kind = .bytes && c.toNat ≥ 0x80) || (kind = .zeroFree && c = '\x00') then none
    else (readRaw kind hashes false cs).map (Split.after [c])

/-- Raw text from its hashes on. -/
def readRawText (kind : TextKind) (cs : List Char) : Option Split :=
  let hashes := cs.takeWhile (· == '#')
  match cs.drop hashes.length with
  | '"' :: rest =>
    if hashes.length > 255 then none
    else (readRaw kind hashes false rest).map (Split.after (hashes ++ ['"']))
  | _ => none

def withSuffix (s : Split) : Split :=
  let (suffix, rest) := readSuffix s.2
  (s.1 ++ suffix, rest)

/-- A text literal of any kind. -/
def readTextLiteral (cs : List Char) : Option Split :=
  (match cs with
    | '"' :: rest => (readQuoted .chars .plain rest).map (Split.after ['"'])
    | 'r' :: rest => (readRawText .chars rest).map (Split.after ['r'])
    | 'b' :: '"' :: rest => (readQuoted .bytes .plain rest).map (Split.after ['b', '"'])
    | 'b' :: 'r' :: rest => (readRawText .bytes rest).map (Split.after ['b', 'r'])
    | 'c' :: '"' :: rest => (readQuoted .zeroFree .plain rest).map (Split.after ['c', '"'])
    | 'c' :: 'r' :: rest => (readRawText .zeroFree rest).map (Split.after ['c', 'r'])
    | _ => none).map withSuffix

def isSimpleEscape (c : Char) : Bool :=
  c == 'n' || c == 'r' || c == 't' || c == '\\' || c == '0' || c == '\'' || c == '"'

/-- What stands between the quotes of a byte literal. -/
def readByteBody : List Char → Option Split
  | '\\' :: 'x' :: a :: b :: rest =>
    if isHex a && isHex b then some (['\\', 'x', a, b], rest) else none
  | '\\' :: c :: rest => if isSimpleEscape c then some (['\\', c], rest) else none
  | c :: rest => if c.toNat < 0x80 && c ≠ '\\' then some ([c], rest) else none
  | [] => none

/-- What stands between the quotes of a character literal. -/
def readCharBody : List Char → Option Split
  | '\\' :: 'x' :: a :: b :: rest =>
    if '0' ≤ a && a ≤ '7' && isHex b then some (['\\', 'x', a, b], rest) else none
  | '\\' :: 'u' :: rest => (readCodeEscape rest).map fun (_, s) => s.after ['\\', 'u']
  | '\\' :: c :: rest => if isSimpleEscape c then some (['\\', c], rest) else none
  | c :: rest => if c ≠ '\\' then some ([c], rest) else none
  | [] => none

def closeQuote (lead : List Char) (body : Option Split) : Option Split :=
  match body with
  | some (inside, '\'' :: rest) => some (withSuffix (lead ++ inside ++ ['\''], rest))
  | _ => none

/-- A byte or character literal. -/
def readCharLiteral : List Char → Option Split
  | 'b' :: '\'' :: rest => closeQuote ['b', '\''] (readByteBody rest)
  | '\'' :: rest => closeQuote ['\''] (readCharBody rest)
  | _ => none

/-- The rest of a number: an attached identifier, and then no character of an identifier. -/
def endNumber (s : Split) : Option Split :=
  let (lexeme, rest) := withSuffix s
  match rest with
  | c :: _ => if isWordContinue c then none else some (lexeme, rest)
  | [] => some (lexeme, rest)

/-- The digits of a float up to its exponent; says whether a dot and an exponent mark were read. -/
def readMantissa (dot : Bool) : List Char → Option (Bool × Bool × Split)
  | [] => some (dot, false, [], [])
  | c :: cs =>
    if c.isDigit || c = '_' then
      (readMantissa dot cs).map fun (d, e, s) => (d, e, s.after [c])
    else if c = '.' && !dot then
      match cs with
      | d :: _ =>
        if d = '.' || isWordStart d then none
        else (readMantissa true cs).map fun (d, e, s) => (d, e, s.after [c])
      | [] => some (true, false, [c], [])
    else if c = 'e' || c = 'E' then some (dot, true, [c], cs)
    else some (dot, false, [], c :: cs)

/-- The digits of an exponent; `none` if a second sign follows the first. -/
def readExponent (signed valued : Bool) : List Char → Option (Bool × Split)
  | [] => some (valued, [], [])
  | c :: cs =>
    if c = '+' || c = '-' then
      if valued then some (valued, [], c :: cs)
      else if signed then none
      else (readExponent true valued cs).map fun (v, s) => (v, s.after [c])
    else if c.isDigit then (readExponent signed true cs).map fun (v, s) => (v, s.after [c])
    else if c = '_' then (readExponent signed valued cs).map fun (v, s) => (v, s.after [c])
    else some (valued, [], c :: cs)

/-- The digits of a float. An exponent without digits is left to the suffix if there is a dot. -/
def readFloatDigits (cs : List Char) : Option Split :=
  match cs with
  | c :: _ =>
    if !c.isDigit then none
    else match readMantissa false cs with
      | none => none
      | some (dot, false, s) => if dot then some s else none
      | some (dot, true, (lexeme, rest)) =>
        match readExponent false false rest with
        | some (true, s) => some (s.after lexeme)
        | _ =>
          if dot then some (lexeme.dropLast, lexeme.drop (lexeme.length - 1) ++ rest) else none
  | [] => none

/-- The base of an integer and its mark. -/
def readBase : List Char → Nat × List Char × List Char
  | '0' :: 'x' :: rest => (16, ['0', 'x'], rest)
  | '0' :: 'o' :: rest => (8, ['0', 'o'], rest)
  | '0' :: 'b' :: rest => (2, ['0', 'b'], rest)
  | cs => (10, [], cs)

/-- Digits of an integer; a decimal digit beyond the base is a fault, a letter ends the digits. -/
def readDigits (base : Nat) (blank : Bool) : List Char → Option (Bool × Split)
  | [] => some (blank, [], [])
  | c :: cs =>
    if c.isDigit then
      if hexDigitValue c < base then
        (readDigits base false cs).map fun (b, s) => (b, s.after [c])
      else none
    else if isHex c && hexDigitValue c < base then
      (readDigits base false cs).map fun (b, s) => (b, s.after [c])
    else if c = '_' then
      if blank && base = 10 then none
      else (readDigits base blank cs).map fun (b, s) => (b, s.after [c])
    else some (blank, [], c :: cs)

def readIntDigits (cs : List Char) : Option Split :=
  let (base, lead, rest) := readBase cs
  match readDigits base true rest with
  | some (false, s) => some (s.after lead)
  | _ => none

/-- A number. -/
def readNumber (cs : List Char) : Option Split :=
  ((readFloatDigits cs).bind endNumber).or ((readIntDigits cs).bind endNumber)

/-- A literal of any kind. -/
def readLiteral (cs : List Char) : Option Split :=
  (readTextLiteral cs).or ((readCharLiteral cs).or (readNumber cs))

end Instrumentation.Source
