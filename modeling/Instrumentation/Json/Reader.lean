import Instrumentation.Json.Basic

/-!
Reading JSON. Numbers have no leading zeros, texts hold no control characters, code units of
surrogate pairs come in pairs, and nothing but blanks follows the value.
-/
namespace Instrumentation.Json

def isJsonBlank (c : Char) : Bool := c == ' ' || c == '\n' || c == '\t' || c == '\r'

def dropBlanks (cs : List Char) : List Char := cs.dropWhile isJsonBlank

def hexValue? (c : Char) : Option Nat :=
  if '0' ≤ c && c ≤ '9' then some (c.toNat - '0'.toNat)
  else if 'a' ≤ c && c ≤ 'f' then some (c.toNat - 'a'.toNat + 10)
  else if 'A' ≤ c && c ≤ 'F' then some (c.toNat - 'A'.toNat + 10)
  else none

def readUnit : List Char → Option (Nat × List Char)
  | a :: b :: c :: d :: rest => do
    let a ← hexValue? a
    let b ← hexValue? b
    let c ← hexValue? c
    let d ← hexValue? d
    return (((a * 16 + b) * 16 + c) * 16 + d, rest)
  | _ => none

/-- The character a code unit stands for, together with its partner if it is half a pair. -/
def readCodePoint (cs : List Char) : Option (Char × List Char) := do
  let (high, rest) ← readUnit cs
  if 0xDC00 ≤ high && high ≤ 0xDFFF then none
  else if 0xD800 ≤ high && high ≤ 0xDBFF then
    match rest with
    | '\\' :: 'u' :: rest =>
      let (low, rest) ← readUnit rest
      if 0xDC00 ≤ low && low ≤ 0xDFFF then
        some (Char.ofNat (0x10000 + (high - 0xD800) * 0x400 + (low - 0xDC00)), rest)
      else none
    | _ => none
  else some (Char.ofNat high, rest)

/-- The text after an opening quote; `done` holds the characters read so far, last first. -/
def readText : (fuel : Nat) → (done : List Char) → List Char → Option (String × List Char)
  | 0, _, _ => none
  | fuel + 1, done, cs =>
    match cs with
    | [] => none
    | '"' :: rest => some (String.ofList done.reverse, rest)
    | '\\' :: '"' :: rest => readText fuel ('"' :: done) rest
    | '\\' :: '\\' :: rest => readText fuel ('\\' :: done) rest
    | '\\' :: '/' :: rest => readText fuel ('/' :: done) rest
    | '\\' :: 'b' :: rest => readText fuel ('\x08' :: done) rest
    | '\\' :: 'f' :: rest => readText fuel ('\x0c' :: done) rest
    | '\\' :: 'n' :: rest => readText fuel ('\n' :: done) rest
    | '\\' :: 'r' :: rest => readText fuel ('\r' :: done) rest
    | '\\' :: 't' :: rest => readText fuel ('\t' :: done) rest
    | '\\' :: 'u' :: rest => match readCodePoint rest with
      | some (c, rest) => readText fuel (c :: done) rest
      | none => none
    | '\\' :: _ => none
    | c :: rest => if c.toNat < 0x20 then none else readText fuel (c :: done) rest

def digitsValue (ds : List Char) : Nat :=
  ds.foldl (fun n d => 10 * n + (d.toNat - '0'.toNat)) 0

/-- The fraction or exponent after the digits of a number, if it is well formed. -/
def readTail (cs : List Char) : Option (List Char × List Char) := do
  let (fraction, cs) ← match cs with
    | '.' :: rest =>
      let ds := rest.takeWhile Char.isDigit
      if ds.isEmpty then none else some ('.' :: ds, rest.dropWhile Char.isDigit)
    | _ => some ([], cs)
  match cs with
  | c :: rest =>
    if c == 'e' || c == 'E' then
      let (sign, rest) := match rest with
        | '+' :: r => (['+'], r)
        | '-' :: r => (['-'], r)
        | _ => ([], rest)
      let ds := rest.takeWhile Char.isDigit
      if ds.isEmpty then none
      else some (fraction ++ c :: sign ++ ds, rest.dropWhile Char.isDigit)
    else some (fraction, cs)
  | [] => some (fraction, cs)

def readNumeral (negative : Bool) (cs : List Char) : Option (Json × List Char) := do
  let ds := cs.takeWhile Char.isDigit
  match ds with
  | [] => none
  | d :: more =>
    if d = '0' && !more.isEmpty then none
    else
      let (tail, rest) ← readTail (cs.dropWhile Char.isDigit)
      let sign := if negative then ['-'] else []
      if tail.isEmpty then
        if negative && digitsValue ds = 0 then some (decimal "-0", rest)
        else
          let n := Int.ofNat (digitsValue ds)
          some (int (if negative then -n else n), rest)
      else some (decimal (String.ofList (sign ++ ds ++ tail)), rest)

mutual
/-- A value at the start of a text; `room` is how many levels of nesting are left. -/
def readValue : (fuel room : Nat) → List Char → Option (Json × List Char)
  | 0, _, _ => none
  | fuel + 1, room, cs =>
    match dropBlanks cs with
    | 'n' :: 'u' :: 'l' :: 'l' :: rest => some (null, rest)
    | 't' :: 'r' :: 'u' :: 'e' :: rest => some (bool true, rest)
    | 'f' :: 'a' :: 'l' :: 's' :: 'e' :: rest => some (bool false, rest)
    | '"' :: rest => (readText (rest.length + 1) [] rest).map fun (s, rest) => (str s, rest)
    | '-' :: rest => readNumeral true rest
    | '[' :: rest =>
      if room = 0 then none
      else match dropBlanks rest with
        | ']' :: rest => some (arr [], rest)
        | rest => (readItems fuel (room - 1) rest).map fun (xs, rest) => (arr xs, rest)
    | c :: rest =>
      if c = Char.ofNat 0x7B then
        if room = 0 then none
        else match dropBlanks rest with
          | d :: more =>
            if d = Char.ofNat 0x7D then some (obj [], more)
            else (readMembers fuel (room - 1) (d :: more)).map fun (ms, rest) => (obj ms, rest)
          | [] => none
      else readNumeral false (c :: rest)
    | [] => none

/-- The items of an array up to its closing bracket. -/
def readItems : (fuel room : Nat) → List Char → Option (List Json × List Char)
  | 0, _, _ => none
  | fuel + 1, room, cs => do
    let (x, rest) ← readValue fuel room cs
    match dropBlanks rest with
    | ',' :: rest =>
      let (xs, rest) ← readItems fuel room rest
      return (x :: xs, rest)
    | ']' :: rest => return ([x], rest)
    | _ => none

/-- The members of an object up to its closing brace. -/
def readMembers : (fuel room : Nat) → List Char → Option (List (String × Json) × List Char)
  | 0, _, _ => none
  | fuel + 1, room, cs => do
    match dropBlanks cs with
    | '"' :: rest =>
      let (name, rest) ← readText (rest.length + 1) [] rest
      match dropBlanks rest with
      | ':' :: rest =>
        let (x, rest) ← readValue fuel room rest
        match dropBlanks rest with
        | ',' :: rest =>
          let (ms, rest) ← readMembers fuel room rest
          return ((name, x) :: ms, rest)
        | c :: rest => if c = Char.ofNat 0x7D then return ([(name, x)], rest) else none
        | [] => none
      | _ => none
    | _ => none
end

/-- The value that a text is, with at most `room` levels of nesting. -/
def readWithin (room : Nat) (text : String) : Option Json :=
  let cs := text.toList
  match readValue (2 * cs.length + 2) room cs with
  | some (j, rest) => if (dropBlanks rest).isEmpty then some j else none
  | none => none

/-- The value that a text starts with. -/
def readFirst? (cs : List Char) : Option Json :=
  (readValue (2 * cs.length + 2) (cs.length + 1) cs).map Prod.fst

/-- Documents may nest this deep. -/
def depthLimit : Nat := 127

/-- The value that a document is. -/
def read? (text : String) : Option Json := readWithin depthLimit text

end Instrumentation.Json
