import Instrumentation.Json.Reader

/-!
Scalars of configuration documents: keys, texts, numbers and dates. Values are JSON values; a date
is an object with one member, so that it is mistaken for nothing else.
-/
namespace Instrumentation.Toml

def isSpace (c : Char) : Bool := c == ' ' || c == '\t'

def dropSpaces (cs : List Char) : List Char := cs.dropWhile isSpace

def isBareKeyChar (c : Char) : Bool := c.isAlphanum || c == '_' || c == '-'

/-- Characters that may stand in a text or comment as they are. -/
def isPlain (c : Char) : Bool := c == '\t' || (0x20 ≤ c.toNat && c.toNat != 0x7F)

/-- `count` hexadecimal digits. -/
def readHex : (count value : Nat) → List Char → Option (Nat × List Char)
  | 0, value, cs => some (value, cs)
  | n + 1, value, c :: cs => (Json.hexValue? c).bind fun d => readHex n (16 * value + d) cs
  | _ + 1, _, [] => none

def isScalarValue (n : Nat) : Bool := n < 0xD800 || (0xDFFF < n && n < 0x110000)

/-- The character after a backslash. -/
def readEscape : List Char → Option (Char × List Char)
  | 'b' :: rest => some ('\x08', rest)
  | 't' :: rest => some ('\t', rest)
  | 'n' :: rest => some ('\n', rest)
  | 'f' :: rest => some ('\x0c', rest)
  | 'r' :: rest => some ('\r', rest)
  | '"' :: rest => some ('"', rest)
  | '\\' :: rest => some ('\\', rest)
  | 'u' :: rest => (readHex 4 0 rest).bind fun (n, rest) =>
    if isScalarValue n then some (Char.ofNat n, rest) else none
  | 'U' :: rest => (readHex 8 0 rest).bind fun (n, rest) =>
    if isScalarValue n then some (Char.ofNat n, rest) else none
  | _ => none

/-- Text in double quotes, after the opening one; `done` holds what was read, last first. -/
def readBasic : (fuel : Nat) → (done : List Char) → List Char → Option (String × List Char)
  | 0, _, _ => none
  | fuel + 1, done, cs =>
    match cs with
    | '"' :: rest => some (String.ofList done.reverse, rest)
    | '\\' :: rest => (readEscape rest).bind fun (c, rest) => readBasic fuel (c :: done) rest
    | c :: rest => if isPlain c then readBasic fuel (c :: done) rest else none
    | [] => none

/-- Text in single quotes, after the opening one. -/
def readLiteral : (done : List Char) → List Char → Option (String × List Char)
  | done, '\'' :: rest => some (String.ofList done.reverse, rest)
  | done, c :: rest => if isPlain c then readLiteral (c :: done) rest else none
  | _, [] => none

/-- Spaces and line ends after a backslash that ends a line. -/
def dropLineEnds : List Char → List Char
  | '\r' :: '\n' :: rest => dropLineEnds rest
  | c :: rest => if isSpace c || c == '\n' then dropLineEnds rest else c :: rest
  | [] => []

/-- Whether only spaces stand before the end of the line. -/
def endsLine (cs : List Char) : Bool :=
  match dropSpaces cs with
  | '\n' :: _ => true
  | '\r' :: '\n' :: _ => true
  | _ => false

/-- Text over several lines. Up to two quotes may stand before the closing three. -/
def readLong (quote : Char) (escapes : Bool) :
    (fuel : Nat) → (done : List Char) → List Char → Option (String × List Char)
  | 0, _, _ => none
  | fuel + 1, done, cs =>
    let quotes := (cs.takeWhile (· == quote)).length
    if quotes ≥ 3 then
      if quotes > 5 then none
      else some (String.ofList (List.replicate (quotes - 3) quote ++ done).reverse, cs.drop quotes)
    else match cs with
      | '\r' :: '\n' :: rest => readLong quote escapes fuel ('\n' :: done) rest
      | '\n' :: rest => readLong quote escapes fuel ('\n' :: done) rest
      | c :: rest =>
        if escapes && c == '\\' then
          if endsLine rest then readLong quote escapes fuel done (dropLineEnds rest)
          else (readEscape rest).bind fun (c, rest) => readLong quote escapes fuel (c :: done) rest
        else if isPlain c then readLong quote escapes fuel (c :: done) rest
        else none
      | [] => none

/-- The line end right after opening quotes is no part of the text. -/
def dropFirstLineEnd : List Char → List Char
  | '\n' :: rest => rest
  | '\r' :: '\n' :: rest => rest
  | cs => cs

/-- A text of any kind. -/
def readText (cs : List Char) : Option (String × List Char) :=
  let fuel := cs.length + 1
  match cs with
  | '"' :: '"' :: '"' :: rest => readLong '"' true fuel [] (dropFirstLineEnd rest)
  | '\'' :: '\'' :: '\'' :: rest => readLong '\'' false fuel [] (dropFirstLineEnd rest)
  | '"' :: rest => readBasic fuel [] rest
  | '\'' :: rest => readLiteral [] rest
  | _ => none

/-- One name of a key. -/
def readName (cs : List Char) : Option (String × List Char) :=
  match cs with
  | '"' :: rest => readBasic (cs.length + 1) [] rest
  | '\'' :: rest => readLiteral [] rest
  | _ =>
    let name := cs.takeWhile isBareKeyChar
    if name.isEmpty then none else some (String.ofList name, cs.drop name.length)

/-- A key: names joined by dots. -/
def readKey : (fuel : Nat) → List Char → Option (List String × List Char)
  | 0, _ => none
  | fuel + 1, cs => do
    let (name, rest) ← readName (dropSpaces cs)
    match dropSpaces rest with
    | '.' :: rest =>
      let (names, rest) ← readKey fuel rest
      return (name :: names, rest)
    | rest => return ([name], rest)

/-- Underscores stand between digits, one at a time. -/
def underscoresFit : List Char → Bool
  | [] => false
  | ['_'] => false
  | [_] => true
  | '_' :: '_' :: _ => false
  | _ :: rest => underscoresFit rest

/-- Digits with single underscores between them. -/
def readDigits (isDigit : Char → Bool) (cs : List Char) : Option (List Char × List Char) :=
  let run := cs.takeWhile fun c => isDigit c || c == '_'
  if run.head? != some '_' && underscoresFit run then
    some (run.filter (· != '_'), cs.drop run.length)
  else none

def valueIn (base : Nat) (ds : List Char) : Nat :=
  ds.foldl (fun n d => base * n + (Json.hexValue? d).getD 0) 0

/-- An integer in another base. -/
def readBased (base : Nat) (cs : List Char) : Option (Json × List Char) := do
  let (ds, rest) ← readDigits (fun c => (Json.hexValue? c).any (· < base)) cs
  let n := valueIn base ds
  if n < Json.signedBound then return (.int n, rest) else none

/-- An integer in the range of a signed 64-bit number, or a number with fraction or exponent. -/
def readDecimal (negative : Bool) (cs : List Char) : Option (Json × List Char) := do
  let (ds, rest) ← readDigits Char.isDigit cs
  if ds.length > 1 && ds.head? == some '0' then none
  let sign := if negative then "-" else ""
  let (fraction, rest) ← match rest with
    | '.' :: more => (readDigits Char.isDigit more).map fun (f, r) => ('.' :: f, r)
    | _ => some ([], rest)
  let (exponent, rest) ← match rest with
    | e :: more =>
      if e == 'e' || e == 'E' then
        let (s, more) := match more with
          | '+' :: r => (['+'], r)
          | '-' :: r => (['-'], r)
          | _ => ([], more)
        (readDigits Char.isDigit more).map fun (x, r) => ('e' :: s ++ x, r)
      else some ([], rest)
    | [] => some ([], rest)
  if fraction.isEmpty && exponent.isEmpty then
    let n := valueIn 10 ds
    if negative then
      if n ≤ Json.signedBound then return (.int (-(n : Int)), rest) else none
    else if n < Json.signedBound then return (.int n, rest) else none
  else return (.decimal (sign ++ String.ofList (ds ++ fraction ++ exponent)), rest)

def readNumber (cs : List Char) : Option (Json × List Char) :=
  match cs with
  | '0' :: 'x' :: rest => readBased 16 rest
  | '0' :: 'o' :: rest => readBased 8 rest
  | '0' :: 'b' :: rest => readBased 2 rest
  | '+' :: 'i' :: 'n' :: 'f' :: rest => some (.decimal "inf", rest)
  | '-' :: 'i' :: 'n' :: 'f' :: rest => some (.decimal "-inf", rest)
  | 'i' :: 'n' :: 'f' :: rest => some (.decimal "inf", rest)
  | '+' :: 'n' :: 'a' :: 'n' :: rest => some (.decimal "nan", rest)
  | '-' :: 'n' :: 'a' :: 'n' :: rest => some (.decimal "nan", rest)
  | 'n' :: 'a' :: 'n' :: rest => some (.decimal "nan", rest)
  | '+' :: rest => readDecimal false rest
  | '-' :: rest => readDecimal true rest
  | _ => readDecimal false cs

/-- A number of exactly two digits, at most `limit`. -/
def readPair (limit : Nat) : List Char → Option (List Char × List Char)
  | a :: b :: rest =>
    if a.isDigit && b.isDigit && valueIn 10 [a, b] ≤ limit then some ([a, b], rest) else none
  | _ => none

/-- A time of day, maybe with a fraction of a second. -/
def readTime (cs : List Char) : Option (List Char × List Char) := do
  let (h, cs) ← readPair 23 cs
  let ':' :: cs := cs | none
  let (m, cs) ← readPair 59 cs
  let ':' :: cs := cs | none
  let (s, cs) ← readPair 60 cs
  let time := h ++ ':' :: m ++ ':' :: s
  match cs with
  | '.' :: rest =>
    let f := rest.takeWhile Char.isDigit
    if f.isEmpty then none else some (time ++ '.' :: f, rest.drop f.length)
  | _ => some (time, cs)

/-- The offset from universal time, if one is written. -/
def readZone (cs : List Char) : Option (List Char × List Char) :=
  match cs with
  | 'Z' :: rest => some (['Z'], rest)
  | 'z' :: rest => some (['Z'], rest)
  | c :: rest =>
    if c == '+' || c == '-' then do
      let (h, rest) ← readPair 23 rest
      let ':' :: rest := rest | none
      let (m, rest) ← readPair 59 rest
      return (c :: h ++ ':' :: m, rest)
    else some ([], cs)
  | [] => some ([], [])

/-- Days of a month. -/
def daysIn (year month : Nat) : Nat :=
  if month == 2 then
    if (year % 4 == 0 && year % 100 != 0) || year % 400 == 0 then 29 else 28
  else if month == 4 || month == 6 || month == 9 || month == 11 then 30 else 31

/-- A date, maybe with a time and zone. -/
def readDate : List Char → Option (List Char × List Char)
  | a :: b :: c :: d :: '-' :: rest => do
    if !([a, b, c, d].all Char.isDigit) then none
    let (m, rest) ← readPair 12 rest
    let '-' :: rest := rest | none
    let (day, rest) ← readPair 31 rest
    let month := valueIn 10 m
    if month == 0 || valueIn 10 day == 0
      || valueIn 10 day > daysIn (valueIn 10 [a, b, c, d]) month then none
    let date := [a, b, c, d, '-'] ++ m ++ '-' :: day
    match rest with
    | t :: more =>
      if t == 'T' || t == 't' || (t == ' ' && more.head?.any Char.isDigit) then
        let (time, rest) ← readTime more
        let (zone, rest) ← readZone rest
        return (date ++ 'T' :: time ++ zone, rest)
      else return (date, rest)
    | [] => return (date, rest)
  | _ => none

/-- A date or time as a value. -/
def dateValue (text : List Char) : Json :=
  .obj [("$__toml_private_datetime", .str (String.ofList text))]

/-- Whether a date or a time starts here, and no number. -/
def looksDated : List Char → Bool
  | a :: b :: ':' :: _ => a.isDigit && b.isDigit
  | a :: b :: c :: d :: '-' :: _ => [a, b, c, d].all Char.isDigit
  | _ => false

def readDated (cs : List Char) : Option (Json × List Char) :=
  ((readDate cs).or (readTime cs)).map fun (text, rest) => (dateValue text, rest)

end Instrumentation.Toml
