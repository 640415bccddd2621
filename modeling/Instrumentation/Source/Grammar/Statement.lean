import Instrumentation.Source.Grammar.Expression

/-!
Statements.
-/
namespace Instrumentation.Source
namespace Grammar

open Source.Parser

/-- Whether an item that is no macro call starts here. -/
def startsItem (ts : List Tree) : Bool :=
  isKeyword "pub" ts
  || (isKeyword "crate" ts && !second (isOp "::") ts)
  || isKeyword "extern" ts
  || isKeyword "use" ts
  || (isKeyword "static" ts
    && (second (isKeyword "mut") ts || second isIdent ts))
  || (isKeyword "const" ts
    && !(second isBrace ts || second (isKeyword "static") ts
      || (second (isKeyword "async") ts && !third (isOneOf ["unsafe", "extern", "fn"]) ts)
      || second (isKeyword "move") ts || second (isOp "|") ts))
  || (isKeyword "unsafe" ts && !second isBrace ts)
  || (isKeyword "async" ts && second (isOneOf ["unsafe", "extern", "fn"]) ts)
  || isOneOf ["fn", "mod", "type", "struct", "enum", "trait", "impl", "macro"] ts
  || (isKeyword "union" ts && second isIdent ts)
  || (isKeyword "auto" ts && second (isKeyword "trait") ts)
  || (isKeyword "default" ts && second (isOneOf ["unsafe", "impl"]) ts)

/-- What a macro call at the start of a statement is. -/
inductive MacroStart where
  | none | item | statement
  deriving DecidableEq, Repr

/-- Looks ahead for a macro call that is an item or a statement by itself. -/
def macroStart : Parser MacroStart := do
  let after ← ahead <| attempt do
    let _ ← plainPath
    asks Cursor.rest
  match after with
  | none => return .none
  | some ts =>
    if !isOp "!" ts then return .none
    else if second isIdent ts || second (isKeyword "try") ts then return .item
    else if second isBrace ts
        && !((third (isOp ".") ts && !third (isOp "..") ts) || third (isOp "?") ts) then
      return .statement
    else return .none

/-- The last tree passed over is a group in braces. -/
def endsInBrace : Parser Bool := asks fun c =>
  match c.printed with
  | .group .brace _ _ _ :: _ => true
  | _ => false

def letStatement (g : Grammar) : Parser Unit := do
  keyword "let"
  let _ ← g .pattern
  if ← op? ":" then
    let _ ← g (.type true)
  if ← op? "=" then
    let _ ← g (.expr true)
    if !(← endsInBrace) then
      if ← keyword? "else" then
        let _ ← block g
  op ";"

/-- A statement. Says whether another may follow it. -/
def statement (g : Grammar) : Parser Bool := do
  -- Attributes are read again by whatever they belong to.
  let (macroHere, isLet, isItem) ← ahead do
    let _ ← outerAttributes g
    return (← macroStart, ← peek (isKeyword "let"), ← peek startsItem)
  if macroHere = .statement then
    let _ ← outerAttributes g
    let _ ← plainPath
    op "!"
    let _ ← rawGroup
    let _ ← op? ";"
    return true
  else if isLet then
    let _ ← outerAttributes g
    letStatement g
    return true
  else if isItem || macroHere = .item then
    let _ ← g .item
    return true
  else
    let _ ← outerAttributes g
    let e ← g .early
    if ← op? ";" then return true
    return match e with
      | .block => true
      | .macroCall d => d == .brace
      | _ => false

/-- The inside of a block. -/
def statementsBody (g : Grammar) : Parser Unit :=
  repeating () fun _ => do
    if ← op? ";" then return ((), true)
    if ← atEnd then return ((), false)
    let free ← statement g
    if ← atEnd then return ((), false)
    if free then return ((), true) else fail

end Grammar
end Instrumentation.Source
