import Instrumentation.Source.Grammar.Type

/-!
Patterns.
-/
namespace Instrumentation.Source
namespace Grammar

open Source.Parser

/-- Patterns joined by bars, maybe with one in front. -/
def alternatives (g : Grammar) : Parser PatternNode := do
  let isBar (ts : List Tree) := isOp "|" ts && !isOp "||" ts && !isOp "|=" ts
  let leading ← op? "|"
  let first ← g .pattern
  if leading || (← peek isBar) then
    let _ ← repeating () fun _ => do
      if ← peek isBar then
        op "|"
        let _ ← g .pattern
        return ((), true)
      else return ((), false)
    return .other
  return first

/-- A field or tuple index. Says whether it is a name. -/
def member : Parser Bool := do
  if ← peek isIdent then
    let _ ← ident
    return true
  let isIndex (ts : List Tree) := match ts with
    | .literal t _ :: _ => t.toList.all Char.isDigit
    | _ => false
  let _ ← token isIndex
  return false

/-- A field of a struct pattern. -/
def fieldPattern (g : Grammar) : Parser Unit := do
  let boxed ← keyword? "box"
  let byRef ← keyword? "ref"
  let mutable ← keyword? "mut"
  if boxed || byRef || mutable then
    let _ ← ident
  else
    let named ← member
    if !named || (← peek (isOp ":")) then
      op ":"
      let _ ← alternatives g

/-- A bound of a range pattern, if there is one. -/
def rangeBound (g : Grammar) : Parser Bool := do
  if ← peek fun ts =>
      ts.isEmpty || isOp "|" ts || isOp "=" ts || (isOp ":" ts && !isOp "::" ts) || isOp "," ts
        || isOp ";" ts || isKeyword "if" ts then
    return false
  if ← peek isLit then
    let _ ← lit
  else if ← peek fun ts =>
      isIdent ts || isOp "::" ts || isOp "<" ts || isOneOf ["self", "Self", "super", "crate"] ts then
    let _ ← qualifiedPath g true
  else if ← keyword? "const" then
    let _ ← attributedBlock g
  else fail
  return true

/-- The dots of a range pattern. Says whether the end is part of the range. -/
def rangeDots (obsolete : Bool) : Parser Bool := do
  if ← op? "..=" then return true
  if obsolete then
    if ← op? "..." then return true
  if ← peek fun ts => isOp ".." ts && !isOp "..." ts then
    op ".."
    return false
  fail

/-- The rest of a range pattern with a start. -/
def rangeTail (g : Grammar) : Parser PatternNode := do
  let dots ← here
  let closed ← rangeDots true
  if ← rangeBound g then return .other
  if closed then fail else return .openRange dots

/-- What follows a path in a pattern. -/
def pathPattern (g : Grammar) : Parser PatternNode := do
  let p ← qualifiedPath g true
  if !p.qualified && p.isPlain then
    if ← peek fun ts => isOp "!" ts && !isOp "!=" ts then
      op "!"
      let _ ← rawGroup
      return .other
  if ← peek isBrace then
    let _ ← inside .brace do
      repeating () fun _ => do
        if ← atEnd then return ((), false)
        let _ ← outerAttributes g
        if ← op? ".." then return ((), false)
        fieldPattern g
        if ← atEnd then return ((), false)
        op ","
        return ((), true)
    return .other
  if ← peek isParen then
    let _ ← inside .paren (terminated "," (alternatives g))
    return .other
  if ← peek (isOp "..") then rangeTail g
  else return .other

/-- A pattern of one alternative. -/
def patternBody (g : Grammar) : Parser PatternNode := do
  if ← peek fun ts =>
      (isIdent ts && (second (isOp "::") ts || second (isOp "!") ts || second isBrace ts
        || second isParen ts || second (isOp "..") ts))
      || (isKeyword "self" ts && second (isOp "::") ts)
      || isOp "::" ts || isOp "<" ts || isOneOf ["Self", "super", "crate"] ts then
    pathPattern g
  else if ← keyword? "_" then return .other
  else if ← keyword? "box" then
    let _ ← g .pattern
    return .other
  else if ← peek fun ts => isOp "-" ts || isLit ts || isKeyword "const" ts then
    let _ ← rangeBound g
    if ← peek (isOp "..") then rangeTail g else return .other
  else if ← peek fun ts => isOneOf ["ref", "mut", "self"] ts || isIdent ts then
    let byRef ← keyword? "ref"
    let _ ← keyword? "mut"
    let name ← if ← peek (isKeyword "self") then anyWord else ident
    if ← op? "@" then
      let _ ← g .pattern
      return .other
    if byRef then return .other else return .binding name.text
  else if ← op? "&" then
    let _ ← keyword? "mut"
    let _ ← g .pattern
    return .other
  else if ← peek isParen then
    let _ ← inside .paren (terminated "," (alternatives g))
    return .other
  else if ← peek isBracket then
    let _ ← inside .bracket do
      repeating () fun _ => do
        if ← atEnd then return ((), false)
        match ← alternatives g with
        | .openRange dots => failAt dots
        | _ => pure ()
        if ← atEnd then return ((), false)
        op ","
        return ((), true)
    return .other
  else if ← peek fun ts => isOp ".." ts && !isOp "..." ts then
    let dots ← here
    let closed ← rangeDots false
    if ← rangeBound g then return .openRange dots
    if closed then fail else return .other
  else fail

end Grammar
end Instrumentation.Source
