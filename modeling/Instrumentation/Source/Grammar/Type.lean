import Instrumentation.Source.Grammar.Path

/-!
Types.
-/
namespace Instrumentation.Source
namespace Grammar

open Source.Parser

/-- Where a list of bounds goes on after `+`. -/
def startsBound (constant : Bool) (ts : List Tree) : Bool :=
  isAnyWord ts || isOp "::" ts || isOp "?" ts || isLifetime ts || isParen ts
    || (constant && (isBracket ts || isOp "~" ts))

/-- What a list of bounds holds. -/
structure BoundList where
  hasTrait : Bool
  /-- There is one bound and no trailing `+`. -/
  single : Bool

/-- Bounds joined by `+`; `first` is the one already read. -/
def moreBounds (g : Grammar) (plus capture constant : Bool) (first : BoundNode) :
    Parser BoundList := do
  repeating ⟨first == .trait, true⟩ fun bounds => do
    if !plus || !(← peek (isOp "+")) then return (bounds, false)
    op "+"
    if !(← peek (startsBound constant)) then return ({ bounds with single := false }, false)
    let b ← g (.bound capture constant)
    return (⟨bounds.hasTrait || b == .trait, false⟩, true)

def bounds (g : Grammar) (plus capture constant : Bool) : Parser BoundList := do
  moreBounds g plus capture constant (← g (.bound capture constant))

/-- Bounds of a trait object, at least one of them a trait. -/
def objectBounds (g : Grammar) (plus : Bool) (place : Blame) : Parser BoundList := do
  let list ← bounds g plus false false
  if list.hasTrait then return list else failAt place

/-- Bounds joined by `+` that must follow each `+`. -/
def plusBounds (g : Grammar) : Parser Bool := do
  repeating true fun single => do
    if ← op? "+" then
      let _ ← g (.bound false false)
      return (false, true)
    else return (single, false)

/-- A type in parentheses: unit, a tuple, or one type that may start a list of bounds. -/
def parenType (g : Grammar) (plus : Bool) : Parser TypeNode := do
  let (_, form) ← inside .paren do
    if ← atEnd then return TypeNode.unit
    if ← peek isLifetime then
      let _ ← objectBounds g true (← here)
      return .paren (.bounds false false)
    if ← peek (isOp "?") then
      let _ ← traitBound g false
      return .bounds false true
    let first ← g (.type true)
    if ← op? "," then
      let _ ← terminated "," (g (.type true))
      return .other
    return .paren first
  match form with
  | .bounds _ _ => return .bounds false (← plusBounds g)
  | .paren first =>
    let mayGoOn := match first with
      | .path p => !p.qualified
      | .bounds false true => true
      | _ => false
    if plus && mayGoOn then
      if ← peek (isOp "+") then
        let _ ← plusBounds g
        return .bounds false false
    return .paren first
  | form => return form

/-- The rest of `name: ...` or `...` in the parameters of a function pointer. -/
def isVariadic (ts : List Tree) : Bool :=
  isOp "..." ts
    || ((isIdent ts || isKeyword "_" ts) && second (isOp ":") ts && third (isOp "...") ts)

/-- A parameter of a function pointer, maybe with a name. -/
def pointerParam (g : Grammar) (first : Bool) : Parser Unit := do
  let _ ← outerAttributes g
  let mutSelf ← peek fun ts => first && isKeyword "mut" ts && second (isKeyword "self") ts
  if mutSelf then keyword "mut"
  if ← peek fun ts =>
      (isIdent ts || isKeyword "_" ts || (first && isKeyword "self" ts))
        && second (isOp ":") ts && !second (isOp "::") ts then
    let _ ← anyWord
    op ":"
    let _ ← g (.type true)
  else if mutSelf then
    keyword "self"
  else
    let _ ← g (.type true)

/-- A calling convention, if one is named. -/
def callConvention? : Parser Bool := do
  if ← keyword? "extern" then
    if ← peek isLitText then
      let _ ← lit
    return true
  else return false

/-- A function pointer type. -/
def pointerType (g : Grammar) : Parser Unit := do
  let _ ← keyword? "unsafe"
  let _ ← callConvention?
  keyword "fn"
  let _ ← inside .paren do
    repeating true fun first => do
      if ← atEnd then return (first, false)
      let _ ← outerAttributes g
      if ← peek isVariadic then
        if ← peek isAnyWord then
          let _ ← anyWord
          op ":"
        op "..."
        let _ ← op? ","
        return (first, false)
      pointerParam g first
      if ← atEnd then return (first, false)
      op ","
      return (false, true)
  if ← op? "->" then
    let _ ← g (.type false)

/-- What may follow `for<..>` in a type. -/
def followsBinder (ts : List Tree) : Bool :=
  isIdent ts || isOneOf ["fn", "unsafe", "extern", "super", "self", "Self", "crate"] ts

/-- A type that starts with a path: the path itself, a macro call, or bounds. -/
def pathType (g : Grammar) (plus binder : Bool) : Parser TypeNode := do
  let p ← qualifiedPath g false
  if p.qualified then return .path p
  if p.isPlain then
    if ← peek fun ts => isOp "!" ts && !isOp "!=" ts then
      op "!"
      let _ ← rawGroup
      markUnspellable
      return .other
  if binder || (plus && (← peek (isOp "+"))) then
    let list ← moreBounds g plus false false .trait
    return .bounds false list.single
  return .path p

/-- A type. -/
def typeBody (g : Grammar) (plus : Bool) : Parser TypeNode := do
  let binder ← peek (isKeyword "for")
  if binder then
    boundLifetimes g
    if !(← peek followsBinder) then fail
  if ← peek isParen then parenType g plus
  else if ← peek (isOneOf ["fn", "unsafe", "extern"]) then
    pointerType g
    return .other
  else if ← peek fun ts =>
      isIdent ts || isOneOf ["super", "self", "Self", "crate"] ts || isOp "::" ts || isOp "<" ts then
    pathType g plus binder
  else if ← peek (isKeyword "dyn") then
    let place ← here
    keyword "dyn"
    if ← op? "*" then
      let _ ← verbatim (objectBounds g plus place)
      return .other
    let list ← objectBounds g plus place
    return .bounds true list.single
  else if ← peek isBracket then
    let _ ← inside .bracket do
      let _ ← g (.type true)
      if ← op? ";" then
        let _ ← g (.expr true)
    return .other
  else if ← op? "*" then
    if !(← keyword? "const") then keyword "mut"
    let _ ← g (.type false)
    return .other
  else if ← op? "&" then
    markUnspellable
    let _ ← optional isLifetime lifetime
    let _ ← keyword? "mut"
    return .reference (← g (.type false))
  else if ← peek fun ts => isOp "!" ts && !isOp "=" ts then
    op "!"
    markUnspellable
    return .other
  else if ← peek (isKeyword "impl") then
    let place ← here
    keyword "impl"
    markUnspellable
    let list ← bounds g plus true true
    if list.hasTrait then return .other else failAt place
  else if ← keyword? "_" then
    markUnspellable
    return .other
  else if ← peek isLifetime then
    let list ← objectBounds g true (← here)
    return .bounds false list.single
  else fail

/-- A type with the trees that it prints. -/
def writtenType (g : Grammar) (plus : Bool) : Parser WrittenType := do
  let ((node, trees), spellable) ← spellable (captured (g (.type plus)))
  return { node, trees, spellable }

/-- The result type after an arrow, if there is an arrow. -/
def resultType? (g : Grammar) : Parser (Option WrittenType) := do
  if ← op? "->" then return some (← writtenType g true) else return none

end Grammar
end Instrumentation.Source
