import Instrumentation.Source.Node

/-!
Paths, generic arguments, attributes and visibilities.
-/
namespace Instrumentation.Source
namespace Grammar

open Source.Parser

/-- A group read as a block: statements, without inner attributes. -/
def block (g : Grammar) : Parser GroupSpan := do
  let (span, _) ← inside .brace (g .statements)
  return span

/-- A path whose segments have no arguments. -/
def plainPath : Parser PathNode := do
  let leading ← op? "::"
  let isStart (ts : List Tree) := isIdent ts || isOneOf ["super", "self", "Self", "crate"] ts
  let segments ← repeating [] fun segments => do
    if ← peek isStart then
      let name ← anyWord
      let more ← op? "::"
      return (⟨name.text, false⟩ :: segments, more)
    else fail
  return { leading, segments := segments.reverse }

/-- What follows the path in an attribute. -/
def attributeValue (g : Grammar) : Parser (Option String) := do
  if ← peek fun ts => isParen ts || isBracket ts || isBrace ts then
    let _ ← rawGroup
    return none
  else if ← op? "=" then
    match ← attempt (do let t ← lit; if ← atEnd then pure t else fail) with
    | some t => return some t
    | none =>
      if ← peek fun ts => isOp "#" ts && second isBracket ts then fail
      else
        let _ ← g (.expr true)
        return none
  else return none

/-- An attribute from its brackets on. -/
def attributeBody (g : Grammar) : Parser Attribute := do
  let (span, path, value) ← inside .bracket do
    let path ←
      if ← keyword? "unsafe" then pure { segments := [⟨"unsafe", false⟩] } else plainPath
    return (path, ← attributeValue g)
  return { path, value, stop := span.stop }

/-- Attributes of what follows. -/
def outerAttributes (g : Grammar) : Parser (List Attribute) := do
  let attrs ← repeating [] fun attrs => do
    if ← op? "#" then return ((← attributeBody g) :: attrs, true)
    else return (attrs, false)
  return attrs.reverse

/-- Attributes of what they stand in. -/
def innerAttributes (g : Grammar) : Parser (List Attribute) := do
  let attrs ← repeating [] fun attrs => do
    if ← peek fun ts => isOp "#" ts && second (isOp "!") ts then
      op "#"
      op "!"
      return ((← attributeBody g) :: attrs, true)
    else return (attrs, false)
  return attrs.reverse

/-- A group read as a block that may start with inner attributes. -/
def attributedBlock (g : Grammar) : Parser GroupSpan := do
  let (span, _) ← inside .brace do
    let _ ← innerAttributes g
    g .statements
  return span

/-- A value for a constant parameter: a literal or a block. -/
def constArgument (g : Grammar) : Parser Unit := do
  if ← peek isLit then
    let _ ← lit
  else if ← peek isBrace then
    let _ ← attributedBlock g
  else fail

/-- One parameter, argument or the like of a list in angle brackets, with its comma. -/
structure ListEntry where
  isLifetime : Bool
  trees : List Tree
  comma : List Tree

/-- Lifetimes print before all else; a comma is put in where one is missing then. -/
def arranged (entries : List ListEntry) : List Tree :=
  let lifetimes := entries.filter ListEntry.isLifetime
  let others := entries.filter fun e => !e.isLifetime
  let closed := match lifetimes.getLast? with
    | some e => !e.comma.isEmpty
    | none => true
  let start := lifetimes.flatMap fun e => e.trees ++ e.comma
  (others.foldl (fun (trees, closed) e =>
    let lead := if closed then [] else [Tree.mark ',' false 0]
    (trees ++ lead ++ e.trees ++ e.comma, !e.comma.isEmpty)) (start, closed)).1

/-- Entries separated by commas up to the closing angle bracket. -/
def angleList (entry : Parser Bool) : Parser Unit := do
  op "<"
  reprinted do
    let entries ← repeating [] fun entries => do
      if ← peek (isOp ">") then return (entries, false)
      let (isLifetime, trees) ← captured entry
      if ← peek (isOp ">") then return (⟨isLifetime, trees, []⟩ :: entries, false)
      let (_, comma) ← captured (op ",")
      return (⟨isLifetime, trees, comma⟩ :: entries, true)
    return ((), arranged entries.reverse)
  op ">"

/-- A parameter of generics, in a declaration or after `for`. Says whether it is a lifetime. -/
def genericParam (g : Grammar) (wild : Bool) : Parser Bool := do
  let _ ← outerAttributes g
  if ← peek isLifetime then
    lifetime
    if ← op? ":" then
      let _ ← repeating () fun _ => do
        if ← peek fun ts => ts.isEmpty || isOp "," ts || isOp ">" ts then return ((), false)
        lifetime
        return ((), ← op? "+")
    return true
  else if ← peek isIdent then
    let _ ← ident
    if ← op? ":" then
      let _ ← repeating () fun _ => do
        if ← peek fun ts => isOp "," ts || isOp ">" ts || isOp "=" ts then return ((), false)
        let _ ← g (.bound false true)
        return ((), ← op? "+")
    if ← op? "=" then
      let _ ← g (.type true)
    return false
  else if ← keyword? "const" then
    let _ ← ident
    op ":"
    let _ ← g (.type true)
    if ← op? "=" then constArgument g
    return false
  else if wild then
    let _ ← token (isKeyword "_")
    return false
  else fail

/-- Lifetimes bound by `for`. -/
def boundLifetimes (g : Grammar) : Parser Unit := do
  keyword "for"
  angleList (genericParam g false)

/-- Lifetimes bound by `for`, if it stands here. Says whether it does. -/
def boundLifetimes? (g : Grammar) : Parser Bool := do
  return (← optional (isKeyword "for") (boundLifetimes g)).isSome

/-- One generic argument; says whether it is a lifetime. -/
def genericArgument (g : Grammar) : Parser Bool := do
  if ← peek fun ts => isLifetime ts && !second (isOp "+") ts then
    lifetime
    return true
  if ← peek fun ts => isLit ts || isBrace ts then
    constArgument g
    return false
  match ← g (.type true) with
  | .path { qualified := false, leading := false, segments := [_] } =>
    if ← op? "=" then
      if ← peek fun ts => isLit ts || isBrace ts then constArgument g
      else
        let _ ← g (.type true)
    else if ← op? ":" then
      let _ ← repeating () fun _ => do
        if ← peek fun ts => isOp "," ts || isOp ">" ts then return ((), false)
        let _ ← g (.bound false true)
        return ((), ← op? "+")
    return false
  | _ => return false

/-- Generic arguments in angle brackets. -/
def angleArguments (g : Grammar) : Parser Unit := angleList (genericArgument g)

/-- A path segment; in an expression its arguments stand after `::`. -/
def segment (g : Grammar) (inExpr : Bool) : Parser Segment := do
  if ← peek (isOneOf ["super", "self", "crate", "try"]) then
    return ⟨(← anyWord).text, false⟩
  let name ← if ← peek (isKeyword "Self") then anyWord else ident
  if ← peek fun ts =>
      (!inExpr && isOp "<" ts && !isOp "<=" ts && !isOp "<<=" ts)
        || (isOp "::" ts && third (isOp "<") ts) then
    let _ ← op? "::"
    angleArguments g
    return ⟨name.text, true⟩
  return ⟨name.text, false⟩

/-- A path without a type in angle brackets before it. -/
def path (g : Grammar) (inExpr : Bool) : Parser PathNode := do
  let leading ← op? "::"
  let first ← segment g inExpr
  let rest ← repeating [] fun segments => do
    if ← peek fun ts => isOp "::" ts && !third isParen ts then
      op "::"
      return ((← segment g inExpr) :: segments, true)
    else return (segments, false)
  return { leading, segments := first :: rest.reverse }

/-- Arguments in parentheses with an optional result. -/
def parenArguments (g : Grammar) : Parser Unit := do
  let _ ← inside .paren (terminated "," (g (.type true)))
  if ← op? "->" then
    let _ ← g (.type false)

/-- A trait as a bound. -/
def traitBound (g : Grammar) (constant : Bool) : Parser BoundNode := do
  let hasFor ← boundLifetimes? g
  let place ← here
  if ← op? "~" then
    keyword "const"
    if !constant then failAt place
  else if ← keyword? "const" then
    if !constant then failAt place
  let place ← here
  let maybe ← op? "?"
  let hasFor ← if maybe && !hasFor then boundLifetimes? g else pure hasFor
  let path ← path g false
  if path.segments.getLast?.all (fun s => !s.hasArgs) then
    if ← peek fun ts => isParen ts || (isOp "::" ts && third isParen ts) then
      let _ ← op? "::"
      parenArguments g
  if hasFor && maybe then failAt place
  return .trait

/-- A bound of a type: a lifetime, a set of captures, or a trait, maybe in parentheses. -/
def boundBody (g : Grammar) (capture constant : Bool) : Parser BoundNode := do
  if ← peek isLifetime then
    lifetime
    return .other
  if ← peek (isKeyword "use") then
    let place ← here
    keyword "use"
    angleList do
      if ← peek isLifetime then
        lifetime
        return true
      else
        let _ ← if ← peek (isKeyword "Self") then anyWord else ident
        return false
    if capture then return .other else failAt place
  if ← peek isParen then
    let (_, b) ← inside .paren (traitBound g constant)
    return b
  traitBound g constant

/-- A path that may start with a type in angle brackets. -/
def qualifiedPath (g : Grammar) (inExpr : Bool) : Parser PathNode := do
  if ← op? "<" then
    let _ ← g (.type true)
    let base ←
      if ← keyword? "as" then pure (← path g false).segments else pure []
    op ">"
    op "::"
    let rest ← repeating [] fun segments => do
      let s ← segment g inExpr
      return (s :: segments, ← op? "::")
    return { qualified := true, segments := base ++ rest.reverse }
  else path g inExpr

/-- Generics of a declaration, if there are any. Says whether there are. -/
def generics (g : Grammar) : Parser Bool := do
  if ← peek (isOp "<") then
    angleList (genericParam g true)
    return true
  else return false

/-- Whether `<` here starts generics and not a qualified path. -/
def startsGenerics (ts : List Tree) : Bool :=
  isOp "<" ts &&
    (second (isOp ">") ts || second (isOp "#") ts || second (isKeyword "const") ts
      || ((second isLifetime ts || second isIdent ts)
        && (third (isOp ">") ts || third (isOp ",") ts
          || (third (isOp ":") ts && !third (isOp "::") ts) || third (isOp "=") ts)))

/-- Bounds joined by `+` up to a tree that passes `stop`. -/
def boundsUntil (g : Grammar) (stop : List Tree → Bool) : Parser Unit := do
  let _ ← repeating () fun _ => do
    if ← peek stop then return ((), false)
    let _ ← g (.bound false true)
    if ← peek stop then return ((), false)
    op "+"
    return ((), true)

def endsPredicates (ts : List Tree) : Bool :=
  ts.isEmpty || isBrace ts || isOp "," ts || isOp ";" ts || (isOp ":" ts && !isOp "::" ts)
    || isOp "=" ts

/-- A `where` clause, if there is one. Says whether there is. -/
def whereClause (g : Grammar) : Parser Bool := do
  if ← keyword? "where" then
    if ← peek startsGenerics then fail
    let _ ← repeating () fun _ => do
      if ← peek endsPredicates then return ((), false)
      if ← peek fun ts => isLifetime ts && second (isOp ":") ts then
        lifetime
        op ":"
        let _ ← repeating () fun _ => do
          if ← peek fun ts => endsPredicates ts || isOp ":" ts then return ((), false)
          lifetime
          return ((), ← op? "+")
      else
        let _ ← boundLifetimes? g
        let _ ← g (.type true)
        op ":"
        let _ ← repeating () fun _ => do
          if ← peek endsPredicates then return ((), false)
          let _ ← g (.bound false true)
          return ((), ← op? "+")
      return ((), ← op? ",")
    return true
  else return false

/-- A visibility: none, `pub`, or `pub` restricted to some scope. -/
inductive Visibility where
  | inherited | pub | restricted
  deriving DecidableEq, Repr

/-- The scope in parentheses after `pub`. -/
def restriction : Parser Unit := do
  let _ ← inside .paren do
    if ← peek (isOneOf ["crate", "self", "super"]) then
      let _ ← anyWord
      if ← atEnd then pure () else fail
    else
      keyword "in"
      let _ ← plainPath
  return ()

def visibility : Parser Visibility := do
  if ← keyword? "pub" then
    if ← peek isParen then
      let inScope ← peek fun ts => match ts with
        | .group _ _ _ inner :: _ => isKeyword "in" inner
        | _ => false
      if inScope then
        restriction
        return .restricted
      match ← attempt restriction with
      | some _ => return .restricted
      | none => return .pub
    return .pub
  else return .inherited

end Grammar
end Instrumentation.Source
