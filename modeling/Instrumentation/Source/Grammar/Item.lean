import Instrumentation.Source.Grammar.Statement

/-!
Items. Some forms are accepted that no compiler takes, such as a function without a body; they
are read and then passed over.
-/
namespace Instrumentation.Source
namespace Grammar

open Source.Parser

/-- Whether the qualifiers of a function start here; `safe` may stand among them in `extern`. -/
def startsFunction (allowSafe : Bool) (ts : List Tree) : Bool :=
  let drop (k : String) (ts : List Tree) := if isKeyword k ts then ts.drop 1 else ts
  let ts := drop "async" (drop "const" ts)
  let ts := if allowSafe && isKeyword "safe" ts then ts.drop 1 else drop "unsafe" ts
  let ts :=
    if isKeyword "extern" ts then
      let ts := ts.drop 1
      if isLitText ts then ts.drop 1 else ts
    else ts
  isKeyword "fn" ts

/-- A parameter of a function. -/
inductive Parameter where
  | receiver (kind : SelfKind) (pos : Blame)
  | typed (p : Param)
  | variadic

/-- `self` in one of its forms. -/
def receiver (g : Grammar) : Parser Parameter := do
  let byRef ← op? "&"
  if byRef then
    markUnspellable
    let _ ← optional isLifetime lifetime
  let _ ← keyword? "mut"
  let pos ← here
  keyword "self"
  if byRef then return .receiver .byRef pos
  if ← op? ":" then
    let _ ← g (.type true)
    return .receiver .typed pos
  return .receiver .byValue pos

/-- A parameter after its attributes. -/
def parameter (g : Grammar) : Parser Parameter := do
  match ← attempt (receiver g) with
  | some r => return r
  | none =>
    if ← peek fun ts => isIdent ts && second (isOp "<") ts then
      return .typed { name := none, type := ← writtenType g true }
    let pattern ← g .pattern
    op ":"
    if ← op? "..." then return .variadic
    let name := match pattern with
      | .binding name => some name
      | _ => none
    return .typed { name, type := ← writtenType g true }

/-- The parameters read so far: how `self` is taken, and the others, last first. -/
structure Parameters where
  receiver : SelfKind := .none
  typed : List Param := []

/-- The parameters of a function; `self` comes first. -/
def parameters (g : Grammar) : Parser Parameters := do
  let ps ← repeating ({} : Parameters) fun ps => do
    if ← atEnd then return (ps, false)
    let _ ← outerAttributes g
    let p ← if ← op? "..." then pure .variadic else parameter g
    match p with
    | .variadic =>
      if !(← atEnd) then op ","
      return (ps, false)
    | .receiver kind pos =>
      if ps.receiver != .none || !ps.typed.isEmpty then failAt pos
      let ps := { ps with receiver := kind }
      if ← atEnd then return (ps, false)
      op ","
      return (ps, true)
    | .typed p =>
      let ps := { ps with typed := p :: ps.typed }
      if ← atEnd then return (ps, false)
      op ","
      return (ps, true)
  return { ps with typed := ps.typed.reverse }

/-- A function's signature. -/
def signature (g : Grammar) (allowSafe : Bool) : Parser Signature := do
  let isConst ← keyword? "const"
  let isAsync ← keyword? "async"
  let safe ← if allowSafe then keyword? "safe" else pure false
  if !safe then
    let _ ← keyword? "unsafe"
  let _ ← callConvention?
  keyword "fn"
  let name ← ident
  let _ ← generics g
  let (_, ps) ← inside .paren (parameters g)
  let output ← resultType? g
  let _ ← whereClause g
  return { name, isConst, isAsync, receiver := ps.receiver, params := ps.typed, output }

/-- A body in braces: its inner attributes, and the block that it prints without them. -/
def body (g : Grammar) : Parser (List Attribute × Body) := do
  let (span, attrs, trees) ← inside .brace do
    let attrs ← innerAttributes g
    let (_, trees) ← captured (g .statements)
    return (attrs, trees)
  return (attrs, ⟨span.start, span.stop, [.group .brace span.start span.stop trees]⟩)

/-- The rest of a macro call after its path; without braces it ends in a semicolon. -/
def macroRest : Parser Unit := do
  op "!"
  let (d, _) ← rawGroup
  if d != .brace then op ";"

def startsMacro (ts : List Tree) : Bool :=
  isIdent ts || isOneOf ["self", "super", "crate"] ts || isOp "::" ts

/-- A constant after its keyword: the trees of its value, unless it has generics. -/
def constant (g : Grammar) : Parser (Option (List Tree)) := do
  if ← peek fun ts => isIdent ts || isKeyword "_" ts then
    let _ ← anyWord
  else fail
  let hasGenerics ← generics g
  op ":"
  let _ ← g (.type true)
  let value ← if ← op? "=" then pure (some (← captured (g (.expr true))).2) else pure none
  let hasWhere ← whereClause g
  op ";"
  return if hasGenerics || hasWhere then none else value

def static (g : Grammar) : Parser (Option (List Tree)) := do
  keyword "static"
  let _ ← keyword? "mut"
  let _ ← ident
  if ← op? "=" then
    let _ ← g (.expr true)
    op ";"
    return none
  op ":"
  let _ ← g (.type true)
  if ← op? ";" then return none
  op "="
  let (_, trees) ← captured (g (.expr true))
  op ";"
  return some trees

/-- A type alias after its visibility; where clauses may stand before or after the type. -/
def typeAlias (g : Grammar) (whereBefore whereAfter : Bool) : Parser Unit := do
  keyword "type"
  let _ ← ident
  let _ ← generics g
  if ← op? ":" then
    boundsUntil g fun ts => isKeyword "where" ts || isOp "=" ts || isOp ";" ts
  let seen ← if whereBefore then whereClause g else pure false
  if ← op? "=" then
    let _ ← g (.type true)
  if whereAfter && !seen then
    let _ ← whereClause g
  op ";"

/-- A function from its qualifiers on; without a body it is passed over. -/
def functionRest (g : Grammar) (attrs : List Attribute) (isPub : Bool) :
    Parser (Option Function) := do
  let sig ← signature g false
  if ← op? ";" then return none
  let (inner, body) ← body g
  return some { attrs := attrs ++ inner, isPub, sig, body }

/-- A method of an implementation. -/
def method (g : Grammar) (attrs : List Attribute) : Parser (Option Function) := do
  let vis ← visibility
  let _ ← keyword? "default"
  functionRest g attrs (vis == .pub)

/-- An item of an implementation. -/
def implItem (g : Grammar) : Parser (Option Function) := do
  let attrs ← outerAttributes g
  let (vis, hasDefault, isFn, isConst, isType, isMacro, place) ← ahead do
    let vis ← visibility
    let hasDefault ←
      if ← peek fun ts => isKeyword "default" ts && !second (isOp "!") ts then
        keyword? "default"
      else pure false
    return (vis, hasDefault, ← peek (startsFunction false), ← peek (isKeyword "const"),
      ← peek (isKeyword "type"), ← peek startsMacro, ← here)
  if isFn then method g attrs
  else if isConst then
    let _ ← visibility
    if hasDefault then keyword "default"
    keyword "const"
    let _ ← constant g
    return none
  else if isType then
    let _ ← visibility
    if hasDefault then keyword "default"
    typeAlias g false true
    return none
  else if vis == .inherited && !hasDefault && isMacro then
    let _ ← plainPath
    macroRest
    return none
  else failAt place

/-- What stands before the braces of an implementation. -/
structure ImplHeader where
  target : WrittenType
  traitName : Option String
  /-- Some forms are read and passed over. -/
  isKept : Bool

/-- An implementation after its attributes, up to its braces. -/
def implHeader (g : Grammar) : Parser ImplHeader := do
  let vis ← visibility
  let _ ← keyword? "default"
  let _ ← keyword? "unsafe"
  keyword "impl"
  if ← peek startsGenerics then
    let _ ← generics g
  let isConst ← peek fun ts => isKeyword "const" ts || (isOp "?" ts && second (isKeyword "const") ts)
  if isConst then
    let _ ← op? "?"
    keyword "const"
  let negative ← if ← peek fun ts => isOp "!" ts && !second isBrace ts then op? "!" else pure false
  let first ← writtenType g true
  let isFor ← keyword? "for"
  let (target, traitName) ←
    if isFor then pure (← writtenType g true, match first.node with
      | .path p => if p.qualified then none else p.last?
      | _ => none)
    else pure (if negative then { first with node := .other } else first, none)
  let _ ← whereClause g
  return {
    target
    traitName
    isKept := vis == .inherited && !isConst && !(isFor && traitName.isNone) }

/-- An implementation after its attributes. -/
def implementation (g : Grammar) : Parser Item := do
  let header ← implHeader g
  let (_, methods) ← inside .brace do
    let _ ← innerAttributes g
    many (implItem g)
  return if header.isKept then
      .implementation header.target header.traitName (methods.filterMap id)
    else .other

/-- An item of a trait; only methods with a body are kept. -/
def traitItem (g : Grammar) : Parser (Option Function) := do
  let attrs ← outerAttributes g
  let vis ← visibility
  let hasDefault ← keyword? "default"
  let plain := vis == .inherited && !hasDefault
  if ← peek (startsFunction false) then
    let f ← functionRest g attrs true
    return if plain then f else none
  else if ← keyword? "const" then
    let _ ← constant g
    return none
  else if ← peek (isKeyword "type") then
    typeAlias g false true
    return none
  else if plain && (← peek startsMacro) then
    let _ ← plainPath
    macroRest
    return none
  else fail

/-- A trait after its keyword. -/
def traitRest (g : Grammar) (allowAlias : Bool) : Parser Item := do
  keyword "trait"
  let name ← ident
  let _ ← generics g
  if allowAlias && (← peek (isOp "=")) then
    op "="
    boundsUntil g fun ts => isKeyword "where" ts || isOp ";" ts
    let _ ← whereClause g
    op ";"
    return .other
  if ← op? ":" then boundsUntil g fun ts => isKeyword "where" ts || isBrace ts
  let _ ← whereClause g
  let (_, methods) ← inside .brace do
    let _ ← innerAttributes g
    many (traitItem g)
  return .trait name.text (methods.filterMap id)

/-- A module after its attributes. -/
def moduleItem (g : Grammar) (attrs : List Attribute) : Parser Item := do
  let vis ← visibility
  let _ ← keyword? "unsafe"
  keyword "mod"
  let name ← if ← peek (isKeyword "try") then anyWord else ident
  if ← op? ";" then return .outline attrs (vis == .pub) name.text
  let (_, items) ← inside .brace do
    let _ ← innerAttributes g
    many (g .item)
  return .inline (vis == .pub) name.text items

/-- A field with a name. -/
def namedField (g : Grammar) : Parser Unit := do
  let _ ← outerAttributes g
  let _ ← visibility
  if ← keyword? "_" then pure ()
  else
    let _ ← ident
  op ":"
  let _ ← g (.type true)

def namedFields (g : Grammar) : Parser Unit := do
  let _ ← inside .brace (terminated "," (namedField g))

def tupleFields (g : Grammar) : Parser Unit := do
  let _ ← inside .paren (terminated "," do
    let _ ← outerAttributes g
    let _ ← visibility
    g (.type true))

/-- A struct after its keyword. -/
def structRest (g : Grammar) : Parser Unit := do
  let _ ← ident
  let _ ← generics g
  let early ← whereClause g
  if !early && (← peek isParen) then
    tupleFields g
    let _ ← whereClause g
    op ";"
  else if ← peek isBrace then namedFields g
  else op ";"

/-- A variant of an enum. -/
def variant (g : Grammar) : Parser Unit := do
  let _ ← outerAttributes g
  let _ ← visibility
  let _ ← ident
  if ← peek isBrace then namedFields g
  else if ← peek isParen then tupleFields g
  if ← op? "=" then
    let _ ← g (.expr true)

def useTreeBody (g : Grammar) (root : Bool) : Parser Unit := do
  if ← peek fun ts => isIdent ts || isOneOf ["self", "super", "crate", "try"] ts then
    let _ ← anyWord
    if ← op? "::" then g (.useTree false)
    else if ← keyword? "as" then
      if ← peek isIdent then
        let _ ← ident
      else
        keyword "_"
  else if ← op? "*" then return ()
  else
    let _ ← inside .brace (terminated "," do
      let rooted ← if root then op? "::" else pure false
      g (.useTree (root && !rooted)))

/-- An item of an `extern` block. -/
def foreignItem (g : Grammar) : Parser Unit := do
  let _ ← outerAttributes g
  let (vis, isFn, isStatic, isType, isMacro, place) ← ahead do
    let vis ← visibility
    return (vis, ← peek (startsFunction true),
      ← peek fun ts => isKeyword "static" ts
        || ((isKeyword "unsafe" ts || isKeyword "safe" ts) && second (isKeyword "static") ts),
      ← peek (isKeyword "type"), ← peek startsMacro, ← here)
  if isFn then
    let _ ← visibility
    let _ ← signature g true
    if ← peek isBrace then
      let _ ← body g
    else op ";"
  else if isStatic then
    let _ ← visibility
    if !(← keyword? "unsafe") then
      let _ ← keyword? "safe"
    keyword "static"
    let _ ← keyword? "mut"
    let _ ← ident
    op ":"
    let _ ← g (.type true)
    if ← op? "=" then
      let _ ← g (.expr true)
    op ";"
  else if isType then
    let _ ← visibility
    typeAlias g true true
  else if vis == .inherited && isMacro then
    let _ ← plainPath
    macroRest
  else failAt place

def foreignBlock (g : Grammar) : Parser Unit := do
  let _ ← keyword? "unsafe"
  keyword "extern"
  if ← peek isLitText then
    let _ ← lit
  let _ ← inside .brace do
    let _ ← innerAttributes g
    many (foreignItem g)

/-- A macro call or definition; the inside of one with a name is kept. -/
def macroItem : Parser Item := do
  let _ ← plainPath
  op "!"
  let named ← if ← peek fun ts => isIdent ts || isKeyword "try" ts then
      let _ ← anyWord
      pure true
    else pure false
  let (d, trees) ← rawGroup
  if d != .brace then op ";"
  return if named then .evaluated trees else .other

def evaluatedOrOther : Option (List Tree) → Item
  | some trees => .evaluated trees
  | none => .other

/-- An item that starts with `extern` and is no function. -/
def externItem (g : Grammar) : Parser Unit := do
  let isCrate ← ahead do
    let _ ← visibility
    keyword "extern"
    if ← peek (isKeyword "crate") then return true
    if ← peek isLitText then
      let _ ← lit
    if ← peek isBrace then return false
    fail
  let _ ← visibility
  if isCrate then
    keyword "extern"
    keyword "crate"
    if ← peek (isKeyword "self") then
      let _ ← anyWord
    else
      let _ ← ident
    if ← keyword? "as" then
      if ← keyword? "_" then pure ()
      else
        let _ ← ident
    op ";"
  else foreignBlock g

/-- An item that starts with `unsafe` and is no function. -/
def unsafeItem (g : Grammar) (attrs : List Attribute) : Parser Item := do
  let next ← ahead do
    let _ ← visibility
    keyword "unsafe"
    if ← peek fun ts => isKeyword "trait" ts
        || (isKeyword "auto" ts && second (isKeyword "trait") ts) then return 0
    if ← peek (isKeyword "impl") then return 1
    if ← peek (isKeyword "extern") then return 2
    if ← peek (isKeyword "mod") then return 3
    fail
  match next with
  | 0 =>
    let _ ← visibility
    keyword "unsafe"
    let _ ← keyword? "auto"
    traitRest g false
  | 1 => implementation g
  | 2 =>
    let _ ← visibility
    foreignBlock g
    return .other
  | _ => moduleItem g attrs

/-- An item after its attributes. -/
def itemRest (g : Grammar) (attrs : List Attribute) : Parser Item := do
  let (vis, ts, place) ← ahead do
    let vis ← visibility
    let ts ← asks Cursor.rest
    return (vis, ts, ← here)
  if startsFunction false ts then
    let _ ← visibility
    return ((← functionRest g attrs (vis == .pub)).map Item.function).getD .other
  else if isKeyword "extern" ts then
    externItem g
    return .other
  else if isKeyword "use" ts then
    let _ ← visibility
    keyword "use"
    let leading ← op? "::"
    g (.useTree (!leading))
    op ";"
    return .other
  else if isKeyword "static" ts then
    let _ ← visibility
    return evaluatedOrOther (← static g)
  else if isKeyword "const" ts then
    let _ ← visibility
    keyword "const"
    return evaluatedOrOther (← constant g)
  else if isKeyword "unsafe" ts then unsafeItem g attrs
  else if isKeyword "mod" ts then moduleItem g attrs
  else if isKeyword "type" ts then
    let _ ← visibility
    typeAlias g true false
    return .other
  else if isKeyword "struct" ts then
    let _ ← visibility
    keyword "struct"
    structRest g
    return .other
  else if isKeyword "enum" ts then
    let _ ← visibility
    keyword "enum"
    let _ ← ident
    let _ ← generics g
    let _ ← whereClause g
    let _ ← inside .brace (terminated "," (variant g))
    return .other
  else if isKeyword "union" ts && second isIdent ts then
    let _ ← visibility
    keyword "union"
    let _ ← ident
    let _ ← generics g
    let _ ← whereClause g
    namedFields g
    return .other
  else if isKeyword "trait" ts then
    let _ ← visibility
    traitRest g true
  else if isKeyword "auto" ts && second (isKeyword "trait") ts then
    let _ ← visibility
    keyword "auto"
    traitRest g false
  else if isKeyword "impl" ts || (isKeyword "default" ts && !second (isOp "!") ts) then
    implementation g
  else if isKeyword "macro" ts then
    let _ ← visibility
    keyword "macro"
    let _ ← ident
    if ← peek isParen then
      let _ ← inside .paren everything
    let _ ← inside .brace everything
    return .other
  else if vis == .inherited && startsMacro ts then macroItem
  else failAt place

def itemBody (g : Grammar) : Parser Item := do
  itemRest g (← outerAttributes g)

end Grammar
end Instrumentation.Source
