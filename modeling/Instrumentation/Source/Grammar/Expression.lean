import Instrumentation.Source.Grammar.Pattern

/-!
Expressions. Binary operators are read by precedence climbing. Two grammar rules go beyond
precedence: comparisons do not chain, and a range is no left operand.
-/
namespace Instrumentation.Source
namespace Grammar

open Source.Parser

/-- Binding strengths, weakest first. -/
inductive Precedence where
  | jump | assign | range | or | and | compare | bitOr | bitXor | bitAnd | shift | sum | product
  | cast
  deriving DecidableEq, Repr, Ord

def Precedence.le (a b : Precedence) : Bool := a.ctorIdx ≤ b.ctorIdx

/-- The binary operators, longer ones before their beginnings. -/
def binaryOperators : List (String × Precedence) :=
  [("+=", .assign), ("-=", .assign), ("*=", .assign), ("/=", .assign), ("%=", .assign),
   ("^=", .assign), ("&=", .assign), ("|=", .assign), ("<<=", .assign), (">>=", .assign),
   ("&&", .and), ("||", .or), ("<<", .shift), (">>", .shift), ("==", .compare), ("<=", .compare),
   ("!=", .compare), (">=", .compare), ("+", .sum), ("-", .sum), ("*", .product), ("/", .product),
   ("%", .product), ("^", .bitXor), ("&", .bitAnd), ("|", .bitOr), ("<", .compare),
   (">", .compare)]

/-- The binary operator that starts here. -/
def binaryOperator? (ts : List Tree) : Option (String × Precedence) :=
  binaryOperators.find? fun (o, _) => isOp o ts

def isAssign (ts : List Tree) : Bool := isOp "=" ts && !isOp "=>" ts

/-- How strongly what follows binds to its left operand. -/
def nextPrecedence (ts : List Tree) : Precedence :=
  match binaryOperator? ts with
  | some (_, p) => p
  | none =>
    if isAssign ts then .assign
    else if isOp ".." ts then .range
    else if isKeyword "as" ts then .cast
    else .jump

/-- Where a range has no end. -/
def endsRange (braces : Bool) (ts : List Tree) : Bool :=
  ts.isEmpty || isOp "," ts || isOp ";" ts || (isOp "." ts && !isOp ".." ts) || isOp "?" ts
    || isOp "=>" ts || (!braces && isBrace ts) || isOp "=" ts || isOp "+" ts || isOp "/" ts
    || isOp "%" ts || isOp "^" ts || isOp ">" ts || isOp "<=" ts || isOp "!=" ts || isOp "-=" ts
    || isOp "*=" ts || isOp "&=" ts || isOp "|=" ts || isOp "<<=" ts || isKeyword "as" ts

/-- What may not follow a cast. -/
def extendsCast (ts : List Tree) : Bool :=
  (isOp "." ts && !isOp ".." ts) || isOp "?" ts || isBracket ts || isParen ts

mutual
/-- Operators that bind at least as strongly as `base`, with their right operands. -/
def climb (g : Grammar) (braces : Bool) :
    (fuel : Nat) → (base : Precedence) → (left : ExprNode) → Parser ExprNode
  | 0, _, _ => fail
  | fuel + 1, base, left => do
    if left = .range then return left
    let next ← asks fun c => binaryOperator? c.rest
    match next with
    | some (o, p) =>
      if !base.le p then return left
      if p = .compare && left = .comparison then fail
      op o
      let _ ← rightOperand g braces fuel p
      climb g braces fuel base (if p = .compare then .comparison else .other)
    | none =>
      if base.le .assign && (← peek isAssign) then
        op "="
        let _ ← rightOperand g braces fuel .assign
        climb g braces fuel base .other
      else if base.le .range && (← peek (isOp "..")) then
        rangeEnd g braces fuel
        climb g braces fuel base .range
      else if base.le .cast && (← peek (isKeyword "as")) then
        keyword "as"
        let _ ← g (.type false)
        if ← peek extendsCast then fail
        climb g braces fuel base .other
      else return left

/-- The right operand of an operator of strength `base`. -/
def rightOperand (g : Grammar) (braces : Bool) :
    (fuel : Nat) → (base : Precedence) → Parser ExprNode
  | 0, _ => fail
  | fuel + 1, base => do
    let first ← g (.unary braces)
    stronger g braces fuel base first

/-- Goes on with operators that bind more strongly than `base`. -/
def stronger (g : Grammar) (braces : Bool) :
    (fuel : Nat) → (base : Precedence) → (first : ExprNode) → Parser ExprNode
  | 0, _, _ => fail
  | fuel + 1, base, first => do
    let next ← asks fun c => nextPrecedence c.rest
    if (base.le next && next != base) || (next == base && base == .assign) then
      let before ← left
      let first ← climb g braces fuel next first
      if (← left) = before then return first
      stronger g braces fuel base first
    else return first

/-- The dots of a range and its end, if it has one. -/
def rangeEnd (g : Grammar) (braces : Bool) : (fuel : Nat) → Parser Unit
  | 0 => fail
  | fuel + 1 => do
    let closed ← rangeDots false
    if !closed && (← peek (endsRange braces)) then return ()
    let _ ← rightOperand g braces fuel .range
end

/-- Operators after a first operand. -/
def operators (g : Grammar) (braces : Bool) (base : Precedence) (first : ExprNode) :
    Parser ExprNode := do
  climb g braces (4 * (← left) + 4) base first

/-- An expression. -/
def exprBody (g : Grammar) (braces : Bool) : Parser ExprNode := do
  let first ← g (.unary braces)
  operators g braces .jump first

/-- Whether an expression may start here. -/
def startsExpr (ts : List Tree) : Bool :=
  isAnyWord ts || isParen ts || isBracket ts || isBrace ts || isLit ts
    || (isOp "!" ts && !isOp "!=" ts) || (isOp "-" ts && !isOp "-=" ts && !isOp "->" ts)
    || (isOp "*" ts && !isOp "*=" ts) || (isOp "|" ts && !isOp "|=" ts)
    || (isOp "&" ts && !isOp "&=" ts) || isOp ".." ts
    || (isOp "<" ts && !isOp "<=" ts && !isOp "<<=" ts) || isOp "::" ts || isLifetime ts
    || isOp "#" ts

/-- The text of a literal is a number with a fraction or an exponent. -/
def isFloat (text : String) : Bool :=
  let cs := text.toList
  isNumeral text && !(['0', 'x'].isPrefixOf cs || ['0', 'o'].isPrefixOf cs || ['0', 'b'].isPrefixOf cs)
    && (match cs.dropWhile (fun c => c.isDigit || c == '_') with
      | '.' :: _ => true
      | 'e' :: _ => true
      | 'E' :: _ => true
      | _ => false)

/-- Tuple indices that are written as a fraction, as in `x.0.1`. Says whether a last dot asks for
one more field. -/
def fractionIndices : Parser Bool := reprinted do
  let place ← here
  match ← token fun ts => !ts.isEmpty with
  | .literal t p =>
    let trailing := t.endsWith "."
    let parts := (t.splitOn ".").filter fun s => !s.isEmpty
    if parts.all fun s => s.toList.all Char.isDigit then
      let trees := (parts.map fun s => Tree.literal s p).intersperse (Tree.mark '.' false p)
      return (trailing, if trailing then trees ++ [Tree.mark '.' false p] else trees)
    else failAt place
  | _ => failAt place

/-- Call, field, index and question mark after an operand. -/
def trailers (g : Grammar) (first : ExprNode) : Parser ExprNode :=
  repeating first fun e => do
    if ← peek isParen then
      let _ ← inside .paren (terminated "," (g (.expr true)))
      return (.other, true)
    else if e != .range && (← peek fun ts => isOp "." ts && !isOp ".." ts) then
      op "."
      let isFraction (ts : List Tree) := match ts with
        | .literal t _ :: _ => isFloat t
        | _ => false
      if ← peek isFraction then
        let more ← fractionIndices
        if !more then return (.other, true)
      if ← keyword? "await" then return (.other, true)
      let named ← member
      let turbofish ← if named && (← peek (isOp "::")) then
          op "::"
          angleArguments g
          pure true
        else pure false
      if named && (turbofish || (← peek isParen)) then
        let _ ← inside .paren (terminated "," (g (.expr true)))
      return (.other, true)
    else if ← peek isBracket then
      let _ ← inside .bracket (g (.expr true))
      return (.other, true)
    else if e != .range && (← peek (isOp "?")) then
      op "?"
      return (.other, true)
    else return (e, false)

/-- A label and its colon. -/
def label : Parser Unit := do
  lifetime
  op ":"

/-- Fields of a struct literal. -/
def structFields (g : Grammar) : Parser Unit := do
  let _ ← inside .brace do
    repeating () fun _ => do
      if ← atEnd then return ((), false)
      if ← op? ".." then
        if !(← atEnd) then
          let _ ← g (.expr true)
        return ((), false)
      let _ ← outerAttributes g
      let named ← member
      if !named || (← peek (isOp ":")) then
        op ":"
        let _ ← g (.expr true)
      if ← atEnd then return ((), false)
      op ","
      return ((), true)

/-- A path, macro call or struct literal. -/
def pathExpr (g : Grammar) (braces : Bool) : Parser ExprNode := do
  let p ← qualifiedPath g true
  if !p.qualified && p.isPlain then
    if ← peek fun ts => isOp "!" ts && !isOp "!=" ts then
      op "!"
      let (delim, _) ← rawGroup
      return .macroCall delim
  if braces && (← peek isBrace) then
    structFields g
  return .other

/-- A closure. -/
def closure (g : Grammar) (braces : Bool) : Parser Unit := do
  let _ ← boundLifetimes? g
  let _ ← keyword? "const"
  let _ ← keyword? "static"
  let _ ← keyword? "async"
  let _ ← keyword? "move"
  op "|"
  let _ ← repeating () fun _ => do
    if ← peek (isOp "|") then return ((), false)
    let _ ← outerAttributes g
    let _ ← g .pattern
    if ← op? ":" then
      let _ ← g (.type true)
    if ← peek (isOp "|") then return ((), false)
    op ","
    return ((), true)
  op "|"
  if ← op? "->" then
    let _ ← g (.type true)
    let _ ← block g
  else
    let _ ← g (.expr braces)

/-- The condition and blocks of `if`, and of every `else if` after it. -/
def ifExpr (g : Grammar) : Parser Unit :=
  repeating () fun _ => do
    keyword "if"
    let _ ← g (.expr false)
    let _ ← block g
    if ← keyword? "else" then
      if ← peek (isKeyword "if") then return ((), true)
      let _ ← block g
    return ((), false)

/-- An arm of a match. -/
def arm (g : Grammar) : Parser Unit := do
  let _ ← outerAttributes g
  let _ ← alternatives g
  if ← keyword? "if" then
    let _ ← g (.expr true)
  op "=>"
  let body ← g .early
  if body != .block && !(← atEnd) then op ","
  else
    let _ ← op? ","

def matchExpr (g : Grammar) : Parser Unit := do
  keyword "match"
  let _ ← g (.expr false)
  let _ ← inside .brace do
    let _ ← innerAttributes g
    many (arm g)

def whileExpr (g : Grammar) : Parser Unit := do
  keyword "while"
  let _ ← g (.expr false)
  let _ ← attributedBlock g

def forExpr (g : Grammar) : Parser Unit := do
  keyword "for"
  let _ ← alternatives g
  keyword "in"
  let _ ← g (.expr false)
  let _ ← attributedBlock g

def loopExpr (g : Grammar) : Parser Unit := do
  keyword "loop"
  let _ ← attributedBlock g

/-- A loop or block with a label. -/
def labeled (g : Grammar) : Parser Unit := do
  label
  if ← peek (isKeyword "while") then whileExpr g
  else if ← peek (isKeyword "for") then forExpr g
  else if ← peek (isKeyword "loop") then loopExpr g
  else if ← peek isBrace then
    let _ ← attributedBlock g
  else fail

/-- The value after `return`, `break` or `yield`, if there is one. -/
def operand? (g : Grammar) (braces : Bool) : Parser Unit := do
  if ← peek fun ts => startsExpr ts && (braces || !isBrace ts) then
    let _ ← g (.expr braces)

def breakExpr (g : Grammar) (braces : Bool) : Parser Unit := do
  keyword "break"
  if ← peek fun ts => isLifetime ts && second (isOp ":") ts then
    let place ← here
    let _ ← g (.expr true)
    failAt place
  let _ ← optional isLifetime lifetime
  operand? g braces

/-- Parentheses: unit, a tuple, or one expression. -/
def parenExpr (g : Grammar) : Parser Unit := do
  let _ ← inside .paren (terminated "," (g (.expr true)))

/-- Brackets: a list of values, or a value and how often it is repeated. -/
def arrayExpr (g : Grammar) : Parser Unit := do
  let _ ← inside .bracket do
    if ← atEnd then return ()
    let _ ← g (.expr true)
    if ← atEnd then return ()
    if ← op? "," then
      let _ ← terminated "," (g (.expr true))
    else
      op ";"
      let _ ← g (.expr true)

def letExpr (g : Grammar) (braces : Bool) : Parser Unit := do
  keyword "let"
  let _ ← alternatives g
  op "="
  let first ← g (.unary braces)
  let _ ← operators g braces .compare first

/-- Whether `for` here binds lifetimes of a closure. -/
def startsBinder (ts : List Tree) : Bool :=
  isKeyword "for" ts && second (isOp "<") ts && (third isLifetime ts || third (isOp ">") ts)

/-- An operand without what follows it. -/
def atom (g : Grammar) (braces : Bool) : Parser ExprNode := do
  if ← peek isLit then
    let _ ← lit
    return .other
  else if ← peek fun ts => isKeyword "async" ts
      && (second isBrace ts || (second (isKeyword "move") ts && third isBrace ts)) then
    keyword "async"
    let _ ← keyword? "move"
    let _ ← block g
    return .other
  else if ← peek fun ts => isKeyword "try" ts && second isBrace ts then
    keyword "try"
    let _ ← block g
    return .block
  else if ← peek fun ts =>
      isOp "|" ts || isKeyword "move" ts || startsBinder ts
      || (isKeyword "const" ts && !second isBrace ts) || isKeyword "static" ts
      || (isKeyword "async" ts && (second (isOp "|") ts || second (isKeyword "move") ts)) then
    closure g braces
    return .other
  else if ← peek fun ts => isKeyword "builtin" ts && second (isOp "#") ts then
    let _ ← anyWord
    op "#"
    let _ ← ident
    let _ ← inside .paren everything
    return .other
  else if ← peek fun ts =>
      isIdent ts || isOp "::" ts || isOp "<" ts || isOneOf ["self", "Self", "super", "crate"] ts
      || (isKeyword "try" ts && (second (isOp "!") ts || second (isOp "::") ts)) then
    pathExpr g braces
  else if ← peek isParen then
    parenExpr g
    return .other
  else if ← peek (isKeyword "break") then
    breakExpr g braces
    return .other
  else if ← keyword? "continue" then
    let _ ← optional isLifetime lifetime
    return .other
  else if ← keyword? "return" then
    operand? g true
    return .other
  else if ← keyword? "become" then
    let _ ← g (.expr true)
    return .other
  else if ← peek isBracket then
    arrayExpr g
    return .other
  else if ← peek (isKeyword "let") then
    letExpr g braces
    return .other
  else if ← peek (isKeyword "if") then
    ifExpr g
    return .block
  else if ← peek (isKeyword "while") then
    whileExpr g
    return .block
  else if ← peek (isKeyword "for") then
    forExpr g
    return .block
  else if ← peek (isKeyword "loop") then
    loopExpr g
    return .block
  else if ← peek (isKeyword "match") then
    matchExpr g
    return .block
  else if ← keyword? "yield" then
    operand? g true
    return .other
  else if ← keyword? "unsafe" then
    let _ ← attributedBlock g
    return .block
  else if ← keyword? "const" then
    let _ ← attributedBlock g
    return .block
  else if ← peek isBrace then
    let _ ← attributedBlock g
    return .block
  else if ← peek (isOp "..") then
    rangeEnd g braces (4 * (← left) + 4)
    return .range
  else if ← keyword? "_" then return .other
  else if ← peek isLifetime then
    labeled g
    return .block
  else fail

/-- An operand with what precedes and follows it. -/
def unaryBody (g : Grammar) (braces : Bool) : Parser ExprNode := do
  let attrs ← outerAttributes g
  if ← op? "&" then
    if ← peek fun ts => isKeyword "raw" ts
        && (second (isKeyword "mut") ts || second (isKeyword "const") ts) then
      keyword "raw"
      if !(← keyword? "mut") then keyword "const"
    else
      let _ ← keyword? "mut"
    let _ ← g (.unary braces)
    return .other
  else if ← peek fun ts => isOp "*" ts || isOp "!" ts || isOp "-" ts then
    if !(← op? "*") then
      if !(← op? "!") then op "-"
    let _ ← g (.unary braces)
    return .other
  else
    let place ← here
    let first ← atom g braces
    let e ← trailers g first
    if e = .range && !attrs.isEmpty then failAt place
    return e

/-- An expression that ends after a block unless a dot or question mark follows. -/
def earlyBody (g : Grammar) : Parser ExprNode := do
  let _ ← outerAttributes g
  let first? : Option ExprNode ←
    if ← peek (isOneOf ["if", "while", "loop", "match", "unsafe"]) then
      pure (some (← atom g true))
    else if ← peek fun ts => isKeyword "for" ts && !startsBinder ts then
      pure (some (← atom g true))
    else if ← peek fun ts => (isKeyword "try" ts || isKeyword "const" ts) && second isBrace ts then
      pure (some (← atom g true))
    else if ← peek fun ts => isBrace ts || isLifetime ts then
      pure (some (← atom g true))
    else pure none
  match first? with
  | some first =>
    if ← peek fun ts => (isOp "." ts && !isOp ".." ts) || isOp "?" ts then
      let e ← trailers g first
      operators g true .jump e
    else return first
  | none =>
    let e ← g (.unary true)
    operators g true .jump e

end Grammar
end Instrumentation.Source
