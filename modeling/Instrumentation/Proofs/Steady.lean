import Instrumentation.Proofs.Parallel
import Instrumentation.Source.Grammar.File

/-!
The grammar looks at trees and not at their offsets: production by production, parsers run side by
side on trees that differ in their offsets alone hand out nodes that differ in their offsets alone.
-/
namespace Instrumentation.Source

/-- Two patterns with the same form. -/
inductive PatternNode.Alike : PatternNode → PatternNode → Prop
  | binding (name : String) : PatternNode.Alike (.binding name) (.binding name)
  | openRange (dots dots' : Blame) : PatternNode.Alike (.openRange dots) (.openRange dots')
  | other : PatternNode.Alike .other .other

/-- Two types that are written with the same trees. -/
structure WrittenType.Alike (t u : WrittenType) : Prop where
  node : t.node = u.node
  trees : bareIn t.trees = bareIn u.trees
  spellable : t.spellable = u.spellable

/-- Where an attribute ends is not looked at by what it belongs to. -/
structure Attribute.Alike (a b : Attribute) : Prop where
  path : a.path = b.path
  value : a.value = b.value

structure Param.Alike (p q : Param) : Prop where
  name : p.name = q.name
  type : p.type.Alike q.type

section

variable (R : Nat → Nat → Prop)

structure Signature.Alike (s t : Signature) : Prop where
  name : s.name.Alike R t.name
  isConst : s.isConst = t.isConst
  isAsync : s.isAsync = t.isAsync
  receiver : s.receiver = t.receiver
  params : List.Forall₂ Param.Alike s.params t.params
  output : Option.Rel WrittenType.Alike s.output t.output

structure Body.Alike (b c : Body) : Prop where
  start : R b.start c.start
  close : R (b.stop - 1) (c.stop - 1)
  trees : bareIn b.trees = bareIn c.trees

structure Function.Alike (f g : Function) : Prop where
  attrs : List.Forall₂ Attribute.Alike f.attrs g.attrs
  isPub : f.isPub = g.isPub
  sig : f.sig.Alike R g.sig
  body : f.body.Alike R g.body

/-- Two items that differ in their offsets alone. -/
inductive Item.Alike : Item → Item → Prop
  | function {f g : Function} (h : f.Alike R g) : Item.Alike (.function f) (.function g)
  | implementation {t u : WrittenType} {traitName : Option String} {fs gs : List Function}
      (h : t.Alike u) (hs : List.Forall₂ (Function.Alike R) fs gs) :
      Item.Alike (.implementation t traitName fs) (.implementation u traitName gs)
  | trait {name : String} {fs gs : List Function} (hs : List.Forall₂ (Function.Alike R) fs gs) :
      Item.Alike (.trait name fs) (.trait name gs)
  | outline {as bs : List Attribute} {isPub : Bool} {name : String}
      (h : List.Forall₂ Attribute.Alike as bs) :
      Item.Alike (.outline as isPub name) (.outline bs isPub name)
  | inline {isPub : Bool} {name : String} {is js : List Item}
      (h : List.Forall₂ Item.Alike is js) :
      Item.Alike (.inline isPub name is) (.inline isPub name js)
  | evaluated {ts us : List Tree} (h : bareIn ts = bareIn us) :
      Item.Alike (.evaluated ts) (.evaluated us)
  | other : Item.Alike .other .other

end

namespace Offsets

instance trees? : Offsets (Option (List Tree)) := .option (List Tree)

instance pattern : Offsets PatternNode := ⟨fun _ => PatternNode.Alike⟩

instance patterns : Offsets (List PatternNode) := .list PatternNode

instance attr : Offsets Attribute := ⟨fun _ => Attribute.Alike⟩

instance attrs : Offsets (List Attribute) := .list Attribute

instance writtenType : Offsets WrittenType := ⟨fun _ => WrittenType.Alike⟩

instance writtenType? : Offsets (Option WrittenType) := .option WrittenType

instance param : Offsets Param := ⟨fun _ => Param.Alike⟩

instance params : Offsets (List Param) := .list Param

instance signature : Offsets Signature := ⟨Signature.Alike⟩

instance body : Offsets Body := ⟨Body.Alike⟩

instance function : Offsets Function := ⟨Function.Alike⟩

instance function? : Offsets (Option Function) := .option Function

instance functions : Offsets (List Function) := .list Function

instance functions? : Offsets (List (Option Function)) := .list (Option Function)

instance item : Offsets Item := ⟨Item.Alike⟩

instance items : Offsets (List Item) := .list Item

end Offsets

namespace Grammar

open scoped Source.Alike

/-- An entry without its offsets. -/
def ListEntry.bare (e : ListEntry) : ListEntry := ⟨e.isLifetime, bareIn e.trees, bareIn e.comma⟩

/-- Entries are put one behind the other in the same way without their offsets. -/
theorem bareIn_foldl {put : List Tree × Bool → ListEntry → List Tree × Bool}
    (h : ∀ r e, put (bareIn r.1, r.2) e.bare = (bareIn (put r e).1, (put r e).2))
    (es : List ListEntry) (r : List Tree × Bool) : bareIn (es.foldl put r).1 =
      ((es.map ListEntry.bare).foldl put (bareIn r.1, r.2)).1 := by
  induction es generalizing r with
  | nil => rfl
  | cons e es ih => rw [List.foldl_cons, ih, List.map_cons, List.foldl_cons, h]

theorem bareIn_arranged (es : List ListEntry) :
    bareIn (arranged es) = arranged (es.map ListEntry.bare) := by
  have hempty (ts : List Tree) : (bareIn ts).isEmpty = ts.isEmpty := Blind.bareIn ts
  have hlifetimes : (es.map ListEntry.bare).filter ListEntry.isLifetime =
      (es.filter ListEntry.isLifetime).map ListEntry.bare := List.filter_map
  have hothers : (es.map ListEntry.bare).filter (fun e => !e.isLifetime) =
      (es.filter fun e => !e.isLifetime).map ListEntry.bare := List.filter_map
  have hstart (es : List ListEntry) : bareIn (es.flatMap fun e => e.trees ++ e.comma) =
      (es.map ListEntry.bare).flatMap fun e => e.trees ++ e.comma := by
    induction es with
    | nil => rfl
    | cons e es ih => simp [ih, ListEntry.bare]
  simp only [arranged]
  rw [bareIn_foldl]
  · rw [hstart, hlifetimes, hothers]
    congr 3
    rw [List.getLast?_map]
    cases (es.filter ListEntry.isLifetime).getLast? with
    | none => rfl
    | some e => simp [ListEntry.bare, hempty]
  · rintro ⟨trees, closed⟩ e
    simp only [ListEntry.bare, bareIn_append, hempty]
    cases closed <;> rfl

instance : Offsets (List ListEntry) :=
  ⟨fun _ es fs => es.map ListEntry.bare = fs.map ListEntry.bare⟩

/-- Two parameters that differ in their offsets alone. -/
inductive Parameter.Alike : Parameter → Parameter → Prop
  | receiver (kind : SelfKind) (pos pos' : Blame) :
      Parameter.Alike (.receiver kind pos) (.receiver kind pos')
  | typed {p q : Param} (h : p.Alike q) : Parameter.Alike (.typed p) (.typed q)
  | variadic : Parameter.Alike .variadic .variadic

structure Parameters.Alike (ps qs : Parameters) : Prop where
  receiver : ps.receiver = qs.receiver
  typed : List.Forall₂ Param.Alike ps.typed qs.typed

structure ImplHeader.Alike (h h' : ImplHeader) : Prop where
  target : h.target.Alike h'.target
  traitName : h.traitName = h'.traitName
  isKept : h.isKept = h'.isKept

instance : Offsets Parameter := ⟨fun _ => Parameter.Alike⟩

instance : Offsets (Option Parameter) := .option Parameter

instance : Offsets Parameters := ⟨fun _ => Parameters.Alike⟩

instance : Offsets ImplHeader := ⟨fun _ => ImplHeader.Alike⟩

/-- Parsers of nonterminals that do not look at offsets. -/
class Steady (R : Nat → Nat → Prop) (g : Grammar) : Prop where
  type : ∀ plus, Alike R (g (.type plus)) (g (.type plus))
  expr : ∀ braces, Alike R (g (.expr braces)) (g (.expr braces))
  unary : ∀ braces, Alike R (g (.unary braces)) (g (.unary braces))
  early : Alike R (g .early) (g .early)
  pattern : Alike R (g .pattern) (g .pattern)
  bound : ∀ capture constant, Alike R (g (.bound capture constant)) (g (.bound capture constant))
  statements : Alike R (g .statements) (g .statements)
  item : Alike R (g .item) (g .item)
  useTree : ∀ root, Alike R (g (.useTree root)) (g (.useTree root))

attribute [local instance] Steady.type Steady.expr Steady.unary Steady.early Steady.pattern
  Steady.bound Steady.statements Steady.item Steady.useTree

section

-- The rules of a production are as many as it has steps.
set_option synthInstance.maxSize 4096

variable {R : Nat → Nat → Prop} {g : Grammar} [Steady R g]

/-! ### Paths and attributes -/

local instance : Alike R (block g) (block g) := by
  unfold block
  exact .bind (k := .ofPair (h := .of fun _ _ _ => inferInstance))

local instance : Alike R plainPath plainPath := by
  unfold plainPath
  infer_instance

local instance : Alike R (attributeValue g) (attributeValue g) := by
  unfold attributeValue
  infer_instance

local instance {path path' : PathNode} {value value' : Option String} {stop stop' : Nat}
    [h : Alike R path path'] [h' : Alike R value value'] :
    Alike R (⟨path, value, stop⟩ : Attribute) ⟨path', value', stop'⟩ := ⟨h.out, h'.out⟩

local instance : Alike R (attributeBody g) (attributeBody g) := by
  unfold attributeBody
  exact .bind (k := .ofPair (h := .of fun _ _ _ => .ofPair))

local instance : Alike R (outerAttributes g) (outerAttributes g) := by
  unfold outerAttributes
  refine .bind (h := .repeating (h := .of fun as bs _ => ?_)) (k := .of fun _ _ _ => inferInstance)
  exact .branch (k := .bind_of fun _ _ _ => inferInstance)

local instance : Alike R (innerAttributes g) (innerAttributes g) := by
  unfold innerAttributes
  refine .bind (h := .repeating (h := .of fun as bs _ => ?_)) (k := .of fun _ _ _ => inferInstance)
  refine .branch (k := .seq (k := .seq (k := ?_)))
  exact .bind_of fun _ _ _ => inferInstance

local instance : Alike R (attributedBlock g) (attributedBlock g) := by
  unfold attributedBlock
  exact .bind (k := .ofPair (h := .of fun _ _ _ => inferInstance))

local instance : Alike R (constArgument g) (constArgument g) := by
  unfold constArgument
  infer_instance

/-! ### Lists in angle brackets -/

local instance : Alike R ([] : List ListEntry) [] := ⟨rfl⟩

local instance {isLifetime : Bool} {ts us comma comma' : List Tree} {es fs : List ListEntry}
    [h : Alike R ts us] [h' : Alike R comma comma'] [hs : Alike R es fs] :
    Alike R ((⟨isLifetime, ts, comma⟩ : ListEntry) :: es) (⟨isLifetime, us, comma'⟩ :: fs) := ⟨by
  have hts : bareIn ts = bareIn us := h.out
  have hcomma : bareIn comma = bareIn comma' := h'.out
  simp only [Offsets.alike, List.map_cons, ListEntry.bare, hts, hcomma]
  exact congrArg _ hs.out⟩

local instance {es fs : List ListEntry} [h : Alike R es fs] :
    Alike R (arranged es.reverse) (arranged fs.reverse) := ⟨by
  have hes : es.map ListEntry.bare = fs.map ListEntry.bare := h.out
  simp only [Offsets.alike, bareIn_arranged, List.map_reverse, hes]⟩

local instance {entry : Parser Bool} [Alike R entry entry] :
    Alike R (angleList entry) (angleList entry) := by
  unfold angleList
  refine .seq (k := .bind (h := .reprinted (h := .bind
    (h := .repeating (h := .of fun es fs _ => ?_)) (k := .of fun _ _ _ => inferInstance))))
  refine .branch (l := .bind (k := .ofPair (h := .ofPlain
    (h := fun isLifetime => .of fun ts us _ => ?_))))
  exact .branch (l := .bind (k := .ofPair (h := .ofPlain
    (h := fun _ => .of fun _ _ _ => inferInstance))))

local instance (wild : Bool) : Alike R (genericParam g wild) (genericParam g wild) := by
  unfold genericParam
  infer_instance

local instance : Alike R (boundLifetimes g) (boundLifetimes g) := by
  unfold boundLifetimes
  infer_instance

local instance : Alike R (boundLifetimes? g) (boundLifetimes? g) := by
  unfold boundLifetimes?
  infer_instance

local instance : Alike R (genericArgument g) (genericArgument g) := by
  unfold genericArgument
  refine .branch (l := .branch (l := .bind (k := .ofPlain (h := fun node => ?_))))
  split <;> infer_instance

local instance : Alike R (angleArguments g) (angleArguments g) := by
  unfold angleArguments
  infer_instance

local instance (inExpr : Bool) : Alike R (segment g inExpr) (segment g inExpr) := by
  unfold segment
  infer_instance

local instance (inExpr : Bool) : Alike R (path g inExpr) (path g inExpr) := by
  unfold path
  infer_instance

local instance : Alike R (parenArguments g) (parenArguments g) := by
  unfold parenArguments
  infer_instance

local instance (constant : Bool) : Alike R (traitBound g constant) (traitBound g constant) := by
  unfold traitBound
  dsimp -iota only
  infer_instance

local instance (capture constant : Bool) :
    Alike R (boundBody g capture constant) (boundBody g capture constant) := by
  unfold boundBody
  dsimp -iota only
  infer_instance

local instance (inExpr : Bool) : Alike R (qualifiedPath g inExpr) (qualifiedPath g inExpr) := by
  unfold qualifiedPath
  infer_instance

local instance : Alike R (generics g) (generics g) := by
  unfold generics
  infer_instance

local instance : Blind startsGenerics := by
  delta startsGenerics
  infer_instance

local instance (stop : List Tree → Bool) [Blind stop] :
    Alike R (boundsUntil g stop) (boundsUntil g stop) := by
  unfold boundsUntil
  infer_instance

local instance : Blind endsPredicates := by
  delta endsPredicates
  infer_instance

local instance : Alike R (whereClause g) (whereClause g) := by
  unfold whereClause
  dsimp -iota only
  infer_instance

local instance : Alike R restriction restriction := by
  unfold restriction
  infer_instance

local instance : Blind fun ts => match ts with
    | .group _ _ _ inner :: _ => isKeyword "in" inner
    | _ => false := .of_first fun t ts => by
  cases t with
  | group d start stop inside => exact Blind.bareIn (f := isKeyword "in") inside
  | _ => rfl

local instance : Alike R visibility visibility := by
  unfold visibility
  infer_instance

/-! ### Types -/

local instance (constant : Bool) : Blind (startsBound constant) := by
  delta startsBound
  infer_instance

local instance (plus capture constant : Bool) (first : BoundNode) :
    Alike R (moreBounds g plus capture constant first)
      (moreBounds g plus capture constant first) := by
  unfold moreBounds
  infer_instance

local instance (plus capture constant : Bool) :
    Alike R (bounds g plus capture constant) (bounds g plus capture constant) := by
  unfold bounds
  infer_instance

local instance (plus : Bool) (place place' : Blame) :
    Alike R (objectBounds g plus place) (objectBounds g plus place') := by
  unfold objectBounds
  infer_instance

local instance : Alike R (plusBounds g) (plusBounds g) := by
  unfold plusBounds
  infer_instance

local instance (plus : Bool) : Alike R (parenType g plus) (parenType g plus) := by
  unfold parenType
  refine .bind (k := .ofPair (h := .of (fun _ _ _ => .ofPlain (h := fun form => ?_))))
  dsimp only
  split <;> infer_instance

local instance : Blind isVariadic := by
  delta isVariadic
  infer_instance

local instance (first : Bool) : Alike R (pointerParam g first) (pointerParam g first) := by
  unfold pointerParam
  infer_instance

local instance : Alike R callConvention? callConvention? := by
  unfold callConvention?
  infer_instance

local instance : Alike R (pointerType g) (pointerType g) := by
  unfold pointerType
  infer_instance

local instance : Blind followsBinder := by
  delta followsBinder
  infer_instance

local instance (plus binder : Bool) :
    Alike R (pathType g plus binder) (pathType g plus binder) := by
  unfold pathType
  infer_instance

local instance (plus : Bool) : Alike R (typeBody g plus) (typeBody g plus) := by
  unfold typeBody
  infer_instance

local instance (plus : Bool) : Alike R (writtenType g plus) (writtenType g plus) := by
  unfold writtenType
  exact .bind (k := .ofPair (h := .ofPair (h := .ofPlain (h := fun _ => .of fun _ _ h =>
    .ofPlain (h := fun _ => .pure (h := ⟨rfl, h.out, rfl⟩))))))

local instance {node node' : TypeNode} {ts us : List Tree} {spellable : Bool}
    [h : Alike R node node']
    [hs : Alike R ts us] : Alike R (⟨node, ts, spellable⟩ : WrittenType) ⟨node', us, spellable⟩ :=
  ⟨h.out, hs.out, rfl⟩

local instance {α : Type} [Offsets α] {f f' : WrittenType → α}
    [h : ∀ node spellable, Alike R (fun ts => f ⟨node, ts, spellable⟩)
      fun ts => f' ⟨node, ts, spellable⟩] : Alike R f f' := ⟨by
  rintro ⟨node, ts, spellable⟩ ⟨_, us, _⟩ ⟨rfl, hts, rfl⟩
  exact (h node spellable).out ts us hts⟩

local instance : Alike R (resultType? g) (resultType? g) := by
  unfold resultType?
  exact .branch (k := .bind_of fun _ _ h => .pure (h := ⟨.some h.out⟩))
    (l := .pure (h := ⟨.none⟩))

/-! ### Patterns -/

local instance : Alike R PatternNode.other PatternNode.other := ⟨.other⟩

local instance (name : String) : Alike R (PatternNode.binding name) (.binding name) :=
  ⟨.binding name⟩

local instance (dots dots' : Blame) : Alike R (PatternNode.openRange dots) (.openRange dots') :=
  ⟨.openRange dots dots'⟩

local instance {α : Type} [Offsets α] {f f' : PatternNode → α}
    [h : ∀ name, Alike R (f (.binding name)) (f' (.binding name))]
    [k : ∀ dots dots', Alike R (f (.openRange dots)) (f' (.openRange dots'))]
    [l : Alike R (f .other) (f' .other)] : Alike R f f' := ⟨by
  rintro _ _ (⟨name⟩ | ⟨dots, dots'⟩ | _)
  · exact (h name).out
  · exact (k dots dots').out
  · exact l.out⟩

local instance : Alike R (alternatives g) (alternatives g) := by
  unfold alternatives
  dsimp -iota only
  infer_instance

local instance {sep : String} {p q : Parser PatternNode} [h : Alike R p q] :
    Alike R (Parser.terminated sep p) (Parser.terminated sep q) := .terminated_list h

local instance : Blind fun ts => match ts with
    | .literal t _ :: _ => t.toList.all Char.isDigit
    | _ => false := .of_first fun t ts => by cases t <;> rfl

local instance : Alike R member member := by
  unfold member
  infer_instance

local instance : Alike R (fieldPattern g) (fieldPattern g) := by
  unfold fieldPattern
  infer_instance

local instance : Alike R (rangeBound g) (rangeBound g) := by
  unfold rangeBound
  infer_instance

local instance (obsolete : Bool) : Alike R (rangeDots obsolete) (rangeDots obsolete) := by
  unfold rangeDots
  infer_instance

local instance : Alike R (rangeTail g) (rangeTail g) := by
  unfold rangeTail
  infer_instance

local instance : Alike R (pathPattern g) (pathPattern g) := by
  unfold pathPattern
  dsimp -iota only
  infer_instance

local instance : Alike R (patternBody g) (patternBody g) := by
  unfold patternBody
  dsimp -iota only
  infer_instance

/-! ### Expressions -/

local instance : Blind binaryOperator? where
  bareIn ts := by
    have hop (x : String × Precedence) : isOp x.1 (bareIn ts) = isOp x.1 ts := Blind.bareIn ts
    exact congrArg (binaryOperators.find? ·) (funext hop)

local instance : Blind isAssign := by
  delta isAssign
  infer_instance

local instance : Blind nextPrecedence where
  bareIn ts := by
    simp only [nextPrecedence, Blind.bareIn (f := binaryOperator?), Blind.bareIn (f := isAssign),
      Blind.bareIn (f := isOp ".."), Blind.bareIn (f := isKeyword "as")]

local instance (braces : Bool) : Blind (endsRange braces) := by
  delta endsRange
  infer_instance

local instance : Blind extendsCast := by
  delta extendsCast
  infer_instance

theorem alike_climb (braces : Bool) (fuel : Nat) :
    (∀ base left, Alike R (climb g braces fuel base left) (climb g braces fuel base left)) ∧
    (∀ base, Alike R (rightOperand g braces fuel base) (rightOperand g braces fuel base)) ∧
    (∀ base first,
      Alike R (stronger g braces fuel base first) (stronger g braces fuel base first)) ∧
    Alike R (rangeEnd g braces fuel) (rangeEnd g braces fuel) := by
  induction fuel with
  | zero =>
    simp only [climb, rightOperand, stronger, rangeEnd]
    exact ⟨inferInstance, inferInstance, inferInstance, inferInstance⟩
  | succ fuel ih =>
    obtain ⟨hclimb, hright, hstronger, hrange⟩ := ih
    refine ⟨fun base left => ?_, fun base => ?_, fun base first => ?_, ?_⟩
    · rw [climb]
      dsimp -iota only
      infer_instance
    · rw [rightOperand]
      infer_instance
    · rw [stronger]
      infer_instance
    · rw [rangeEnd]
      infer_instance

local instance (braces : Bool) (base : Precedence) (first : ExprNode) :
    Alike R (operators g braces base first) (operators g braces base first) := by
  have hclimb (fuel : Nat) := (alike_climb (R := R) (g := g) braces fuel).1
  unfold operators
  infer_instance

local instance (braces : Bool) : Alike R (exprBody g braces) (exprBody g braces) := by
  unfold exprBody
  infer_instance

local instance : Blind startsExpr := by
  delta startsExpr
  infer_instance

/-- The pieces of a fraction, at whatever offset. -/
theorem bareIn_fraction (parts : List String) (p : Nat) :
    bareIn ((parts.map fun s => Tree.literal s p).intersperse (.mark '.' false p)) =
      (parts.map fun s => Tree.literal s 0).intersperse (.mark '.' false 0) := by
  induction parts with
  | nil => rfl
  | cons s parts ih =>
    cases parts with
    | nil => rfl
    | cons t parts =>
      simp only [List.map_cons, List.intersperse_cons_cons, bareIn, Tree.bare] at ih ⊢
      rw [ih]

local instance : Alike R fractionIndices fractionIndices := by
  unfold fractionIndices
  refine .reprinted (h := .bind (k := .of (fun place place' _ => .bind_of fun t u h => ?_)))
  cases h.out with
  | @literal t p q =>
    dsimp only
    split
    · refine .pure (h := ⟨rfl, ?_⟩)
      simp only [Offsets.alike]
      split <;> simp [bareIn_fraction, bareIn, Tree.bare]
    · infer_instance
  | _ => exact .failAt

local instance : Blind fun ts => match ts with
    | .literal t _ :: _ => isFloat t
    | _ => false := .of_first fun t ts => by cases t <;> rfl

local instance (first : ExprNode) : Alike R (trailers g first) (trailers g first) := by
  unfold trailers
  dsimp -iota only
  infer_instance

local instance : Alike R label label := by
  unfold label
  infer_instance

local instance : Alike R (structFields g) (structFields g) := by
  unfold structFields
  dsimp -iota only
  infer_instance

local instance (braces : Bool) : Alike R (pathExpr g braces) (pathExpr g braces) := by
  unfold pathExpr
  dsimp -iota only
  infer_instance

local instance (braces : Bool) : Alike R (closure g braces) (closure g braces) := by
  unfold closure
  infer_instance

local instance : Alike R (ifExpr g) (ifExpr g) := by
  unfold ifExpr
  infer_instance

local instance : Alike R (arm g) (arm g) := by
  unfold arm
  infer_instance

local instance : Alike R (matchExpr g) (matchExpr g) := by
  unfold matchExpr
  infer_instance

local instance : Alike R (whileExpr g) (whileExpr g) := by
  unfold whileExpr
  infer_instance

local instance : Alike R (forExpr g) (forExpr g) := by
  unfold forExpr
  infer_instance

local instance : Alike R (loopExpr g) (loopExpr g) := by
  unfold loopExpr
  infer_instance

local instance : Alike R (labeled g) (labeled g) := by
  unfold labeled
  infer_instance

local instance (braces : Bool) : Alike R (operand? g braces) (operand? g braces) := by
  unfold operand?
  infer_instance

local instance (braces : Bool) : Alike R (breakExpr g braces) (breakExpr g braces) := by
  unfold breakExpr
  infer_instance

local instance : Alike R (parenExpr g) (parenExpr g) := by
  unfold parenExpr
  infer_instance

local instance : Alike R (arrayExpr g) (arrayExpr g) := by
  unfold arrayExpr
  infer_instance

local instance (braces : Bool) : Alike R (letExpr g braces) (letExpr g braces) := by
  unfold letExpr
  infer_instance

local instance : Blind startsBinder := by
  delta startsBinder
  infer_instance

local instance (braces : Bool) : Alike R (atom g braces) (atom g braces) := by
  have hrange (fuel : Nat) := (alike_climb (R := R) (g := g) braces fuel).2.2.2
  unfold atom
  infer_instance

local instance (braces : Bool) : Alike R (unaryBody g braces) (unaryBody g braces) := by
  unfold unaryBody
  dsimp -iota only
  refine .bind_of fun as bs h => ?_
  have hempty : as.isEmpty = bs.isEmpty := by cases h.out <;> rfl
  rw [hempty]
  infer_instance

local instance : Alike R (earlyBody g) (earlyBody g) := by
  unfold earlyBody
  infer_instance

/-! ### Statements -/

local instance : Blind startsItem := by
  delta startsItem
  infer_instance

local instance : Alike R macroStart macroStart := by
  unfold macroStart
  exact .bind (h := .ahead (h := .attempt_option inferInstance))
    (k := .ofOptional inferInstance inferInstance)

theorem endsInBrace_eq : endsInBrace = Parser.asks fun c => isBrace c.printed := by
  unfold endsInBrace
  congr 1
  funext c
  unfold isBrace isGroup
  cases c.printed with
  | nil => rfl
  | cons t ts =>
    cases t with
    | group d => cases d <;> rfl
    | _ => rfl

local instance : Alike R endsInBrace endsInBrace := by
  rw [endsInBrace_eq]
  refine .asks fun old old' hold c d hcd => ?_
  obtain ⟨ts, us, hts, hus, hbare⟩ := hcd.printed
  have heq : isBrace ts = isBrace us := Blind.eq_of_alike hbare
  have hlen := congrArg List.isEmpty hbare
  rw [Blind.bareIn (f := List.isEmpty), Blind.bareIn (f := List.isEmpty)] at hlen
  rw [hts, hus]
  -- The last tree was printed in between, or else before.
  cases ts with
  | nil =>
    cases us with
    | nil => exact hold
    | cons => cases hlen
  | cons t ts =>
    cases us with
    | nil => cases hlen
    | cons u us =>
      have hfirst (t : Tree) (ts us : List Tree) : isBrace (t :: ts) = isBrace (t :: us) := by
        cases t <;> rfl
      exact (hfirst t _ ts).trans (heq.trans (hfirst u us _))

local instance : Alike R (letStatement g) (letStatement g) := by
  unfold letStatement
  infer_instance

local instance : Alike R (statement g) (statement g) := by
  unfold statement
  infer_instance

local instance : Alike R (statementsBody g) (statementsBody g) := by
  unfold statementsBody
  infer_instance

/-! ### Functions -/

/-- What is passed over is decided by what the trees look like. -/
theorem ite_bareIn (test : List Tree → Bool) [Blind test] {f g : List Tree → List Tree}
    (hf : ∀ ts, f (bareIn ts) = bareIn (f ts)) (hg : ∀ ts, g (bareIn ts) = bareIn (g ts))
    (ts : List Tree) : (if test (bareIn ts) then f (bareIn ts) else g (bareIn ts)) =
      bareIn (if test ts then f ts else g ts) := by
  rw [Blind.bareIn (f := test)]
  split
  · exact hf ts
  · exact hg ts

local instance (allowSafe : Bool) : Blind (startsFunction allowSafe) where
  bareIn ts := by
    have hdrop (ts : List Tree) : (bareIn ts).drop 1 = bareIn (ts.drop 1) := by cases ts <;> rfl
    have hkeyword (k : String) := ite_bareIn (g := fun ts => ts) (isKeyword k) hdrop
      fun _ => rfl
    have hsafe := ite_bareIn (g := fun ts => if isKeyword "unsafe" ts then ts.drop 1 else ts)
      (isKeyword "safe") hdrop (hkeyword "unsafe")
    have hconvention := ite_bareIn (g := fun ts => ts) (isKeyword "extern")
      (f := fun ts => if isLitText (ts.drop 1) then (ts.drop 1).drop 1 else ts.drop 1) (fun ts => by
        rw [hdrop]
        exact ite_bareIn (g := fun ts => ts) isLitText hdrop (fun _ => rfl) (ts.drop 1))
      fun _ => rfl
    cases allowSafe
    · simp only [startsFunction, Bool.false_and, Bool.false_eq_true, ↓reduceIte, hkeyword,
        hconvention, Blind.bareIn (f := isKeyword "fn")]
    · simp only [startsFunction, Bool.true_and, hkeyword "const", hkeyword "async", hsafe,
        hconvention, Blind.bareIn (f := isKeyword "fn")]

local instance (kind : SelfKind) (pos pos' : Blame) :
    Alike R (Parameter.receiver kind pos) (.receiver kind pos') := ⟨.receiver kind pos pos'⟩

local instance {p q : Param} [h : Alike R p q] :
    Alike R (Parameter.typed p) (.typed q) := ⟨.typed h.out⟩

local instance {name : Option String} {t u : WrittenType} [h : Alike R t u] :
    Alike R (⟨name, t⟩ : Param) ⟨name, u⟩ := ⟨rfl, h.out⟩

local instance : Alike R Parameter.variadic Parameter.variadic := ⟨.variadic⟩

local instance {α : Type} [Offsets α] {f f' : Parameter → α}
    [h : ∀ kind pos pos', Alike R (f (.receiver kind pos)) (f' (.receiver kind pos'))]
    [k : Alike R (fun p => f (.typed p)) fun p => f' (.typed p)]
    [l : Alike R (f .variadic) (f' .variadic)] : Alike R f f' := ⟨by
  rintro _ _ (⟨kind, pos, pos'⟩ | ⟨hp⟩ | _)
  · exact (h kind pos pos').out
  · exact k.out _ _ hp
  · exact l.out⟩

local instance : Alike R (receiver g) (receiver g) := by
  unfold receiver
  infer_instance

local instance : Alike R (parameter g) (parameter g) := by
  unfold parameter
  refine .bind (h := .attempt_option inferInstance)
    (k := .ofOptional (.of fun _ _ _ => inferInstance) ?_)
  dsimp only
  infer_instance

local instance {kind kind' : SelfKind} {ps qs : List Param} [h : Alike R kind kind']
    [hs : Alike R ps qs] :
    Alike R (⟨kind, ps⟩ : Parameters) ⟨kind', qs⟩ := ⟨h.out, hs.out⟩

local instance {ps qs : Parameters} [h : Alike R ps qs] :
    @Alike R _ (.plain _) ps.receiver qs.receiver :=
  @Alike.mk R _ (.plain _) _ _ h.out.receiver

local instance {ps qs : Parameters} [h : Alike R ps qs] : Alike R ps.typed qs.typed := ⟨h.out.typed⟩

local instance {name name' : Parser.Name} {isConst isAsync : Bool} {kind kind' : SelfKind}
    {ps qs : List Param} {t u : Option WrittenType} [h : Alike R name name'] [h' : Alike R kind kind']
    [hs : Alike R ps qs] [k : Alike R t u] :
    Alike R (⟨name, isConst, isAsync, kind, ps, t⟩ : Signature)
      ⟨name', isConst, isAsync, kind', qs, u⟩ := ⟨h.out, rfl, rfl, h'.out, hs.out, k.out⟩

local instance {s t : Parser.GroupSpan} {ts us : List Tree} [h : Alike R s t] [hs : Alike R ts us] :
    Alike R (⟨s.start, s.stop, [.group .brace s.start s.stop ts]⟩ : Body)
      ⟨t.start, t.stop, [.group .brace t.start t.stop us]⟩ :=
  ⟨h.out.2.1, h.out.2.2, by simp [bareIn, Tree.bare, show bareIn ts = bareIn us from hs.out]⟩

local instance : Alike R (parameters g) (parameters g) := by
  unfold parameters
  refine .bind (h := .repeating (h := .of fun ps qs h => ?_))
  have hempty : ps.typed.isEmpty = qs.typed.isEmpty := by
    obtain ⟨kind, ps⟩ := ps
    obtain ⟨kind', qs⟩ := qs
    cases h.out.typed <;> rfl
  rw [h.out.receiver, hempty]
  infer_instance

local instance (allowSafe : Bool) : Alike R (signature g allowSafe) (signature g allowSafe) := by
  unfold signature
  infer_instance

local instance : Alike R (body g) (body g) := by
  unfold body
  infer_instance

/-! ### Items -/

local instance : Alike R macroRest macroRest := by
  unfold macroRest
  infer_instance

local instance : Blind startsMacro := by
  delta startsMacro
  infer_instance

local instance : Alike R (constant g) (constant g) := by
  unfold constant
  infer_instance

local instance : Alike R (static g) (static g) := by
  unfold static
  infer_instance

local instance (whereBefore whereAfter : Bool) :
    Alike R (typeAlias g whereBefore whereAfter) (typeAlias g whereBefore whereAfter) := by
  unfold typeAlias
  infer_instance

local instance {as bs : List Attribute} {isPub : Bool} {s t : Signature} {b c : Body}
    [h : Alike R as bs] [h' : Alike R s t] [k : Alike R b c] :
    Alike R (⟨as, isPub, s, b⟩ : Function) ⟨bs, isPub, t, c⟩ := ⟨h.out, rfl, h'.out, k.out⟩

local instance {as bs : List Attribute} [h : Alike R as bs] (isPub : Bool) :
    Alike R (functionRest g as isPub) (functionRest g bs isPub) := by
  unfold functionRest
  infer_instance

local instance {as bs : List Attribute} [h : Alike R as bs] :
    Alike R (method g as) (method g bs) := by
  unfold method
  infer_instance

local instance : Alike R (implItem g) (implItem g) := by
  unfold implItem
  infer_instance

local instance {f g : Function} [h : Alike R f g] : Alike R (Item.function f) (.function g) :=
  ⟨.function h.out⟩

local instance {t u : WrittenType} {traitName : Option String} {fs gs : List Function}
    [h : Alike R t u]
    [hs : Alike R fs gs] :
    Alike R (Item.implementation t traitName fs) (.implementation u traitName gs) :=
  ⟨.implementation h.out hs.out⟩

local instance {name : String} {fs gs : List Function} [hs : Alike R fs gs] :
    Alike R (Item.trait name fs) (.trait name gs) := ⟨.trait hs.out⟩

local instance {as bs : List Attribute} {isPub : Bool} {name : String} [h : Alike R as bs] :
    Alike R (Item.outline as isPub name) (.outline bs isPub name) := ⟨.outline h.out⟩

local instance {isPub : Bool} {name : String} {is js : List Item} [h : Alike R is js] :
    Alike R (Item.inline isPub name is) (.inline isPub name js) := ⟨.inline h.out⟩

local instance {ts us : List Tree} [h : Alike R ts us] :
    Alike R (Item.evaluated ts) (.evaluated us) :=
  ⟨.evaluated h.out⟩

local instance : Alike R Item.other Item.other := ⟨.other⟩

local instance {o o' : Option Function} [h : Alike R o o'] :
    Alike R ((o.map Item.function).getD .other) ((o'.map Item.function).getD .other) := ⟨by
  cases h.out with
  | some hf => exact .function hf
  | none => exact .other⟩

local instance {o o' : Option (List Tree)} [h : Alike R o o'] :
    Alike R (evaluatedOrOther o) (evaluatedOrOther o') := ⟨by
  cases h.out with
  | some hts => exact .evaluated hts
  | none => exact .other⟩

local instance {os os' : List (Option Function)} [h : Alike R os os'] :
    Alike R (os.filterMap id) (os'.filterMap id) := ⟨by
  induction h.out with
  | nil => exact .nil
  | cons ho _ ih =>
    cases ho with
    | some hf => exact .cons hf ih
    | none => exact ih⟩

local instance {p q : Parser (Option Function)} [h : Alike R p q] :
    Alike R (Parser.many p) (Parser.many q) :=
  .many_list h

local instance {p q : Parser Item} [h : Alike R p q] : Alike R (Parser.many p) (Parser.many q) :=
  .many_list h

local instance {t u : WrittenType} {traitName : Option String} {isKept : Bool} [h : Alike R t u] :
    Alike R (⟨t, traitName, isKept⟩ : ImplHeader) ⟨u, traitName, isKept⟩ := ⟨h.out, rfl, rfl⟩

local instance {α : Type} [Offsets α] {f f' : ImplHeader → α}
    [h : ∀ traitName isKept, Alike R (fun t => f ⟨t, traitName, isKept⟩)
      fun t => f' ⟨t, traitName, isKept⟩] : Alike R f f' := ⟨by
  rintro ⟨t, traitName, isKept⟩ ⟨u, _, _⟩ ⟨ht, rfl, rfl⟩
  exact (h traitName isKept).out t u ht⟩

local instance : Alike R (implHeader g) (implHeader g) := by
  unfold implHeader
  infer_instance

local instance : Alike R (implementation g) (implementation g) := by
  unfold implementation
  infer_instance

local instance : Alike R (traitItem g) (traitItem g) := by
  unfold traitItem
  infer_instance

local instance (allowAlias : Bool) : Alike R (traitRest g allowAlias) (traitRest g allowAlias) := by
  unfold traitRest
  infer_instance

local instance {as bs : List Attribute} [h : Alike R as bs] :
    Alike R (moduleItem g as) (moduleItem g bs) := by
  unfold moduleItem
  infer_instance

local instance : Alike R (namedField g) (namedField g) := by
  unfold namedField
  infer_instance

local instance : Alike R (namedFields g) (namedFields g) := by
  unfold namedFields
  infer_instance

local instance : Alike R (tupleFields g) (tupleFields g) := by
  unfold tupleFields
  infer_instance

local instance : Alike R (structRest g) (structRest g) := by
  unfold structRest
  infer_instance

local instance : Alike R (variant g) (variant g) := by
  unfold variant
  infer_instance

local instance (root : Bool) : Alike R (useTreeBody g root) (useTreeBody g root) := by
  let next (rooted : Bool) : Parser Unit := g (.useTree (root && !rooted))
  have hnext (rooted : Bool) : Alike R (next rooted) (next rooted) := Steady.useTree _
  have hrest : Alike R (fun rooted => next rooted) fun rooted => next rooted := inferInstance
  unfold useTreeBody
  dsimp -iota only
  infer_instance

local instance : Alike R (foreignItem g) (foreignItem g) := by
  unfold foreignItem
  infer_instance

local instance : Alike R (foreignBlock g) (foreignBlock g) := by
  unfold foreignBlock
  infer_instance

local instance : Alike R macroItem macroItem := by
  unfold macroItem
  infer_instance

local instance : Alike R (externItem g) (externItem g) := by
  unfold externItem
  infer_instance

local instance {as bs : List Attribute} [h : Alike R as bs] :
    Alike R (unsafeItem g as) (unsafeItem g bs) := by
  unfold unsafeItem
  refine .bind (k := .ofPlain (h := fun next => ?_))
  split <;> infer_instance

local instance {as bs : List Attribute} [h : Alike R as bs] :
    Alike R (itemRest g as) (itemRest g bs) := by
  unfold itemRest
  refine .bind (k := .ofPair (h := .ofPlain (h := fun vis => .ofPair (h := .of fun ts us hts =>
    .of fun _ _ _ => ?_))))
  have htest (test : List Tree → Bool) [Blind test] : test ts = test us := Blind.eq_of_alike hts.out
  have hkeyword (k : String) := htest (isKeyword k)
  dsimp only
  rw [htest (startsFunction false), htest startsMacro]
  simp only [hkeyword, htest (second _)]
  infer_instance

local instance : Alike R (itemBody g) (itemBody g) := by
  unfold itemBody
  infer_instance

/-! ### All layers -/

instance steady_layer (n : Nat) : Steady R (layer n) := by
  induction n with
  | zero =>
    have hfail {α : Type} [Offsets α] : Alike R (Parser.fail : Parser α) Parser.fail :=
      inferInstance
    exact ⟨fun _ => hfail, fun _ => hfail, fun _ => hfail, hfail, hfail, fun _ _ => hfail, hfail,
      hfail, fun _ => hfail⟩
  | succ n ih =>
    refine ⟨fun plus => ?_, fun braces => ?_, fun braces => ?_, ?_, ?_, fun capture constant => ?_,
      ?_, ?_, fun root => ?_⟩
    all_goals
      simp only [layer, rule]
      infer_instance

/-- The layer that is chosen does not depend on offsets, because it is chosen by size. -/
theorem alike_parsers {s : Nonterminal} [Offsets s.Result]
    (h : ∀ n, Alike R (layer n s) (layer n s)) : Alike R (parsers s) (parsers s) :=
  ⟨fun old old' hold c d hcd => by
    rw [parsers_run, parsers_run, depthFor, depthFor, hcd.rest.sizeIn_eq]
    exact (h _).out hold hcd⟩

instance steady_parsers : Steady R parsers where
  type plus := alike_parsers fun _ => Steady.type plus
  expr braces := alike_parsers fun _ => Steady.expr braces
  unary braces := alike_parsers fun _ => Steady.unary braces
  early := alike_parsers fun _ => Steady.early
  pattern := alike_parsers fun _ => Steady.pattern
  bound capture constant := alike_parsers fun _ => Steady.bound capture constant
  statements := alike_parsers fun _ => Steady.statements
  item := alike_parsers fun _ => Steady.item
  useTree root := alike_parsers fun _ => Steady.useTree root

end
end Grammar
end Instrumentation.Source
