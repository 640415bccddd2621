import Instrumentation.Proofs.Bodies
import Instrumentation.Proofs.Lexical

/-!
What the grammar prints is made of the tokens of texts, production by production, and so are the
types that it hands out with the items of a file.
-/
namespace Instrumentation.Source

/-! ### Types that are handed out -/

namespace Contents

instance writtenType : Contents WrittenType := ⟨fun t => MadeOfTokens t.trees⟩

instance writtenType? : Contents (Option WrittenType) := .option WrittenType

instance param : Contents Param := ⟨fun p => MadeOfTokens p.type.trees⟩

instance params : Contents (List Param) := .list Param

instance signature : Contents Signature := ⟨fun s => lexical s.params ∧ lexical s.output⟩

instance function : Contents Function := ⟨fun f => lexical f.sig⟩

instance function? : Contents (Option Function) := .option Function

instance functions : Contents (List Function) := .list Function

instance functions? : Contents (List (Option Function)) := .list (Option Function)

end Contents

namespace Contents

instance item : Contents Item := ⟨fun i => ∀ site ∈ i.sites, lexical site⟩

instance items : Contents (List Item) := .list Item

instance file : Contents File := ⟨fun f => lexical f.items⟩

end Contents

namespace Grammar

open scoped Source.Lexical

instance : Contents (List ListEntry) :=
  ⟨fun es => ∀ e ∈ es, MadeOfTokens e.trees ∧ MadeOfTokens e.comma⟩

instance : Contents Parameter := ⟨fun p => ∀ q, p = .typed q → Contents.lexical q⟩

instance : Contents (Option Parameter) := .option Parameter

instance : Contents Parameters := ⟨fun ps => Contents.lexical ps.typed⟩

instance : Contents ImplHeader := ⟨fun h => Contents.lexical h.target⟩

theorem madeOfTokens_arranged {es : List ListEntry}
    (h : ∀ e ∈ es, MadeOfTokens e.trees ∧ MadeOfTokens e.comma) : MadeOfTokens (arranged es) := by
  have hcomma (b : Bool) : MadeOfTokens (if b then [] else [.mark ',' false 0]) := by
    cases b with
    | true => exact .nil
    | false =>
      intro l hl
      obtain rfl := List.mem_singleton.mp hl
      exact isToken_comma
  simp only [arranged]
  refine List.foldlRecOn (motive := fun (r : List Tree × Bool) => MadeOfTokens r.1) _ _ ?_
    fun r hr e he => ?_
  · refine MadeOfTokens.iff_forall.mpr fun t ht => ?_
    obtain ⟨e, he, ht⟩ := List.mem_flatMap.mp ht
    obtain ⟨htrees, hcomma⟩ := h e (List.mem_filter.mp he).1
    exact MadeOfTokens.iff_forall.mp (htrees.append hcomma) t ht
  · obtain ⟨htrees, hcomma'⟩ := h e (List.mem_filter.mp he).1
    exact ((hr.append (hcomma _)).append htrees).append hcomma'

/-- Parsers of nonterminals that print tokens. -/
class Tokenized (g : Grammar) : Prop where
  type : ∀ plus, Lexical (g (.type plus))
  expr : ∀ braces, Lexical (g (.expr braces))
  unary : ∀ braces, Lexical (g (.unary braces))
  early : Lexical (g .early)
  pattern : Lexical (g .pattern)
  bound : ∀ capture constant, Lexical (g (.bound capture constant))
  statements : Lexical (g .statements)
  item : Lexical (g .item)
  useTree : ∀ root, Lexical (g (.useTree root))

attribute [local instance] Tokenized.type Tokenized.expr Tokenized.unary Tokenized.early
  Tokenized.pattern Tokenized.bound Tokenized.statements Tokenized.item Tokenized.useTree

section

-- The rules of a production are as many as it has steps.
set_option synthInstance.maxSize 4096

variable {g : Grammar} [Tokenized g]

local instance : Lexical (block g) := by
  unfold block
  infer_instance

local instance : Lexical plainPath := by
  unfold plainPath
  infer_instance

local instance : Lexical (attributeValue g) := by
  unfold attributeValue
  infer_instance

local instance : Lexical (attributeBody g) := by
  unfold attributeBody
  infer_instance

local instance : Lexical (outerAttributes g) := by
  unfold outerAttributes
  infer_instance

local instance : Lexical (innerAttributes g) := by
  unfold innerAttributes
  infer_instance

local instance : Lexical (attributedBlock g) := by
  unfold attributedBlock
  infer_instance

local instance : Lexical (constArgument g) := by
  unfold constArgument
  infer_instance

/-! ### Lists in angle brackets -/

local instance {isLifetime : Bool} {ts comma : List Tree} {es : List ListEntry} [h : Lexical ts]
    [k : Lexical comma] [hs : Lexical es] :
    Lexical ((⟨isLifetime, ts, comma⟩ : ListEntry) :: es) :=
  ⟨List.forall_mem_cons.mpr ⟨⟨h.out, k.out⟩, hs.out⟩⟩

local instance : Lexical ([] : List ListEntry) := ⟨fun _ h => nomatch h⟩

local instance : Lexical ([] : List Tree) := ⟨MadeOfTokens.nil⟩

local instance {es : List ListEntry} [h : Lexical es] : Lexical (arranged es.reverse) :=
  ⟨madeOfTokens_arranged fun e he => h.out e (List.mem_reverse.mp he)⟩

local instance {entry : Parser Bool} [Lexical entry] : Lexical (angleList entry) := by
  unfold angleList
  infer_instance

local instance (wild : Bool) : Lexical (genericParam g wild) := by
  unfold genericParam
  infer_instance

local instance : Lexical (boundLifetimes g) := by
  unfold boundLifetimes
  infer_instance

local instance : Lexical (boundLifetimes? g) := by
  unfold boundLifetimes?
  infer_instance

local instance : Lexical (genericArgument g) := by
  unfold genericArgument
  refine .branch (l := .branch (l := .bind (k := .ofPlain (h := fun node => ?_))))
  split <;> infer_instance

local instance : Lexical (angleArguments g) := by
  unfold angleArguments
  infer_instance

local instance (inExpr : Bool) : Lexical (segment g inExpr) := by
  unfold segment
  infer_instance

local instance (inExpr : Bool) : Lexical (path g inExpr) := by
  unfold path
  infer_instance

local instance : Lexical (parenArguments g) := by
  unfold parenArguments
  infer_instance

local instance (constant : Bool) : Lexical (traitBound g constant) := by
  unfold traitBound
  dsimp -iota only
  infer_instance

local instance (capture constant : Bool) : Lexical (boundBody g capture constant) := by
  unfold boundBody
  dsimp -iota only
  infer_instance

local instance (inExpr : Bool) : Lexical (qualifiedPath g inExpr) := by
  unfold qualifiedPath
  infer_instance

local instance : Lexical (generics g) := by
  unfold generics
  infer_instance

local instance (stop : List Tree → Bool) : Lexical (boundsUntil g stop) := by
  unfold boundsUntil
  infer_instance

local instance : Lexical (whereClause g) := by
  unfold whereClause
  dsimp -iota only
  infer_instance

local instance : Lexical restriction := by
  unfold restriction
  infer_instance

local instance : Lexical visibility := by
  unfold visibility
  infer_instance

/-! ### Types -/

local instance (plus capture constant : Bool) (first : BoundNode) :
    Lexical (moreBounds g plus capture constant first) := by
  unfold moreBounds
  infer_instance

local instance (plus capture constant : Bool) : Lexical (bounds g plus capture constant) := by
  unfold bounds
  infer_instance

local instance (plus : Bool) (place : Blame) : Lexical (objectBounds g plus place) := by
  unfold objectBounds
  infer_instance

local instance : Lexical (plusBounds g) := by
  unfold plusBounds
  infer_instance

local instance (plus : Bool) : Lexical (parenType g plus) := by
  unfold parenType
  refine .bind (k := .ofPair (h := .ofPlain (h := fun _ => .ofPlain (h := fun form => ?_))))
  dsimp only
  split <;> infer_instance

local instance (first : Bool) : Lexical (pointerParam g first) := by
  unfold pointerParam
  infer_instance

local instance : Lexical callConvention? := by
  unfold callConvention?
  infer_instance

local instance : Lexical (pointerType g) := by
  unfold pointerType
  infer_instance

local instance (plus binder : Bool) : Lexical (pathType g plus binder) := by
  unfold pathType
  infer_instance

local instance (plus : Bool) : Lexical (typeBody g plus) := by
  unfold typeBody
  infer_instance

local instance {node : TypeNode} {ts : List Tree} {spellable : Bool} [h : Lexical ts] :
    Lexical (⟨node, ts, spellable⟩ : WrittenType) := ⟨h.out⟩

local instance {t : WrittenType} [h : Lexical t] : Lexical t.trees := ⟨h.out⟩

local instance (plus : Bool) : Lexical (writtenType g plus) := by
  unfold writtenType
  infer_instance

local instance : Lexical (resultType? g) := by
  unfold resultType?
  infer_instance

/-! ### Patterns -/

local instance {α : Type} [Contents α] {f : PatternNode → α}
    [h : ∀ name, Lexical (f (.binding name))]
    [k : ∀ dots, Lexical (f (.openRange dots))] [l : Lexical (f .other)] : Lexical f :=
  ⟨fun node _ => match node with
    | .binding name => (h name).out
    | .openRange dots => (k dots).out
    | .other => l.out⟩

local instance : Lexical (alternatives g) := by
  unfold alternatives
  dsimp -iota only
  infer_instance

local instance : Lexical member := by
  unfold member
  infer_instance

local instance : Lexical (fieldPattern g) := by
  unfold fieldPattern
  infer_instance

local instance : Lexical (rangeBound g) := by
  unfold rangeBound
  infer_instance

local instance (obsolete : Bool) : Lexical (rangeDots obsolete) := by
  unfold rangeDots
  infer_instance

local instance : Lexical (rangeTail g) := by
  unfold rangeTail
  infer_instance

local instance : Lexical (pathPattern g) := by
  unfold pathPattern
  dsimp -iota only
  infer_instance

local instance : Lexical (patternBody g) := by
  unfold patternBody
  dsimp -iota only
  infer_instance

/-! ### Expressions -/

theorem lexical_climb (braces : Bool) (fuel : Nat) :
    (∀ base left, Lexical (climb g braces fuel base left)) ∧
    (∀ base, Lexical (rightOperand g braces fuel base)) ∧
    (∀ base first, Lexical (stronger g braces fuel base first)) ∧
    Lexical (rangeEnd g braces fuel) := by
  induction fuel with
  | zero =>
    simp only [climb, rightOperand, stronger, rangeEnd]
    exact ⟨inferInstance, inferInstance, inferInstance, inferInstance⟩
  | succ fuel ih =>
    obtain ⟨hclimb, hright, hstronger, hrange⟩ := ih
    refine ⟨fun base left => ?_, fun base => ?_, fun base first => ?_, ?_⟩
    · rw [climb]
      dsimp -iota only
      infer_instance
    · rw [rightOperand]
      infer_instance
    · rw [stronger]
      infer_instance
    · rw [rangeEnd]
      infer_instance

local instance (braces : Bool) (base : Precedence) (first : ExprNode) :
    Lexical (operators g braces base first) := by
  have hclimb (fuel : Nat) := (lexical_climb (g := g) braces fuel).1
  unfold operators
  infer_instance

local instance (braces : Bool) : Lexical (exprBody g braces) := by
  unfold exprBody
  infer_instance

theorem madeOfTokens_fraction {parts : List String} (h : ∀ s ∈ parts, IsToken s.toList) (p : Nat) :
    MadeOfTokens ((parts.map fun s => Tree.literal s p).intersperse (.mark '.' false p)) := by
  have hmark : ∀ l ∈ (Tree.mark '.' false p).lexemes, IsToken l :=
    List.forall_mem_singleton.mpr isToken_dot
  have hpiece (s : String) (hs : s ∈ parts) : ∀ l ∈ (Tree.literal s p).lexemes, IsToken l :=
    List.forall_mem_singleton.mpr (h s hs)
  induction parts with
  | nil => exact .nil
  | cons s parts ih =>
    obtain ⟨-, hrest⟩ := List.forall_mem_cons.mp h
    have hs := hpiece s List.mem_cons_self
    have hparts := ih hrest fun s hs => hpiece s (List.mem_cons_of_mem _ hs)
    cases parts with
    | nil => exact MadeOfTokens.cons_iff.mpr ⟨hs, .nil⟩
    | cons s' parts =>
      simp only [List.map_cons, List.intersperse_cons_cons] at hparts ⊢
      exact MadeOfTokens.cons_iff.mpr ⟨hs, MadeOfTokens.cons_iff.mpr ⟨hmark, hparts⟩⟩

local instance : Lexical fractionIndices := by
  unfold fractionIndices
  refine .reprinted (h := .bind (k := .ofPlain (h := fun place => .bind (k := .ofPlain
    (h := fun t => ?_)))))
  cases t with
  | literal t p =>
    dsimp only
    split
    · next hdigits =>
      have hparts : ∀ s ∈ (t.splitOn ".").filter fun s => !s.isEmpty, IsToken s.toList := by
        intro s hs
        have hall := List.all_eq_true.mp (List.all_eq_true.mp hdigits s hs)
        have hne := (List.mem_filter.mp hs).2
        cases hcs : s.toList with
        | nil => simp [String.toList_eq_nil_iff.mp hcs] at hne
        | cons c cs => exact isToken_digits (hcs ▸ hall)
      have htrees := madeOfTokens_fraction hparts p
      refine .pure (h := ⟨trivial, ?_⟩)
      split
      · exact htrees.append (MadeOfTokens.cons_iff.mpr
          ⟨List.forall_mem_singleton.mpr isToken_dot, .nil⟩)
      · exact htrees
    · infer_instance
  | _ => infer_instance

local instance (first : ExprNode) : Lexical (trailers g first) := by
  unfold trailers
  infer_instance

local instance : Lexical label := by
  unfold label
  infer_instance

local instance : Lexical (structFields g) := by
  unfold structFields
  dsimp -iota only
  infer_instance

local instance (braces : Bool) : Lexical (pathExpr g braces) := by
  unfold pathExpr
  dsimp -iota only
  infer_instance

local instance (braces : Bool) : Lexical (closure g braces) := by
  unfold closure
  infer_instance

local instance : Lexical (ifExpr g) := by
  unfold ifExpr
  infer_instance

local instance : Lexical (arm g) := by
  unfold arm
  infer_instance

local instance : Lexical (matchExpr g) := by
  unfold matchExpr
  infer_instance

local instance : Lexical (whileExpr g) := by
  unfold whileExpr
  infer_instance

local instance : Lexical (forExpr g) := by
  unfold forExpr
  infer_instance

local instance : Lexical (loopExpr g) := by
  unfold loopExpr
  infer_instance

local instance : Lexical (labeled g) := by
  unfold labeled
  infer_instance

local instance (braces : Bool) : Lexical (operand? g braces) := by
  unfold operand?
  infer_instance

local instance (braces : Bool) : Lexical (breakExpr g braces) := by
  unfold breakExpr
  infer_instance

local instance : Lexical (parenExpr g) := by
  unfold parenExpr
  infer_instance

local instance : Lexical (arrayExpr g) := by
  unfold arrayExpr
  infer_instance

local instance (braces : Bool) : Lexical (letExpr g braces) := by
  unfold letExpr
  infer_instance

local instance (braces : Bool) : Lexical (atom g braces) := by
  have hrange (fuel : Nat) := (lexical_climb (g := g) braces fuel).2.2.2
  unfold atom
  have hrange (fuel : Nat) := (lexical_climb (g := g) braces fuel).2.2.2
  infer_instance

local instance (braces : Bool) : Lexical (unaryBody g braces) := by
  unfold unaryBody
  dsimp -iota only
  infer_instance

local instance : Lexical (earlyBody g) := by
  unfold earlyBody
  infer_instance

/-! ### Statements -/

local instance : Lexical macroStart := by
  unfold macroStart
  infer_instance

local instance : Lexical endsInBrace := by
  unfold endsInBrace
  infer_instance

local instance : Lexical (letStatement g) := by
  unfold letStatement
  infer_instance

local instance : Lexical (statement g) := by
  unfold statement
  infer_instance

local instance : Lexical (statementsBody g) := by
  unfold statementsBody
  infer_instance

/-! ### Functions -/

local instance {kind : SelfKind} {pos : Blame} : Lexical (Parameter.receiver kind pos) :=
  ⟨fun _ h => nomatch h⟩

local instance {q : Param} [h : Lexical q] : Lexical (Parameter.typed q) :=
  ⟨fun _ hq => by cases hq; exact h.out⟩

local instance : Lexical Parameter.variadic := ⟨fun _ h => nomatch h⟩

local instance {name : Option String} {t : WrittenType} [h : Lexical t] :
    Lexical (⟨name, t⟩ : Param) :=
  ⟨h.out⟩

local instance {α : Type} [Contents α] {f : Parameter → α}
    [h : ∀ kind pos, Lexical (f (.receiver kind pos))] [k : Lexical fun q => f (.typed q)]
    [l : Lexical (f .variadic)] : Lexical f :=
  ⟨fun p hp => match p with
    | .receiver kind pos => (h kind pos).out
    | .typed q => k.out q (hp q rfl)
    | .variadic => l.out⟩

local instance {kind : SelfKind} {ps : List Param} [h : Lexical ps] :
    Lexical (⟨kind, ps⟩ : Parameters) := ⟨h.out⟩

local instance {ps : Parameters} [h : Lexical ps] : Lexical ps.typed := ⟨h.out⟩

local instance {name : Parser.Name} {isConst isAsync : Bool} {kind : SelfKind} {ps : List Param}
    {t : Option WrittenType} [h : Lexical ps] [k : Lexical t] :
    Lexical (⟨name, isConst, isAsync, kind, ps, t⟩ : Signature) := ⟨h.out, k.out⟩

local instance : Lexical (receiver g) := by
  unfold receiver
  infer_instance

local instance : Lexical (parameter g) := by
  unfold parameter
  refine .bind (h := .attempt_option inferInstance)
    (k := .ofOptional (.of fun _ _ => inferInstance) ?_)
  dsimp only
  infer_instance

local instance : Lexical (parameters g) := by
  unfold parameters
  infer_instance

local instance (allowSafe : Bool) : Lexical (signature g allowSafe) := by
  unfold signature
  infer_instance

local instance : Lexical (body g) := by
  unfold body
  infer_instance

/-! ### Items -/

local instance {attrs : List Attribute} {isPub : Bool} {sig : Signature} {body : Body}
    [h : Lexical sig] :
    Lexical (⟨attrs, isPub, sig, body⟩ : Function) := ⟨h.out⟩

local instance {f : Function} [h : Lexical f] : Lexical (Item.function f) := ⟨by
  intro site hsite
  obtain rfl := List.mem_singleton.mp hsite
  exact ⟨fun _ ht => (nomatch ht), h.out⟩⟩

local instance {t : WrittenType} {traitName : Option String} {fs : List Function} [h : Lexical t]
    [hs : Lexical fs] : Lexical (Item.implementation t traitName fs) := ⟨by
  intro site hsite
  obtain ⟨f, hf, rfl⟩ := List.mem_map.mp hsite
  exact ⟨fun _ ht => Option.some.inj ht ▸ h.out, hs.out f hf⟩⟩

local instance {name : String} {fs : List Function} : Lexical (Item.trait name fs) :=
  ⟨fun _ h => nomatch h⟩

local instance {attrs : List Attribute} {isPub : Bool} {name : String} :
    Lexical (Item.outline attrs isPub name) := ⟨fun _ h => nomatch h⟩

local instance {isPub : Bool} {name : String} {items : List Item} [h : Lexical items] :
    Lexical (Item.inline isPub name items) := ⟨by
  intro site hsite
  obtain ⟨item, hitem, hsite⟩ := mem_sitesIn.mp hsite
  exact h.out item hitem site hsite⟩

local instance {ts : List Tree} : Lexical (Item.evaluated ts) := ⟨fun _ h => nomatch h⟩

local instance : Lexical Item.other := ⟨fun _ h => nomatch h⟩

local instance {o : Option Function} [h : Lexical o] :
    Lexical ((o.map Item.function).getD .other) := ⟨by
  cases o with
  | none => exact (inferInstance : Lexical Item.other).out
  | some f =>
    have hf : Lexical f := ⟨h.out f rfl⟩
    exact (inferInstance : Lexical (Item.function f)).out⟩

local instance {o : Option (List Tree)} : Lexical (evaluatedOrOther o) := by
  cases o <;> exact ⟨fun _ h => nomatch h⟩

local instance {fs : List (Option Function)} [h : Lexical fs] : Lexical (fs.filterMap id) := ⟨by
  intro f hf
  obtain ⟨o, ho, heq⟩ := List.mem_filterMap.mp hf
  exact h.out o ho f heq⟩

local instance {p : Parser (Option Function)} [h : Lexical p] :
    Lexical (Parser.many p) := .many_list h

local instance {p : Parser Item} [h : Lexical p] : Lexical (Parser.many p) := .many_list h

local instance {t : WrittenType} {traitName : Option String} {isKept : Bool} [h : Lexical t] :
    Lexical (⟨t, traitName, isKept⟩ : ImplHeader) := ⟨h.out⟩

local instance {header : ImplHeader} [h : Lexical header] : Lexical header.target := ⟨h.out⟩

local instance : Lexical macroRest := by
  unfold macroRest
  infer_instance

local instance : Lexical (constant g) := by
  unfold constant
  infer_instance

local instance : Lexical (static g) := by
  unfold static
  infer_instance

local instance (whereBefore whereAfter : Bool) : Lexical (typeAlias g whereBefore whereAfter) := by
  unfold typeAlias
  infer_instance

local instance (attrs : List Attribute) (isPub : Bool) : Lexical (functionRest g attrs isPub) := by
  unfold functionRest
  infer_instance

local instance (attrs : List Attribute) : Lexical (method g attrs) := by
  unfold method
  infer_instance

local instance : Lexical (implItem g) := by
  unfold implItem
  infer_instance

local instance : Lexical (implHeader g) := by
  unfold implHeader
  infer_instance

local instance : Lexical (implementation g) := by
  unfold implementation
  infer_instance

local instance : Lexical (traitItem g) := by
  unfold traitItem
  infer_instance

local instance (allowAlias : Bool) : Lexical (traitRest g allowAlias) := by
  unfold traitRest
  infer_instance

local instance (attrs : List Attribute) : Lexical (moduleItem g attrs) := by
  unfold moduleItem
  infer_instance

local instance : Lexical (namedField g) := by
  unfold namedField
  infer_instance

local instance : Lexical (namedFields g) := by
  unfold namedFields
  infer_instance

local instance : Lexical (tupleFields g) := by
  unfold tupleFields
  infer_instance

local instance : Lexical (structRest g) := by
  unfold structRest
  infer_instance

local instance : Lexical (variant g) := by
  unfold variant
  infer_instance

local instance (root : Bool) : Lexical (useTreeBody g root) := by
  let next (rooted : Bool) : Parser Unit := g (.useTree (root && !rooted))
  have hnext (rooted : Bool) : Lexical (next rooted) := Tokenized.useTree _
  have hrest : Lexical fun rooted => next rooted := inferInstance
  unfold useTreeBody
  dsimp -iota only
  infer_instance

local instance : Lexical (foreignItem g) := by
  unfold foreignItem
  infer_instance

local instance : Lexical (foreignBlock g) := by
  unfold foreignBlock
  infer_instance

local instance : Lexical macroItem := by
  unfold macroItem
  infer_instance

local instance : Lexical (externItem g) := by
  unfold externItem
  infer_instance

local instance (attrs : List Attribute) : Lexical (unsafeItem g attrs) := by
  unfold unsafeItem
  refine .bind (k := .ofPlain (h := fun next => ?_))
  split <;> infer_instance

local instance (attrs : List Attribute) : Lexical (itemRest g attrs) := by
  unfold itemRest
  infer_instance

local instance : Lexical (itemBody g) := by
  unfold itemBody
  infer_instance


/-! ### All layers -/

instance tokenized_layer (n : Nat) : Tokenized (layer n) := by
  induction n with
  | zero =>
    have hfail {α : Type} [Contents α] : Lexical (Parser.fail : Parser α) := inferInstance
    exact ⟨fun _ => hfail, fun _ => hfail, fun _ => hfail, hfail, hfail, fun _ _ => hfail, hfail,
      hfail, fun _ => hfail⟩
  | succ n ih =>
    refine ⟨fun plus => ?_, fun braces => ?_, fun braces => ?_, ?_, ?_, fun capture constant => ?_,
      ?_, ?_, fun root => ?_⟩
    all_goals
      simp only [layer, rule]
      infer_instance

theorem lexical_parsers {s : Nonterminal} [Contents s.Result] (h : ∀ n, Lexical (layer n s)) :
    Lexical (parsers s) :=
  ⟨fun _ _ _ hrun hrest hprinted => by
    rw [parsers_run] at hrun
    exact (h _).out hrun hrest hprinted⟩

instance tokenized_parsers : Tokenized parsers where
  type plus := lexical_parsers fun _ => Tokenized.type plus
  expr braces := lexical_parsers fun _ => Tokenized.expr braces
  unary braces := lexical_parsers fun _ => Tokenized.unary braces
  early := lexical_parsers fun _ => Tokenized.early
  pattern := lexical_parsers fun _ => Tokenized.pattern
  bound capture constant := lexical_parsers fun _ => Tokenized.bound capture constant
  statements := lexical_parsers fun _ => Tokenized.statements
  item := lexical_parsers fun _ => Tokenized.item
  useTree root := lexical_parsers fun _ => Tokenized.useTree root

local instance {attrs : List Attribute} {items : List Item} [h : Lexical items] :
    Lexical (⟨attrs, items⟩ : File) := ⟨h.out⟩

theorem lexical_file : Lexical (file parsers) := by
  unfold file
  infer_instance

theorem lexical_writtenType : Lexical (writtenType parsers true) := inferInstance

end

/-- What is read from the trees of a text holds tokens of texts alone. -/
theorem lexical_of_readAll {α : Type} [Contents α] {p : Grammar → Parser α}
    (h : Lexical (p parsers)) {pos : Nat} {cs : List Char} {ts : List Tree}
    (htrees : treesFrom pos cs = .ok ts) {a : α} (hread : readAll p ts = .ok a) :
    Contents.lexical a := by
  simp only [readAll] at hread
  split at hread
  · cases hread
  · next a' d hrun =>
    split at hread
    · cases hread
    · cases hread
      exact (h.out hrun (fun l hl => ⟨pos, cs, ts, htrees, hl⟩) MadeOfTokens.nil).1

end Grammar

/-- A type is written with tokens. -/
theorem WrittenType.isToken_of_read {text : String} {t : WrittenType}
    (h : WrittenType.read text = .ok t) : MadeOfTokens t.trees := by
  simp only [WrittenType.read] at h
  split at h
  · cases h
  · next ts htrees => exact Grammar.lexical_of_readAll Grammar.lexical_writtenType htrees h

/-- The types of a file are written with tokens. -/
theorem File.isToken_of_read {code : List Char} {file : File} (h : File.read code = .ok file)
    {site : Option WrittenType × Function} (hsite : site ∈ sitesIn file.items) :
    Contents.lexical site := by
  simp only [File.read] at h
  split at h
  · cases h
  · next ts htrees =>
    have hfile : Contents.lexical file := Grammar.lexical_of_readAll Grammar.lexical_file htrees h
    obtain ⟨item, hitem, hsite⟩ := mem_sitesIn.mp hsite
    exact hfile item hitem site hsite

end Instrumentation.Source
