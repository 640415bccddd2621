import Instrumentation.Proofs.Reading
import Instrumentation.Source.Grammar.File

/-!
Where the items of a file stand. They come one after the other, behind the inner attributes, and so
do the functions in them: each body is a block of the text, with something before it.
-/
namespace Instrumentation.Source

open Text (At Boundary byteLength)
open Widens (widen)

mutual
/-- The functions with a body that an item holds. -/
def Item.functions : Item → List Function
  | .function f => [f]
  | .implementation _ _ methods => methods
  | .trait _ methods => methods
  | .inline _ _ items => functionsIn items
  | .outline _ _ _ => []
  | .evaluated _ => []
  | .other => []

def functionsIn : List Item → List Function
  | [] => []
  | item :: items => item.functions ++ functionsIn items
end

mutual
/-- The functions of an item that rules may target, with the types they are implemented for. -/
def Item.sites : Item → List (Option WrittenType × Function)
  | .function f => [(none, f)]
  | .implementation target _ methods => methods.map fun f => (some target, f)
  | .inline _ _ items => sitesIn items
  | .trait _ _ => []
  | .outline _ _ _ => []
  | .evaluated _ => []
  | .other => []

def sitesIn : List Item → List (Option WrittenType × Function)
  | [] => []
  | item :: items => item.sites ++ sitesIn items
end

theorem mem_sitesIn {items : List Item} {site : Option WrittenType × Function} :
    site ∈ sitesIn items ↔ ∃ item ∈ items, site ∈ item.sites := by
  induction items with
  | nil => simp [sitesIn]
  | cons item items ih => simp [sitesIn, ih]

mutual
theorem Item.snd_mem_functions {item : Item} {site : Option WrittenType × Function}
    (h : site ∈ item.sites) : site.2 ∈ item.functions := by
  cases item with
  | function f =>
    obtain rfl := List.mem_singleton.mp h
    exact List.mem_singleton_self f
  | implementation target traitName methods =>
    obtain ⟨f, hf, rfl⟩ := List.mem_map.mp h
    exact hf
  | inline isPub name items => exact snd_mem_functionsIn h
  | trait | outline | evaluated | other => cases h

theorem snd_mem_functionsIn {items : List Item} {site : Option WrittenType × Function}
    (h : site ∈ sitesIn items) : site.2 ∈ functionsIn items := by
  cases items with
  | nil => cases h
  | cons item items =>
    rcases List.mem_append.mp h with h | h
    · exact List.mem_append_left _ (item.snd_mem_functions h)
    · exact List.mem_append_right _ (snd_mem_functionsIn h)
end

/-- A function between two offsets: its body is a block, with something before it. -/
structure Function.Stands (text : List Char) (lo : Nat) (f : Function) (hi : Nat) : Prop where
  behind : lo < f.body.start
  block : IsBlock text f.body.start (f.body.stop - 1)
  within : f.body.stop ≤ hi

theorem Function.Stands.braces {text : List Char} {lo hi : Nat} {f : Function}
    (h : f.Stands text lo hi) : Braces text f.body.start f.body.stop :=
  h.block.braces

mutual
/-- An item between two offsets. A module that it declares has a name. -/
def Item.Stands (text : List Char) : (lo : Nat) → Item → (hi : Nat) → Prop
  | lo, .function f, hi => f.Stands text lo hi
  | lo, .implementation _ _ methods, hi => InOrder (Function.Stands text) lo methods hi
  | lo, .trait _ methods, hi => InOrder (Function.Stands text) lo methods hi
  | lo, .inline _ _ items, hi => StandIn text lo items hi
  | lo, .outline _ _ name, hi => lo ≤ hi ∧ name ≠ ""
  | lo, .evaluated _, hi => lo ≤ hi
  | lo, .other, hi => lo ≤ hi

/-- Items between two offsets, one after the other. -/
def StandIn (text : List Char) : (lo : Nat) → List Item → (hi : Nat) → Prop
  | lo, [], hi => lo ≤ hi
  | lo, item :: items, hi => ∃ mid, lo ≤ mid ∧ item.Stands text lo mid ∧ StandIn text mid items hi
end

section

variable {text : List Char}

theorem standIn_iff {lo hi : Nat} {items : List Item} :
    StandIn text lo items hi ↔ InOrder (Item.Stands text) lo items hi := by
  induction items generalizing lo with
  | nil => exact Iff.rfl
  | cons item items ih => simp only [StandIn, InOrder, ih]

instance : Widens (Function.Stands text) where
  widen h hlo hhi := ⟨Nat.lt_of_le_of_lt hlo h.behind, h.block, Nat.le_trans h.within hhi⟩

mutual
theorem Item.Stands.widened {lo lo' hi hi' : Nat} {item : Item} (h : item.Stands text lo hi)
    (hlo : lo' ≤ lo) (hhi : hi ≤ hi') : item.Stands text lo' hi' := by
  cases item with
  | function f => exact widen (R := Function.Stands text) h hlo hhi
  | implementation target traitName methods =>
    exact widen (R := InOrder (Function.Stands text)) h hlo hhi
  | trait name methods => exact widen (R := InOrder (Function.Stands text)) h hlo hhi
  | inline isPub name items => exact StandIn.widened h hlo hhi
  | outline attrs isPub name => exact ⟨Nat.le_trans hlo (Nat.le_trans h.1 hhi), h.2⟩
  | evaluated trees => exact Nat.le_trans hlo (Nat.le_trans h hhi)
  | other => exact Nat.le_trans hlo (Nat.le_trans h hhi)

theorem StandIn.widened {lo lo' hi hi' : Nat} {items : List Item} (h : StandIn text lo items hi)
    (hlo : lo' ≤ lo) (hhi : hi ≤ hi') : StandIn text lo' items hi' := by
  cases items with
  | nil => exact Nat.le_trans hlo (Nat.le_trans h hhi)
  | cons item items =>
    obtain ⟨mid, hmid, hitem, hitems⟩ := h
    exact ⟨mid, Nat.le_trans hlo hmid, hitem.widened hlo (Nat.le_refl _),
      hitems.widened (Nat.le_refl _) hhi⟩
end

instance : Widens (Item.Stands text) where
  widen := Item.Stands.widened

mutual
/-- The functions of an item stand in the text in their order. -/
theorem Item.Stands.inOrder {lo hi : Nat} {item : Item} (h : item.Stands text lo hi)
    (hle : lo ≤ hi) : InOrder (Function.Stands text) lo item.functions hi := by
  cases item with
  | function f => exact .singleton hle h
  | implementation target traitName methods => exact h
  | trait name methods => exact h
  | inline isPub name items => exact StandIn.inOrder h
  | outline attrs isPub name => exact hle
  | evaluated trees => exact hle
  | other => exact hle

theorem StandIn.inOrder {lo hi : Nat} {items : List Item} (h : StandIn text lo items hi) :
    InOrder (Function.Stands text) lo (functionsIn items) hi := by
  cases items with
  | nil => exact h
  | cons item items =>
    obtain ⟨mid, hmid, hitem, hitems⟩ := h
    exact (hitem.inOrder hmid).append hitems.inOrder
end

end

namespace Grammar

variable {text : List Char}

/-! ### Functions -/

/-- A signature has the word `fn` in it. -/
theorem gives_signature (g : Grammar) (allowSafe : Bool) :
    Gives text (signature g allowSafe) Moves := by
  have hfn {α : Type} (f : Unit → Parser α) : Gives text (Parser.keyword "fn" >>= f) Moves :=
    .before (.keyword "fn") f
  unfold signature
  refine .after fun isConst => .after fun isAsync => ?_
  dsimp only
  split
  · refine .after fun safe => ?_
    split
    · exact .after fun _ => .after fun _ => hfn _
    · exact .after fun _ => hfn _
  · refine .after fun safe => ?_
    split
    · exact .after fun _ => .after fun _ => hfn _
    · exact .after fun _ => hfn _

theorem gives_body (g : Grammar) : Gives text (body g) fun lo r hi =>
    lo ≤ r.2.start ∧ IsBlock text r.2.start (r.2.stop - 1) ∧ r.2.stop = hi := by
  unfold body
  refine .map (.inside (.any _)) fun lo r hi _ h => ?_
  obtain ⟨hstart, -, hstop, -, hblock, -⟩ := h
  exact ⟨hstart, hblock rfl, hstop⟩

theorem gives_functionRest (g : Grammar) (attrs : List Attribute) (isPub : Bool) :
    Gives text (functionRest g attrs isPub) (IfAny (Function.Stands text)) := by
  unfold functionRest
  refine .bind (gives_signature g false) fun sig => .bind (.any _) fun ended => ?_
  split
  · refine .pure fun hi mid hmid _ lo hlo _ => ⟨Nat.le_trans hlo hmid, ?_⟩
    exact fun f hf => nomatch hf
  · refine .map (gives_body g) fun lo₂ r hi hle hbody lo₁ hle₁ _ lo hle hmoves => ?_
    refine ⟨by omega, fun f hf => ?_⟩
    obtain rfl := Option.some.inj hf
    have hlt : lo < lo₁ := hmoves
    exact ⟨Nat.lt_of_lt_of_le hlt (Nat.le_trans hle₁ hbody.1), hbody.2.1, Nat.le_of_eq hbody.2.2⟩

/-- No function. -/
theorem gives_noFunction :
    Gives text (pure none) (IfAny (Function.Stands text)) :=
  .pure fun lo => ⟨Nat.le_refl lo, fun _ h => nomatch h⟩

theorem gives_implItem (g : Grammar) :
    Gives text (implItem g) (IfAny (Function.Stands text)) := by
  unfold implItem
  refine .after fun attrs => .after fun r => ?_
  obtain ⟨vis, hasDefault, isFn, isConst, isType, isMacro, place⟩ := r
  dsimp only
  split
  · unfold method
    exact .after fun vis => .after fun _ => gives_functionRest g attrs _
  -- No other item is kept.
  · repeat' first
      | exact .failAt
      | exact gives_noFunction
      | refine .after fun _ => ?_
      | split

theorem gives_traitItem (g : Grammar) :
    Gives text (traitItem g) (IfAny (Function.Stands text)) := by
  unfold traitItem
  refine .after fun attrs => .after fun vis => .after fun hasDefault => .after fun isFn => ?_
  split
  · refine .map (gives_functionRest g attrs true) fun lo f hi hle hf => ?_
    split
    · exact hf
    · exact ⟨hle, fun _ h => nomatch h⟩
  -- No other item is kept.
  · repeat' first
      | exact .fail
      | exact gives_noFunction
      | refine .after fun _ => ?_
      | split

/-! ### Items -/

theorem gives_other : Gives text (pure .other) (Item.Stands text) := .pure Nat.le_refl

theorem gives_implementation (g : Grammar) :
    Gives text (implementation g) (Item.Stands text) := by
  unfold implementation
  refine .after fun header => ?_
  refine .map (.within (.after fun _ => .many (gives_implItem g))) fun lo r hi hle hmethods => ?_
  split
  · exact hmethods.filterMap
  · exact hle

theorem gives_traitRest (g : Grammar) (allowAlias : Bool) :
    Gives text (traitRest g allowAlias) (Item.Stands text) := by
  have hmethods {name : Parser.Name} : Gives text (do
      let _ ← whereClause g
      let methods ← Parser.inside .brace do
        let _ ← innerAttributes g
        Parser.many (traitItem g)
      return Item.trait name.text (methods.2.filterMap id)) (Item.Stands text) := by
    refine .after fun _ => ?_
    exact .map (.within (.after fun _ => .many (gives_traitItem g))) fun _ _ _ _ h => h.filterMap
  unfold traitRest
  refine .after fun _ => .after fun name => .after fun _ => .after fun _ => ?_
  dsimp only
  split
  · exact .after fun _ => .after fun _ => .after fun _ => .after fun _ => gives_other
  · refine .after fun hasBounds => ?_
    split
    · exact .after fun _ => hmethods
    · exact hmethods

theorem gives_macroItem : Gives text macroItem (Item.Stands text) := by
  have hend {named : Bool} {trees : List Tree} :
      Gives text (pure (if named then Item.evaluated trees else .other)) (Item.Stands text) := by
    refine .pure fun lo => ?_
    cases named <;> exact Nat.le_refl lo
  unfold macroItem
  repeat' first
    | exact hend
    | refine .after fun _ => ?_
    | refine .ite ?_ ?_

theorem gives_evaluatedOrOther (value : Option (List Tree)) :
    Gives text (pure (evaluatedOrOther value)) (Item.Stands text) := by
  cases value <;> exact .pure Nat.le_refl

section

variable {g : Grammar} (hitem : Gives text (g .item) (Item.Stands text))

include hitem

theorem gives_moduleItem (attrs : List Attribute) :
    Gives text (moduleItem g attrs) (Item.Stands text) := by
  have hitems {vis : Visibility} {name : Parser.Name} (hname : name.text ≠ "") : Gives text (do
      if ← Parser.op? ";" then return .outline attrs (vis == .pub) name.text
      let items ← Parser.inside .brace do
        let _ ← innerAttributes g
        Parser.many (g .item)
      return .inline (vis == .pub) name.text items.2) (Item.Stands text) := by
    refine .after fun _ => ?_
    split
    · exact .pure fun lo => ⟨Nat.le_refl lo, hname⟩
    · refine .map (.within (.after fun _ => .many hitem)) fun lo r hi _ h => ?_
      exact standIn_iff.mpr h
  unfold moduleItem
  refine .after fun vis => .after fun _ => .after fun _ => .after fun _ => ?_
  dsimp only
  split
  · exact .knowing .anyWord fun name hname => hitems hname
  · exact .knowing .ident fun name hname => hitems hname

theorem gives_unsafeItem (attrs : List Attribute) :
    Gives text (unsafeItem g attrs) (Item.Stands text) := by
  unfold unsafeItem
  refine .after fun next => ?_
  split
  · exact .after fun _ => .after fun _ => .after fun _ => gives_traitRest g false
  · exact gives_implementation g
  · exact .after fun _ => .after fun _ => gives_other
  · exact gives_moduleItem hitem attrs

theorem gives_itemRest (attrs : List Attribute) :
    Gives text (itemRest g attrs) (Item.Stands text) := by
  unfold itemRest
  refine .after fun r => ?_
  obtain ⟨vis, ts, place⟩ := r
  dsimp only
  refine .ite ?_ ?_
  · refine .after fun _ => .map (gives_functionRest g attrs _) fun lo f hi hle hf => ?_
    cases f with
    | none => exact hle
    | some f => exact hf.2 f rfl
  -- The other kinds of items, in turn.
  · repeat' first
      | exact gives_implementation g
      | exact gives_unsafeItem hitem attrs
      | exact gives_moduleItem hitem attrs
      | exact gives_traitRest g _
      | exact gives_macroItem
      | exact gives_evaluatedOrOther _
      | exact .failAt
      | exact gives_other
      | refine .after fun _ => ?_
      | refine .ite ?_ ?_

end

/-- The items of every layer stand where they are read. -/
theorem gives_layer (n : Nat) : Gives text (layer n .item) (Item.Stands text) := by
  induction n with
  | zero => exact .fail
  | succ n ih => exact .after fun attrs => gives_itemRest ih attrs

theorem gives_parsers : Gives text (parsers .item) (Item.Stands text) := by
  intro c d item lo hi hrun hl
  rw [parsers_run] at hrun
  exact gives_layer _ hrun hl

/-! ### Files -/

/-- An attribute ends between two characters, and before what follows it. -/
structure AttributeEnds (text : List Char) (lo : Nat) (a : Attribute) (hi : Nat) : Prop where
  boundary : Boundary text a.stop
  behind : lo < a.stop
  within : a.stop ≤ hi

instance : Widens (AttributeEnds text) where
  widen h hlo hhi := ⟨h.boundary, Nat.lt_of_le_of_lt hlo h.behind, Nat.le_trans h.within hhi⟩

theorem gives_attributeBody (g : Grammar) : Gives text (attributeBody g) (AttributeEnds text) := by
  unfold attributeBody
  refine .map (.inside (.any _)) fun lo r hi _ h => ?_
  obtain ⟨hstart, hlt, rfl, hboundary, -⟩ := h
  exact ⟨hboundary, Nat.lt_of_le_of_lt hstart hlt, Nat.le_refl _⟩

theorem gives_innerAttributes (g : Grammar) :
    Gives text (innerAttributes g) (InOrder (AttributeEnds text)) := by
  unfold innerAttributes
  refine .collected fun attrs => .bind (.any _) fun starts => ?_
  split
  · refine .bind (.any _) fun _ => .bind (.any _) fun _ => ?_
    refine .map (gives_attributeBody g) fun lo a hi hle h lo₁ hle₁ _ lo₂ hle₂ _ lo₃ hle₃ _ => ?_
    have hlo : lo₃ ≤ lo := Nat.le_trans hle₃ (Nat.le_trans hle₂ hle₁)
    exact .inr ⟨a, widen h hlo (Nat.le_refl _), rfl⟩
  · exact .pure fun _ _ _ _ => .inl rfl

/-- A file that was read: its inner attributes end at some offset, and its items stand behind. -/
theorem gives_file : Gives text (file parsers) fun lo f hi => ∃ mid, lo ≤ mid ∧
    (∀ a ∈ f.innerAttrs, AttributeEnds text lo a mid) ∧ StandIn text mid f.items hi := by
  unfold file
  refine .bind (gives_innerAttributes _) fun attrs => ?_
  refine .map (.many gives_parsers) fun mid items hi _ hitems lo hle hattrs => ?_
  exact ⟨mid, hle, fun a ha => hattrs.mem ha, standIn_iff.mpr hitems⟩

end Grammar

theorem loaderLine_starts (cs : List Char) : loaderLine cs <+: cs := by
  unfold loaderLine
  split
  · exact List.takeWhile_prefix _
  · exact List.nil_prefix

theorem loaderLine_append (cs : List Char) :
    loaderLine cs ++ cs.drop (loaderLine cs).length = cs :=
  List.prefix_iff_eq_append.mp (loaderLine_starts cs)

/-- A file that was read is what the grammar gives for trees that stand in the text, behind a line
for the loader. -/
theorem File.exists_run {cs : List Char} {file : File} (h : File.read cs = .ok file) :
    ∃ trees d, Laid cs (byteLength (loaderLine cs)) trees (byteLength cs) ∧
      (Grammar.file Grammar.parsers).run { rest := trees, close := none } = .ok (file, d) := by
  have hline : At cs (byteLength (loaderLine cs)) (cs.drop (loaderLine cs).length) :=
    ⟨loaderLine cs, (loaderLine_append cs).symm, rfl⟩
  simp only [File.read] at h
  split at h
  · cases h
  · next trees htrees =>
    simp only [Grammar.readAll] at h
    split at h
    · cases h
    · next f d hrun =>
      split at h
      · cases h
      · cases h
        exact ⟨trees, d, laid_treesFrom hline htrees, hrun⟩

/-- The inner attributes of a file end behind a line for the loader and before its items, which stand
one after the other. -/
theorem File.stands_of_read {cs : List Char} {file : File} (h : File.read cs = .ok file) :
    ∃ mid, byteLength (loaderLine cs) ≤ mid ∧
      (∀ a ∈ file.innerAttrs, Grammar.AttributeEnds cs (byteLength (loaderLine cs)) a mid) ∧
      StandIn cs mid file.items (byteLength cs) := by
  obtain ⟨trees, d, hlaid, hrun⟩ := File.exists_run h
  obtain ⟨hi, -, hrest, mid, hmid, hattrs, hstand⟩ := Grammar.gives_file hrun hlaid
  exact ⟨mid, hmid, hattrs, hstand.widened (Nat.le_refl _) hrest.le⟩

end Instrumentation.Source
