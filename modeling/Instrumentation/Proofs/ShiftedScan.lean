import Instrumentation.Proofs.Bodies
import Instrumentation.Proofs.Offset
import Instrumentation.Proofs.Steady
import Instrumentation.Source.Scan

/-!
Scans of items that differ in their offsets alone. What is found is the same, with the offsets of
bodies shifted, as long as lines stay where they are.
-/
namespace Instrumentation

namespace Text

theorem startsFrom_add (pos d : Nat) (cs : List Char) :
    startsFrom (pos + d) cs = (startsFrom pos cs).map (· + d) := by
  induction cs generalizing pos with
  | nil => rfl
  | cons c cs ih =>
    by_cases hn : c = '\n'
    · simp [startsFrom, hn, ← ih, Nat.add_right_comm]
    · simp [startsFrom, hn, ← ih, Nat.add_right_comm]

theorem startsFrom_eq_nil {cs : List Char} (h : '\n' ∉ cs) (pos : Nat) :
    startsFrom pos cs = [] := by
  rw [← List.length_eq_zero_iff, length_startsFrom, List.count_eq_zero_of_not_mem h]

/-- What is put in without a line end leaves the lines behind it where they are. -/
theorem line_put {w : List Char} (hw : '\n' ∉ w) (before after : List Char) {n : Nat}
    (h : byteLength before ≤ n) :
    (lineCol (before ++ (w ++ after)) (n + byteLength w)).1 = (lineCol (before ++ after) n).1 := by
  have hshift : (fun start => decide (start ≤ n + byteLength w)) ∘ (· + byteLength w) =
      fun start => decide (start ≤ n) := by
    funext start
    simp
  rw [line_lineCol, line_lineCol, startsFrom_append, startsFrom_append, startsFrom_append,
    startsFrom_eq_nil hw, List.nil_append, startsFrom_add, List.countP_append, List.countP_append,
    List.countP_map, hshift, countP_startsFrom_of_le h, countP_startsFrom_of_le (by omega)]

end Text

namespace Source

/-- The declaration with its body `d` bytes further on. -/
def Declaration.shifted (d : Nat) (x : Declaration) : Declaration :=
  { x with bodyOpen := x.bodyOpen + d, bodyClose := x.bodyClose + d }

/-- The function with its body `d` bytes further on. -/
def FunctionSummary.shifted (d : Nat) (x : FunctionSummary) : FunctionSummary :=
  { x with bodyOpen := x.bodyOpen + d }

/-- What was found, with all bodies `d` bytes further on. -/
def Found.shifted (d : Nat) (x : Found) : Found :=
  { x with
    declarations := x.declarations.map (Declaration.shifted d)
    functions := x.functions.map (FunctionSummary.shifted d) }

@[simp] theorem Found.shifted_append (d : Nat) (x y : Found) :
    (x ++ y).shifted d = x.shifted d ++ y.shifted d := by
  have happend (a b : Found) : a ++ b = a.append b := rfl
  rw [happend, happend]
  simp [Found.append, Found.shifted]

theorem Found.shifted_foldl (d : Nat) (found : List Found) (a : Found) :
    (found.foldl (· ++ ·) a).shifted d =
      (found.map (Found.shifted d)).foldl (· ++ ·) (a.shifted d) := by
  induction found generalizing a with
  | nil => rfl
  | cons f found ih => rw [List.foldl_cons, ih, Found.shifted_append, List.map_cons, List.foldl_cons]

/-! ### What does not depend on offsets -/

theorem pastReference_bareIn (ts : List Tree) :
    pastReference (bareIn ts) = bareIn (pastReference ts) := by
  have hdrop (n : Nat) (us : List Tree) : (bareIn us).drop n = bareIn (us.drop n) := by
    rw [bareIn_eq_map, bareIn_eq_map, List.map_drop]
  simp only [pastReference, hdrop, Blind.bareIn (f := isLifetime)]
  split <;> simp only [hdrop, Blind.bareIn (f := isKeyword "mut")] <;> split <;> rfl

theorem lastSegment_bareIn (node : TypeNode) (ts : List Tree) :
    lastSegment node (bareIn ts) = lastSegment node ts := by
  induction node generalizing ts with
  | reference target ih => rw [lastSegment, lastSegment, pastReference_bareIn, ih]
  | _ => simp only [lastSegment, textOf_bareIn]

theorem WrittenType.Alike.textOf_eq {t u : WrittenType} (h : t.Alike u) :
    textOf t.trees = textOf u.trees := by
  rw [← textOf_bareIn, h.trees, textOf_bareIn]

theorem WrittenType.Alike.key_eq {t u : WrittenType} (h : t.Alike u) : t.key = u.key := by
  rw [WrittenType.key, WrittenType.key, h.textOf_eq]

theorem WrittenType.Alike.receiver_eq {t u : WrittenType} (h : t.Alike u) :
    t.receiver = u.receiver := by
  rw [WrittenType.receiver, WrittenType.receiver, h.key_eq, ← lastSegment_bareIn, h.trees,
    lastSegment_bareIn, h.node]

theorem map_eq_of_forall₂ {α β γ : Type} {S : α → β → Prop} {f : α → γ} {g : β → γ} {as : List α}
    {bs : List β} (h : List.Forall₂ S as bs) (hfg : ∀ a b, S a b → f a = g b) :
    as.map f = bs.map g := by
  rw [← List.forall₂_eq_eq_eq, List.forall₂_map_left_iff, List.forall₂_map_right_iff]
  exact h.imp hfg

section

variable {as bs : List Attribute} (h : List.Forall₂ Attribute.Alike as bs)

include h

theorem parts_eq : (as.map fun a => (a.path, a.value)) = bs.map fun a => (a.path, a.value) :=
  map_eq_of_forall₂ h fun _ _ hab => Prod.ext hab.path hab.value

theorem hasAttribute_eq (name : String) : hasAttribute as name = hasAttribute bs name := by
  have hany (cs : List Attribute) : hasAttribute cs name =
      (cs.map fun a => (a.path, a.value)).any fun x => x.1.isName name := by
    rw [List.any_map]
    rfl
  rw [hany, hany, parts_eq h]

theorem isTest_eq : isTest as = isTest bs := by
  have hany (cs : List Attribute) : isTest cs =
      (cs.map fun a => (a.path, a.value)).any fun x => x.1.last? == some "test" := by
    rw [List.any_map]
    rfl
  rw [hany, hany, parts_eq h]

theorem pathAttribute?_eq : pathAttribute? as = pathAttribute? bs := by
  have hfind (cs : List Attribute) : pathAttribute? cs =
      (cs.map fun a => (a.path, a.value)).findSome? fun x =>
        if x.1.isName "path" then x.2.bind textValue? else none := by
    rw [List.findSome?_map]
    rfl
  rw [hfind, hfind, parts_eq h]

end

/-! ### What is found -/

/-- The places of a text as those of another, where offsets related by `R` are on one line and, if
the first is one of those in `B`, `d` bytes apart. -/
structure Places.Shifted (R : Nat → Nat → Prop) (B : Nat → Prop) (d : Nat) (p q : Places) :
    Prop where
  line : ∀ {n m : Nat}, R n m → q.line m = p.line n
  offset : ∀ {n m : Nat}, B n → R n m → q.offset m = p.offset n + d

/-- The braces of a function's body are at offsets in `B`. -/
structure Function.BracesIn (B : Nat → Prop) (f : Function) : Prop where
  opening : B f.body.start
  closing : B (f.body.stop - 1)

section

variable {R : Nat → Nat → Prop} {B : Nat → Prop} {d : Nat} {p q : Places}
  (hplaces : p.Shifted R B d q)

include hplaces

theorem summary_shifted {f g : Function} (h : f.Alike R g) (hf : f.BracesIn B) (scope : List String)
    (receiver : Option String) (isPub alwaysLive : Bool) :
    summary q scope g receiver isPub alwaysLive =
      (summary p scope f receiver isPub alwaysLive).shifted d := by
  have hmentions : Tree.namesIn g.body.trees = Tree.namesIn f.body.trees := by
    rw [← namesIn_bareIn, ← h.body.trees, namesIn_bareIn]
  simp only [summary, FunctionSummary.shifted, ← isTest_eq h.attrs, ← h.sig.name.text,
    ← h.sig.isAsync, hplaces.offset hf.opening h.body.start, hplaces.line h.sig.name.pos, hmentions]

theorem declaration_shifted {f g : Function} (h : f.Alike R g) (hf : f.BracesIn B)
    (scope : List String) (receiver : Option Receiver) (traitName : Option String) :
    declaration q scope g receiver traitName =
      (declaration p scope f receiver traitName).shifted d := by
  have hparams : (f.sig.params.map fun x => (⟨x.name, x.type.key⟩ : ParamSite)) =
      g.sig.params.map fun x => ⟨x.name, x.type.key⟩ :=
    map_eq_of_forall₂ h.sig.params fun x y hxy => by rw [hxy.name, hxy.type.key_eq]
  have hoffsets := And.intro (hplaces.offset hf.opening h.body.start)
    (hplaces.offset hf.closing h.body.close)
  have hline := hplaces.line h.sig.name.pos
  have houtput := h.sig.output
  simp only [declaration, Declaration.shifted, ← h.sig.name.text, ← h.sig.receiver, ← hparams,
    ← h.sig.isAsync, hoffsets, hline]
  generalize f.sig.output = t at houtput
  generalize g.sig.output = u at houtput
  cases houtput with
  | none => rfl
  | some htu =>
    simp only [htu.node]
    split
    · rfl
    · simp [htu.node, htu.key_eq, htu.spellable, htu.textOf_eq]

theorem scanFunction_shifted {f g : Function} (h : f.Alike R g) (hf : f.BracesIn B)
    (scope : List String) :
    scanFunction q scope g = (scanFunction p scope f).shifted d := by
  simp only [scanFunction, summary_shifted hplaces h hf, declaration_shifted hplaces h hf,
    ← hasAttribute_eq h.attrs, ← h.isPub, ← h.sig.isConst, Found.shifted]
  split <;> rfl

theorem scanMethod_shifted {f g : Function} (h : f.Alike R g) (hf : f.BracesIn B)
    (scope : List String) (receiver : Receiver) (traitName : Option String) :
    scanMethod q scope receiver traitName g =
      (scanMethod p scope receiver traitName f).shifted d := by
  simp only [scanMethod, summary_shifted hplaces h hf, declaration_shifted hplaces h hf, ← h.isPub,
    ← h.sig.isConst, Found.shifted]
  split <;> rfl

end

/-- Functions that are alike one by one, with the braces of the first ones. -/
theorem forall₂_bracesIn {R : Nat → Nat → Prop} {B : Nat → Prop} {fs gs : List Function}
    (h : List.Forall₂ (Function.Alike R) fs gs) (hfs : ∀ f ∈ fs, f.BracesIn B) :
    List.Forall₂ (fun f g => f.BracesIn B ∧ f.Alike R g) fs gs :=
  (List.forall₂_and_left fs gs).mpr ⟨hfs, h⟩

section

variable {R : Nat → Nat → Prop} {B : Nat → Prop} {d : Nat} {p q : Places}

mutual
theorem scanItem_shifted (hplaces : p.Shifted R B d q) {i j : Item} (h : Item.Alike R i j)
    (hi : ∀ f ∈ i.functions, f.BracesIn B) (scope : List String) :
    scanItem q scope j = (scanItem p scope i).shifted d := by
  cases h with
  | @function f g h => exact scanFunction_shifted hplaces h (hi f (List.mem_singleton_self f)) scope
  | @implementation t u traitName fs gs h hs =>
    simp only [scanItem, ← h.receiver_eq]
    rw [Found.shifted_foldl, List.map_map]
    have hmethods : fs.map (Found.shifted d ∘ scanMethod p scope t.receiver traitName) =
        gs.map (scanMethod q scope t.receiver traitName) :=
      map_eq_of_forall₂ (forall₂_bracesIn hs hi) fun f g hfg =>
        (scanMethod_shifted hplaces hfg.2 hfg.1 scope _ _).symm
    rw [hmethods]
    rfl
  | @trait name fs gs hs =>
    have hmethods : fs.map (FunctionSummary.shifted d ∘ fun f => summary p scope f (some name) true true) =
        gs.map fun g => summary q scope g (some name) true true :=
      map_eq_of_forall₂ (forall₂_bracesIn hs hi) fun f g hfg =>
        (summary_shifted hplaces hfg.2 hfg.1 scope _ _ _).symm
    simp only [scanItem, Found.shifted, List.map_map, hmethods, List.map_nil]
  | outline h =>
    simp only [scanItem, Found.shifted, pathAttribute?_eq h, hasAttribute_eq h, List.map_nil]
  | inline h => exact scanItems_shifted hplaces h hi _
  | evaluated h =>
    simp only [scanItem, Found.shifted, List.map_nil]
    rw [← namesIn_bareIn, ← h, namesIn_bareIn]
  | other => rfl

theorem scanItems_shifted (hplaces : p.Shifted R B d q) {is js : List Item}
    (h : List.Forall₂ (Item.Alike R) is js) (his : ∀ f ∈ functionsIn is, f.BracesIn B)
    (scope : List String) : scanItems q scope js = (scanItems p scope is).shifted d := by
  cases h with
  | nil => rfl
  | cons h hs =>
    rw [scanItems, scanItems, Found.shifted_append,
      scanItem_shifted hplaces h fun f hf => his f (List.mem_append_left _ hf),
      scanItems_shifted hplaces hs fun f hf => his f (List.mem_append_right _ hf)]
end

end

end Source

end Instrumentation
