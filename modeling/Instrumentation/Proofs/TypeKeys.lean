import Instrumentation.Proofs.Blocks
import Instrumentation.Proofs.Injection
import Instrumentation.Proofs.LexicalGrammar
import Instrumentation.Proofs.Registered
import Instrumentation.Proofs.Shapes

/-!
Types are compared by their spelling without blanks. The spelling tells the tokens of a type if no
token has a blank in it and none goes on, with the characters behind it, as a longer token; so the
types that a rule gives select types that are written with the same tokens.
-/
namespace Instrumentation.Source

open Text (isBlank)

/-! ### Keys and tokens -/

/-- The tokens of a type in the order in which they are printed: lifetimes stand before the other
arguments in angle brackets. -/
def WrittenType.tokens (t : WrittenType) : List (List Char) := lexemesIn t.trees

/-- No token of a type has a blank in it, which only quoted texts may have. -/
def WrittenType.Unbroken (t : WrittenType) : Prop := ∀ l ∈ t.tokens, ∀ c ∈ l, isBlank c = false

/-- The tokens of a type can be told by its spelling without blanks. -/
structure WrittenType.Legible (t : WrittenType) : Prop where
  unbroken : t.Unbroken
  apart : Apart t.tokens

/-- What types that are compared as equal have in common: they have the same tokens, unless one has
a token that goes on as a longer token, which the other has in its place. -/
structure WrittenType.Resembles (t u : WrittenType) : Prop where
  eq_or_blurred : t.Unbroken → u.Unbroken → t.tokens = u.tokens ∨ Blurred t.tokens u.tokens
  eq_of_legible : t.Legible → u.Legible → t.tokens = u.tokens

theorem WrittenType.key_eq_ofList {t : WrittenType} (h : t.Unbroken) :
    t.key = String.ofList t.tokens.flatten := by
  have hall : ∀ c ∈ t.tokens.flatten, (!isBlank c) = true := by
    intro c hc
    obtain ⟨l, hl, hc⟩ := List.mem_flatten.mp hc
    rw [h l hl c hc]
    rfl
  have hkey : t.key = Text.squeezed (String.ofList t.tokens.flatten) := squeezed_textOf t.trees
  rw [hkey, Text.squeezed, String.toList_ofList, List.filter_eq_self.mpr hall]

/-- A type is legible if its words stand apart from each other and from literals. -/
theorem WrittenType.legible_of_areSetOff {t : WrittenType}
    (hblank : (t.tokens.all fun l => l.all fun c => !isBlank c) = true)
    (h : areSetOff t.tokens = true) : t.Legible where
  unbroken l hl c hc := by
    simpa using List.all_eq_true.mp (List.all_eq_true.mp hblank l hl) c hc
  apart := apart_of_areSetOff h

theorem WrittenType.resembles_of_key_eq {t u : WrittenType} (ht : MadeOfTokens t.trees)
    (hu : MadeOfTokens u.trees) (h : t.key = u.key) : t.Resembles u := by
  have heq (htu : t.Unbroken) (huu : u.Unbroken) :
      t.tokens = u.tokens ∨ Blurred t.tokens u.tokens := by
    rw [key_eq_ofList htu, key_eq_ofList huu] at h
    exact eq_or_blurred ht hu (String.ofList_injective h)
  exact ⟨heq, fun htl hul =>
    (heq htl.unbroken hul.unbroken).resolve_right (not_blurred htl.apart hul.apart)⟩

/-! ### The types of a declaration -/

/-- The types of the functions in a text are written with tokens. -/
theorem lexical_of_mem_sites {text : List Char} {site : Option WrittenType × Function}
    (h : site ∈ sitesIn (itemsOf text)) : Contents.lexical site := by
  unfold itemsOf at h
  split at h
  · next file hfile => exact File.isToken_of_read hfile h
  · cases h

/-- The type of what a capture looks at; a function without a result gives the unit. -/
def Function.captured? (f : Function) (param : String) : Option WrittenType :=
  if param = "return" then
    some ((resultTypes f).head?.getD ⟨.unit, [.group .paren 0 2 []], true⟩)
  else (f.sig.params.find? fun p => p.name == some param).map Param.type

end Instrumentation.Source

namespace Instrumentation

open Source (WrittenType Function Declaration Scan itemsOf placesIn sitesIn)

/-- A type in a rule is written with the same tokens as a type in a file, as far as the types can be
told by their keys. -/
def SameTokens (written : String) (t : WrittenType) : Prop :=
  ∃ w, WrittenType.read written = .ok w ∧ w.Resembles t

/-- The types by which a rule selects a function are written with the same tokens as those of the
function. A receiver without generic arguments is compared with the last segment alone. -/
structure RuleDefinition.SelectsTokens (definition : RuleDefinition) (target : Option WrittenType)
    (f : Function) : Prop where
  params : ∀ types, definition.params = some (.list types) →
    List.Forall₂ (fun written t => shapeKey? written = some "_" ∨ SameTokens written t)
      (withoutUnit types) (f.sig.params.map Source.Param.type)
  results : ∀ types, definition.results = some (.list types) →
    List.Forall₂ (fun written t => shapeKey? written = some "_" ∨ SameTokens written t)
      (withoutUnit types) (resultTypes f)
  receiver : ∀ written, definition.receiver = some written → Text.trimmed written ≠ "*" →
    ∃ t ∈ target, ∃ key, Source.typeKey? (Text.trimmed written) = some key ∧
      if key.toList.contains '<' then SameTokens (Text.trimmed written) t
      else key = t.receiver.last

/-- The types that a rule expects of what it captures are written with the same tokens as those of
the function. -/
def RuleDefinition.CapturesTokens (definition : RuleDefinition) (f : Function) : Prop :=
  ∀ c ∈ definition.captures, ∀ written, c.type = some written →
    ∃ t ∈ f.captured? (Text.trimmed c.param), SameTokens written t

section

variable {written : String} {t : WrittenType}

theorem exists_read_of_typeKey? {key : String} (h : Source.typeKey? written = some key) :
    ∃ w, WrittenType.read written = .ok w ∧ w.key = key := by
  unfold Source.typeKey? at h
  split at h
  · next w hw =>
    cases h
    exact ⟨w, hw, rfl⟩
  · cases h

theorem sameTokens_of_key (ht : Source.MadeOfTokens t.trees)
    (h : Source.typeKey? written = some t.key) : SameTokens written t := by
  obtain ⟨w, hw, hkey⟩ := exists_read_of_typeKey? h
  exact ⟨w, hw, WrittenType.resembles_of_key_eq (WrittenType.isToken_of_read hw) ht hkey⟩

theorem sameTokens_of_fits (ht : Source.MadeOfTokens t.trees) (h : FitsType written t) :
    shapeKey? written = some "_" ∨ SameTokens written t := by
  by_cases hany : Text.trimmed written = "_"
  · exact .inl (if_pos hany)
  · refine h.imp_right fun h => sameTokens_of_key ht ?_
    rwa [shapeKey?, if_neg hany] at h

theorem forall₂_sameTokens {types : List String} {found : List WrittenType}
    (hfound : ∀ t ∈ found, Source.MadeOfTokens t.trees) (h : List.Forall₂ FitsType types found) :
    List.Forall₂ (fun written t => shapeKey? written = some "_" ∨ SameTokens written t) types
      found := by
  induction h with
  | nil => exact .nil
  | cons h _ ih =>
    obtain ⟨ht, hrest⟩ := List.forall_mem_cons.mp hfound
    exact .cons (sameTokens_of_fits ht h) (ih hrest)

end

theorem madeOfTokens_resultTypes {f : Function} (h : Source.Contents.lexical f) {t : WrittenType}
    (ht : t ∈ resultTypes f) : Source.MadeOfTokens t.trees :=
  h.2 t (Option.mem_toList.mp (List.mem_filter.mp ht).1)

theorem madeOfTokens_captured {f : Function} (h : Source.Contents.lexical f) {param : String}
    {t : WrittenType} (ht : f.captured? param = some t) : Source.MadeOfTokens t.trees := by
  unfold Function.captured? at ht
  split at ht
  · obtain rfl := Option.some.inj ht
    cases hresults : resultTypes f with
    | nil => exact Source.MadeOfTokens.group_iff.mpr ⟨.nil, .nil⟩
    | cons u rest => exact madeOfTokens_resultTypes h (by simp [hresults])
  · obtain ⟨p, hp, rfl⟩ := Option.map_eq_some_iff.mp ht
    exact h.1 p (List.mem_of_find?_eq_some hp)

/-! ### What a rule's definition has in the rule -/

theorem exists_key_of_readReceiver {written : String} {selector : ReceiverSelector}
    (h : readReceiver (some written) = .ok selector) (hany : Text.trimmed written ≠ "*") :
    ∃ key, Source.typeKey? (Text.trimmed written) = some key ∧ selector = .exact key := by
  simp only [readReceiver, beq_iff_eq, hany, if_false] at h
  split at h
  · next key hkey =>
    cases h
    exact ⟨key, hkey, rfl⟩
  · cases h

theorem readCapture_eq_ok {d : CaptureDefinition} {c : Capture} (h : readCapture d = .ok c) :
    c.param = Text.trimmed d.param ∧
      ∀ written, d.type = some written → ∃ key, Source.typeKey? written = some key ∧
        c.type = some key := by
  unfold readCapture at h
  dsimp only at h
  split at h
  · cases h
  · split at h
    · cases h
    · split at h
      · split at h
        · next hnone =>
          cases h
          exact ⟨rfl, fun written hwritten => by rw [hnone] at hwritten; cases hwritten⟩
        · next hsome =>
          split at h
          · next key hkey =>
            cases h
            refine ⟨rfl, fun written hwritten => ⟨key, ?_, rfl⟩⟩
            obtain rfl := Option.some.inj (hsome.symm.trans hwritten)
            exact hkey
          · cases h
      · cases h

theorem mem_readCaptures {done captures : List Capture} {ds : List CaptureDefinition}
    (h : readCaptures done ds = .ok captures) :
    (∀ c ∈ done, c ∈ captures) ∧ ∀ d ∈ ds, ∃ c ∈ captures, readCapture d = .ok c := by
  induction ds generalizing done with
  | nil =>
    cases h
    exact ⟨fun _ hc => hc, fun _ hd => nomatch hd⟩
  | cons d ds ih =>
    unfold readCaptures at h
    obtain ⟨c, hc, h⟩ := exists_of_bind_eq_ok h
    split at h
    · cases h
    · obtain ⟨hdone, hds⟩ := ih h
      have hmem : c ∈ captures := hdone c (by simp)
      exact ⟨fun e he => hdone e (List.mem_append_left _ he),
        List.forall_mem_cons.mpr ⟨⟨c, hmem, hc⟩, hds⟩⟩

section

variable {places : Source.Places} {d : Declaration} {target : Option WrittenType} {f : Function}

/-- What a capture looks at is compared by the type's spelling without blanks. -/
theorem capturedType?_declaration (h : d.IsAt places (target, f)) (c : Capture) :
    Injection.capturedType? d c = (f.captured? c.param).map WrittenType.key := by
  obtain ⟨scope, traitName, rfl⟩ := h
  unfold Injection.capturedType? Function.captured? Capture.isReturn
  by_cases hreturn : c.param = "return"
  · have hunit : "()" = WrittenType.key ⟨.unit, [.group .paren 0 2 []], true⟩ := by decide
    simp only [hreturn, beq_self_eq_true, if_true, results_declaration, List.head?_map, hunit,
      Option.getD_map, Option.map_some]
  · have hparams : (Source.declaration places scope f (target.map WrittenType.receiver)
        traitName).params = f.sig.params.map fun p => ⟨p.name, p.type.key⟩ := rfl
    simp only [beq_iff_eq, hreturn, if_false, Declaration.param?, hparams, List.find?_map,
      Option.map_map]
    rfl

variable {definition : RuleDefinition} {order : Nat} {source importPath : String}
  {hookCrate : HookCrate} {r : Rule}

theorem selectsTokens (hat : d.IsAt places (target, f))
    (htokens : Source.Contents.lexical (target, f))
    (hrule : definition.toRule order source hookCrate = .ok r) (h : r.selects importPath d = true) :
    definition.SelectsTokens target f := by
  obtain ⟨scope, traitName, rfl⟩ := hat
  obtain ⟨htarget, hsig⟩ := htokens
  have hchecked := RuleDefinition.checked_of_toRule hrule
  simp only [Rule.selects, Bool.and_eq_true] at h
  obtain ⟨⟨⟨-, hreceiver⟩, hparams⟩, hresults⟩ := h
  rw [params_declaration] at hparams
  rw [results_declaration] at hresults
  refine ⟨fun types htypes => ?_, fun types htypes => ?_, fun written hwritten hany => ?_⟩
  · have hshape := hchecked.params
    rw [htypes] at hshape
    refine forall₂_sameTokens (fun t ht => ?_) ((readShape_list_eq_ok hshape _).mp hparams)
    obtain ⟨p, hp, rfl⟩ := List.mem_map.mp ht
    exact hsig.1 p hp
  · have hshape := hchecked.results
    rw [htypes] at hshape
    exact forall₂_sameTokens (fun t ht => madeOfTokens_resultTypes hsig ht)
      ((readShape_list_eq_ok hshape _).mp hresults)
  · have hread := hchecked.receiver
    rw [hwritten] at hread
    obtain ⟨key, hkey, hselector⟩ := exists_key_of_readReceiver hread hany
    rw [hselector] at hreceiver
    cases target with
    | none => cases hreceiver
    | some t =>
      refine ⟨t, rfl, key, hkey, ?_⟩
      have hcompared : (if key.toList.contains '<' then key == t.key else key == t.receiver.last) =
          true := hreceiver
      split at hcompared
      · next hargs =>
        rw [if_pos hargs]
        exact sameTokens_of_key (htarget t rfl) (by rw [hkey, beq_iff_eq.mp hcompared])
      · next hargs =>
        rw [if_neg hargs]
        exact beq_iff_eq.mp hcompared

theorem capturesTokens (hat : d.IsAt places (target, f))
    (htokens : Source.Contents.lexical (target, f))
    (hrule : definition.toRule order source hookCrate = .ok r) (h : Injection.Suits d r) :
    definition.CapturesTokens f := by
  intro c hc written hwritten
  have hchecked := RuleDefinition.checked_of_toRule hrule
  obtain ⟨capture, hmem, hread⟩ := (mem_readCaptures hchecked.captures).2 c hc
  obtain ⟨hparam, htype⟩ := readCapture_eq_ok hread
  obtain ⟨key, hkey, hexpected⟩ := htype written hwritten
  obtain ⟨type, hcaptured, heq, -⟩ := h capture hmem
  obtain rfl := heq key hexpected
  rw [capturedType?_declaration hat, hparam] at hcaptured
  obtain ⟨t, ht, rfl⟩ := Option.map_eq_some_iff.mp hcaptured
  exact ⟨t, ht, sameTokens_of_key (madeOfTokens_captured htokens.2 ht) hkey⟩

end

/-- Types with one key have the same tokens, or a token of one goes on as a longer token of the
other; so the types that a rule gives select and capture types that are written with the same
tokens, or blurred with them. -/
theorem types_told_by_keys :
    (∀ {a b : String} {t u : WrittenType}, WrittenType.read a = .ok t →
      WrittenType.read b = .ok u → t.key = u.key → t.Resembles u) ∧
    ∀ {text : List Char} {scan : Scan}, Scan.read text = .ok scan → ∀ d ∈ scan.declarations,
      ∃ site ∈ sitesIn (itemsOf text), d.IsAt (placesIn text) site ∧
        ∀ {definition : RuleDefinition} {order : Nat} {source : String} {hookCrate : HookCrate}
          {r : Rule} {importPath : String}, definition.toRule order source hookCrate = .ok r →
          r.selects importPath d = true → definition.SelectsTokens site.1 site.2 ∧
            (Injection.Suits d r → definition.CapturesTokens site.2) := by
  refine ⟨fun ha hb h => ?_, fun hscan d hd => ?_⟩
  · have ht := WrittenType.isToken_of_read ha
    exact WrittenType.resembles_of_key_eq ht (WrittenType.isToken_of_read hb) h
  · obtain ⟨site, hsite, hat⟩ := Scan.exists_site hscan hd
    have htokens := Source.lexical_of_mem_sites hsite
    exact ⟨site, hsite, hat, fun hrule hselects =>
      ⟨selectsTokens hat htokens hrule hselects, capturesTokens hat htokens hrule⟩⟩

/-- Two texts that are read as types with some property. -/
theorem exists_types {a b : String} {p : WrittenType → WrittenType → Bool}
    (h : (WrittenType.read a).toOption.any (fun t => (WrittenType.read b).toOption.any (p t)) =
      true) :
    ∃ t u, WrittenType.read a = .ok t ∧ WrittenType.read b = .ok u ∧ p t u = true := by
  obtain ⟨t, ht, h⟩ := exists_ok_of_any h
  obtain ⟨u, hu, h⟩ := exists_ok_of_any h
  exact ⟨t, u, ht, hu, h⟩

def methodText : List Char :=
  "impl Q<u8> \x7b fn f(&self, x: Vec<u8>) -> Vec<u8> \x7b\x7d \x7d".toList

/-- A rule that gives all types of `methodText`, with blanks in other places. -/
def methodRule : RuleDefinition where
  id := "r"
  importPath := "m"
  receiver := some "Q < u8 >"
  function := "f"
  params := some (.list ["Vec <u8>"])
  results := some (.list [" Vec<u8 >"])
  onEnter := some "enter"
  onExit := none
  version := none
  rustc := none
  requires := []
  fusible := false
  captures := [⟨"x", "debug", some "Vec< u8>"⟩]

/-- A type with an argument in two spellings, and a rule that selects a method by such types. -/
theorem types_told_method :
    (∃ t u, WrittenType.read "Vec<u8>" = .ok t ∧ WrittenType.read "Vec < u8 >" = .ok u ∧
      t.Legible ∧ u.Legible ∧ t.key = u.key ∧ t.tokens = u.tokens) ∧
    ∃ scan r, Scan.read methodText = .ok scan ∧ methodRule.toRule 0 "r" ⟨"h", ⟨"h"⟩⟩ = .ok r ∧
      ∃ d ∈ scan.declarations, r.selects "m" d = true ∧ Injection.Suits d r ∧
        ∃ site ∈ sitesIn (itemsOf methodText), d.IsAt (placesIn methodText) site ∧
          methodRule.SelectsTokens site.1 site.2 ∧ methodRule.CapturesTokens site.2 := by
  constructor
  · let tokens := ["Vec", "<", "u8", ">"].map String.toList
    obtain ⟨t, u, ht, hu, h⟩ := exists_types (by decide +kernel : (WrittenType.read
      "Vec<u8>").toOption.any (fun t => (WrittenType.read "Vec < u8 >").toOption.any fun u =>
        t.tokens == tokens && u.tokens == tokens && t.key == u.key) = true)
    simp only [Bool.and_eq_true, beq_iff_eq] at h
    obtain ⟨⟨htokens, htokens'⟩, hkey⟩ := h
    have hlegible {w : WrittenType} (hw : w.tokens = tokens) : w.Legible := by
      apply WrittenType.legible_of_areSetOff
      · rw [hw]
        decide
      · rw [hw]
        decide +kernel
    have htl := hlegible htokens
    have hul := hlegible htokens'
    have hresembles := types_told_by_keys.1 ht hu hkey
    exact ⟨t, u, ht, hu, htl, hul, hkey, hresembles.eq_of_legible htl hul⟩
  · obtain ⟨scan, hscan, h⟩ := exists_ok_of_any (by decide +kernel : (Scan.read
      methodText).toOption.any (fun scan => (methodRule.toRule 0 "r" ⟨"h", ⟨"h"⟩⟩).toOption.any
        fun r => scan.declarations.any fun d =>
          r.selects "m" d && decide (Injection.Suits d r)) = true)
    obtain ⟨r, hr, h⟩ := exists_ok_of_any h
    obtain ⟨d, hd, h⟩ := List.any_eq_true.mp h
    rw [Bool.and_eq_true, decide_eq_true_eq] at h
    obtain ⟨site, hsite, hat, hrules⟩ := types_told_by_keys.2 hscan d hd
    obtain ⟨hselects, hcaptures⟩ := hrules hr h.1
    exact ⟨scan, r, hscan, hr, d, hd, h.1, h.2, site, hsite, hat, hselects, hcaptures h.2⟩

/-- A word runs into the word behind it: a trait object has the key of a path. The blanks in a
quoted text are no part of a key. And a receiver without generic arguments is looked for by the last
segment alone. -/
theorem keys_collide :
    (∃ t u, WrittenType.read "dyn A" = .ok t ∧ WrittenType.read "dynA" = .ok u ∧
      t.key = u.key ∧ t.tokens ≠ u.tokens) ∧
    (∃ t u, WrittenType.read "[u8; \"a b\"]" = .ok t ∧ WrittenType.read "[u8; \"ab\"]" = .ok u ∧
      t.key = u.key ∧ t.tokens ≠ u.tokens) ∧
    ∃ t u, WrittenType.read "A" = .ok t ∧ WrittenType.read "m::A<u8>" = .ok u ∧
      (ReceiverSelector.exact t.key).accepts (some u.receiver) = true ∧ t.tokens ≠ u.tokens := by
  have hsame {a b : String} (h : (WrittenType.read a).toOption.any (fun t =>
      (WrittenType.read b).toOption.any fun u => t.key == u.key && t.tokens != u.tokens) = true) :
      ∃ t u, WrittenType.read a = .ok t ∧ WrittenType.read b = .ok u ∧ t.key = u.key ∧
        t.tokens ≠ u.tokens := by
    obtain ⟨t, u, ht, hu, h⟩ := exists_types h
    rw [Bool.and_eq_true, beq_iff_eq, bne_iff_ne] at h
    exact ⟨t, u, ht, hu, h⟩
  refine ⟨hsame (by decide +kernel), hsame (by decide +kernel), ?_⟩
  obtain ⟨t, u, ht, hu, h⟩ := exists_types (by decide +kernel : (WrittenType.read
    "A").toOption.any (fun t => (WrittenType.read "m::A<u8>").toOption.any fun u =>
      (ReceiverSelector.exact t.key).accepts (some u.receiver) && t.tokens != u.tokens) = true)
  rw [Bool.and_eq_true, bne_iff_ne] at h
  exact ⟨t, u, ht, hu, h⟩

end Instrumentation
