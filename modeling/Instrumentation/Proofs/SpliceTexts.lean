import Instrumentation.Proofs.SpliceParts

/-!
The parts of the texts around a body: of the statics that describe stages, of the calls before and
after the body, and of what stands next to it.
-/
namespace Instrumentation.Splice

open Source (Delimiter)
open Splice.Part (fixed name number quoted given)

/-- Parts with which the text of a link goes on to the end of its call. -/
def Link.parts : Link → List Part
  | .thread => [fixed (support "Link::Thread"), fixed ")"]
  | .detached => [fixed (support "Link::Detached"), fixed ")"]
  | .outer (.single g) =>
    [fixed (support "Link::Outer(&"), name false (.guard (.single g)), fixed ")", fixed ")"]
  | .outer (.fused g) =>
    [fixed (support "Link::Fused(&"), name false (.guard (.fused g)), fixed ")", fixed ")"]

def Target.parts : Target → List Part
  | .whole g => [name false (.guard g)]
  | .stage g i => [name false (.guard g), fixed ".stage(", number i, fixed ")"]

def captureParts (c : Capture) : List Part :=
  [fixed "__hw_ctx.", fixed (captureMethod c.mode), fixed "(", quoted c.param, fixed ", &",
    given c.param, fixed "); "]

def receiverParts (r : ReceiverAccess) : List Part :=
  [fixed "__hw_ctx.capture_receiver(", fixed r.text, fixed "); "]

def hookParts (receiver : Option ReceiverAccess) (h : HookRef) : List Part :=
  [given h.absolute, fixed "(__hw_ctx"] ++
    (receiver.elim [] fun r => [fixed ", ", fixed r.text]) ++ [fixed ")"]

/-- What an entry does, inside of its braces. -/
def Entry.parts (e : Entry) : List Part :=
  e.captures.flatMap captureParts ++ e.receiver.elim [] receiverParts ++
    e.hook.elim [] (hookParts e.receiver)

/-- Parts that list stages to the end of the list. -/
def siteRefs : List Nat → List Part
  | [] => [fixed "]"]
  | [k] => [fixed "&", name false (.site k), fixed "]"]
  | k :: l :: rest => [fixed "&", name false (.site k), fixed ", "] ++ siteRefs (l :: rest)

def siteParts (importPath function : String) (stage : Nat) (s : Stage) : List Part :=
  [fixed "static ", name true (.site stage), fixed ": ", fixed (support "CallSite"),
    fixed " = ", fixed (support "CallSite"), fixed " \x7b rule: ", quoted s.rule.id,
    fixed ", package: ", quoted importPath, fixed ", function: ", quoted function,
    fixed " \x7d; "]

def Call.parts (observing returnsResult : Bool) : Call → List Part
  | .openSingle group stage toggled link =>
    [fixed "let mut ", name true (.guard (.single group)), fixed " = ",
      fixed (support "Trampoline::"), fixed (if toggled then "toggled" else "new"), fixed "(&",
      name false (.site stage), fixed ", "] ++ link.parts ++
      [fixed (Call.text.mark observing), fixed "; "]
  | .openFused group stages link =>
    [fixed "static ", name true (.sites group), fixed ": [&", fixed (support "CallSite"),
      fixed "; ", number stages.length, fixed "] = ["] ++ siteRefs stages ++
      [fixed "; let mut ", name true (.guard (.fused group)), fixed " = ",
        fixed (support "Fused::new(&"), name false (.sites group), fixed ", "] ++ link.parts ++
      [fixed (Call.text.mark observing), fixed "; "]
  | .setExit target hook =>
    target.parts ++ [fixed ".set_exit(", given hook.absolute, fixed "); "]
  | .enter target entry =>
    target.parts ++ [fixed ".enter(", fixed "|__hw_ctx| \x7b "] ++ entry.parts ++
      [fixed "\x7d", fixed "); "]
  | .record target mode =>
    target.parts ++ [fixed ".record(|__hw_ctx| __hw_ctx.", fixed (captureMethod mode),
      fixed "(\"return\", &__hw_ret)); "]
  | .complete guard =>
    [name false (.guard guard),
      fixed (if returnsResult then ".complete_result" else ".complete"), fixed "(&__hw_ret); "]

/-- What stands before an observed body, to where the type of the result can stand. -/
def bodyHead (d : Source.Declaration) : String :=
  if d.isAsync then "let __hw_ret = async move "
  else "#[allow(clippy::redundant_closure_call)] let __hw_ret = (move || "

/-- The type of the result, where it is spelled out. -/
def spelledType? (d : Source.Declaration) (stages : List Stage) : Option String :=
  if Stage.bodyForm d stages == .observing && !d.isAsync && d.annotatable then d.returnType
  else none

def typeParts : Option String → List Part
  | none => []
  | some t => [fixed "-> ", given t, fixed " "]

/-! ### Texts -/

theorem toList_joined (texts : List String) :
    (Text.joined "" texts).toList = texts.flatMap String.toList := by
  induction texts with
  | nil => rfl
  | cons s rest ih =>
    cases rest with
    | nil => simp [Text.joined]
    | cons t rest =>
      rw [Text.joined, String.toList_append, String.toList_append, ih]
      simp

theorem spell_flatMap {α : Type} (f : α → List Part) (xs : List α) :
    spell (xs.flatMap f) = xs.flatMap fun x => spell (f x) := List.flatMap_assoc

@[simp] theorem spell_link (l : Link) : spell l.parts = (l.text ++ ")").toList := by
  obtain - | - | ⟨g⟩ | ⟨g⟩ := l <;> simp [Link.parts, Link.text, Part.text, OwnName.text]

@[simp] theorem spell_target (t : Target) : spell t.parts = t.text.toList := by
  cases t <;> simp [Target.parts, Target.text, Part.text, OwnName.text]

theorem spell_captures (captures : List Capture) : spell (captures.flatMap captureParts) =
    (Text.joined "" (captures.map fun c => "__hw_ctx." ++ captureMethod c.mode ++ "(" ++
      Text.quoted c.param ++ ", &" ++ c.param ++ "); ")).toList := by
  rw [toList_joined, spell_flatMap, List.flatMap_map]
  refine List.flatMap_congr fun c _ => ?_
  unfold captureParts
  simp only [spell_cons, spell_nil, Part.text, List.append_nil, String.toList_append,
    List.append_assoc]

@[simp] theorem spell_entry (e : Entry) :
    spell ([fixed "|__hw_ctx| \x7b "] ++ e.parts ++ [fixed "\x7d"]) = e.text.toList := by
  obtain ⟨captures, receiver, hook⟩ := e
  unfold Entry.parts Entry.text
  cases receiver <;> cases hook <;> dsimp only [Option.elim] <;>
    simp only [receiverParts, hookParts, spell_captures, spell_append, spell_cons, spell_nil,
      Part.text, Option.elim, List.append_nil, String.toList_append, String.toList_empty,
      List.append_assoc]

theorem spell_siteRefs (stages : List Nat) : spell (siteRefs stages) =
    (Text.joined ", " (stages.map fun k => "&" ++ siteName k) ++ "]").toList := by
  fun_induction siteRefs stages with
  | case1 => rfl
  | case2 k => simp [Text.joined, Part.text, OwnName.text]
  | case3 k l rest ih => simp [Text.joined, ih, Part.text, OwnName.text]

theorem spell_call (observing returnsResult : Bool) (c : Call) :
    spell (c.parts observing returnsResult) = (c.text observing returnsResult).toList := by
  unfold Call.parts Call.text
  cases c with
  | openSingle group stage toggled link =>
    simp only [spell_append, spell_cons, spell_nil, spell_link, Part.text, OwnName.text,
      List.append_nil, String.toList_append, List.append_assoc]
  | openFused group stages link =>
    have hlist : "]; let mut ".toList = "]".toList ++ "; let mut ".toList := rfl
    simp only [spell_append, spell_cons, spell_nil, spell_link, spell_siteRefs, Part.text,
      OwnName.text, sitesName, hlist, List.append_nil, String.toList_append, List.append_assoc]
  | setExit target hook =>
    simp only [spell_append, spell_cons, spell_nil, spell_target, Part.text, List.append_nil,
      String.toList_append, List.append_assoc]
  | enter target entry =>
    simp only [spell_append, spell_cons, spell_nil, spell_target, ← spell_entry, Part.text,
      List.append_nil, String.toList_append, List.append_assoc]
  | record target mode =>
    simp only [spell_append, spell_cons, spell_nil, spell_target, Part.text, List.append_nil,
      String.toList_append, List.append_assoc]
  | complete guard =>
    simp only [spell_cons, spell_nil, Part.text, OwnName.text, List.append_nil,
      String.toList_append, List.append_assoc]

theorem spell_site (importPath function : String) (stage : Nat) (s : Stage) :
    spell (siteParts importPath function stage s) =
      (siteText importPath function stage s).toList := by
  unfold siteParts siteText
  simp only [spell_cons, spell_nil, Part.text, OwnName.text, List.append_nil,
    String.toList_append, List.append_assoc]

theorem spell_bodyOpening (d : Source.Declaration) (stages : List Stage)
    (h : Stage.bodyForm d stages = .observing) :
    (bodyHead d).toList ++ spell (typeParts (spelledType? d stages)) = (bodyOpening d).toList := by
  unfold bodyHead spelledType? bodyOpening
  rw [h]
  cases d.isAsync <;> cases d.annotatable <;> cases d.returnType <;>
    simp [typeParts, Part.text, -String.reduceToList]

/-! ### Reading

The kernel takes long to read the characters of a text, so each proof below first rewrites the texts
that do not change to lists of characters, and then evaluates the test on these. -/

theorem toList_support (name : String) :
    (support name).toList = "::hookweave_rt::".toList ++ name.toList := by
  have hpath : "::" ++ supportCrate ++ "::" = "::hookweave_rt::" := by decide
  rw [support, hpath, String.toList_append]

theorem fits_link (l : Link) : Fits l.parts := by
  apply Fits.of_kinds
  obtain - | - | ⟨g⟩ | ⟨g⟩ := l <;> unfold Link.parts <;>
    dsimp only [List.map, Part.kind] <;> rw [toList_support] <;>
    (repeat rw [String.toList_ofList]) <;> decide

theorem fits_capture (c : Capture) : Fits (captureParts c) := by
  apply Fits.of_kinds
  unfold captureParts
  cases c.mode <;> dsimp only [List.map, Part.kind, captureMethod] <;>
    (repeat rw [String.toList_ofList]) <;> decide

theorem fits_receiver (r : ReceiverAccess) : Fits (receiverParts r) := by
  apply Fits.of_kinds
  unfold receiverParts
  cases r <;> dsimp only [List.map, Part.kind, ReceiverAccess.text] <;>
    (repeat rw [String.toList_ofList]) <;> decide

theorem fits_hook (receiver : Option ReceiverAccess) (h : HookRef) :
    Fits (hookParts receiver h) := by
  apply Fits.of_kinds
  obtain - | - | - := receiver <;> unfold hookParts <;>
    dsimp only [List.map, List.cons_append, List.nil_append, Part.kind, Option.elim,
      ReceiverAccess.text] <;>
    (repeat rw [String.toList_ofList]) <;> decide

theorem fits_entry (e : Entry) : Fits e.parts := by
  refine (Fits.flatMap fun c _ => fits_capture c).append ?_ |>.append ?_
  · cases e.receiver with
    | none => exact fits_nil
    | some r => exact fits_receiver r
  · cases e.hook with
    | none => exact fits_nil
    | some h => exact fits_hook e.receiver h

theorem fits_siteRefs (stages : List Nat) : Fits (siteRefs stages) := by
  fun_induction siteRefs stages with
  | case1 => exact Fits.of_kinds (by decide)
  | case2 k =>
    apply Fits.of_kinds
    dsimp only [List.map, Part.kind]
    decide
  | case3 k l rest ih =>
    refine Fits.append (Fits.of_kinds ?_) ih
    dsimp only [List.map, Part.kind]
    decide

theorem fits_site (importPath function : String) (stage : Nat) (s : Stage) :
    Fits (siteParts importPath function stage s) := by
  apply Fits.of_kinds
  unfold siteParts
  dsimp only [List.map, Part.kind]
  rw [toList_support]
  repeat rw [String.toList_ofList]
  decide

theorem fits_call (observing returnsResult : Bool) (c : Call) :
    Fits (c.parts observing returnsResult) := by
  have hmark : Fits [fixed (Call.text.mark observing), fixed "; "] := by
    apply Fits.of_kinds
    cases observing <;> decide
  unfold Call.parts
  cases c with
  | openSingle group stage toggled link =>
    refine (Fits.append ?_ (fits_link link)).append hmark
    apply Fits.of_kinds
    dsimp only [List.map, Part.kind]
    rw [toList_support]
    cases toggled <;> simp only [if_true, Bool.false_eq_true, if_false] <;>
      (repeat rw [String.toList_ofList]) <;> decide
  | openFused group stages link =>
    refine (((Fits.append ?_ (fits_siteRefs stages)).append ?_).append
      (fits_link link)).append hmark
    all_goals
      apply Fits.of_kinds
      dsimp only [List.map, Part.kind]
      rw [toList_support]
      repeat rw [String.toList_ofList]
      decide
  | setExit target hook =>
    apply Fits.of_kinds
    cases target <;>
      dsimp only [Target.parts, List.cons_append, List.nil_append, List.map, Part.kind] <;>
      (repeat rw [String.toList_ofList]) <;> decide
  | enter target entry =>
    refine (Fits.append ?_ (fits_entry entry)).append (Fits.of_kinds (by decide))
    apply Fits.of_kinds
    cases target <;>
      dsimp only [Target.parts, List.cons_append, List.nil_append, List.map, Part.kind] <;>
      (repeat rw [String.toList_ofList]) <;> decide
  | record target mode =>
    apply Fits.of_kinds
    cases target <;> cases mode <;>
      dsimp only [Target.parts, List.cons_append, List.nil_append, List.map, Part.kind,
        captureMethod] <;>
      (repeat rw [String.toList_ofList]) <;> decide
  | complete guard =>
    apply Fits.of_kinds
    dsimp only [List.map, Part.kind]
    cases returnsResult <;> simp only [if_true, Bool.false_eq_true, if_false] <;>
      (repeat rw [String.toList_ofList]) <;> decide

theorem fits_bodyHead (d : Source.Declaration) : Fits [fixed (bodyHead d)] := by
  apply Fits.of_kinds
  unfold bodyHead
  split <;> dsimp only [List.map, Part.kind] <;> rw [String.toList_ofList] <;> decide

/-- Any text may follow once a block stands behind the type. -/
theorem fits_type (type : Option String) : Fits (typeParts type ++ [fixed "\x7b\x7d"]) := by
  apply Fits.of_kinds
  cases type with
  | none => decide
  | some t =>
    dsimp only [typeParts, List.map, List.cons_append, List.nil_append, Part.kind]
    decide

/-! ### Delimiters -/

/-- The texts that are given from outside have no delimiters. -/
def Undelimited (parts : List Part) : Prop :=
  ∀ s, given s ∈ parts → delimiters (Part.given s).tokens = []

theorem nests_link (l : Link) : Nests [.paren] [] l.parts := by
  obtain - | - | ⟨g⟩ | ⟨g⟩ := l <;> refine Nests.of_kinds (by simp [Link.parts]) ?_ <;>
    unfold Link.parts <;> dsimp only [List.map, Part.kind] <;> rw [toList_support] <;>
    (repeat rw [String.toList_ofList]) <;> decide

theorem nests_siteRefs (stages : List Nat) : Nests [.bracket] [] (siteRefs stages) := by
  fun_induction siteRefs stages with
  | case1 => exact Nests.of_kinds (by simp) (by decide)
  | case2 k =>
    refine Nests.of_kinds (by simp) ?_
    dsimp only [List.map, Part.kind]
    decide
  | case3 k l rest ih =>
    refine Nests.append (Nests.of_kinds (by simp) ?_) ih
    dsimp only [List.map, Part.kind]
    decide

theorem nests_target (t : Target) : Nests [] [] t.parts := by
  refine Nests.of_kinds ?_ ?_
  · cases t <;> simp [Target.parts]
  · cases t <;> dsimp only [Target.parts, List.map, Part.kind] <;> decide

theorem nests_receiver (r : ReceiverAccess) : Nests [] [] (receiverParts r) := by
  refine Nests.of_kinds (by simp [receiverParts]) ?_
  unfold receiverParts
  cases r <;> dsimp only [List.map, Part.kind, ReceiverAccess.text] <;>
    (repeat rw [String.toList_ofList]) <;> decide

theorem nests_entry {e : Entry} (h : Undelimited e.parts) : Nests [] [] e.parts := by
  unfold Entry.parts at h ⊢
  have hcaptures : Nests [] [] (e.captures.flatMap captureParts) := by
    refine Nests.flatMap fun c hc => Nests.of_kinds (fun s hs => h s ?_) ?_
    · exact List.mem_append_left _ (List.mem_append_left _ (List.mem_flatMap.mpr ⟨c, hc, hs⟩))
    · unfold captureParts
      cases c.mode <;> dsimp only [List.map, Part.kind, captureMethod] <;>
        (repeat rw [String.toList_ofList]) <;> decide
  have hreceiver : Nests [] [] (e.receiver.elim [] receiverParts) := by
    cases e.receiver with
    | none => rfl
    | some r => exact nests_receiver r
  have hhook : Nests [] [] (e.hook.elim [] (hookParts e.receiver)) := by
    cases he : e.hook with
    | none => rfl
    | some k =>
      refine Nests.of_kinds (fun s hs => h s ?_) ?_
      · exact List.mem_append_right _ (by simpa [he] using hs)
      · obtain - | - | - := e.receiver <;> unfold hookParts <;>
          dsimp only [List.map, List.cons_append, List.nil_append, Part.kind, Option.elim,
            ReceiverAccess.text] <;>
          (repeat rw [String.toList_ofList]) <;> decide
  exact (hcaptures.append hreceiver).append hhook

theorem nests_openSingle (group stage : Nat) (toggled : Bool) :
    Nests [] [.paren] [fixed "let mut ", name true (.guard (.single group)), fixed " = ",
      fixed (support "Trampoline::"), fixed (if toggled then "toggled" else "new"), fixed "(&",
      name false (.site stage), fixed ", "] := by
  refine Nests.of_kinds (by simp) ?_
  dsimp only [List.map, Part.kind]
  rw [toList_support]
  cases toggled <;> simp only [if_true, Bool.false_eq_true, if_false] <;>
    (repeat rw [String.toList_ofList]) <;> decide

/-- The list of the sites of a group that shares one guard. -/
theorem nests_siteList (group : Nat) (stages : List Nat) :
    Nests [] [.bracket] [fixed "static ", name true (.sites group), fixed ": [&",
      fixed (support "CallSite"), fixed "; ", number stages.length, fixed "] = ["] := by
  refine Nests.of_kinds (by simp) ?_
  dsimp only [List.map, Part.kind]
  rw [toList_support]
  repeat rw [String.toList_ofList]
  decide

theorem nests_openFused (group : Nat) :
    Nests [] [.paren] [fixed "; let mut ", name true (.guard (.fused group)), fixed " = ",
      fixed (support "Fused::new(&"), name false (.sites group), fixed ", "] := by
  refine Nests.of_kinds (by simp) ?_
  dsimp only [List.map, Part.kind]
  rw [toList_support]
  repeat rw [String.toList_ofList]
  decide

theorem nests_call {observing returnsResult : Bool} {c : Call}
    (h : Undelimited (c.parts observing returnsResult)) :
    Nests [] [] (c.parts observing returnsResult) := by
  have hmark : Nests [] [] [fixed (Call.text.mark observing), fixed "; "] := by
    refine Nests.of_kinds (by simp) ?_
    cases observing <;> decide
  unfold Call.parts at h ⊢
  cases c with
  | openSingle group stage toggled link =>
    exact ((nests_openSingle group stage toggled).append (nests_link link)).append hmark
  | openFused group stages link =>
    have hsites := (nests_siteList group stages).append (nests_siteRefs stages)
    exact ((hsites.append (nests_openFused group)).append (nests_link link)).append hmark
  | setExit target hook =>
    refine (nests_target target).append (Nests.of_kinds (fun s hs => h s ?_) ?_)
    · exact List.mem_append_right _ hs
    · dsimp only [List.map, Part.kind]
      decide
  | enter target entry =>
    have hopen : Nests [] [.brace, .paren] [fixed ".enter(", fixed "|__hw_ctx| \x7b "] :=
      Nests.of_kinds (by simp) (by decide)
    have hclose : Nests [.brace, .paren] [] [fixed "\x7d", fixed "); "] :=
      Nests.of_kinds (by simp) (by decide)
    have hentry : Nests [] [] entry.parts :=
      nests_entry fun s hs => h s (by simp [hs])
    refine Nests.append (Nests.append ?_ (hentry.outer [.brace, .paren])) hclose
    exact (nests_target target).append hopen
  | record target mode =>
    refine (nests_target target).append (Nests.of_kinds (by simp) ?_)
    cases mode <;> dsimp only [List.map, Part.kind, captureMethod] <;>
      (repeat rw [String.toList_ofList]) <;> decide
  | complete guard =>
    refine Nests.of_kinds (by simp) ?_
    dsimp only [List.map, Part.kind]
    cases returnsResult <;> simp only [if_true, Bool.false_eq_true, if_false] <;>
      (repeat rw [String.toList_ofList]) <;> decide

theorem nests_bodyHead (d : Source.Declaration) :
    Nests [] (if d.isAsync then [] else [.paren]) [fixed (bodyHead d)] := by
  refine Nests.of_kinds (by simp) ?_
  unfold bodyHead
  cases d.isAsync <;> simp only [if_true, Bool.false_eq_true, if_false, List.map, Part.kind] <;>
    rw [String.toList_ofList] <;> decide

theorem nests_site (importPath function : String) (stage : Nat) (s : Stage) :
    Nests [] [] (siteParts importPath function stage s) := by
  refine Nests.of_kinds (by simp [siteParts]) ?_
  unfold siteParts
  dsimp only [List.map, Part.kind]
  rw [toList_support]
  repeat rw [String.toList_ofList]
  decide

end Instrumentation.Splice
