import Instrumentation.Proofs.LoaderLine
import Instrumentation.Proofs.Offset

/-!
Lines that make crates known, put in behind the inner attributes of a file. The file is then read as
before, with one more item for each crate and with its offsets shifted.
-/
namespace Instrumentation.Source

open Text (byteLength)

namespace Grammar

open Source.Parser

/-- No item starts with an asterisk. -/
theorem run_item_asterisk {c : Cursor} {joint : Bool} {p : Nat} {ts : List Tree}
    (hc : c.rest = .mark '*' joint p :: ts) (g : Grammar) :
    (itemBody g).run c = .error c.here := by
  have hhash : isOp "#" c.rest = false := by
    have hlist : "#".toList = ['#'] := by decide
    rw [hc, isOp, hlist]
    rfl
  have hpub : isKeyword "pub" c.rest = false := by
    rw [hc]
    rfl
  have hcolons : isOp "::" c.rest = false := by
    have hlist : "::".toList = [':', ':'] := by decide
    rw [hc, isOp, hlist]
    rfl
  have hinvoked : startsMacro c.rest = false := by
    rw [startsMacro, hcolons, hc]
    rfl
  rw [itemBody, run_bind (run_outerAttributes g hhash), itemRest, run_bind (run_aheadOfItem hpub)]
  simp only [hinvoked]
  rw [hc]
  rfl

/-- A line for a crate does not end with a block. -/
theorem isBrace_reverse_cratesTrees {names : List String} (h : ∀ c ∈ names, isCrateName c)
    (hne : names ≠ []) (pos : Nat) (joint : Bool) (rest : List Tree) :
    isBrace ((cratesTrees pos joint names).reverse ++ rest) = false := by
  fun_induction cratesTrees pos joint names generalizing rest with
  | case1 => exact absurd rfl hne
  | case2 pos crate =>
    obtain ⟨raw, name, -, -, htrees⟩ := exists_crateTrees (h crate List.mem_cons_self)
    rw [htrees]
    rfl
  | case3 pos crate next crates ih =>
    rw [List.reverse_append, List.append_assoc]
    exact ih (fun c hc => h c (List.mem_cons_of_mem _ hc)) (by simp) _

/-- Items behind lines for some crates, and at other offsets, are read as before. -/
theorem run_many_put {names : List String} (hnames : ∀ c ∈ names, isCrateName c) (hne : names ≠ [])
    {items : List Item} {c d : Cursor} (h : (many (parsers .item)).run c = .ok (items, d))
    (hbrace : isBrace c.printed = false) {R : Nat → Nat → Prop} {rest : List Tree}
    (hrest : AlikeIn R c.rest rest) (pos : Nat) (joint : Bool) :
    ∃ items' d', List.Forall₂ (Item.Alike R) items items' ∧ AlikeIn R d.rest d'.rest ∧
      d.stray.isSome = d'.stray.isSome ∧
      (many (parsers .item)).run { c with rest := cratesTrees pos joint names ++ rest } =
        .ok (names.map (fun _ => .other) ++ items', d') := by
  -- Other trees were printed before, but none that ends with a block.
  have hbrace' : isBrace c.printed =
      isBrace ((cratesTrees pos false names).reverse ++ c.printed) := by
    rw [hbrace, isBrace_reverse_cratesTrees hnames hne]
  have hcursor : Cursor.Alike R c.printed ((cratesTrees pos false names).reverse ++ c.printed) c
      { c with rest, printed := (cratesTrees pos false names).reverse ++ c.printed } :=
    ⟨hrest, ⟨[], [], rfl, rfl, rfl⟩, rfl, rfl⟩
  have hmany : Alike R (many (parsers .item)) (many (parsers .item)) :=
    .many_list Steady.item
  have hboth := hmany.out hbrace' hcursor
  rw [h] at hboth
  generalize hnew : (many (parsers .item)).run { c with
    rest, printed := (cratesTrees pos false names).reverse ++ c.printed } = r at hboth
  cases hboth with
  | @ok _ b hok =>
    obtain ⟨items', d'⟩ := b
    obtain ⟨hitems, hd⟩ := hok
    exact ⟨items', d', hitems, hd.rest, hd.stray, run_crates hnames
      (c := { c with rest := cratesTrees pos joint names ++ rest }) rfl hnew⟩

/-- What a file is read as when lines for some crates are put in behind its inner attributes. -/
theorem readAll_put {ts : List Tree} {f : File} (h : readAll file ts = .ok f) :
    ∃ head tail, ts = head ++ tail ∧ InnerTrees head (f.innerAttrs.map Attribute.stop) ∧
      (∀ joint p us, tail ≠ .mark '*' joint p :: us) ∧
      ∀ {names : List String}, (∀ c ∈ names, isCrateName c) → names ≠ [] →
        ∀ {R : Nat → Nat → Prop} {tail' : List Tree}, AlikeIn R tail tail' → ∀ pos joint,
          ∃ items, List.Forall₂ (Item.Alike R) f.items items ∧
            readAll file (head ++ (cratesTrees pos joint names ++ tail')) =
              .ok ⟨f.innerAttrs, names.map (fun _ => .other) ++ items⟩ := by
  simp only [readAll] at h
  split at h
  · cases h
  · next f' d hrun =>
    split at h
    · cases h
    · next hend =>
      cases h
      rw [Option.or_eq_none_iff, Option.map_eq_none_iff, List.head?_eq_none_iff] at hend
      -- The cursor behind the inner attributes, and the one at the end.
      rw [file] at hrun
      obtain ⟨attrs, c, hattrs, hrest⟩ := exists_of_run_bind hrun
      obtain ⟨items, d, hitems, hpure⟩ := exists_of_run_bind hrest
      cases hpure
      obtain ⟨head, hhead, rfl, hbrace, hlocal⟩ := run_innerAttributes hattrs rfl
      refine ⟨head, c.rest, rfl, hhead, fun joint p us hc => ?_,
        fun {names} hnames hne R tail' halike pos joint => ?_⟩
      · have herr : (parsers .item).run c = .error c.here := by
          rw [parsers_item]
          exact run_item_asterisk hc _
        exact run_many_ne_ok (by simp [hc]) herr _ hitems
      · have hinner : startsInner (cratesTrees pos joint names ++ tail') = false := by
          obtain ⟨us, hus⟩ := exists_cratesTrees hnames hne pos joint
          have hlist : "#".toList = ['#'] := by decide
          rw [hus, startsInner, isOp, hlist]
          rfl
        obtain ⟨items', d', hforall, hleft, hstray, hmany⟩ :=
          run_many_put hnames hne hitems hbrace halike pos joint
        rw [hend.1] at hstray
        rw [hend.2] at hleft
        have hread : (file parsers).run
            { rest := (head ++ (cratesTrees pos joint names ++ tail')), close := none } =
            .ok (⟨attrs, names.map (fun _ => .other) ++ items'⟩, d') := by
          rw [file, run_bind (hlocal _ hinner), run_bind hmany]
          rfl
        have hend' : d'.stray.or (d'.rest.head?.map Tree.start) = none := by
          rw [Option.or_eq_none_iff, Option.map_eq_none_iff, List.head?_eq_none_iff]
          exact ⟨by simpa using hstray.symm, List.length_eq_zero_iff.mp hleft.length_eq.symm⟩
        exact ⟨items', hforall, by simp only [readAll, hread, hend']⟩

end Grammar

end Instrumentation.Source
