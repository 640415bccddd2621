import Instrumentation.Rule.Definition
import Instrumentation.Proofs.Outcome

/-!
What a list of types in a rule stands for. The types are compared one by one with those of a
declaration, by their spelling without blanks, and unit alone stands for no type at all. This is
meant for results, and goes for parameters too: no rule selects a function by the one parameter that
is of unit type.
-/
namespace Instrumentation

open Source (WrittenType Function)

/-- What a type in a rule is compared by, if it can be read: `_` stands for any type. -/
def shapeKey? (written : String) : Option String :=
  if Text.trimmed written = "_" then some "_" else Source.typeKey? written

/-- A type in a rule is `_`, or spelled like the type of the declaration. -/
def FitsType (written : String) (t : WrittenType) : Prop :=
  shapeKey? written = some "_" ∨ shapeKey? written = some t.key

/-- A list of types in a rule, where unit alone is taken away. -/
def withoutUnit (types : List String) : List String :=
  if types.map shapeKey? = [some "()"] then [] else types

/-- The types of a function's results: unit is none. -/
def resultTypes (f : Function) : List WrittenType :=
  f.sig.output.toList.filter fun t => t.node ≠ .unit

variable {what written key : String} {types : List String}

theorem readShapeType_eq_ok_iff :
    readShapeType what written = .ok key ↔ shapeKey? written = some key := by
  unfold readShapeType shapeKey?
  by_cases hany : Text.trimmed written = "_"
  · simp [hany]
  · simp only [beq_iff_eq, hany, if_false]
    cases Source.typeKey? written <;> simp

namespace Shape

theorem acceptsTypes_iff {expected found : List String} :
    acceptsTypes expected found = true ↔
      List.Forall₂ (fun e t => e = "_" ∨ e = t) expected found := by
  fun_induction acceptsTypes expected found with
  | case1 => simp
  | case2 e es t ts ih => simp [ih, or_comm]
  | case3 expected found hnil hcons =>
    simp only [Bool.false_eq_true, false_iff]
    rintro (_ | ⟨-, -⟩)
    · exact hnil rfl rfl
    · exact hcons _ _ _ _ rfl rfl

/-- Types are accepted by the keys that were read from a list as they fit the list. -/
theorem acceptsTypes_keys {keys : List String} {found : List WrittenType}
    (hkeys : List.Forall₂ (fun written key => shapeKey? written = some key) types keys) :
    acceptsTypes keys (found.map WrittenType.key) = true ↔
      List.Forall₂ FitsType types found := by
  rw [acceptsTypes_iff]
  induction hkeys generalizing found with
  | nil => cases found <;> simp
  | cons hkey _ ih =>
    cases found with
    | nil => simp
    | cons t found => simp [ih, FitsType, hkey]

end Shape

theorem map_shapeKey?_of_forall₂ {keys : List String}
    (hkeys : List.Forall₂ (fun written key => shapeKey? written = some key) types keys) :
    types.map shapeKey? = keys.map some := by
  induction hkeys with
  | nil => rfl
  | cons hkey _ ih => rw [List.map_cons, hkey, ih, List.map_cons]

theorem readShape_list_eq_ok {shape : Shape} (h : readShape what (some (.list types)) = .ok shape)
    (found : List WrittenType) : shape.accepts (found.map WrittenType.key) = true ↔
      List.Forall₂ FitsType (withoutUnit types) found := by
  obtain ⟨keys, hkeys, h⟩ := exists_of_bind_eq_ok h
  cases h
  have hread : List.Forall₂ (fun written key => shapeKey? written = some key) types keys :=
    (forall₂_of_mapM hkeys).imp fun _ _ => readShapeType_eq_ok_iff.mp
  have hunit : types.map shapeKey? = [some "()"] ↔ keys = ["()"] := by
    rw [map_shapeKey?_of_forall₂ hread]
    simp
  unfold Shape.accepts withoutUnit
  by_cases hkeys : keys = ["()"]
  · rw [if_pos hkeys, if_pos (hunit.mpr hkeys)]
    exact Shape.acceptsTypes_keys .nil
  · rw [if_neg hkeys, if_neg (mt hunit.mp hkeys)]
    exact Shape.acceptsTypes_keys hread

/-- A list stands for a shape if each of its types can be read. -/
theorem exists_readShape_list_iff :
    (∃ shape, readShape what (some (.list types)) = .ok shape) ↔
      ∀ written ∈ types, (shapeKey? written).isSome = true := by
  constructor
  · rintro ⟨shape, h⟩ written hwritten
    obtain ⟨keys, hkeys, -⟩ := exists_of_bind_eq_ok h
    obtain ⟨key, -, hkey⟩ := exists_of_mapM hkeys hwritten
    exact Option.isSome_iff_exists.mpr ⟨key, readShapeType_eq_ok_iff.mp hkey⟩
  · intro h
    have hread (written : String) (hwritten : written ∈ types) :
        ∃ key, readShapeType what written = .ok key := by
      obtain ⟨key, hkey⟩ := Option.isSome_iff_exists.mp (h written hwritten)
      exact ⟨key, readShapeType_eq_ok_iff.mpr hkey⟩
    obtain ⟨keys, hkeys⟩ := exists_mapM_eq_ok hread
    exact ⟨_, bind_eq_ok hkeys rfl⟩

section Declared

open Source (Places Receiver declaration)

variable {places : Places} {scope : List String} {f : Function} {receiver : Option Receiver}
  {traitName : Option String}

theorem params_declaration :
    (declaration places scope f receiver traitName).params.map Source.ParamSite.type =
      (f.sig.params.map Source.Param.type).map WrittenType.key := by
  simp [declaration]

theorem results_declaration :
    (declaration places scope f receiver traitName).results =
      (resultTypes f).map WrittenType.key := by
  unfold declaration resultTypes
  cases f.sig.output with
  | none => rfl
  | some t => by_cases hunit : t.node = .unit <;> simp [hunit]

end Declared

/-- A list of types that can be read is a shape, and it accepts the parameters and the results that
fit it type by type. Unit alone stands for nothing, for the parameters as well. -/
theorem readShape_list_accepts (h : ∀ written ∈ types, (shapeKey? written).isSome = true) :
    ∃ shape, readShape what (some (.list types)) = .ok shape ∧
      ∀ places scope f receiver traitName,
        let d := Source.declaration places scope f receiver traitName
        (shape.accepts (d.params.map Source.ParamSite.type) = true ↔
          List.Forall₂ FitsType (withoutUnit types) (f.sig.params.map Source.Param.type)) ∧
        (shape.accepts d.results = true ↔
          List.Forall₂ FitsType (withoutUnit types) (resultTypes f)) := by
  obtain ⟨shape, hshape⟩ := exists_readShape_list_iff.mpr h
  refine ⟨shape, hshape, fun places scope f receiver traitName => ?_⟩
  dsimp only
  rw [params_declaration, results_declaration]
  exact ⟨readShape_list_eq_ok hshape _, readShape_list_eq_ok hshape _⟩

/-- Any one type, and a path with blanks in it. -/
theorem any_and_path_accept :
    (∀ written ∈ [" _ ", "a :: B"], (shapeKey? written).isSome = true) ∧
      ∃ shape, readShape "params" (some (.list [" _ ", "a :: B"])) = .ok shape ∧
        ∀ places scope f receiver traitName,
          let d := Source.declaration places scope f receiver traitName
          (shape.accepts (d.params.map Source.ParamSite.type) = true ↔
            List.Forall₂ FitsType (withoutUnit [" _ ", "a :: B"])
              (f.sig.params.map Source.Param.type)) ∧
          (shape.accepts d.results = true ↔
            List.Forall₂ FitsType (withoutUnit [" _ ", "a :: B"]) (resultTypes f)) := by
  have hread : ∀ written ∈ [" _ ", "a :: B"], (shapeKey? written).isSome = true :=
    List.all_eq_true.mp (by decide +kernel :
      [" _ ", "a :: B"].all (fun written => (shapeKey? written).isSome) = true)
  exact ⟨hread, readShape_list_accepts hread⟩

/-- A function with one parameter of unit type is not selected by that type, but one without any
parameter is. -/
theorem unit_parameter_refused :
    readShape "params" (some (.list ["()"])) = .ok (.exact []) ∧
    (Source.Scan.read "fn f(x: ()) {}".toList).toOption.any (fun scan =>
      scan.declarations.map (fun d => d.params.map Source.ParamSite.type) = [["()"]] &&
      scan.declarations.all fun d =>
        !Shape.accepts (.exact []) (d.params.map Source.ParamSite.type)) = true ∧
    (Source.Scan.read "fn g() {}".toList).toOption.any (fun scan =>
      scan.declarations.map (fun d => d.params.map Source.ParamSite.type) = [[]] &&
      scan.declarations.all fun d =>
        Shape.accepts (.exact []) (d.params.map Source.ParamSite.type)) = true := by
  refine ⟨?_, ?_, ?_⟩
  · have hkey : shapeKey? "()" = some "()" := by decide +kernel
    have htype : readShapeType "params" "()" = .ok "()" := readShapeType_eq_ok_iff.mpr hkey
    simp only [readShape, List.mapM_cons, List.mapM_nil, htype]
    rfl
  · decide +kernel
  · decide +kernel

end Instrumentation
