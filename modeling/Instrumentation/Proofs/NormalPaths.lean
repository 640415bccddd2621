import Instrumentation.Proofs.Paths

/-!
Paths without dots. An absolute path and its normal form lead to the same place, and unless dots try
to lead past the root, the normal form names that place and nothing else.
-/
namespace Instrumentation.Path

variable {p q : Path} {c : PathComponent} {cs rest : List PathComponent} {place names : List String}

theorem components_of_isAbsolute (h : p.isAbsolute = true) :
    p.components = .root :: stepsIn p.text.toList := by
  rw [components_eq, headOf, ← isAbsolute, if_pos h]
  rfl

theorem isAbsolute_iff : p.isAbsolute = true ↔ .root ∈ p.components := by
  rw [← not_iff_not, ← head?_ne_slash_iff, isAbsolute, beq_iff_eq]

theorem IsAt.isAbsolute (h : p.IsAt place) : p.isAbsolute = true :=
  isAbsolute_iff.mpr (by simp [h.components_eq])

/-- An absolute path without steps up leads straight to a place. -/
theorem exists_isAt (habs : p.isAbsolute = true) (hup : .up ∉ p.components) :
    ∃ place, p.IsAt place := by
  have hroot := components_of_isAbsolute habs
  obtain ⟨names, hnames⟩ := exists_names_of_drop (p := p) (n := 1) Nat.one_pos fun h =>
    hup (List.mem_of_mem_drop h)
  rw [hroot, List.drop_one, List.tail_cons] at hnames
  exact ⟨names, by rw [IsAt, hroot, hnames]⟩

/-- The names on the way to a place come from where the way starts, or from the way. -/
theorem mem_foldl_enter {s : String} (h : s ∈ cs.foldl enter place) :
    s ∈ place ∨ .name s ∈ cs := by
  induction cs generalizing place with
  | nil => exact .inl h
  | cons c cs ih =>
    rcases ih h with hs | hs
    · cases c with
      | root => cases hs
      | here => exact .inl hs
      | up => exact .inl (List.dropLast_subset place hs)
      | name u =>
        rcases List.mem_append.mp hs with hs | hs
        · exact .inl hs
        · obtain rfl := List.mem_singleton.mp hs
          exact .inr (by simp)
    · exact .inr (List.mem_cons_of_mem c hs)

/-- Joining components one after the other adds each of them. -/
theorem components_foldl_join (hp : p.components ≠ [])
    (hcs : ∀ c ∈ cs, c = .up ∨ ∃ s, c = .name s ∧ IsName s) :
    (cs.foldl (fun p c => p.join c.text) p).components = p.components ++ cs := by
  induction cs generalizing p with
  | nil => simp
  | cons c cs ih =>
    have hjoin : (p.join c.text).components = p.components ++ [c] := by
      rcases hcs c (by simp) with rfl | ⟨s, rfl, hs⟩
      · exact components_join hp (by decide)
      · have hstep : stepsIn (['/'].intercalate ([s].map String.toList)) = [s].map .name :=
          stepsIn_names (by simpa using hs)
        have hslash : s.toList.head? ≠ some '/' := fun he =>
          hs.noSlash (List.mem_of_mem_head? he)
        rw [PathComponent.text, components_join hp hslash]
        simpa using hstep
    have hrest := ih (p := p.join c.text) (by simp [hjoin]) fun d hd =>
      hcs d (List.mem_cons_of_mem c hd)
    rw [List.foldl_cons, hrest, hjoin, List.append_assoc, List.singleton_append]

theorem components_ofComponents {base : List PathComponent} (hbase : base = [] ∨ base = [.root])
    (hcs : ∀ c ∈ cs, c = .up ∨ ∃ s, c = .name s ∧ IsName s) :
    (ofComponents (base ++ cs)).components = base ++ cs := by
  rcases hbase with rfl | rfl
  · cases cs with
    | nil => decide
    | cons c cs =>
      have hfirst : (Path.join ⟨""⟩ c.text).components = [c] := by
        rcases hcs c (by simp) with rfl | ⟨s, rfl, hs⟩
        · decide
        · exact components_div ⟨""⟩ hs
      rw [List.nil_append, ofComponents, List.foldl_cons, components_foldl_join (by simp [hfirst])
        fun d hd => hcs d (List.mem_cons_of_mem c hd), hfirst]
      rfl
  · have hroot : (Path.join ⟨""⟩ PathComponent.root.text).components = [.root] := by decide
    rw [ofComponents, List.singleton_append, List.foldl_cons,
      components_foldl_join (by simp [hroot]) hcs, hroot]
    rfl

/-- How many steps up lead out of where a way starts, if it starts some way below that. -/
def overrun : (depth : Nat) → List PathComponent → Nat
  | _, [] => 0
  | _, .root :: cs => overrun 0 cs
  | depth, .here :: cs => overrun depth cs
  | 0, .up :: cs => overrun 0 cs + 1
  | depth + 1, .up :: cs => overrun depth cs
  | depth, .name _ :: cs => overrun (depth + 1) cs

theorem overrun_of_descend {depth below : Nat} (h : descend depth cs = some below) :
    overrun depth cs = 0 := by
  induction cs generalizing depth with
  | nil => rfl
  | cons c cs ih =>
    cases c with
    | root => cases h
    | here => exact ih h
    | up =>
      cases depth with
      | zero => cases h
      | succ depth => exact ih h
    | name s => exact ih h

/-- Steps that start below some names: a step up leads out of what holds the names, or back over the
last of them. -/
inductive Steps : List String → List PathComponent → Prop
  | nil (names : List String) : Steps names []
  | out {cs : List PathComponent} (h : Steps [] cs) : Steps [] (.up :: cs)
  | up {init : List String} {last : String} {cs : List PathComponent} (h : Steps init cs) :
    Steps (init ++ [last]) (.up :: cs)
  | name {names : List String} {s : String} {cs : List PathComponent}
    (h : Steps (names ++ [s]) cs) : Steps names (.name s :: cs)

theorem steps_of_forall (hcs : ∀ c ∈ cs, c = .up ∨ ∃ s, c = .name s) (names : List String) :
    Steps names cs := by
  induction cs generalizing names with
  | nil => exact .nil names
  | cons c cs ih =>
    rw [List.forall_mem_cons] at hcs
    rcases hcs.1 with rfl | ⟨s, rfl⟩
    · rcases List.eq_nil_or_concat' names with rfl | ⟨init, last, rfl⟩
      · exact .out (ih hcs.2 [])
      · exact .up (ih hcs.2 init)
    · exact .name (ih hcs.2 (names ++ [s]))

/-- One step keeps the names before it, as entering does. Steps up that nothing is left for come and
go in front of the names: each of them takes the one before it away. -/
theorem Steps.foldl_step (h : Steps names cs) {base : List PathComponent}
    (hbase : base = [] ∨ base = [.root]) (n : Nat) :
    cs.foldl step ((names.map .name).reverse ++ (List.replicate (n % 2) .up ++ base)) =
      ((cs.foldl enter names).map .name).reverse ++
        (List.replicate ((n + overrun names.length cs) % 2) .up ++ base) := by
  induction h generalizing n with
  | nil => rfl
  | out _ ih =>
    have hone : step (List.replicate (n % 2) .up ++ base) .up =
        List.replicate ((n + 1) % 2) .up ++ base := by
      rcases Nat.mod_two_eq_zero_or_one n with hn | hn
      · rcases hbase with rfl | rfl <;> simp [hn, Nat.add_mod, step]
      · simp [hn, Nat.add_mod, step]
    have hup := ih (n + 1)
    rw [List.map_nil, List.reverse_nil, List.nil_append] at hup ⊢
    rw [List.foldl_cons, List.foldl_cons, hone, hup, List.length_nil, overrun, Nat.add_assoc,
      Nat.add_comm 1]
    rfl
  | up _ ih => simpa [step, enter, overrun] using ih n
  | name _ ih => simpa [step, enter, overrun] using ih n

/-- How many steps up of a path lead out of where it starts. -/
def excess (p : Path) : Nat := overrun 0 p.components

/-- What a path starts with: the root, or nothing. -/
def baseOf (p : Path) : List PathComponent := if p.isAbsolute then [.root] else []

theorem baseOf_cases (p : Path) : p.baseOf = [] ∨ p.baseOf = [.root] := by
  unfold baseOf
  split
  · exact .inr rfl
  · exact .inl rfl

/-- Behind its start, a path is its steps; a dot in front of them leads nowhere. -/
theorem components_cases (p : Path) : p.components = p.baseOf ++ stepsIn p.text.toList ∨
    p.isAbsolute = false ∧ p.components = .here :: stepsIn p.text.toList := by
  rw [components_eq, headOf, baseOf, isAbsolute]
  by_cases habs : p.text.toList.head? == some '/'
  · simp [habs]
  · simp only [habs, Bool.false_eq_true, ↓reduceIte, List.nil_append]
    split
    · exact .inr ⟨trivial, rfl⟩
    · exact .inl rfl

theorem excess_eq (p : Path) : p.excess = overrun 0 (stepsIn p.text.toList) := by
  unfold excess
  rcases p.components_cases with h | ⟨-, h⟩
  · rcases p.baseOf_cases with hbase | hbase <;> rw [h, hbase] <;> rfl
  · rw [h]
    rfl

/-- Where a path leads that is seen from the root. -/
theorem lead_nil (p : Path) : p.lead [] = (stepsIn p.text.toList).foldl enter [] := by
  unfold lead
  rcases p.components_cases with h | ⟨-, h⟩
  · rcases p.baseOf_cases with hbase | hbase <;> rw [h, hbase] <;> rfl
  · rw [h]
    rfl

theorem mem_lead_nil (p : Path) : ∀ s ∈ p.lead [], IsName s := by
  intro s hs
  rw [lead_nil] at hs
  rcases mem_foldl_enter hs with hs | hs
  · cases hs
  · rcases mem_stepsIn hs with he | ⟨u, he, hu⟩
    · cases he
    · cases he
      exact hu

/-- The normal form of a path: of the steps up that lead out, one is left if their number is odd, and
then come the names that are left of the others. -/
theorem normalize_eq (p : Path) : p.normalize =
    ofComponents (p.baseOf ++ (List.replicate (p.excess % 2) .up ++ (p.lead []).map .name)) := by
  have hsteps : ∀ c ∈ stepsIn p.text.toList, c = .up ∨ ∃ s, c = .name s := fun c hc =>
    (mem_stepsIn hc).imp_right fun ⟨s, hs, _⟩ => ⟨s, hs⟩
  have hfold := (steps_of_forall hsteps []).foldl_step p.baseOf_cases 0
  rw [List.map_nil, List.reverse_nil, List.nil_append, Nat.zero_mod, List.replicate_zero,
    List.nil_append, Nat.zero_add, List.length_nil, ← excess_eq, ← lead_nil] at hfold
  have hstart : p.components.foldl step [] = (stepsIn p.text.toList).foldl step p.baseOf := by
    rcases p.components_cases with h | ⟨hrel, h⟩
    · rcases p.baseOf_cases with hbase | hbase <;> rw [h, hbase] <;> rfl
    · rw [h, baseOf, hrel]
      rfl
  rw [normalize, hstart, hfold]
  rcases p.baseOf_cases with hbase | hbase <;> simp [hbase]

theorem components_normalize_eq (p : Path) : p.normalize.components =
    p.baseOf ++ (List.replicate (p.excess % 2) .up ++ (p.lead []).map .name) := by
  rw [normalize_eq]
  refine components_ofComponents p.baseOf_cases fun c hc => ?_
  rcases List.mem_append.mp hc with hc | hc
  · exact .inl (List.eq_of_mem_replicate hc)
  · obtain ⟨s, hs, rfl⟩ := List.mem_map.mp hc
    exact .inr ⟨s, rfl, p.mem_lead_nil s hs⟩

theorem lead_of_isAbsolute (h : p.isAbsolute = true) (start : List String) :
    p.lead start = p.lead [] := by
  rw [lead, lead, components_of_isAbsolute h, List.foldl_cons, List.foldl_cons]
  rfl

/-- The dots of a path do not lead past the root. -/
def StaysBelowRoot (p : Path) : Prop := (descend 0 (p.components.drop 1)).isSome = true

instance (p : Path) : Decidable p.StaysBelowRoot := inferInstanceAs (Decidable (_ = true))

/-- The normal form of an absolute path leads straight to where the path leads, but for a step up
that cannot be taken. -/
theorem components_normalize (h : p.isAbsolute = true) (start : List String) :
    ∃ ups, (ups = [] ∨ ups = [.up]) ∧
      p.normalize.components = .root :: (ups ++ (p.lead start).map .name) ∧
      (p.StaysBelowRoot → ups = []) := by
  refine ⟨List.replicate (p.excess % 2) .up, ?_, ?_, ?_⟩
  · rcases Nat.mod_two_eq_zero_or_one p.excess with hn | hn <;> simp [hn]
  · rw [components_normalize_eq, baseOf, if_pos h, lead_of_isAbsolute h start]
    rfl
  · intro hstays
    obtain ⟨below, hbelow⟩ := Option.isSome_iff_exists.mp hstays
    rw [components_of_isAbsolute h, List.drop_one, List.tail_cons] at hbelow
    rw [excess_eq, overrun_of_descend hbelow]
    rfl

/-- A path whose dots do not lead past the root has the place it leads to as its normal form. -/
theorem isAt_normalize (h : p.isAbsolute = true) (hstays : p.StaysBelowRoot) (start : List String) :
    p.normalize.IsAt (p.lead start) := by
  obtain ⟨ups, -, hcomponents, hnone⟩ := components_normalize h start
  rw [IsAt, hcomponents, hnone hstays, List.nil_append]

theorem descend_names (depth : Nat) (names : List String) :
    descend depth (names.map .name) = some (depth + names.length) := by
  induction names generalizing depth with
  | nil => rfl
  | cons s names ih =>
    rw [List.map_cons, descend, ih, List.length_cons, Nat.add_right_comm, Nat.add_assoc]

theorem IsAt.staysBelowRoot (h : p.IsAt place) : p.StaysBelowRoot := by
  rw [StaysBelowRoot, h.components_eq, List.drop_one, List.tail_cons, descend_names]
  rfl

theorem IsAt.normalize (h : p.IsAt place) : p.normalize.IsAt place := by
  have hnormal := isAt_normalize h.isAbsolute h.staysBelowRoot []
  rwa [h.lead] at hnormal

/-- A path that starts neither at the root nor with a dot is made of its steps. -/
theorem stepsIn_eq_components (hroot : .root ∉ p.components) (hhere : .here ∉ p.components) :
    stepsIn p.text.toList = p.components := by
  rw [components_eq, List.mem_append, not_or] at hroot hhere
  have hhead : headOf p.text.toList = [] := by
    unfold headOf at *
    split
    · simp_all
    · split <;> simp_all
  rw [components_eq, hhead, List.nil_append]

/-- What is left of a path after a leading part, joined to another path. -/
theorem components_join_strip {base rest dir : Path} (hrest : p.strip? base = some rest)
    (hbase : base.components ≠ []) (hdir : dir.components ≠ []) :
    (dir.join rest.text).components =
      dir.components ++ p.components.drop base.components.length := by
  have hsteps : ∀ c ∈ p.components.drop base.components.length,
      c = .up ∨ ∃ s, c = .name s ∧ IsName s := fun c hc =>
    mem_stepsIn (mem_stepsIn_of_mem_drop (List.length_pos_iff.mpr hbase) hc)
  have hroot : .root ∉ p.components.drop base.components.length := fun h => by
    simpa using hsteps _ h
  have hhere : .here ∉ p.components.drop base.components.length := fun h => by
    simpa using hsteps _ h
  have hcomponents := components_strip hrest hroot
  rw [← hcomponents] at hroot hhere ⊢
  rw [components_join hdir (head?_ne_slash_iff.mpr hroot), stepsIn_eq_components hroot hhere]

theorem name_injective : Function.Injective PathComponent.name := fun _ _ => PathComponent.name.inj

/-- Of two paths that lead straight to places, one starts with the other if its place lies there. -/
theorem IsAt.startsWith_iff (hp : p.IsAt place) (hq : q.IsAt names) :
    p.startsWith q = true ↔ names <+: place := by
  rw [startsWith, List.isPrefixOf_iff_prefix, hp.components_eq, hq.components_eq,
    List.cons_prefix_cons]
  constructor
  · rintro ⟨-, rest, hrest⟩
    obtain ⟨before, after, rfl, hbefore, -⟩ := List.map_eq_append_iff.mp hrest.symm
    obtain rfl := List.map_injective_iff.mpr name_injective hbefore
    exact List.prefix_append before after
  · rintro ⟨rest, rfl⟩
    exact ⟨rfl, by rw [List.map_append]; exact List.prefix_append _ _⟩

end Instrumentation.Path
