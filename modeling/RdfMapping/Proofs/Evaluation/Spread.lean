import RdfMapping.Proofs.Evaluation.Languages
/-!
What an object adds to a record when its function returns an array of scalars. If the object
demands a kind of term, every element that is not null is a value of its own; without such a
demand the whole array is one value, and no element becomes what it would be alone.
-/

namespace RdfMapping

def Json.IsScalar : Json → Prop
  | .array _ | .object _ => False
  | .null | .bool _ | .number _ | .string _ => True

/-- The values of elements, each of them as if it were all that the function returned. -/
def spread (options : Options) (object : ObjectMap) (language : Option String)
    (elements : List Json) : List ObjectValue :=
  elements.flatMap (resultValues options object language)

/-- What an object gives adds certain values, in order, under every predicate but the type
predicate, as often as the row has the predicate; and it adds nothing else there. -/
def Resolved.Adds (resolved : Resolved) (values : List ObjectValue) : Prop :=
  ∀ (draft : Draft) (predicates : List String) (predicate : String),
    Table.Sorted draft.record.properties → predicate ≠ Vocabulary.rdfType →
      (draft.add predicates resolved).record.values predicate =
        draft.record.values predicate ++
          (predicates.filter (· = predicate)).flatMap fun _ => values

/-! ### What is added -/

theorem valuesUnder_statements {predicate : String} (other : predicate ≠ Vocabulary.rdfType)
    (predicates : List String) (resolved : Resolved) :
    valuesUnder predicate (resolved.statements predicates) =
      (predicates.filter (· = predicate)).flatMap fun _ => resolved.atOnce := by
  unfold Resolved.statements valuesUnder
  induction predicates with
  | nil => rfl
  | cons first rest ih =>
      rw [List.flatMap_cons, List.filter_append, List.map_append, ih]
      by_cases same : first = predicate
      · subst same
        simp [List.filter_map, Function.comp_def, other]
      · simp [same]

theorem Resolved.adds_iff {resolved : Resolved} {values : List ObjectValue} :
    resolved.Adds values ↔ resolved.atOnce = values := by
  constructor
  · intro adds
    have sorted : Table.Sorted (Record.ofId "").properties := List.Pairwise.nil
    have once := adds ⟨.ofId "", []⟩ [""] "" sorted (by decide)
    rw [Draft.record_add, Record.values_foldl_state sorted,
      valuesUnder_statements (by decide)] at once
    simpa using once
  · rintro rfl draft predicates predicate sorted other
    rw [Draft.record_add, Record.values_foldl_state sorted, valuesUnder_statements other]

/-! ### Arrays -/

section

variable {options : Options} {object : ObjectMap} {language : Option String}

theorem resultValues_of_scalar {value : Json} (scalar : value.IsScalar) :
    resultValues options object language value =
      if value.isNull then []
      else [wrap options object.resolvedTermType object.datatype language value] := by
  cases value with
  | array elements => cases scalar
  | object members => cases scalar
  | null | bool | number | string => rfl

theorem spread_of_scalars {elements : List Json} (scalars : ∀ element ∈ elements, element.IsScalar) :
    spread options object language elements =
      (elements.filter fun element => !element.isNull).map
        (wrap options object.resolvedTermType object.datatype language) := by
  unfold spread
  induction elements with
  | nil => rfl
  | cons element rest ih =>
      obtain ⟨first, others⟩ := List.forall_mem_cons.mp scalars
      rw [List.flatMap_cons, ih others, resultValues_of_scalar first, List.filter_cons]
      cases element.isNull with
      | true => rfl
      | false => rfl

/-- A literal that is wrapped holds its value, so that no scalar is wrapped as an array is. -/
theorem wrap_literal_ne {value : Json} (scalar : value.IsScalar) (elements : List Json) :
    wrap options none object.datatype language value ≠
      wrap options none object.datatype language (.array elements) := by
  intro same
  rw [(ObjectValue.literal.inj same).1] at scalar
  exact scalar

theorem resultValues_array_eq_spread_iff {call : FunctionCall} (kind : object.kind = .function call)
    {elements : List Json} (scalars : ∀ element ∈ elements, element.IsScalar) :
    resultValues options object language (.array elements) =
        spread options object language elements ↔
      object.termType.isSome := by
  rw [spread_of_scalars scalars]
  have resolved : object.resolvedTermType = object.termType := by
    unfold ObjectMap.resolvedTermType
    rw [kind]
    cases object.termType with
    | none => rfl
    | some termType => rfl
  rw [resultValues, resolved]
  cases object.termType with
  | some termType => simp
  | none =>
      simp only [Option.isSome_none, Bool.false_eq_true, iff_false]
      intro same
      have inside : wrap options none object.datatype language (.array elements) ∈
          (elements.filter fun element => !element.isNull).map
            (wrap options none object.datatype language) := by
        rw [← same]
        exact List.mem_singleton_self _
      obtain ⟨element, member, wrapped⟩ := List.mem_map.mp inside
      exact wrap_literal_ne (scalars element (List.mem_filter.mp member).1) elements wrapped

end

theorem unwrapSingle_of_several {elements : List Json} (several : 2 ≤ elements.length) :
    unwrapSingle (.array elements) = .array elements := by
  match elements, several with
  | _ :: _ :: _, _ => rfl

namespace Run

variable {σ : Type} (run : Run σ) {outputOf : Nat → RunM σ RuleOutput} {scope : RowScope}
  {object : ObjectMap} {call : FunctionCall} {state next : RunState σ} {elements : List Json}
  {language : Option String}

theorem run_resolve_function (kind : object.kind = .function call) {result : Json}
    (returned : (invoke (run.host outputOf) scope call).run.run state = (.ok result, next))
    (read : scope.language object = .ok language) :
    (resolve (run.host outputOf) scope object).run.run state =
      (.ok (.values (resultValues scope.options object language (unwrapSingle result))), next) := by
  unfold resolve
  simp only [kind]
  rw [RunM.run_bind, returned]
  simp only [read]
  rfl

theorem run_addObjects_cons {predicates : List String} {draft : Draft} {rest : List ObjectMap}
    {resolved : Resolved}
    (given : (resolve (run.host outputOf) scope object).run.run state = (.ok resolved, next)) :
    (addObjects (run.host outputOf) scope predicates draft (object :: rest)).run.run state =
      (addObjects (run.host outputOf) scope predicates (draft.add predicates resolved) rest).run.run
        next := by
  unfold addObjects
  rw [List.foldlM_cons, RunM.run_bind, RunM.run_bind, given]
  rfl

/-- A function has returned an array of several scalars for a row. Its elements that are not null
are added one by one, each of them as it would be alone, exactly if the object demands a kind of
term. -/
theorem adds_spread_iff (kind : object.kind = .function call)
    (returned : (invoke (run.host outputOf) scope call).run.run state =
      (.ok (.array elements), next))
    (several : 2 ≤ elements.length) (scalars : ∀ element ∈ elements, element.IsScalar)
    (read : scope.language object = .ok language) :
    ∃ resolved,
      (∀ predicates draft rest,
        (addObjects (run.host outputOf) scope predicates draft (object :: rest)).run.run state =
          (addObjects (run.host outputOf) scope predicates (draft.add predicates resolved)
            rest).run.run next) ∧
      spread scope.options object language elements =
        (elements.filter fun element => !element.isNull).map
          (wrap scope.options object.resolvedTermType object.datatype language) ∧
      (resolved.Adds (spread scope.options object language elements) ↔ object.termType.isSome) := by
  have given := run.run_resolve_function kind returned read
  rw [unwrapSingle_of_several several] at given
  refine ⟨_, fun predicates draft rest => run.run_addObjects_cons given,
    spread_of_scalars scalars, ?_⟩
  rw [Resolved.adds_iff]
  exact resultValues_array_eq_spread_iff kind scalars

def coloursCall : FunctionCall :=
  ⟨"call", [⟨[.constant Vocabulary.executes], [.ofKind (.constant (.iri "colours"))]⟩]⟩

/-- Rows with two colours each, in the language of the run. -/
def paints : Run Unit where
  mapping :=
    { rules := [tableRule "rows" "rows" [⟨[.constant "colour"], [.ofKind (.function coloursCall)]⟩]]
      distinct := by decide
      closed := by decide }
  registry := Registry.standard.register "colours" fun _ world =>
    (.ok (.array [.string "red", .string "green"]), world)
  options := { language := some "en" }
  sources := [("rows", "id\nann\n")]

/-- The colours are values of their own if their object is to be a literal. -/
theorem adds_spread_literals :
    let object := { ObjectMap.ofKind (.function coloursCall) with termType := some .literal }
    let scope : RowScope := ⟨.json [], 0, paints.options⟩
    ∃ resolved,
      (∀ predicates draft rest,
        (addObjects (paints.host paints.evaluate) scope predicates draft
            (object :: rest)).run.run (paints.start [] ()) =
          (addObjects (paints.host paints.evaluate) scope predicates
            (draft.add predicates resolved) rest).run.run (paints.start [] ())) ∧
      resolved.Adds [.literal (.string "red") none (some "en"),
        .literal (.string "green") none (some "en")] := by
  intro object scope
  have scalars : ∀ element ∈ [Json.string "red", .string "green"], element.IsScalar := by
    intro element member
    rcases List.mem_pair.mp member with rfl | rfl
    · trivial
    · trivial
  have returned : (invoke (paints.host paints.evaluate) scope coloursCall).run.run
      (paints.start [] ()) =
        (.ok (.array [.string "red", .string "green"]), paints.start [] ()) := rfl
  have kind : object.kind = .function coloursCall := rfl
  have read : scope.language object = .ok none := rfl
  obtain ⟨resolved, goesOn, each, adds⟩ :=
    paints.adds_spread_iff kind returned (le_refl 2) scalars read
  have colours := adds.mpr rfl
  rw [each] at colours
  exact ⟨resolved, goesOn, colours⟩

/-- Without a term type both colours together are one value, and it is in no language. -/
theorem values_paints_ne_spread :
    ∃ records, (paints.records [] ()).1 = .ok records ∧
      ∃ record ∈ records, record.values "colour" ≠
        spread paints.options (.ofKind (.function coloursCall)) none
          [.string "red", .string "green"] := by
  have success : ∃ outputs, (paints.evaluateAll.run.run (paints.start [] ())).1 = .ok outputs ∧
      (Join.nestedLoop outputs).flatten.map
        (fun record => (record.values "colour").map tagOf) = [[none]] := by
    apply Outcome.map_eq_ok.mp
    decide +kernel
  obtain ⟨outputs, evaluated, shown⟩ := success
  refine ⟨_, paints.records_of_fixedJoins (by decide) [] () (by decide +kernel) evaluated, ?_⟩
  have only : [none] ∈ (Join.nestedLoop outputs).flatten.map
      fun record => (record.values "colour").map tagOf := by
    rw [shown]
    exact List.mem_cons_self
  obtain ⟨record, member, tags⟩ := List.mem_map.mp only
  refine ⟨record, member, ?_⟩
  intro same
  rw [same] at tags
  revert tags
  decide +kernel

end Run

end RdfMapping
