import RdfMapping.Evaluation.Rule
import RdfMapping.Proofs.Join.Resolve
import RdfMapping.Proofs.Mapping.References
/-!
Records put together from statements, each of them a predicate with a value. What is
stated under the type predicate becomes classes, and everything else values of its
predicate; references that are added later are values of any predicate.
-/

namespace RdfMapping

abbrev Statement := String × ObjectValue

def ObjectValue.classes : ObjectValue → List String
  | .reference id => [id]
  | .literal value _ _ => valueTexts value

def Statement.classes (statement : Statement) : List String :=
  if statement.1 = Vocabulary.rdfType then statement.2.classes else []

def valuesUnder (predicate : String) (statements : List Statement) : List ObjectValue :=
  (statements.filter fun statement =>
    statement.1 = predicate ∧ statement.1 ≠ Vocabulary.rdfType).map Prod.snd

namespace Record

variable {record : Record}

def predicates (record : Record) : List String := record.properties.map Prod.fst

def state (record : Record) (statement : Statement) : Record :=
  if statement.1 = Vocabulary.rdfType then statement.2.classes.foldl addType record
  else record.add statement.1 statement.2

/-- The record without a name that has some classes and what the statements say. -/
def assemble (classes : List String) (statements : List Statement) : Record :=
  statements.foldl state (classes.foldl addType (ofId ""))

/-! ### Predicates -/

theorem mem_predicates_add {predicate other : String} {value : ObjectValue} :
    other ∈ (record.add predicate value).predicates ↔
      other = predicate ∨ other ∈ record.predicates := by
  unfold predicates add
  generalize record.properties = properties
  induction properties with
  | nil => simp [Table.alter]
  | cons entry rest ih =>
      unfold Table.alter
      split
      · simp
      · split
        · next same => simp [same]
        · simp [ih]
          tauto

theorem mem_predicates_withReferences {references : List (String × String)} {predicate : String} :
    predicate ∈ (record.withReferences references).predicates ↔
      predicate ∈ references.map Prod.fst ∨ predicate ∈ record.predicates := by
  induction references generalizing record with
  | nil => simp [withReferences]
  | cons reference rest ih =>
      refine ih.trans ?_
      rw [mem_predicates_add, List.map_cons, List.mem_cons]
      tauto

theorem properties_foldl_addType (classes : List String) :
    (classes.foldl addType record).properties = record.properties := by
  induction classes generalizing record with
  | nil => rfl
  | cons type rest ih =>
      refine ih.trans ?_
      unfold addType
      split
      · rfl
      · rfl

theorem rdfType_not_mem_assemble (classes : List String) (statements : List Statement) :
    Vocabulary.rdfType ∉ (assemble classes statements).predicates := by
  unfold assemble
  induction statements using List.reverseRecOn with
  | nil =>
      unfold predicates
      rw [List.foldl_nil, properties_foldl_addType]
      exact List.not_mem_nil
  | append_singleton earlier statement ih =>
      rw [List.foldl_concat, state]
      split
      · unfold predicates
        rw [properties_foldl_addType]
        exact ih
      · next other =>
          rw [mem_predicates_add, not_or]
          exact ⟨Ne.symm other, ih⟩

/-! ### Classes -/

theorem types_foldl_addType {earlier : List String} (types : record.types = earlier.eraseDups)
    (classes : List String) :
    (classes.foldl addType record).types = (earlier ++ classes).eraseDups := by
  induction classes using List.reverseRecOn with
  | nil => rw [List.foldl_nil, List.append_nil, types]
  | append_singleton before type ih =>
      rw [List.foldl_concat, ← List.append_assoc, List.eraseDups_append, ← ih, addType]
      have known : type ∈ (before.foldl addType record).types ↔ type ∈ earlier ++ before := by
        rw [ih, List.mem_eraseDups]
      by_cases member : type ∈ earlier ++ before
      · rw [if_pos (known.mpr member)]
        simp only [List.removeAll, List.filter_cons, List.elem_eq_mem, member]
        simp
      · rw [if_neg fun found => member (known.mp found)]
        simp only [List.removeAll, List.filter_cons, List.elem_eq_mem, member]
        simp [List.eraseDups_cons]

theorem types_assemble (classes : List String) (statements : List Statement) :
    (assemble classes statements).types =
      (classes ++ statements.flatMap Statement.classes).eraseDups := by
  have start : (ofId "").types = ([] : List String).eraseDups := rfl
  unfold assemble
  induction statements using List.reverseRecOn with
  | nil =>
      rw [List.foldl_nil, types_foldl_addType start, List.flatMap_nil, List.append_nil,
        List.nil_append]
  | append_singleton earlier statement ih =>
      rw [List.foldl_concat, List.flatMap_append, List.flatMap_singleton, ← List.append_assoc]
      unfold state Statement.classes
      split
      · exact types_foldl_addType ih _
      · rw [List.append_nil]
        exact ih

/-! ### Values -/

theorem sorted_state (sorted : Table.Sorted record.properties) (statement : Statement) :
    Table.Sorted (record.state statement).properties := by
  rw [state]
  split
  · rw [properties_foldl_addType]
    exact sorted
  · exact Table.sorted_alter sorted

theorem sorted_foldl_state (sorted : Table.Sorted record.properties)
    (statements : List Statement) : Table.Sorted (statements.foldl state record).properties := by
  induction statements generalizing record with
  | nil => exact sorted
  | cons statement rest ih => exact ih (sorted_state sorted statement)

theorem values_foldl_state (sorted : Table.Sorted record.properties)
    (statements : List Statement) (predicate : String) :
    (statements.foldl state record).values predicate =
      record.values predicate ++ valuesUnder predicate statements := by
  induction statements generalizing record with
  | nil => exact (List.append_nil _).symm
  | cons statement rest ih =>
      rw [List.foldl_cons, ih (sorted_state sorted statement), state, valuesUnder,
        valuesUnder, List.filter_cons]
      by_cases type : statement.1 = Vocabulary.rdfType
      · rw [if_pos type, values, properties_foldl_addType]
        simp [type, values]
      · rw [if_neg type, values_add sorted]
        by_cases same : statement.1 = predicate
        · simp [same, same ▸ type]
        · simp [same]

theorem sorted_foldl_addType (classes : List String) :
    Table.Sorted (classes.foldl addType (ofId "")).properties := by
  rw [properties_foldl_addType]
  exact List.Pairwise.nil

theorem sorted_assemble (classes : List String) (statements : List Statement) :
    Table.Sorted (assemble classes statements).properties :=
  sorted_foldl_state (sorted_foldl_addType classes) statements

theorem values_assemble (classes : List String) (statements : List Statement)
    (predicate : String) :
    (assemble classes statements).values predicate = valuesUnder predicate statements := by
  rw [assemble, values_foldl_state (sorted_foldl_addType classes), values,
    properties_foldl_addType]
  rfl

theorem exists_mem_values_iff (sorted : Table.Sorted record.properties) {value : ObjectValue} :
    (∃ predicate, value ∈ record.values predicate) ↔
      value ∈ record.properties.flatMap Prod.snd := by
  rw [List.mem_flatMap]
  constructor
  · intro known
    obtain ⟨predicate, member⟩ := known
    unfold values at member
    cases found : Table.get? predicate record.properties with
    | none =>
        rw [found] at member
        cases member
    | some values =>
        rw [found] at member
        exact ⟨_, (Table.get?_eq_some_iff sorted).mp found, member⟩
  · intro known
    obtain ⟨entry, entryMember, member⟩ := known
    refine ⟨entry.1, ?_⟩
    unfold values
    rw [(Table.get?_eq_some_iff sorted).mpr entryMember]
    exact member

/-! ### Later references -/

theorem sorted_withReferences (sorted : Table.Sorted record.properties)
    (references : List (String × String)) :
    Table.Sorted (record.withReferences references).properties := by
  induction references generalizing record with
  | nil => exact sorted
  | cons reference rest ih => exact ih (Table.sorted_alter sorted)

/-- A record with certain classes and what the statements say, and references besides. -/
structure Renders (record : Record) (types : List String) (statements : List Statement) :
    Prop where
  sorted : Table.Sorted record.properties
  types : record.types = (types ++ statements.flatMap Statement.classes).eraseDups
  values : ∀ predicate, ∃ references : List String,
    record.values predicate = valuesUnder predicate statements ++ references.map .reference

theorem renders_withReferences {types : List String} {statements : List Statement}
    (same : record = { assemble types statements with id := record.id })
    (references : List (String × String)) :
    (record.withReferences references).Renders types statements := by
  have sorted : Table.Sorted record.properties := by
    rw [same]
    exact sorted_assemble types statements
  obtain ⟨_, sameTypes, values⟩ := withReferences_spec sorted references
  refine ⟨sorted_withReferences sorted references, ?_, ?_⟩
  · rw [sameTypes, same]
    exact types_assemble types statements
  · intro predicate
    refine ⟨(references.filter fun reference => reference.1 = predicate).map Prod.snd, ?_⟩
    rw [values, List.map_map, ← values_assemble types statements predicate]
    congr 1
    rw [same]
    rfl

theorem Renders.nodup_types {types : List String} {statements : List Statement}
    (renders : record.Renders types statements) : record.types.Nodup := by
  rw [renders.types]
  exact nodup_eraseDups _

/-- The literals of a record are those that its statements put under other predicates than
the type predicate. -/
theorem Renders.literal_mem_iff {types : List String} {statements : List Statement}
    (renders : record.Renders types statements) {value : Json} {datatype language : Option String} :
    .literal value datatype language ∈ record.properties.flatMap Prod.snd ↔
      ∃ predicate, predicate ≠ Vocabulary.rdfType ∧
        (predicate, .literal value datatype language) ∈ statements := by
  rw [← exists_mem_values_iff renders.sorted]
  have under (predicate : String) :
      .literal value datatype language ∈ record.values predicate ↔
        predicate ≠ Vocabulary.rdfType ∧
          (predicate, .literal value datatype language) ∈ statements := by
    obtain ⟨references, same⟩ := renders.values predicate
    rw [same]
    unfold valuesUnder
    simp
    tauto
  simp only [under]

end Record

end RdfMapping
