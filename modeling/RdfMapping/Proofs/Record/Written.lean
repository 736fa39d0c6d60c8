import RdfMapping.Proofs.Record.Statements
import RdfMapping.Proofs.Triple.Plain
/-!
The triples of records as a document. What a literal says is escaped; its datatype and its
language, the predicates, the classes and the identifiers have to be fit for being written
as they are.
-/

namespace RdfMapping

theorem isPlain_xsd {name : String} (plain : IsPlain name) : IsPlain (Vocabulary.xsd name) := by
  apply IsPlain.append ?_ plain
  decide

theorem isPlain_rdf {name : String} (plain : IsPlain name) : IsPlain (Vocabulary.rdf name) := by
  apply IsPlain.append ?_ plain
  decide

namespace ObjectValue

def Writable : ObjectValue → Prop
  | .reference id => Term.Names id
  | .literal _ datatype language =>
      (∀ iri, datatype = some iri → IsPlain iri) ∧
        ∀ tag, language = some tag → NTriples.isTag tag.toList = true

section

variable {datatype language : Option String}

mutual

theorem of_mem_literalTerms {holds : Term → Prop}
    (each : ∀ value, holds (literalTerm datatype language value)) :
    ∀ value, ∀ term ∈ literalTerms datatype language value, holds term
  | .null => nofun
  | .array elements => of_mem_elementTerms each elements
  | .bool _ | .number _ | .string _ | .object _ => by
      intro term member
      rw [List.mem_singleton.mp member]
      exact each _

theorem of_mem_elementTerms {holds : Term → Prop}
    (each : ∀ value, holds (literalTerm datatype language value)) :
    ∀ values, ∀ term ∈ elementTerms datatype language values, holds term
  | [] => nofun
  | value :: rest => by
      intro term member
      rcases List.mem_append.mp member with here | later
      · exact of_mem_literalTerms each value term here
      · exact of_mem_elementTerms each rest term later

end

theorem isPlain_of_inferred {value : Json} {iri : String}
    (inferred : inferredDatatype value = some iri) : IsPlain iri := by
  unfold inferredDatatype at inferred
  split at inferred
  · rw [← Option.some.inj inferred]
    exact isPlain_xsd (by decide)
  · rw [← Option.some.inj inferred]
    exact isPlain_xsd (by decide)
  · rw [← Option.some.inj inferred]
    exact isPlain_xsd (by decide)
  · rw [← Option.some.inj inferred]
    exact isPlain_rdf (by decide)
  · cases inferred

theorem writable_literalTerm (plain : ∀ iri, datatype = some iri → IsPlain iri)
    (isTag : ∀ tag, language = some tag → NTriples.isTag tag.toList = true) (value : Json) :
    (literalTerm datatype language value).Writable := by
  cases language with
  | some tag => exact ⟨rfl, isTag tag rfl⟩
  | none =>
      cases datatype with
      | some iri => exact plain iri rfl
      | none =>
          unfold literalTerm
          rw [Option.none_or]
          cases inferred : inferredDatatype value with
          | none => trivial
          | some iri => exact isPlain_of_inferred inferred

end

theorem writable_of_mem_terms {value : ObjectValue} (writable : value.Writable) :
    ∀ term ∈ value.terms, term.Writable := by
  cases value with
  | reference id =>
      intro term member
      rw [List.mem_singleton.mp member]
      exact writable
  | literal value datatype language =>
      exact of_mem_literalTerms (writable_literalTerm writable.1 writable.2) value

end ObjectValue

/-- A statement can be written, as a class or as a value. -/
structure Statement.Fit (statement : Statement) : Prop where
  predicate : IsPlain statement.1
  value : statement.2.Writable
  classes : ∀ type ∈ statement.classes, Term.Names type

namespace Record

variable {record : Record}

structure Fit (record : Record) : Prop where
  types : ∀ type ∈ record.types, Term.Names type
  properties : ∀ entry ∈ record.properties, IsPlain entry.1 ∧ ∀ value ∈ entry.2, value.Writable

theorem Fit.addType (fit : record.Fit) {type : String} (names : Term.Names type) :
    (record.addType type).Fit := by
  unfold Record.addType
  split
  · exact fit
  · refine ⟨?_, fit.properties⟩
    rw [List.forall_mem_append, List.forall_mem_singleton]
    exact ⟨fit.types, names⟩

theorem Fit.foldl_addType {types : List String} (fit : record.Fit)
    (names : ∀ type ∈ types, Term.Names type) : (types.foldl Record.addType record).Fit := by
  induction types generalizing record with
  | nil => exact fit
  | cons type rest ih =>
      obtain ⟨first, later⟩ := List.forall_mem_cons.mp names
      exact ih (fit.addType first) later

theorem Fit.add (fit : record.Fit) {predicate : String} {value : ObjectValue}
    (plain : IsPlain predicate) (writable : value.Writable) : (record.add predicate value).Fit := by
  refine ⟨fit.types, ?_⟩
  intro entry member
  rcases Table.value_of_mem_alter member with known | ⟨same, fresh | ⟨old, oldMember, longer⟩⟩
  · exact fit.properties entry known
  · rw [same, fresh]
    exact ⟨plain, List.forall_mem_singleton.mpr writable⟩
  · rw [same, longer, Option.getD_some, List.forall_mem_append, List.forall_mem_singleton]
    exact ⟨plain, (fit.properties _ oldMember).2, writable⟩

theorem Fit.state (fit : record.Fit) {statement : Statement} (stated : statement.Fit) :
    (record.state statement).Fit := by
  unfold Record.state
  split
  · next isType =>
      refine fit.foldl_addType ?_
      have classes := stated.classes
      rw [Statement.classes, if_pos isType] at classes
      exact classes
  · exact fit.add stated.predicate stated.value

theorem fit_assemble {types : List String} {statements : List Statement}
    (names : ∀ type ∈ types, Term.Names type) (stated : ∀ statement ∈ statements, statement.Fit) :
    (assemble types statements).Fit := by
  have empty : (ofId "").Fit := ⟨nofun, nofun⟩
  unfold assemble
  induction statements using List.reverseRecOn with
  | nil => exact empty.foldl_addType names
  | append_singleton earlier statement ih =>
      rw [List.forall_mem_append, List.forall_mem_singleton] at stated
      rw [List.foldl_concat]
      exact (ih stated.1).state stated.2

theorem Fit.withReferences (fit : record.Fit) {references : List (String × String)}
    (names : ∀ reference ∈ references, IsPlain reference.1 ∧ Term.Names reference.2) :
    (record.withReferences references).Fit := by
  induction references generalizing record with
  | nil => exact fit
  | cons reference rest ih =>
      obtain ⟨⟨plain, named⟩, later⟩ := List.forall_mem_cons.mp names
      have writable : (ObjectValue.reference reference.2).Writable := named
      exact ih (fit.add plain writable) later

theorem Fit.writable_of_mem_triples (fit : record.Fit) (names : Term.Names record.id) :
    ∀ triple ∈ record.triples, triple.Writable := by
  intro triple member
  rcases List.mem_append.mp member with isType | isValue
  · obtain ⟨type, typeMember, same⟩ := List.mem_map.mp isType
    have plain : IsPlain Vocabulary.rdfType := isPlain_rdf (by decide)
    rw [← same]
    exact ⟨names, Term.isResource_ofId _, plain, ⟨_, rfl⟩, fit.types type typeMember⟩
  · obtain ⟨entry, entryMember, ofEntry⟩ := List.mem_flatMap.mp isValue
    obtain ⟨value, valueMember, ofValue⟩ := List.mem_flatMap.mp ofEntry
    obtain ⟨term, termMember, same⟩ := List.mem_map.mp ofValue
    obtain ⟨plain, writable⟩ := fit.properties entry entryMember
    rw [← same]
    exact ⟨names, Term.isResource_ofId _, plain, ⟨_, rfl⟩,
      ObjectValue.writable_of_mem_terms (writable value valueMember) term termMember⟩

theorem toList_renderTriples (records : List Record) :
    (renderTriples records).toList = Triple.document (records.flatMap triples) := by
  unfold renderTriples Triple.document
  rw [String.toList_join, ← List.map_flatMap, List.flatMap_map]
  exact List.flatMap_congr fun triple _ => triple.toList_render

end Record

end RdfMapping
