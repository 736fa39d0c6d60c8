import Mathlib.Logic.Relation
import RdfMapping.Record.Nesting
/-!
What JSON shows of a record. A value shows a record in full if it has a member for the
identifier, for the classes and for every property, and if in the place of a reference
there is the identifier that is referred to or, again in full, a record that has it
(`Shows`). A copy is a record that is shown inside of another one in the place of a
reference.

A property under one of the names that identifier and classes have would hide them. Plain
records have none.
-/

namespace RdfMapping.Record

/-- The properties of a record are a table, without the names of identifier and classes. -/
structure Plain (record : Record) : Prop where
  sorted : Table.Sorted record.properties
  unreserved : ∀ entry ∈ record.properties, entry.1 ≠ "@id" ∧ entry.1 ≠ "@type"

instance (record : Record) : Decidable record.Plain :=
  decidable_of_iff
    (Table.Sorted record.properties ∧
      ∀ entry ∈ record.properties, entry.1 ≠ "@id" ∧ entry.1 ≠ "@type")
    ⟨fun plain => ⟨plain.1, plain.2⟩, fun plain => ⟨plain.sorted, plain.unreserved⟩⟩

mutual

inductive Shows (records : List Record) : Json → Record → Prop
  | node {json : Json} {record : Record} (render : ObjectValue → Json) :
      json.member? "@id" = some (.string record.id) →
      (record.types ≠ [] →
        json.member? "@type" = some (collapse (record.types.map .string))) →
      (∀ entry ∈ record.properties,
        json.member? entry.1 = some (collapse (entry.2.map render))) →
      (∀ value datatype language, render (.literal value datatype language) =
        (ObjectValue.literal value datatype language).toJson) →
      (∀ id ∈ record.references, ShowsReference records (render (.reference id)) id) →
      Shows records json record

/-- A value shows a reference: as the identifier, or as a copy of a record that has it. -/
inductive ShowsReference (records : List Record) : Json → String → Prop
  | identifier (id : String) : ShowsReference records (.object [("@id", .string id)]) id
  | copy {json : Json} {target : Record} :
      target ∈ records → Shows records json target → ShowsReference records json target.id

end

/-- A record that is shown in full inside of another one, in the place of a reference. -/
def Copy (records : List Record) (outer inner : Json × Record) : Prop :=
  inner.2 ∈ records ∧ Shows records inner.1 inner.2 ∧
    ∃ entry ∈ outer.2.properties, ∃ shown : List Json,
      outer.1.member? entry.1 = some (collapse shown) ∧ shown.length = entry.2.length ∧
        (ObjectValue.reference inner.2.id, inner.1) ∈ entry.2.zip shown

/-- An array shows a record in full: one of its elements does, or an element has a copy of
it inside, at any depth. -/
def Displays (records : List Record) (json : Json) (record : Record) : Prop :=
  ∃ elements, json = .array elements ∧
    ∃ element ∈ elements, ∃ top ∈ records, Shows records element top ∧
      ∃ inner, Relation.ReflTransGen (Copy records) (element, top) (inner, record) ∧
        Shows records inner record

/-! ### Members -/

theorem collapse_injective {left right : List Json} (length : left.length = right.length)
    (same : collapse left = collapse right) : left = right := by
  match left, right with
  | [], [] => rfl
  | [_], [_] => exact congrArg (fun value => [value]) same
  | _ :: _ :: _, _ :: _ :: _ => exact Json.array.inj same

theorem mem_references_of_mem {record : Record} {entry : String × List ObjectValue}
    (member : entry ∈ record.properties) {id : String} (value : .reference id ∈ entry.2) :
    id ∈ record.references :=
  List.mem_filterMap.mpr
    ⟨.reference id, List.mem_flatMap.mpr ⟨entry, member, value⟩, rfl⟩

theorem exists_entry_of_mem_references {record : Record} {id : String}
    (member : id ∈ record.references) :
    ∃ entry ∈ record.properties, ObjectValue.reference id ∈ entry.2 := by
  obtain ⟨value, valueMember, same⟩ := List.mem_filterMap.mp member
  obtain ⟨entry, entryMember, inEntry⟩ := List.mem_flatMap.mp valueMember
  cases value with
  | literal value datatype language => cases same
  | reference other =>
      cases same
      exact ⟨entry, entryMember, inEntry⟩

/-- The members of a plain record do not get in each other's way. -/
theorem Plain.nodup_members {record : Record} (plain : record.Plain) (render : ObjectValue → Json) :
    ((("@id", Json.string record.id) :: typeMember record.types ++
      record.properties.map fun entry => (entry.1, collapse (entry.2.map render))).map
        Prod.fst).Nodup := by
  have keys := Table.nodup_keys plain.sorted
  have id : "@id" ∉ record.properties.map Prod.fst := by
    intro member
    obtain ⟨entry, entryMember, same⟩ := List.mem_map.mp member
    exact (plain.unreserved entry entryMember).1 same
  have type : "@type" ∉ record.properties.map Prod.fst := by
    intro member
    obtain ⟨entry, entryMember, same⟩ := List.mem_map.mp member
    exact (plain.unreserved entry entryMember).2 same
  unfold typeMember
  cases record.types.isEmpty with
  | true =>
      simp only [if_true, List.cons_append, List.nil_append, List.map_cons, List.map_map,
        Function.comp_def]
      exact List.nodup_cons.mpr ⟨id, keys⟩
  | false =>
      simp only [Bool.false_eq_true, if_false, List.cons_append, List.nil_append, List.map_cons,
        List.map_map, Function.comp_def]
      refine List.nodup_cons.mpr ⟨?_, List.nodup_cons.mpr ⟨type, keys⟩⟩
      rw [List.mem_cons, not_or]
      exact ⟨by decide, id⟩

section

variable {record : Record} (plain : record.Plain) (render : ObjectValue → Json)
include plain

theorem Plain.member?_toJsonWith {name : String} {value : Json}
    (member : (name, value) ∈ ("@id", Json.string record.id) :: typeMember record.types ++
      record.properties.map fun entry => (entry.1, collapse (entry.2.map render))) :
    (record.toJsonWith render).member? name = some value :=
  Table.get?_ofList_of_mem (plain.nodup_members render) member

theorem Plain.member?_id :
    (record.toJsonWith render).member? "@id" = some (.string record.id) :=
  plain.member?_toJsonWith render List.mem_cons_self

theorem Plain.member?_type (typed : record.types ≠ []) :
    (record.toJsonWith render).member? "@type" =
      some (collapse (record.types.map .string)) := by
  apply plain.member?_toJsonWith render
  apply List.mem_cons_of_mem
  apply List.mem_append_left
  unfold typeMember
  rw [if_neg (by simpa using typed)]
  exact List.mem_singleton.mpr rfl

theorem Plain.member?_property {entry : String × List ObjectValue}
    (member : entry ∈ record.properties) :
    (record.toJsonWith render).member? entry.1 = some (collapse (entry.2.map render)) := by
  apply plain.member?_toJsonWith render
  apply List.mem_cons_of_mem
  apply List.mem_append_right
  exact List.mem_map.mpr ⟨entry, member, rfl⟩

theorem Plain.shows_toJsonWith {records : List Record}
    (literals : ∀ value datatype language, render (.literal value datatype language) =
      (ObjectValue.literal value datatype language).toJson)
    (references : ∀ id ∈ record.references,
      ShowsReference records (render (.reference id)) id) :
    Shows records (record.toJsonWith render) record :=
  .node render (plain.member?_id render) (plain.member?_type render)
    (fun _ => plain.member?_property render) literals references

/-- An identifier alone does not show a record that has properties. -/
theorem Plain.not_shows_identifier {records : List Record} {id : String}
    {entry : String × List ObjectValue} (member : entry ∈ record.properties) :
    ¬ Shows records (.object [("@id", .string id)]) record := by
  rintro ⟨render, _, _, properties, _, _⟩
  have shown := properties entry member
  have other := (plain.unreserved entry member).1
  change Table.get? entry.1 [("@id", Json.string id)] = _ at shown
  rw [Table.get?, if_neg (Ne.symm other), Table.get?] at shown
  cases shown

end

theorem Shows.member?_id {records : List Record} {json : Json} {record : Record}
    (shows : Shows records json record) : json.member? "@id" = some (.string record.id) := by
  cases shows with
  | node _ id _ _ _ _ => exact id

end RdfMapping.Record
