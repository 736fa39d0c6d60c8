import RdfMapping.Record.Basic
/-!
Records nested in one another. A reference to a record is shown as a copy of that
record, unless the record is already being shown around it; a cycle of references
therefore ends in an identifier. Records that are nested in another one are left
out at the top, except that one record of a cycle has to stay there.
-/

namespace RdfMapping.Record

/-- The record with an identifier; of several the last one counts. -/
def findLast? (id : String) (records : List Record) : Option Record :=
  records.reverse.find? (·.id = id)

theorem mem_of_findLast? {id : String} {records : List Record} {record : Record}
    (found : findLast? id records = some record) : record ∈ records ∧ record.id = id := by
  unfold findLast? at found
  constructor
  · exact List.mem_reverse.1 (List.mem_of_find?_eq_some found)
  · simpa using List.find?_some found

def closedOf (records : List Record) (opened : List String) : List Record :=
  records.filter (·.id ∉ opened)

theorem length_closedOf_lt {records : List Record} {opened : List String} {record : Record}
    (member : record ∈ records) (isClosed : record.id ∉ opened) :
    (closedOf records (record.id :: opened)).length < (closedOf records opened).length := by
  have narrower : closedOf records (record.id :: opened) =
      (closedOf records opened).filter (·.id ≠ record.id) := by
    unfold closedOf
    rw [List.filter_filter]
    apply List.filter_congr
    intro other _
    simp
  rw [narrower]
  apply List.length_filter_lt_length_iff_exists.2
  exact ⟨record, List.mem_filter.2 ⟨member, by simpa using isClosed⟩, by simp⟩

/-- A record as JSON, with the records that it refers to inside of it. `opened` are
the identifiers of the records around it. -/
def nest (records : List Record) (opened : List String) (record : Record) : Json :=
  record.toJsonWith fun
    | .reference id =>
        if _isOpen : id ∈ record.id :: opened then .object [("@id", .string id)]
        else
          match _found : findLast? id records with
          | some target => nest records (record.id :: opened) target
          | none => .object [("@id", .string id)]
    | value => value.toJson
termination_by (closedOf records (record.id :: opened)).length
decreasing_by
  have target := mem_of_findLast? _found
  exact length_closedOf_lt target.1 (target.2 ▸ _isOpen)

def nested (records : List Record) (opened : List String) (record : Record) : List String :=
  record.references.flatMap fun id =>
    if _isOpen : id ∈ record.id :: opened then []
    else
      match _found : findLast? id records with
      | some target => id :: nested records (record.id :: opened) target
      | none => []
termination_by (closedOf records (record.id :: opened)).length
decreasing_by
  have target := mem_of_findLast? _found
  exact length_closedOf_lt target.1 (target.2 ▸ _isOpen)

def referenced (records : List Record) : List String :=
  records.flatMap fun record =>
    record.references.filter fun id => id ≠ record.id && (findLast? id records).isSome

/-- The records shown at the top so far, the latest one first, and the identifiers
of those nested in them. -/
structure Shown where
  roots : List (String × Json)
  inside : List String

namespace Shown

def add (records : List Record) (shown : Shown) (record : Record) : Shown :=
  { roots := (record.id, nest records [] record) :: shown.roots
    inside := nested records [] record ++ shown.inside }

def contains (shown : Shown) (record : Record) : Bool :=
  shown.roots.any (·.1 = record.id) || shown.inside.contains record.id

end Shown

def showSources (records : List Record) : Shown :=
  let targets := referenced records
  (records.filter (·.id ∉ targets)).foldl (Shown.add records) ⟨[], []⟩

/-- All records shown: those to which no other record refers, then every one in
order that is not shown yet. -/
def showAll (records : List Record) : Shown :=
  records.foldl
    (fun shown record => if shown.contains record then shown else shown.add records record)
    (showSources records)

def replaceReferences (records : List Record) : Json :=
  let roots := (showAll records).roots
  .array ((records.map Record.id).eraseDups.filterMap (roots.lookup ·))

def listJson (records : List Record) : Json := .array (records.map Record.toJson)

end RdfMapping.Record
