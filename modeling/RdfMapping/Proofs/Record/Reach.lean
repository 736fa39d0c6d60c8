import Mathlib.Data.List.Nodup
import RdfMapping.Proofs.Record.Shown
/-!
Records that lead to one another by their references. The records that are nested in a
record are exactly those to which it leads in the end (`mem_nested_iff`): a walk that comes
back to a record can be shortened, and a walk without return is never cut off. The JSON of
a nest shows all of them in full (`exists_copies_of_reaches`), and none of them inside of
itself (`Reaches.of_copies`).
-/

namespace RdfMapping.Record

/-- Records with one identifier are the same record. -/
def Unambiguous (records : List Record) : Prop :=
  ∀ left ∈ records, ∀ right ∈ records, left.id = right.id → left = right

theorem unambiguous_of_nodup {records : List Record}
    (distinct : (records.map Record.id).Nodup) : Unambiguous records :=
  fun _ leftMember _ rightMember same =>
    List.inj_on_of_nodup_map distinct leftMember rightMember same

def Leads (records : List Record) (record target : Record) : Prop :=
  target ∈ records ∧ target.id ∈ record.references

def Reaches (records : List Record) : Record → Record → Prop :=
  Relation.TransGen (Leads records)

theorem Copy.leads {records : List Record} {outer inner : Json × Record}
    (copy : Copy records outer inner) : Leads records outer.2 inner.2 := by
  obtain ⟨member, _, entry, entryMember, shown, _, _, value⟩ := copy
  exact ⟨member, mem_references_of_mem entryMember (List.of_mem_zip value).1⟩

/-- A record leads to another one without a step to one of the open identifiers. -/
def ReachesPast (records : List Record) (opened : List String) : Record → Record → Prop :=
  Relation.TransGen fun record target => Leads records record target ∧ target.id ∉ opened

section

variable {records : List Record} (unambiguous : Unambiguous records)
include unambiguous

theorem findLast?_eq_some_iff {id : String} {target : Record} :
    findLast? id records = some target ↔ target ∈ records ∧ target.id = id := by
  constructor
  · exact mem_of_findLast?
  · rintro ⟨member, rfl⟩
    cases found : findLast? target.id records with
    | none =>
        have missing := List.find?_eq_none.mp found target (List.mem_reverse.mpr member)
        simp at missing
    | some other =>
        obtain ⟨otherMember, same⟩ := mem_of_findLast? found
        rw [unambiguous other otherMember target member same]

/-! ### Walks -/

omit unambiguous in
/-- A walk to another end has a last visit of its start. -/
theorem transGen_of_last_visit {α : Type} {step : α → α → Prop} {start target : α}
    (walk : Relation.ReflTransGen step start target) (apart : target ≠ start) :
    Relation.TransGen (fun left right => step left right ∧ right ≠ start) start target := by
  induction walk with
  | refl => exact absurd rfl apart
  | @tail middle target _ last ih =>
      by_cases back : middle = start
      · subst back
        exact .single ⟨last, apart⟩
      · exact .tail (ih back) ⟨last, apart⟩

theorem reachesPast_iff_step {opened : List String} {record target : Record} :
    ReachesPast records opened record target ↔
      ∃ next, Leads records record next ∧ next.id ∉ opened ∧
        (next = target ∨ ReachesPast records (next.id :: opened) next target) := by
  constructor
  · intro reaches
    obtain ⟨next, ⟨leads, isClosed⟩, walk⟩ := Relation.TransGen.head'_iff.mp reaches
    refine ⟨next, leads, isClosed, ?_⟩
    by_cases same : next = target
    · exact .inl same
    · refine .inr (Relation.TransGen.mono ?_ _ _ (transGen_of_last_visit walk (Ne.symm same)))
      rintro left right ⟨⟨inner, innerClosed⟩, apart⟩
      refine ⟨inner, ?_⟩
      rw [List.mem_cons, not_or]
      exact ⟨fun sameId => apart (unambiguous right inner.1 next leads.1 sameId), innerClosed⟩
  · rintro ⟨next, leads, isClosed, rfl | reaches⟩
    · exact .single ⟨leads, isClosed⟩
    · refine .head ⟨leads, isClosed⟩ (Relation.TransGen.mono ?_ _ _ reaches)
      rintro left right ⟨inner, innerClosed⟩
      exact ⟨inner, fun member => innerClosed (List.mem_cons_of_mem _ member)⟩

theorem reachesPast_self_iff {record target : Record} (member : record ∈ records) :
    ReachesPast records [record.id] record target ↔
      Reaches records record target ∧ target ≠ record := by
  constructor
  · intro reaches
    refine ⟨Relation.TransGen.mono (fun _ _ step => step.1) _ _ reaches, ?_⟩
    rintro rfl
    obtain ⟨_, _, _, isClosed⟩ := Relation.TransGen.tail'_iff.mp reaches
    exact isClosed List.mem_cons_self
  · rintro ⟨reaches, apart⟩
    refine Relation.TransGen.mono ?_ _ _
      (transGen_of_last_visit reaches.to_reflTransGen apart)
    rintro left right ⟨leads, other⟩
    refine ⟨leads, ?_⟩
    rw [List.mem_singleton]
    exact fun sameId => other (unambiguous right leads.1 record member sameId)

/-! ### Nested records -/

theorem mem_nested {opened : List String} {record : Record} {id : String} :
    id ∈ nested records opened record ↔
      ∃ target, target.id = id ∧ ReachesPast records (record.id :: opened) record target := by
  induction opened, record using nested.induct records generalizing id with
  | case1 opened record ih =>
      rw [nested, List.mem_flatMap]
      constructor
      · rintro ⟨reference, referenceMember, member⟩
        split at member
        · cases member
        · next isClosed =>
            split at member
            · next next found =>
                obtain ⟨nextMember, sameId⟩ := mem_of_findLast? found
                have leads : Leads records record next := ⟨nextMember, sameId ▸ referenceMember⟩
                have nextClosed : next.id ∉ record.id :: opened := sameId ▸ isClosed
                rcases List.mem_cons.mp member with rfl | deeper
                · exact ⟨next, sameId, .single ⟨leads, nextClosed⟩⟩
                · obtain ⟨target, targetId, reaches⟩ :=
                    (ih reference isClosed next found).mp deeper
                  exact ⟨target, targetId, (reachesPast_iff_step unambiguous).mpr
                    ⟨next, leads, nextClosed, .inr reaches⟩⟩
            · cases member
      · rintro ⟨target, rfl, reaches⟩
        obtain ⟨next, leads, isClosed, rest⟩ := (reachesPast_iff_step unambiguous).mp reaches
        have found := (findLast?_eq_some_iff unambiguous).mpr ⟨leads.1, rfl⟩
        refine ⟨next.id, leads.2, ?_⟩
        rw [dif_neg isClosed]
        split
        · next other foundOther =>
            cases found.symm.trans foundOther
            rcases rest with rfl | deeper
            · exact List.mem_cons_self
            · exact List.mem_cons_of_mem _ ((ih _ isClosed _ found).mpr ⟨target, rfl, deeper⟩)
        · next missing =>
            rw [found] at missing
            cases missing

theorem mem_nested_iff {record target : Record} (member : record ∈ records)
    (targetMember : target ∈ records) :
    target.id ∈ nested records [] record ↔ Reaches records record target ∧ target ≠ record := by
  rw [mem_nested unambiguous, ← reachesPast_self_iff unambiguous member]
  constructor
  · rintro ⟨other, sameId, reaches⟩
    obtain ⟨_, _, leads, _⟩ := Relation.TransGen.tail'_iff.mp reaches
    rw [← unambiguous other leads.1 target targetMember sameId]
    exact reaches
  · intro reaches
    exact ⟨target, rfl, reaches⟩

end

/-! ### Copies -/

def nestValue (records : List Record) (opened : List String) (record : Record) :
    ObjectValue → Json
  | .reference id =>
      if id ∈ record.id :: opened then .object [("@id", .string id)]
      else
        match findLast? id records with
        | some target => nest records (record.id :: opened) target
        | none => .object [("@id", .string id)]
  | .literal value datatype language => (ObjectValue.literal value datatype language).toJson

theorem nest_eq (records : List Record) (opened : List String) (record : Record) :
    nest records opened record = record.toJsonWith (nestValue records opened record) := by
  rw [nest]
  congr 1
  funext value
  cases value with
  | literal value datatype language => rfl
  | reference id =>
      simp only [nestValue]
      split
      · rfl
      · split
        · next target found => rw [found]
        · next missing => rw [missing]

theorem mem_zip_map {values : List ObjectValue} {render : ObjectValue → Json}
    {value : ObjectValue} {json : Json} :
    (value, json) ∈ values.zip (values.map render) ↔ value ∈ values ∧ json = render value := by
  have pairs : values.zip (values.map render) = values.map fun other => (other, render other) := by
    simpa using List.zip_map' (f := fun other => other) (g := render) (l := values)
  simp [pairs, eq_comm]

theorem nestValue_of_found {records : List Record} {opened : List String} {record target : Record}
    {id : String} (isClosed : id ∉ record.id :: opened)
    (found : findLast? id records = some target) :
    nestValue records opened record (.reference id) =
      nest records (record.id :: opened) target := by
  rw [nestValue, if_neg isClosed, found]

section

variable {records : List Record} (plain : ∀ record ∈ records, record.Plain)
include plain

theorem shows_nest {opened : List String} {record : Record} (own : record.Plain) :
    Shows records (nest records opened record) record := by
  induction opened, record using nest.induct records with
  | case1 opened record ih =>
      rw [nest_eq]
      apply own.shows_toJsonWith
      · intro value datatype language
        rfl
      · intro id _
        by_cases isOpen : id ∈ record.id :: opened
        · rw [nestValue, if_pos isOpen]
          exact .identifier id
        · cases found : findLast? id records with
          | none =>
              rw [nestValue, if_neg isOpen, found]
              exact .identifier id
          | some target =>
              obtain ⟨member, rfl⟩ := mem_of_findLast? found
              rw [nestValue_of_found isOpen found]
              exact .copy member (ih _ isOpen _ found (plain target member))

variable (unambiguous : Unambiguous records)
include unambiguous

/-- A record that is not open is nested in every record that refers to it. -/
theorem copy_nest {opened : List String} {record next : Record} (member : record ∈ records)
    (leads : Leads records record next) (isClosed : next.id ∉ record.id :: opened) :
    Copy records (nest records opened record, record)
      (nest records (record.id :: opened) next, next) := by
  obtain ⟨entry, entryMember, value⟩ := exists_entry_of_mem_references leads.2
  refine ⟨leads.1, shows_nest plain (plain next leads.1), entry, entryMember,
    entry.2.map (nestValue records opened record), ?_, List.length_map _, ?_⟩
  · rw [nest_eq]
    exact (plain record member).member?_property _ entryMember
  · have found := (findLast?_eq_some_iff unambiguous).mpr ⟨leads.1, rfl⟩
    rw [← nestValue_of_found isClosed found]
    exact mem_zip_map.mpr ⟨value, rfl⟩

theorem exists_copies_of_reachesPast {opened : List String} {record target : Record}
    (member : record ∈ records)
    (reaches : ReachesPast records (record.id :: opened) record target) :
    ∃ json, Relation.TransGen (Copy records) (nest records opened record, record)
      (json, target) := by
  induction opened, record using nest.induct records with
  | case1 opened record ih =>
      obtain ⟨next, leads, isClosed, rest⟩ := (reachesPast_iff_step unambiguous).mp reaches
      have first := copy_nest plain unambiguous member leads isClosed
      rcases rest with rfl | deeper
      · exact ⟨_, .single first⟩
      · have found := (findLast?_eq_some_iff unambiguous).mpr ⟨leads.1, rfl⟩
        obtain ⟨json, copies⟩ := ih next.id isClosed next found leads.1 deeper
        exact ⟨json, .head first copies⟩

theorem exists_copies_of_reaches {record target : Record} (member : record ∈ records)
    (reaches : Reaches records record target) (apart : target ≠ record) :
    ∃ json, Relation.TransGen (Copy records) (nest records [] record, record) (json, target) :=
  exists_copies_of_reachesPast plain unambiguous member
    ((reachesPast_self_iff unambiguous member).mpr ⟨reaches, apart⟩)

/-- The only copies in a nest are those of records that are not open. An open record has
properties, which its identifier alone would not show. -/
theorem eq_nest_of_copy {opened : List String} {record inner : Record} {json : Json}
    (member : record ∈ records)
    (expanded : ∀ other ∈ records, other.id ∈ record.id :: opened → other.properties ≠ [])
    (copy : Copy records (nest records opened record, record) (json, inner)) :
    Leads records record inner ∧ inner.id ∉ record.id :: opened ∧
      json = nest records (record.id :: opened) inner := by
  have leads := copy.leads
  obtain ⟨innerMember, shows, entry, entryMember, shown, shownAt, length, value⟩ := copy
  have same : shown = entry.2.map (nestValue records opened record) := by
    have expected := (plain record member).member?_property
      (nestValue records opened record) entryMember
    rw [← nest_eq] at expected
    exact collapse_injective (by rw [length, List.length_map])
      (Option.some.inj (shownAt.symm.trans expected))
  have rendered : json = nestValue records opened record (.reference inner.id) := by
    rw [same] at value
    exact (mem_zip_map.mp value).2
  have isClosed : inner.id ∉ record.id :: opened := by
    intro isOpen
    obtain ⟨other, otherMember⟩ := List.exists_mem_of_ne_nil _ (expanded inner innerMember isOpen)
    rw [rendered, nestValue, if_pos isOpen] at shows
    exact (plain inner innerMember).not_shows_identifier otherMember shows
  have found := (findLast?_eq_some_iff unambiguous).mpr ⟨innerMember, rfl⟩
  exact ⟨leads, isClosed, rendered.trans (nestValue_of_found isClosed found)⟩

theorem Reaches.of_copies {record inner : Record} {json : Json} (member : record ∈ records)
    (copies : Relation.TransGen (Copy records) (nest records [] record, record) (json, inner)) :
    Reaches records record inner ∧ inner ≠ record := by
  -- a record with a copy in its place has a property, and stays open below
  have keepsOpen {opened : List String} {holder copied : Record} {holderJson copiedJson : Json}
      (holderMember : holder ∈ records)
      (earlier : ∀ other ∈ records, other.id ∈ opened → other.properties ≠ [])
      (copy : Copy records (holderJson, holder) (copiedJson, copied)) :
      ∀ other ∈ records, other.id ∈ holder.id :: opened → other.properties ≠ [] := by
    intro other otherMember isOpen
    rcases List.mem_cons.mp isOpen with sameId | isOpen
    · obtain ⟨_, _, entry, entryMember, _⟩ := copy
      rw [unambiguous other otherMember holder holderMember sameId]
      exact List.ne_nil_of_mem entryMember
    · exact earlier other otherMember isOpen
  suffices inside : ∀ last : Json × Record,
      Relation.TransGen (Copy records) (nest records [] record, record) last →
      ∃ opened, last.1 = nest records opened last.2 ∧ last.2 ∈ records ∧ record.id ∈ opened ∧
        last.2.id ∉ opened ∧ Reaches records record last.2 ∧
        ∀ other ∈ records, other.id ∈ opened → other.properties ≠ [] by
    obtain ⟨opened, _, _, isOpen, isClosed, reaches, _⟩ := inside _ copies
    refine ⟨reaches, ?_⟩
    rintro rfl
    exact isClosed isOpen
  intro last walk
  induction walk with
  | @single last first =>
      have expanded := keepsOpen member (fun _ _ isOpen => absurd isOpen List.not_mem_nil) first
      obtain ⟨leads, isClosed, same⟩ :=
        eq_nest_of_copy plain unambiguous member expanded first
      exact ⟨[record.id], same, leads.1, List.mem_cons_self, isClosed, .single leads, expanded⟩
  | @tail middle last _ step ih =>
      obtain ⟨opened, same, middleMember, isOpen, _, reaches, earlier⟩ := ih
      obtain ⟨middleJson, middle⟩ := middle
      have expanded := keepsOpen middleMember earlier step
      simp only at same
      rw [same] at step
      obtain ⟨leads, isClosed, sameLast⟩ :=
        eq_nest_of_copy plain unambiguous middleMember expanded step
      exact ⟨middle.id :: opened, sameLast, leads.1, List.mem_cons_of_mem _ isOpen, isClosed,
        reaches.tail leads, expanded⟩

end

end RdfMapping.Record
