import Mathlib.Data.List.Induction
import RdfMapping.Proofs.Record.Reach
import RdfMapping.Proofs.Repeats
/-!
Which records stand at the top. At first these are the records to which no other one
refers; after them every record in order that no record at the top leads to so far
(`tops`). So every record is shown, as long as records of one identifier are the same
(`displays_replaceReferences`). With distinct identifiers a record to which others refer
stands at the top exactly if none of the records before it leads to it, nor one to which no
other one refers (`mem_tops_iff`): a record that is found later may still lead to it, and
then shows it again.
-/

namespace RdfMapping.Record

def Shown.ofRecords (records tops : List Record) : Shown :=
  { roots := tops.map fun top => (top.id, nest records [] top)
    inside := tops.flatMap (nested records []) }

def sources (records : List Record) : List Record :=
  records.filter (·.id ∉ referenced records)

def settle (records tops : List Record) (record : Record) : List Record :=
  if (Shown.ofRecords records tops).contains record then tops else record :: tops

/-- The records at the top after some records have been looked at, the latest one first. -/
def topsAfter (records done : List Record) : List Record :=
  done.foldl (settle records) (sources records).reverse

def tops (records : List Record) : List Record := topsAfter records records

theorem showAll_eq (records : List Record) :
    showAll records = .ofRecords records (tops records) := by
  have sourcesShown : showSources records = .ofRecords records (sources records).reverse := by
    have pushed : (sources records).foldl (Shown.add records) (.ofRecords records []) =
        .ofRecords records ((sources records).foldl (fun tops record => record :: tops) []) :=
      List.foldl_hom _ fun _ _ => rfl
    exact pushed.trans (by rw [List.foldl_flip_cons_eq_append, List.append_nil, List.map_id'])
  unfold showAll tops topsAfter
  rw [sourcesShown]
  apply List.foldl_hom
  intro tops record
  unfold settle
  split <;> rfl

theorem topsAfter_concat (records done : List Record) (record : Record) :
    topsAfter records (done ++ [record]) = settle records (topsAfter records done) record :=
  List.foldl_concat ..

theorem mem_sources {records : List Record} {record : Record} :
    record ∈ sources records ↔ record ∈ records ∧ record.id ∉ referenced records := by
  unfold sources
  rw [List.mem_filter, decide_eq_true_eq]

def Covers (records tops : List Record) (record : Record) : Prop :=
  ∃ top ∈ tops, Relation.ReflTransGen (Leads records) top record

structure Settled (records done tops : List Record) : Prop where
  known : ∀ top ∈ tops, top ∈ sources records ∨ top ∈ done
  sourcesShown : ∀ source ∈ sources records, source ∈ tops
  covered : ∀ record ∈ done, Covers records tops record

section

variable {records : List Record} (unambiguous : Unambiguous records)
include unambiguous

theorem contains_ofRecords {tops : List Record} {record : Record}
    (known : ∀ top ∈ tops, top ∈ records) (member : record ∈ records) :
    (Shown.ofRecords records tops).contains record = true ↔ Covers records tops record := by
  simp only [Shown.contains, Shown.ofRecords, List.any_map, Bool.or_eq_true, List.any_eq_true,
    Function.comp_apply, decide_eq_true_eq, List.contains_iff_mem, List.mem_flatMap]
  constructor
  · rintro (⟨top, topMember, same⟩ | ⟨top, topMember, inside⟩)
    · exact ⟨top, topMember, unambiguous top (known top topMember) record member same ▸ .refl⟩
    · have reaches := (mem_nested_iff unambiguous (known top topMember) member).mp inside
      exact ⟨top, topMember, reaches.1.to_reflTransGen⟩
  · rintro ⟨top, topMember, walk⟩
    by_cases same : record = top
    · exact .inl ⟨top, topMember, by rw [same]⟩
    · obtain equal | reaches := Relation.reflTransGen_iff_eq_or_transGen.mp walk
      · exact absurd equal same
      · exact .inr ⟨top, topMember,
          (mem_nested_iff unambiguous (known top topMember) member).mpr ⟨reaches, same⟩⟩

omit unambiguous in
theorem Settled.mem_records {done tops : List Record} (settled : Settled records done tops)
    (seen : ∀ record ∈ done, record ∈ records) {top : Record} (member : top ∈ tops) :
    top ∈ records := by
  rcases settled.known top member with source | early
  · exact (mem_sources.mp source).1
  · exact seen top early

omit unambiguous in
theorem subset_settle {tops : List Record} {record top : Record} (member : top ∈ tops) :
    top ∈ settle records tops record := by
  unfold settle
  split
  · exact member
  · exact List.mem_cons_of_mem _ member

theorem Settled.settle {done tops : List Record} {record : Record}
    (settled : Settled records done tops) (seen : ∀ other ∈ done, other ∈ records)
    (member : record ∈ records) :
    Settled records (done ++ [record]) (settle records tops record) := by
  refine ⟨?_, fun source isSource => subset_settle (settled.sourcesShown source isSource), ?_⟩
  · intro top topMember
    unfold Record.settle at topMember
    split at topMember
    · exact (settled.known top topMember).imp_right (List.mem_append_left _)
    · rcases List.mem_cons.mp topMember with rfl | topMember
      · exact .inr (List.mem_append_right _ List.mem_cons_self)
      · exact (settled.known top topMember).imp_right (List.mem_append_left _)
  · intro other otherMember
    rcases List.mem_append.mp otherMember with early | new
    · obtain ⟨top, topMember, walk⟩ := settled.covered other early
      exact ⟨top, subset_settle topMember, walk⟩
    · rw [List.mem_singleton.mp new]
      unfold Record.settle
      split
      · next shown =>
          exact (contains_ofRecords unambiguous (fun _ => settled.mem_records seen) member).mp shown
      · exact ⟨record, List.mem_cons_self, .refl⟩

theorem settled_topsAfter {done : List Record} (seen : ∀ record ∈ done, record ∈ records) :
    Settled records done (topsAfter records done) := by
  induction done using List.reverseRecOn with
  | nil =>
      exact ⟨fun _ member => .inl (List.mem_reverse.mp member),
        fun _ member => List.mem_reverse.mpr member, fun _ member => absurd member List.not_mem_nil⟩
  | append_singleton done record ih =>
      have seenBefore : ∀ other ∈ done, other ∈ records :=
        fun other member => seen other (List.mem_append_left _ member)
      rw [topsAfter_concat]
      exact (ih seenBefore).settle unambiguous seenBefore
        (seen record (List.mem_append_right _ List.mem_cons_self))

theorem settled_tops : Settled records records (tops records) :=
  settled_topsAfter unambiguous fun _ member => member

theorem mem_records_of_mem_tops {top : Record} (member : top ∈ tops records) : top ∈ records :=
  (settled_tops unambiguous).mem_records (fun _ member => member) member

/-! ### The elements of the array -/

omit unambiguous in
theorem replaceReferences_eq (records : List Record) :
    replaceReferences records = .array ((records.map Record.id).eraseDups.filterMap
      ((Shown.ofRecords records (tops records)).roots.lookup ·)) := by
  rw [replaceReferences, showAll_eq]

theorem lookup_roots {tops : List Record} (known : ∀ top ∈ tops, top ∈ records) {id : String}
    {json : Json} :
    (Shown.ofRecords records tops).roots.lookup id = some json ↔
      ∃ top ∈ tops, top.id = id ∧ json = nest records [] top := by
  simp only [Shown.ofRecords]
  induction tops with
  | nil => simp
  | cons first rest ih =>
      have ih := ih fun top member => known top (List.mem_cons_of_mem _ member)
      rw [List.map_cons, List.lookup_cons]
      by_cases same : id = first.id
      · subst same
        rw [beq_self_eq_true]
        constructor
        · rintro ⟨⟩
          exact ⟨first, List.mem_cons_self, rfl, rfl⟩
        · rintro ⟨top, topMember, sameId, rfl⟩
          rw [unambiguous top (known top topMember) first (known first List.mem_cons_self) sameId]
      · rw [beq_eq_false_iff_ne.mpr same]
        simp only [ih, List.mem_cons, exists_eq_or_imp]
        exact ⟨.inr, fun either => either.resolve_left fun own => same own.1.symm⟩

theorem mem_elements {json : Json} :
    json ∈ (records.map Record.id).eraseDups.filterMap
        ((Shown.ofRecords records (tops records)).roots.lookup ·) ↔
      ∃ top ∈ tops records, json = nest records [] top := by
  rw [List.mem_filterMap]
  constructor
  · rintro ⟨id, _, found⟩
    obtain ⟨top, topMember, _, same⟩ :=
      (lookup_roots unambiguous fun _ => mem_records_of_mem_tops unambiguous).mp found
    exact ⟨top, topMember, same⟩
  · rintro ⟨top, topMember, same⟩
    have member := mem_records_of_mem_tops unambiguous topMember
    refine ⟨top.id, List.mem_eraseDups.mpr (List.mem_map_of_mem member), ?_⟩
    exact (lookup_roots unambiguous fun _ => mem_records_of_mem_tops unambiguous).mpr
      ⟨top, topMember, rfl, same⟩

end

/-! ### Nothing is lost -/

/-- The array shows every record in full, as long as records of one identifier are the same. -/
theorem displays_replaceReferences {records : List Record}
    (plain : ∀ record ∈ records, record.Plain) (unambiguous : Unambiguous records)
    {record : Record} (member : record ∈ records) :
    Displays records (replaceReferences records) record := by
  obtain ⟨top, topMember, walk⟩ := (settled_tops unambiguous).covered record member
  have topKnown := mem_records_of_mem_tops unambiguous topMember
  have topShown : Shows records (nest records [] top) top := shows_nest plain (plain top topKnown)
  refine ⟨_, replaceReferences_eq records, nest records [] top,
    (mem_elements unambiguous).mpr ⟨top, topMember, rfl⟩, top, topKnown, topShown, ?_⟩
  by_cases same : record = top
  · subst same
    exact ⟨_, .refl, topShown⟩
  · have reaches := (Relation.reflTransGen_iff_eq_or_transGen.mp walk).resolve_left same
    obtain ⟨json, copies⟩ := exists_copies_of_reaches plain unambiguous topKnown reaches same
    obtain ⟨_, _, last⟩ := Relation.TransGen.tail'_iff.mp copies
    exact ⟨json, copies.to_reflTransGen, last.2.1⟩

/-- A record that refers to the next one, which refers back, and to one without references
that comes before both. -/
def leafFirst : List Record :=
  [⟨"leaf", [], [("name", [.plain (.string "Leaf")])]⟩,
   ⟨"left", [], [("leaf", [.reference "leaf"]), ("next", [.reference "right"])]⟩,
   ⟨"right", [], [("next", [.reference "left"])]⟩]

theorem displays_leafFirst : (∀ record ∈ leafFirst, record.Plain) ∧ Unambiguous leafFirst ∧
    ∀ record ∈ leafFirst, Displays leafFirst (replaceReferences leafFirst) record := by
  have plain : ∀ record ∈ leafFirst, record.Plain := by decide +kernel
  have unambiguous : Unambiguous leafFirst := unambiguous_of_nodup (by decide +kernel)
  exact ⟨plain, unambiguous, fun _ member => displays_replaceReferences plain unambiguous member⟩

def twins : List Record :=
  [⟨"a", [], [("p", [.plain (.string "1")])]⟩, ⟨"a", [], [("p", [.plain (.string "2")])]⟩]

theorem replaceReferences_twins : replaceReferences twins =
    .array [.object [("@id", .string "a"), ("p", .string "2")]] := by
  have shown : tops twins = twins.reverse := by
    unfold tops topsAfter
    rw [show sources twins = twins from List.filter_eq_self.mpr (by decide +kernel)]
    rfl
  rw [replaceReferences_eq, shown]
  simp only [Shown.ofRecords, nest_eq]
  rfl

/-- The second record of an identifier takes the place of the first one at the top. -/
theorem not_displays_twins : (∀ record ∈ twins, record.Plain) ∧
    ¬ ∀ record ∈ twins, Displays twins (replaceReferences twins) record := by
  refine ⟨by decide +kernel, fun displays => ?_⟩
  have hidden : ¬ Shows twins (.object [("@id", .string "a"), ("p", .string "2")])
      ⟨"a", [], [("p", [.plain (.string "1")])]⟩ := by
    rintro ⟨render, _, _, properties, literals, _⟩
    have shown := properties _ List.mem_cons_self
    rw [List.map_singleton, ObjectValue.plain, literals] at shown
    exact absurd (Json.string.inj (Option.some.inj shown)) (by decide)
  obtain ⟨elements, same, element, elementMember, top, topMember, shows, inner, walk, last⟩ :=
    displays _ List.mem_cons_self
  -- neither record refers to anything, so that nothing is inside of the only element
  rw [replaceReferences_twins] at same
  obtain rfl := Json.array.inj same
  obtain rfl := List.mem_singleton.mp elementMember
  rcases List.mem_cons.mp topMember with rfl | other
  · exact hidden shows
  · obtain rfl := List.mem_singleton.mp other
    rcases Relation.ReflTransGen.cases_head walk with equal | ⟨_, copy, _⟩
    · exact hidden ((Prod.mk.inj equal).1 ▸ last)
    · exact List.not_mem_nil copy.leads.2

/-! ### Records at the top inside of others -/

section

variable {records : List Record} (unambiguous : Unambiguous records)
include unambiguous

theorem Leads.not_mem_sources {other record : Record} (leads : Leads records other record)
    (otherMember : other ∈ records) (apart : other ≠ record) : record ∉ sources records := by
  rw [mem_sources, not_and, not_not]
  intro member
  have apartId : record.id ≠ other.id :=
    fun same => apart (unambiguous other otherMember record member same.symm)
  have found := (findLast?_eq_some_iff unambiguous).mpr ⟨member, rfl⟩
  refine List.mem_flatMap.mpr ⟨other, otherMember, List.mem_filter.mpr ⟨leads.2, ?_⟩⟩
  simp [apartId, found]

theorem Reaches.not_mem_sources {other record : Record} (reaches : Reaches records other record)
    (otherMember : other ∈ records) (apart : other ≠ record) : record ∉ sources records := by
  induction reaches using Relation.TransGen.head_induction_on with
  | @single other leads => exact leads.not_mem_sources unambiguous otherMember apart
  | @head other middle leads _ ih =>
      by_cases same : middle = record
      · subst same
        exact leads.not_mem_sources unambiguous otherMember apart
      · exact ih leads.1 same

end

theorem mem_foldl_settle {records done tops : List Record} {record : Record}
    (unseen : record ∉ done) :
    record ∈ done.foldl (settle records) tops ↔ record ∈ tops := by
  induction done generalizing tops with
  | nil => rfl
  | cons other done ih =>
      rw [List.mem_cons, not_or] at unseen
      rw [List.foldl_cons, ih unseen.2]
      unfold settle
      split
      · rfl
      · rw [List.mem_cons]
        exact or_iff_right unseen.1

/-- A record is inside of another one at the top only if it is not at the top itself. -/
def Separate (records : List Record) (json : Json) : Prop :=
  ∀ elements, json = .array elements → ∀ element ∈ elements, ∀ top ∈ records,
    Shows records element top →
      ∀ inner record, Relation.TransGen (Copy records) (element, top) (inner, record) →
        ∀ other ∈ elements, other.member? "@id" ≠ some (.string record.id)

/-- Every record to which there is a way without return is reached from a source or from a
record before it. -/
def Foreseen (records : List Record) : Prop :=
  ∀ before record after, records = before ++ record :: after →
    (∃ other ∈ records, Reaches records other record ∧ ¬ Reaches records record other) →
      ∃ first, Reaches records first record ∧ (first ∈ before ∨ first ∈ sources records)

section

variable {records : List Record} (distinct : (records.map Record.id).Nodup)
include distinct

theorem not_mem_of_split {before after : List Record} {record : Record}
    (parts : records = before ++ record :: after) : record ∉ before ∧ record ∉ after := by
  have nodup : (before ++ record :: after).Nodup := parts ▸ distinct.of_map
  have unseen := (List.nodup_cons.mp (List.nodup_middle.mp nodup)).1
  rwa [List.mem_append, not_or] at unseen

omit distinct in
theorem mem_of_split {before after topBefore topAfter : List Record} {record top : Record}
    (same : topBefore ++ top :: topAfter = before ++ record :: after) (apart : top ≠ record)
    (unseen : top ∉ before) : record ∈ topBefore := by
  obtain ⟨between, rfl, rest⟩ | ⟨between, rfl, rest⟩ := List.append_eq_append_iff.mp same
  · cases between with
    | nil => exact absurd (List.cons.inj rest).1 apart
    | cons first _ =>
        obtain rfl := (List.cons.inj rest).1
        exact absurd (List.mem_append_right _ List.mem_cons_self) unseen
  · cases between with
    | nil => exact absurd (List.cons.inj rest).1.symm apart
    | cons first _ =>
        obtain rfl := (List.cons.inj rest).1
        exact List.mem_append_right _ List.mem_cons_self

/-- A record stands at the top if no other record refers to it, or if it comes before all
records that lead to it and none of those is a source. -/
theorem mem_tops_iff {before after : List Record} {record : Record}
    (parts : records = before ++ record :: after) :
    record ∈ tops records ↔ record ∈ sources records ∨
      ∀ first, Reaches records first record → first ∉ before ∧ first ∉ sources records := by
  have unambiguous := unambiguous_of_nodup distinct
  have unseen := not_mem_of_split distinct parts
  have seen : ∀ other ∈ before, other ∈ records :=
    fun other early => parts ▸ List.mem_append_left _ early
  have member : record ∈ records := parts ▸ List.mem_append_right _ List.mem_cons_self
  have settled := settled_topsAfter unambiguous seen
  have known : record ∈ topsAfter records before → record ∈ sources records :=
    fun topMember => (settled.known record topMember).resolve_right unseen.1
  -- it is decided when the records before it have been looked at, and never again
  have decided : record ∈ tops records ↔
      record ∈ settle records (topsAfter records before) record := by
    have whole : tops records = topsAfter records (before ++ record :: after) :=
      congrArg (topsAfter records) parts
    rw [whole, topsAfter, List.foldl_append, List.foldl_cons, mem_foldl_settle unseen.2]
    rfl
  rw [decided]
  by_cases isSource : record ∈ sources records
  · exact iff_of_true (subset_settle (settled.sourcesShown record isSource)) (.inl isSource)
  rw [or_iff_right isSource]
  have contains := contains_ofRecords unambiguous (fun _ => settled.mem_records seen) member
  constructor
  · intro topMember first reaches
    have uncovered : ¬ Covers records (topsAfter records before) record := by
      intro covered
      rw [settle, if_pos (contains.mpr covered)] at topMember
      exact isSource (known topMember)
    constructor
    · intro early
      obtain ⟨top, earlyTop, walk⟩ := settled.covered first early
      exact uncovered ⟨top, earlyTop, walk.trans reaches.to_reflTransGen⟩
    · intro firstSource
      exact uncovered ⟨first, settled.sourcesShown first firstSource, reaches.to_reflTransGen⟩
  · intro unreached
    have uncovered : ¬ Covers records (topsAfter records before) record := by
      rintro ⟨top, topMember, walk⟩
      rcases Relation.reflTransGen_iff_eq_or_transGen.mp walk with rfl | reaches
      · exact isSource (known topMember)
      · obtain ⟨notEarly, notSource⟩ := unreached top reaches
        exact (settled.known top topMember).elim notSource notEarly
    rw [settle, if_neg (contains.not.mpr uncovered)]
    exact List.mem_cons_self

variable (plain : ∀ record ∈ records, record.Plain)
include plain

theorem separate_iff_tops :
    Separate records (replaceReferences records) ↔
      ∀ top ∈ tops records, ∀ other ∈ tops records, Reaches records top other → other = top := by
  have unambiguous := unambiguous_of_nodup distinct
  have known {top : Record} : top ∈ tops records → top ∈ records :=
    mem_records_of_mem_tops unambiguous
  have topShown {top : Record} (topMember : top ∈ tops records) :
      Shows records (nest records [] top) top := shows_nest plain (plain top (known topMember))
  constructor
  · intro separate top topMember other otherMember reaches
    by_contra apart
    obtain ⟨inner, copies⟩ :=
      exists_copies_of_reaches plain unambiguous (known topMember) reaches apart
    exact separate _ (replaceReferences_eq records) _
      ((mem_elements unambiguous).mpr ⟨top, topMember, rfl⟩) top (known topMember)
      (topShown topMember) inner other copies _
      ((mem_elements unambiguous).mpr ⟨other, otherMember, rfl⟩) (topShown otherMember).member?_id
  · intro alone elements same element member top topKnown shows inner record copies other
      otherMember sameId
    obtain rfl := Json.array.inj ((replaceReferences_eq records).symm.trans same)
    obtain ⟨first, firstMember, rfl⟩ := (mem_elements unambiguous).mp member
    obtain ⟨last, lastMember, rfl⟩ := (mem_elements unambiguous).mp otherMember
    have firstIs : first = top := by
      apply unambiguous first (known firstMember) top topKnown
      have ids := (topShown firstMember).member?_id.symm.trans shows.member?_id
      exact Json.string.inj (Option.some.inj ids)
    subst firstIs
    obtain ⟨reaches, apart⟩ := Reaches.of_copies plain unambiguous topKnown copies
    have lastIs : last = record := by
      obtain ⟨_, _, leads⟩ := Relation.TransGen.tail'_iff.mp reaches
      apply unambiguous last (known lastMember) record leads.1
      have ids := (topShown lastMember).member?_id.symm.trans sameId
      exact Json.string.inj (Option.some.inj ids)
    subst lastIs
    exact apart (alone first firstMember last lastMember reaches)

theorem separate_iff_foreseen :
    Separate records (replaceReferences records) ↔ Foreseen records := by
  have unambiguous := unambiguous_of_nodup distinct
  rw [separate_iff_tops distinct plain]
  constructor
  · intro alone before record after parts ⟨other, otherMember, reaches, noReturn⟩
    by_contra unforeseen
    have topMember : record ∈ tops records := by
      refine (mem_tops_iff distinct parts).mpr (.inr fun first firstReaches => ?_)
      rw [← not_or]
      exact fun early => unforeseen ⟨first, firstReaches, early⟩
    -- the other record is shown somewhere, and what is above it leads to the record as well
    obtain ⟨top, otherTop, walk⟩ := (settled_tops unambiguous).covered other otherMember
    obtain rfl := alone top otherTop record topMember (.trans_right walk reaches)
    rcases Relation.reflTransGen_iff_eq_or_transGen.mp walk with rfl | back
    · exact noReturn reaches
    · exact noReturn back
  · intro foreseen top topMember other otherMember reaches
    by_contra apart
    have topKnown := mem_records_of_mem_tops unambiguous topMember
    obtain ⟨before, after, parts⟩ :=
      List.append_of_mem (mem_records_of_mem_tops unambiguous otherMember)
    obtain ⟨topBefore, topAfter, topParts⟩ := List.append_of_mem topKnown
    have notSource := reaches.not_mem_sources unambiguous topKnown (Ne.symm apart)
    have unreached := ((mem_tops_iff distinct parts).mp otherMember).resolve_left notSource
    have topUnreached := ((mem_tops_iff distinct topParts).mp topMember).resolve_left
      (unreached top reaches).2
    -- the other record comes first, so it does not lead back
    have earlier : other ∈ topBefore :=
      mem_of_split (topParts.symm.trans parts) (Ne.symm apart) (unreached top reaches).1
    have noReturn : ¬ Reaches records other top :=
      fun back => (topUnreached other back).1 earlier
    obtain ⟨first, firstReaches, early⟩ :=
      foreseen before other after parts ⟨top, topKnown, reaches, noReturn⟩
    exact early.elim (unreached first firstReaches).1 (unreached first firstReaches).2

end

/-- A first record that leads to all others leaves no choice. -/
theorem foreseen_cons {first : Record} {rest : List Record}
    (reaches : ∀ record ∈ rest, Reaches (first :: rest) first record) :
    Foreseen (first :: rest) := by
  rintro before record after parts ⟨other, otherMember, toRecord, noReturn⟩
  cases before with
  | nil =>
      obtain ⟨rfl, _⟩ := List.cons.inj parts
      rcases List.mem_cons.mp otherMember with rfl | later
      · exact absurd toRecord noReturn
      · exact absurd (reaches other later) noReturn
  | cons head before =>
      obtain ⟨rfl, rfl⟩ := List.cons.inj parts
      exact ⟨first, reaches record (List.mem_append_right _ List.mem_cons_self),
        .inl List.mem_cons_self⟩

theorem forall₂_filterMap {records : List Record} {relation : Json → Record → Prop}
    {render? : Record → Option Json}
    (related : ∀ record ∈ records, ∀ json, render? record = some json → relation json record) :
    List.Forall₂ relation (records.filterMap render?)
      (records.filter fun record => (render? record).isSome) := by
  induction records with
  | nil => exact .nil
  | cons record records ih =>
      have rest := ih fun other member => related other (List.mem_cons_of_mem _ member)
      cases found : render? record with
      | none => simpa [found] using rest
      | some json => simpa [found] using ⟨related record List.mem_cons_self json found, rest⟩

theorem replaceReferences_ordered {records : List Record}
    (plain : ∀ record ∈ records, record.Plain) (distinct : (records.map Record.id).Nodup) :
    ∃ elements shown, replaceReferences records = .array elements ∧ shown.Sublist records ∧
      List.Forall₂ (Shows records) elements shown := by
  have unambiguous := unambiguous_of_nodup distinct
  have known : ∀ top ∈ tops records, top ∈ records := fun _ => mem_records_of_mem_tops unambiguous
  have shows : ∀ record ∈ records, ∀ json,
      (Shown.ofRecords records (tops records)).roots.lookup record.id = some json →
        Shows records json record := by
    intro record member json found
    obtain ⟨top, topMember, same, rfl⟩ := (lookup_roots unambiguous known).mp found
    obtain rfl := unambiguous top (known top topMember) record member same
    exact shows_nest plain (plain top member)
  refine ⟨_, _, ?_, List.filter_sublist, forall₂_filterMap shows⟩
  rw [replaceReferences_eq, eraseDups_of_nodup distinct, List.filterMap_map]
  rfl

/-- The elements of the array stand in the order of their records. None of them is inside
of another one exactly if every record to which there is a way without return is reached
from a record before it, or from one to which no other refers. -/
theorem replaceReferences_ordered_and_separate_iff {records : List Record}
    (plain : ∀ record ∈ records, record.Plain) (distinct : (records.map Record.id).Nodup) :
    (∃ elements shown, replaceReferences records = .array elements ∧ shown.Sublist records ∧
      List.Forall₂ (Shows records) elements shown) ∧
    (Separate records (replaceReferences records) ↔ Foreseen records) :=
  ⟨replaceReferences_ordered plain distinct, separate_iff_foreseen distinct plain⟩

def leafLast : List Record := [leafFirst[1], leafFirst[2], leafFirst[0]]

theorem separate_leafLast : (∃ elements shown,
      replaceReferences leafLast = .array elements ∧ shown.Sublist leafLast ∧
        List.Forall₂ (Shows leafLast) elements shown) ∧
    Separate leafLast (replaceReferences leafLast) := by
  obtain ⟨ordered, separate⟩ := replaceReferences_ordered_and_separate_iff
    (show ∀ record ∈ leafLast, record.Plain by decide +kernel) (by decide +kernel)
  refine ⟨ordered, separate.mpr (foreseen_cons ?_)⟩
  intro record member
  have refers : record.id ∈ leafFirst[1].references := by
    revert record
    decide +kernel
  exact .single ⟨List.mem_cons_of_mem _ member, refers⟩

theorem not_separate_leafFirst : (∀ record ∈ leafFirst, record.Plain) ∧
    (leafFirst.map Record.id).Nodup ∧ ¬ Separate leafFirst (replaceReferences leafFirst) := by
  have plain : ∀ record ∈ leafFirst, record.Plain := by decide +kernel
  have distinct : (leafFirst.map Record.id).Nodup := by decide +kernel
  refine ⟨plain, distinct, ?_⟩
  rw [separate_iff_foreseen distinct plain]
  intro foreseen
  have leads : Leads leafFirst leafFirst[1] leafFirst[0] :=
    ⟨List.mem_cons_self, by decide +kernel⟩
  have noReturn : ¬ Reaches leafFirst leafFirst[0] leafFirst[1] := by
    intro reaches
    obtain ⟨_, first, _⟩ := Relation.TransGen.head'_iff.mp reaches
    exact absurd first.2 List.not_mem_nil
  obtain ⟨first, _, early | isSource⟩ := foreseen [] _ _ rfl
    ⟨leafFirst[1], List.mem_of_getElem rfl, .single leads, noReturn⟩
  · exact List.not_mem_nil early
  · have noSource : sources leafFirst = [] := List.filter_eq_nil_iff.mpr (by decide +kernel)
    rw [noSource] at isSource
    exact List.not_mem_nil isSource

end RdfMapping.Record
