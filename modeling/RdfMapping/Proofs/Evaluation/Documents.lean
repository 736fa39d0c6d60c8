import RdfMapping.Proofs.Evaluation.Classes
import RdfMapping.Proofs.Evaluation.Languages
import RdfMapping.Proofs.Record.Written
/-!
The documents of runs. The text of a run is read back as the triples of its records exactly
if everything that is written unescaped keeps to the grammar. What a row says can break it
as an identifier, as a predicate or as a class, but not as a literal, and not through a
template.
-/

namespace RdfMapping

/-! ### Rules that keep to the grammar -/

def TextMap.KeepsGrammar : TextMap → Prop
  | .constant text => IsPlain text
  | .reference _ => False
  | .template pattern => pattern.FixedPlain

/-- The object gives identifiers, and rows have a say in them through templates only. -/
def ObjectMap.GivesNames (object : ObjectMap) : Prop :=
  match object.kind, object.resolvedTermType with
  | .parent _, _ => True
  | .constant constant, some .iri => Term.Names constant.lexical
  | .constant constant, some .blankNode => Term.Names (markBlank constant.lexical)
  | .template template, some .iri => template.FixedPlain ∧ template.NamesIris
  | _, _ => False

/-- The object gives literals, and its fixed annotations can be written. -/
structure ObjectMap.GivesLiterals (object : ObjectMap) : Prop where
  isLiteral : object.resolvedTermType = some .literal ∨ object.resolvedTermType = none
  datatype : ∀ iri, object.datatype = some iri → IsPlain iri
  constant : ∀ text datatype own, object.kind = .constant (.literal text datatype own) →
    (∀ iri, datatype = some iri → IsPlain iri) ∧
      ∀ tag, own = some tag → LanguageTag.check tag = .ok ()

structure SubjectMap.KeepsGrammar (subject : SubjectMap) : Prop where
  kind : (∃ template, subject.kind = .template template ∧ subject.resolvedTermType = .iri ∧
      template.FixedPlain ∧ template.NamesIris) ∨
    ∃ iri, subject.kind = .constant iri ∧ Term.Names (subjectId subject.resolvedTermType iri)
  classes : ∀ type ∈ subject.classes, Term.Names type
  fixed : subject.classFunction = none

/-- The fixed parts of a rule can be written, and what rows say is put into literals or into
templates. -/
structure Rule.KeepsGrammar (rule : Rule) : Prop where
  subject : rule.subject.KeepsGrammar
  predicates : ∀ pom ∈ rule.predicateObjectMaps, ∀ map ∈ pom.predicates, map.KeepsGrammar
  objects : ∀ pom ∈ rule.predicateObjectMaps, ∀ object ∈ pom.objects, object.GivesNames ∨
    object.GivesLiterals ∧
      ∀ map ∈ pom.predicates, ∃ text, text ≠ Vocabulary.rdfType ∧ map = .constant text

namespace RowScope

variable {scope : RowScope}

theorem isPlain_of_mem_texts {map : TextMap} (keeps : map.KeepsGrammar) {texts : List String}
    (read : scope.texts false map = .ok texts) : ∀ text ∈ texts, IsPlain text := by
  cases map with
  | constant text =>
      rw [← Except.ok.inj read, List.forall_mem_singleton]
      exact keeps
  | reference selector => cases keeps
  | template template => exact Template.isPlain_of_mem_expand read keeps

theorem isPlain_of_mem_predicatesOf {pom : PredicateObjectMap}
    (keeps : ∀ map ∈ pom.predicates, map.KeepsGrammar) {predicate : String}
    (member : predicate ∈ scope.predicatesOf pom) : IsPlain predicate := by
  obtain ⟨map, mapMember, texts, read, inTexts⟩ := exists_map_of_mem_predicatesOf member
  exact isPlain_of_mem_texts (keeps map mapMember) read predicate inTexts

end RowScope

/-- The identifier of a row without a name cannot be written if the IRI of its rule has a
character that is percent-encoded, as a colon. -/
theorem not_names_fallbackId {rule : String} {c : Char} (member : c ∈ rule.toList)
    (reserved : Text.isUnreserved c = false) (row : Nat) : ¬ Term.Names (fallbackId rule row) := by
  have inName : c ∈ (rule ++ "_" ++ toString (row + 1)).toList := by
    rw [String.toList_append, String.toList_append]
    exact List.mem_append_left _ (List.mem_append_left _ member)
  exact Term.not_names_blankId inName reserved

namespace Run

variable {σ : Type} (run : Run σ) {scope : RowScope}

/-! ### Rows -/

theorem names_of_mem_subjects {rule : Rule} (keeps : rule.subject.KeepsGrammar) {ids : List String}
    (member : ids ∈ (subjects run.looseHost scope rule).run) : ∀ id ∈ ids, Term.Names id := by
  unfold subjects at member
  by_cases literal : rule.subject.resolvedTermType = .literal
  · rw [if_pos literal] at member
    cases member
  · simp only [literal, if_false] at member
    rcases keeps.kind with ⟨template, kind, isIri, plain, names⟩ | ⟨iri, kind, names⟩
    · rw [kind] at member
      obtain ⟨texts, read, same⟩ := SetM.mem_bind.mp member
      have unchanged : texts.map (subjectId rule.subject.resolvedTermType) = texts := by
        rw [isIri]
        exact List.map_id texts
      rw [SetM.mem_pure.mp same, unchanged]
      exact Term.names_of_mem_expand plain names (run.mem_lift.mp read)
    · rw [kind] at member
      rw [SetM.mem_pure.mp member, List.forall_mem_singleton]
      exact names

theorem wrap_of_givesNames {object : ObjectMap} (gives : object.GivesNames) {constant : Constant}
    (kind : object.kind = .constant constant) (options : Options)
    (datatype language : Option String) :
    ∃ id, wrap options object.resolvedTermType datatype language (.string constant.lexical) =
      .reference id ∧ Term.Names id := by
  unfold ObjectMap.GivesNames at gives
  rw [kind] at gives
  cases wanted : object.resolvedTermType with
  | none =>
      rw [wanted] at gives
      cases gives
  | some termType =>
      rw [wanted] at gives
      cases termType with
      | iri => exact ⟨_, rfl, gives⟩
      | blankNode => exact ⟨_, rfl, gives⟩
      | literal => cases gives

theorem names_of_mem_resolve {object : ObjectMap} (gives : object.GivesNames) {resolved : Resolved}
    (member : resolved ∈ (resolve run.looseHost scope object).run) {value : ObjectValue}
    (inResolved : value ∈ resolved.atOnce) : ∃ id, value = .reference id ∧ Term.Names id := by
  obtain ⟨datatype, language, json, makes, wrapped⟩ :=
    run.makes_of_mem_resolve scope member inResolved
  rw [← wrapped]
  cases makes with
  | iri kind => exact wrap_of_givesNames gives kind _ _ _
  | literal kind read => exact wrap_of_givesNames gives kind _ _ _
  | reference kind read =>
      unfold ObjectMap.GivesNames at gives
      rw [kind] at gives
      cases gives
  | @template template language texts text kind read expanded inTexts =>
      unfold ObjectMap.GivesNames at gives
      rw [kind] at gives
      cases wanted : object.resolvedTermType with
      | none =>
          rw [wanted] at gives
          cases gives
      | some termType =>
          rw [wanted] at gives expanded
          cases termType with
          | iri =>
              obtain ⟨plain, names⟩ := gives
              exact ⟨text, rfl, Term.names_of_mem_expand plain names expanded text inTexts⟩
          | blankNode => cases gives
          | literal => cases gives
  | function kind read =>
      unfold ObjectMap.GivesNames at gives
      rw [kind] at gives
      cases gives

theorem writable_of_mem_resolve (checked : checkLanguage scope.options = .ok ())
    {object : ObjectMap} (gives : object.GivesLiterals) {resolved : Resolved}
    (member : resolved ∈ (resolve run.looseHost scope object).run) {value : ObjectValue}
    (inResolved : value ∈ resolved.atOnce) : value.Writable := by
  obtain ⟨datatype, language, json, makes, wrapped⟩ :=
    run.makes_of_mem_resolve scope member inResolved
  have isLiteral : value =
      .literal json datatype (literalLanguage scope.options datatype language json) := by
    rw [← wrapped]
    rcases gives.isLiteral with wanted | wanted
    · rw [wanted]
      rfl
    · rw [wanted]
      rfl
  rw [isLiteral] at inResolved ⊢
  constructor
  · intro iri given
    cases makes with
    | iri kind => cases given
    | @literal text other own language kind read =>
        rcases Option.or_eq_some_iff.mp given with ofObject | ⟨_, ofConstant⟩
        · exact gives.datatype iri ofObject
        · exact (gives.constant text other own kind).1 iri ofConstant
    | reference kind read | template kind read expanded inTexts | function kind read =>
        exact gives.datatype iri given
  · intro tag given
    rw [given] at inResolved
    apply LanguageTag.isTag_of_check
    rcases run.tag_of_mem_resolve checked member inResolved with accepted | own
    · exact accepted
    · obtain ⟨⟨text, other, kind⟩, _⟩ := RowScope.of_ownTag own
      exact (gives.constant text other _ kind).2 tag rfl

theorem fit_of_maySay (checked : checkLanguage scope.options = .ok ()) {rule : Rule}
    (keeps : rule.KeepsGrammar) {types : List String} {statements : List Statement}
    (maySay : run.MaySay scope rule types statements) :
    (Record.assemble types statements).Fit := by
  apply Record.fit_assemble
  · have typesMember := maySay.1
    unfold classes at typesMember
    rw [keeps.subject.fixed] at typesMember
    rw [SetM.mem_pure.mp typesMember]
    exact keeps.subject.classes
  · intro statement stated
    obtain ⟨object, asks, resolved, resolvedMember, inResolved⟩ := maySay.exists_object stated
    obtain ⟨pom, pomMember, predicateMember, objectMember⟩ := asks
    have plain := RowScope.isPlain_of_mem_predicatesOf (keeps.predicates pom pomMember)
      predicateMember
    rcases keeps.objects pom pomMember object objectMember with
      givesNames | ⟨givesLiterals, untyped⟩
    · obtain ⟨id, isReference, names⟩ :=
        run.names_of_mem_resolve givesNames resolvedMember inResolved
      refine ⟨plain, ?_, ?_⟩
      · rw [isReference]
        exact names
      · unfold Statement.classes
        split
        · rw [isReference]
          exact List.forall_mem_singleton.mpr names
        · nofun
    · -- what a literal says is no class, as its predicates are fixed
      have other := RowScope.of_mem_predicatesOf untyped predicateMember
      refine ⟨plain,
        run.writable_of_mem_resolve checked givesLiterals resolvedMember inResolved, ?_⟩
      rw [Statement.classes, if_neg other]
      nofun

/-! ### Whole runs -/

section

variable {run} {cache : Cache} {world : σ} (keeps : ∀ rule ∈ run.mapping.rules, rule.KeepsGrammar)
include keeps

theorem fit_of_evaluateAll (checked : checkLanguage run.options = .ok ())
    {outputs : List RuleOutput}
    (success : (run.evaluateAll.run.run (run.start cache world)).1 = .ok outputs)
    {output : RuleOutput} (member : output ∈ outputs) {evaluated : EvaluatedRecord}
    (inOutput : evaluated ∈ output) :
    Term.Names evaluated.record.id ∧ Table.Sorted evaluated.record.properties ∧
      evaluated.record.Fit := by
  obtain ⟨index, outputAt⟩ := List.getElem?_of_mem member
  obtain ⟨rule, rows, ruleAt, _, rowOf, _⟩ := run.rows_of_evaluateAll success outputAt
  obtain ⟨row, _, _, tells⟩ := rowOf evaluated inOutput
  have kept := keeps rule (List.mem_of_getElem? ruleAt)
  obtain ⟨⟨ids, idsMember, named⟩, types, statements, maySay, same⟩ := tells
  have fit := run.fit_of_maySay checked kept maySay
  refine ⟨run.names_of_mem_subjects kept.subject idsMember _ named, ?_, ?_⟩
  · rw [same]
    exact Record.sorted_assemble types statements
  · rw [same]
    exact ⟨fit.types, fit.properties⟩

theorem isPlain_of_mem_pending {outputs : List RuleOutput}
    (success : (run.evaluateAll.run.run (run.start cache world)).1 = .ok outputs)
    {output : RuleOutput} (member : output ∈ outputs) {evaluated : EvaluatedRecord}
    (inOutput : evaluated ∈ output) : ∀ join ∈ evaluated.pending, IsPlain join.predicate := by
  intro join joinMember
  obtain ⟨index, outputAt⟩ := List.getElem?_of_mem member
  obtain ⟨rule, rows, ruleAt, _, ofRule⟩ :=
    (run.evaluateAll_possible cache world success).2 index output outputAt
  obtain ⟨row, _, _, sameShape⟩ := (run.mem_evaluateRule ofRule).1 evaluated inOutput
  have slotMember : join.shape ∈ evaluated.shape := List.mem_map_of_mem joinMember
  rw [sameShape] at slotMember
  obtain ⟨pom, pomMember, _, given⟩ := RowScope.predicate_of_mem_slots slotMember
  exact RowScope.isPlain_of_mem_predicatesOf
    ((keeps rule (List.mem_of_getElem? ruleAt)).predicates pom pomMember) given

/-- Whatever the sources say and the functions return, a mapping that keeps to the grammar
gives triples that do. -/
theorem writable_of_keepsGrammar {records : List Record}
    (success : (run.records cache world).1 = .ok records) :
    ∀ triple ∈ records.flatMap Record.triples, triple.Writable := by
  obtain ⟨checked, outputs, evaluated, same⟩ := run.records_eq_ok_iff.mp success
  intro triple tripleMember
  obtain ⟨record, member, inRecord⟩ := List.mem_flatMap.mp tripleMember
  rw [← same] at member
  obtain ⟨index, output, outputAt, joining, inOutput, isResolved⟩ := Join.mem_resolve_iff.mp member
  have outputMember := List.mem_of_getElem? outputAt
  obtain ⟨names, sorted, fit⟩ := fit_of_evaluateAll keeps checked evaluated outputMember inOutput
  rw [isResolved] at inRecord
  refine Record.Fit.writable_of_mem_triples (fit.withReferences ?_) ?_ triple inRecord
  · intro reference referenceMember
    obtain ⟨slot, shape, shapeAt, inSlot⟩ := Join.exists_slot_of_mem_ruleReferences referenceMember
    obtain ⟨under, parents, parentsMember, parent, parentMember, named⟩ :=
      Join.of_mem_slotReferences inSlot
    rw [under, named]
    refine ⟨?_, (fit_of_evaluateAll keeps checked evaluated parentsMember parentMember).1⟩
    -- the slots are those of the first record of the rule, which has a row of its own
    cases output with
    | nil => cases shapeAt
    | cons first rest =>
        exact isPlain_of_mem_pending keeps evaluated outputMember List.mem_cons_self shape
          (List.mem_of_getElem? shapeAt)
  · rw [(Record.withReferences_spec sorted _).1]
    exact names

end

/-- A run that is asked for triples gives one line for each of them, in order. The text is
read as these triples and no others exactly if all of them keep to the grammar. They do if
rows have a say in literals and in templates alone. -/
theorem document_records_iff (cache : Cache) (world : σ) {records : List Record}
    (asked : run.options.toTriples = true) (success : (run.records cache world).1 = .ok records) :
    ∃ text, Shape.of run.options records = .nTriples text ∧
      text.toList = Triple.document (records.flatMap Record.triples) ∧
      ((∀ read, NTriples.Document text read ↔
          read = (records.flatMap Record.triples).map Triple.normal) ↔
        ∀ triple ∈ records.flatMap Record.triples, triple.Writable) ∧
      ((∀ rule ∈ run.mapping.rules, rule.KeepsGrammar) →
        ∀ triple ∈ records.flatMap Record.triples, triple.Writable) := by
  refine ⟨Record.renderTriples records, ?_, Record.toList_renderTriples records, ?_,
    fun keeps => writable_of_keepsGrammar keeps success⟩
  · unfold Shape.of
    rw [if_pos asked]
  · unfold NTriples.Document
    rw [Record.toList_renderTriples]
    exact Triple.document_iff

/-- Neighbours with a template for a name and with what they say, whatever that is. -/
def neighbours : Run Unit where
  mapping :=
    { rules :=
        [{ tableRule "neighbours" "rows"
            [⟨[.constant "says"], [.ofKind (.reference "saying")]⟩,
              ⟨[.constant "beside"], [.ofKind (.parent ⟨"neighbours", [⟨"beside", "name"⟩]⟩)]⟩] with
          subject :=
            { kind := .template ⟨"house/\x7bname\x7d", [.literal "house/", .reference "name"]⟩
              termType := none
              classes := ["Neighbour"]
              classFunction := none } }]
      distinct := by decide
      closed := by decide }
  registry := Registry.standard
  options := { toTriples := true }
  sources := [("rows", "name,beside,saying\na>,,\"\"\" .\n<b\"\nb c,a>,hello\n")]

theorem neighbours_success :
    ∃ records, (neighbours.records [] ()).1 = .ok records ∧
      (records.flatMap Record.triples).map Triple.object =
        [.iri "Neighbour", .plain "\" .\n<b", .iri "Neighbour", .iri "house/a%3E",
          .plain "hello"] := by
  have success : ∃ outputs, (neighbours.evaluateAll.run.run (neighbours.start [] ())).1 =
        .ok outputs ∧
      ((Join.nestedLoop outputs).flatten.flatMap Record.triples).map Triple.object =
        [.iri "Neighbour", .plain "\" .\n<b", .iri "Neighbour", .iri "house/a%3E",
          .plain "hello"] := by
    apply Outcome.map_eq_ok.mp
    decide +kernel
  obtain ⟨outputs, evaluated, shown⟩ := success
  exact ⟨_, neighbours.records_of_fixedJoins (by decide) [] () rfl evaluated, shown⟩

theorem keepsGrammar_neighbours : ∀ rule ∈ neighbours.mapping.rules, rule.KeepsGrammar := by
  intro rule member
  rw [List.mem_singleton.mp member]
  refine ⟨⟨Or.inl ⟨_, rfl, rfl, ?_, _, _, 'h', rfl, rfl, by decide⟩, ?_, rfl⟩, ?_, ?_⟩
  · intro segment inTemplate text isLiteral
    rw [isLiteral] at inTemplate
    rcases List.mem_pair.mp inTemplate with same | same
    · rw [Segment.literal.inj same]
      decide
    · cases same
  · exact List.forall_mem_singleton.mpr (by decide)
  · intro pom pomMember
    rcases List.mem_pair.mp pomMember with same | same
    · rw [same, List.forall_mem_singleton]
      exact (by decide : IsPlain "says")
    · rw [same, List.forall_mem_singleton]
      exact (by decide : IsPlain "beside")
  · intro pom pomMember
    rcases List.mem_pair.mp pomMember with same | same
    · rw [same, List.forall_mem_singleton]
      exact Or.inr ⟨⟨Or.inl rfl, nofun, nofun⟩,
        List.forall_mem_singleton.mpr ⟨"says", by decide, rfl⟩⟩
    · rw [same, List.forall_mem_singleton]
      exact Or.inl trivial

/-- Whatever the neighbours say, their document is read back. -/
theorem document_neighbours :
    ∃ records, (neighbours.records [] ()).1 = .ok records ∧
      ∃ text, Shape.of neighbours.options records = .nTriples text ∧
        ∀ read, NTriples.Document text read ↔
          read = (records.flatMap Record.triples).map Triple.normal := by
  obtain ⟨records, success, _⟩ := neighbours_success
  obtain ⟨text, shape, _, readBack, keeps⟩ :=
    neighbours.document_records_iff [] () rfl success
  exact ⟨records, success, text, shape, readBack.mpr (keeps keepsGrammar_neighbours)⟩

/-- Persons who know whom their row names, by an identifier. -/
def acquaintances : Run Unit where
  mapping :=
    { rules :=
        [tableRule "persons" "rows"
          [⟨[.constant "knows"],
            [{ ObjectMap.ofKind (.reference "friend") with termType := some .iri }]⟩]]
      distinct := by decide
      closed := by decide }
  registry := Registry.standard
  options := { toTriples := true }
  sources := [("rows", "id,friend\nann,\"bob> .\n<eve> <knows> <ann\"\n")]

theorem acquaintances_success :
    ∃ records, (acquaintances.records [] ()).1 = .ok records ∧
      (records.flatMap Record.triples, Record.renderTriples records) =
        ([⟨.iri "ann", .iri "knows", .iri "bob> .\n<eve> <knows> <ann"⟩],
          "<ann> <knows> <bob> .\n<eve> <knows> <ann> .\n") := by
  have success : ∃ outputs, (acquaintances.evaluateAll.run.run (acquaintances.start [] ())).1 =
        .ok outputs ∧
      ((Join.nestedLoop outputs).flatten.flatMap Record.triples,
          Record.renderTriples (Join.nestedLoop outputs).flatten) =
        ([⟨.iri "ann", .iri "knows", .iri "bob> .\n<eve> <knows> <ann"⟩],
          "<ann> <knows> <bob> .\n<eve> <knows> <ann> .\n") := by
    apply Outcome.map_eq_ok.mp
    decide +kernel
  obtain ⟨outputs, evaluated, shown⟩ := success
  exact ⟨_, acquaintances.records_of_fixedJoins (by decide) [] () rfl evaluated, shown⟩

/-- The one triple of a run is written as two lines, and not read back. -/
theorem not_document_acquaintances :
    ∃ records, (acquaintances.records [] ()).1 = .ok records ∧
      Shape.of acquaintances.options records =
        .nTriples "<ann> <knows> <bob> .\n<eve> <knows> <ann> .\n" ∧
      records.flatMap Record.triples =
        [⟨.iri "ann", .iri "knows", .iri "bob> .\n<eve> <knows> <ann"⟩] ∧
      ¬ NTriples.Document "<ann> <knows> <bob> .\n<eve> <knows> <ann> .\n"
        ((records.flatMap Record.triples).map Triple.normal) := by
  obtain ⟨records, success, shown⟩ := acquaintances_success
  obtain ⟨triples, text⟩ := Prod.mk.inj shown
  refine ⟨records, success, congrArg Shape.nTriples text, triples, ?_⟩
  rw [← text]
  unfold NTriples.Document
  rw [Record.toList_renderTriples]
  intro readBack
  have writable := Triple.writable_of_document readBack
  rw [triples, List.forall_mem_singleton] at writable
  exact absurd writable.object (by decide)

end Run

end RdfMapping
