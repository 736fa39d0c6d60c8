import RdfMapping.Proofs.Evaluation.Given
/-!
The languages of the literals of a run. A tag that the row gives, a fixed one and that of
the run are checked before they are used, and a run in which one of them is refused does
not succeed. The tag that a constant literal brings along is used unchecked.
-/

namespace RdfMapping

def ObjectMap.readsLanguage (object : ObjectMap) : Bool :=
  match object.kind with
  | .parent _ | .constant (.iri _) => false
  | .constant (.literal ..) | .reference _ | .template _ | .function _ => true

def Record.TagsAccepted (record : Record) : Prop :=
  ∀ value datatype tag, .literal value datatype (some tag) ∈ record.properties.flatMap Prod.snd →
    LanguageTag.check tag = .ok ()

theorem ObjectMap.resolvedTermType_of_literal {object : ObjectMap} {text : String}
    {datatype language : Option String}
    (kind : object.kind = .constant (.literal text datatype language)) :
    object.resolvedTermType = some (object.termType.getD .literal) := by
  unfold resolvedTermType
  rw [kind]
  cases object.termType with
  | none => rfl
  | some termType => rfl

/-! ### Languages of a row -/

namespace RowScope

variable (scope : RowScope)

/-- The tag that an object map asks for: that of the row, or else the fixed one. -/
def Wants (object : ObjectMap) (tag : String) : Prop :=
  object.readsLanguage = true ∧
    (scope.mappedLanguage object.languageMap).map (·.or object.language) = .ok (some tag)

/-- The tag of its own that a constant literal keeps, as nothing else gives it one. -/
def ownTag? (object : ObjectMap) : Option String :=
  match object.kind, scope.language object with
  | .constant (.literal _ _ own), .ok none =>
      if object.resolvedTermType = some .literal then own else none
  | _, _ => none

variable {scope} {object : ObjectMap}

theorem language_of_wants {tag : String} (wants : scope.Wants object tag) :
    scope.language object = (LanguageTag.check tag).map fun _ => some tag := by
  obtain ⟨mapped, read, same⟩ := Outcome.map_eq_ok.mp wants.2
  unfold language
  rw [read]
  simp only [bind, Except.bind, same]
  cases LanguageTag.check tag with
  | error e => rfl
  | ok _ => rfl

theorem of_ownTag {tag : String} (own : scope.ownTag? object = some tag) :
    (∃ text datatype, object.kind = .constant (.literal text datatype (some tag))) ∧
      scope.language object = .ok none ∧ object.resolvedTermType = some .literal := by
  unfold ownTag? at own
  split at own
  · next text datatype language kind unread =>
      split at own
      · next literal =>
          rw [own] at kind
          exact ⟨⟨text, datatype, kind⟩, unread, literal⟩
      · cases own
  · cases own

theorem check_of_language {tag : String} (given : scope.language object = .ok (some tag)) :
    LanguageTag.check tag = .ok () := by
  unfold language at given
  obtain ⟨mapped, _, later⟩ := Outcome.bind_eq_ok.mp given
  cases wanted : mapped.or object.language with
  | none =>
      rw [wanted] at later
      cases later
  | some other =>
      rw [wanted] at later
      obtain ⟨_, checked, same⟩ := Outcome.bind_eq_ok.mp later
      cases same
      exact checked

end RowScope

/-! ### Values of an object -/

theorem tag_of_literalLanguage {options : Options} {datatype language : Option String}
    {value : Json} {tag : String}
    (given : literalLanguage options datatype language value = some tag) :
    language = some tag ∨ options.language = some tag := by
  unfold literalLanguage at given
  split at given
  · split at given
    · exact Or.inr given
    · exact Or.inl given
  · exact Or.inl given

theorem literalLanguage_of_some {options : Options} {datatype : Option String} {tag : String}
    {value : Json} : literalLanguage options datatype (some tag) value = some tag := by
  unfold literalLanguage
  split
  · simp
  · rfl

/-- A literal in a language has it from its object, or from the run. -/
theorem tag_of_wrap {options : Options} {termType : Option TermType}
    {wantedDatatype language datatype : Option String} {json value : Json} {tag : String}
    (same : wrap options termType wantedDatatype language json =
      .literal value datatype (some tag)) :
    language = some tag ∨ options.language = some tag := by
  match termType with
  | some .iri => cases same
  | some .blankNode => cases same
  | some .literal => exact tag_of_literalLanguage (ObjectValue.literal.inj same).2.2
  | none => exact tag_of_literalLanguage (ObjectValue.literal.inj same).2.2

namespace Run

variable {σ : Type} (run : Run σ) {scope : RowScope} {object : ObjectMap} {resolved : Resolved}

theorem language_of_mem_resolve (reads : object.readsLanguage = true)
    (member : resolved ∈ (resolve run.looseHost scope object).run) :
    ∃ language, scope.language object = .ok language := by
  unfold resolve at member
  unfold ObjectMap.readsLanguage at reads
  cases kind : object.kind with
  | parent reference => simp [kind] at reads
  | constant constant =>
      cases constant with
      | iri iri => simp [kind] at reads
      | literal text datatype own =>
          simp only [kind] at member
          obtain ⟨language, read, _⟩ := SetM.mem_bind.mp member
          exact ⟨language, run.mem_lift.mp read⟩
  | reference selector =>
      simp only [kind, mem_lift] at member
      obtain ⟨language, read, _⟩ := Outcome.bind_eq_ok.mp member
      exact ⟨language, read⟩
  | template template =>
      simp only [kind, mem_lift] at member
      obtain ⟨language, read, _⟩ := Outcome.bind_eq_ok.mp member
      exact ⟨language, read⟩
  | function call =>
      simp only [kind] at member
      obtain ⟨result, _, later⟩ := SetM.mem_bind.mp member
      obtain ⟨language, read, _⟩ := SetM.mem_bind.mp later
      exact ⟨language, run.mem_lift.mp read⟩

theorem check_of_mem_resolve {tag : String} (wants : scope.Wants object tag)
    (member : resolved ∈ (resolve run.looseHost scope object).run) :
    LanguageTag.check tag = .ok () := by
  obtain ⟨language, read⟩ := run.language_of_mem_resolve wants.1 member
  rw [RowScope.language_of_wants wants, Outcome.map_eq_ok] at read
  obtain ⟨_, checked, _⟩ := read
  exact checked

theorem tag_of_mem_resolve (checked : checkLanguage scope.options = .ok ())
    (member : resolved ∈ (resolve run.looseHost scope object).run) {value : Json}
    {datatype : Option String} {tag : String}
    (inResolved : .literal value datatype (some tag) ∈ resolved.atOnce) :
    LanguageTag.check tag = .ok () ∨ scope.ownTag? object = some tag := by
  obtain ⟨wantedDatatype, language, json, makes, wrapped⟩ :=
    run.makes_of_mem_resolve scope member inResolved
  rcases tag_of_wrap wrapped with given | ofRun
  · rw [given] at makes wrapped
    generalize asked : some tag = wanted at makes
    cases makes with
    | iri kind => cases asked
    | reference kind read | template kind read expanded member | function kind read =>
        rw [← asked] at read
        exact Or.inl (RowScope.check_of_language read)
    | @literal text datatype own language kind read =>
        -- only here a tag need not have been read
        cases language with
        | some other =>
            rw [Option.some_or] at asked
            rw [← asked] at read
            exact Or.inl (RowScope.check_of_language read)
        | none =>
            refine Or.inr ?_
            have literal : object.resolvedTermType = some .literal := by
              rw [ObjectMap.resolvedTermType_of_literal kind] at wrapped ⊢
              cases found : object.termType.getD .literal with
              | iri =>
                  rw [found] at wrapped
                  cases wrapped
              | blankNode =>
                  rw [found] at wrapped
                  cases wrapped
              | literal => rfl
            unfold RowScope.ownTag?
            simp only [kind, read]
            rw [if_pos literal]
            exact Option.none_or.symm
  · unfold checkLanguage at checked
    rw [ofRun] at checked
    exact Or.inl checked

/-- The tag of its own that a constant literal keeps is that of its value. -/
theorem exists_literal_of_ownTag
    (member : resolved ∈ (resolve run.looseHost scope object).run) {tag : String}
    (own : scope.ownTag? object = some tag) :
    ∃ value datatype, .literal value datatype (some tag) ∈ resolved.atOnce := by
  obtain ⟨⟨text, datatype, kind⟩, unread, literal⟩ := RowScope.of_ownTag own
  unfold resolve at member
  simp only [kind] at member
  obtain ⟨given, read, same⟩ := SetM.mem_bind.mp member
  rw [run.mem_lift, unread] at read
  cases read
  rw [SetM.mem_pure.mp same, literal]
  refine ⟨.string text, object.datatype.or datatype, List.mem_singleton.mpr ?_⟩
  unfold wrap
  rw [Option.none_or, literalLanguage_of_some]

/-- A tag that is refused makes the object fail, unless the call of its function fails
before the tag is read. -/
theorem run_resolve_of_refused {outputOf : Nat → RunM σ RuleOutput} {tag : String}
    (wants : scope.Wants object tag) (refused : LanguageTag.check tag ≠ .ok ())
    (state : RunState σ) :
    ∃ e next, (resolve (run.host outputOf) scope object).run.run state = (.error e, next) ∧
      (e = .invalidLanguageTag tag ∨ ∃ call, object.kind = .function call ∧
        (invoke (run.host outputOf) scope call).run.run state = (.error e, next)) := by
  have unread : scope.language object = .error (.invalidLanguageTag tag) := by
    rw [RowScope.language_of_wants wants, LanguageTag.check_eq_error refused]
    rfl
  have reads := wants.1
  unfold resolve
  unfold ObjectMap.readsLanguage at reads
  cases kind : object.kind with
  | parent reference => simp [kind] at reads
  | constant constant =>
      cases constant with
      | iri iri => simp [kind] at reads
      | literal text datatype own =>
          rw [unread]
          exact ⟨_, state, rfl, Or.inl rfl⟩
  | reference selector =>
      rw [unread]
      exact ⟨_, state, rfl, Or.inl rfl⟩
  | template template =>
      rw [unread]
      exact ⟨_, state, rfl, Or.inl rfl⟩
  | function call =>
      simp only [unread, RunM.run_bind]
      rcases called : (invoke (run.host outputOf) scope call).run.run state with ⟨result, next⟩
      cases result with
      | error e => exact ⟨e, next, rfl, Or.inr ⟨call, rfl, called⟩⟩
      | ok result => exact ⟨_, next, rfl, Or.inl rfl⟩

/-! ### Whole runs -/

/-- The tags that constant literals bring along are accepted, wherever they are used. -/
def OwnTagsAccepted (cache : Cache) : Prop :=
  ∀ rule scope predicate object tag, run.HasRow scope cache rule →
    scope.Asks rule predicate object → predicate ≠ Vocabulary.rdfType →
      scope.ownTag? object = some tag → LanguageTag.check tag = .ok ()

theorem records_of_refused (cache : Cache) (world : σ) {tag : String}
    (given : run.options.language = some tag) (refused : LanguageTag.check tag ≠ .ok ()) :
    (run.records cache world).1 = .error (.invalidLanguageTag tag) := by
  have unchecked : checkLanguage run.options = .error (.invalidLanguageTag tag) := by
    unfold checkLanguage
    rw [given]
    exact LanguageTag.check_eq_error refused
  rw [records_eq, run_recordsByRule, unchecked]
  rfl

section

variable {run} {cache : Cache} {world : σ} {records : List Record}
  (success : (run.records cache world).1 = .ok records)
include success

theorem check_of_records {rule : Rule} {predicate tag : String}
    (hasRow : run.HasRow scope cache rule) (asks : scope.Asks rule predicate object)
    (wants : scope.Wants object tag) : LanguageTag.check tag = .ok () := by
  obtain ⟨record, _, types, statements, maySay, _⟩ :=
    (run.rows_of_records success).2 rule scope hasRow
  obtain ⟨resolved, member, _⟩ := maySay.exists_resolved asks
  exact run.check_of_mem_resolve wants member

theorem tagsAccepted_of_own (own : run.OwnTagsAccepted cache) :
    ∀ record ∈ records, record.TagsAccepted := by
  have checked := (run.records_eq_ok_iff.mp success).1
  intro record member value datatype tag inRecord
  obtain ⟨rule, scope, hasRow, types, statements, maySay, renders⟩ :=
    (run.rows_of_records success).1 record member
  obtain ⟨predicate, other, stated⟩ := renders.literal_mem_iff.mp inRecord
  obtain ⟨object, asks, resolved, resolvedMember, inResolved⟩ := maySay.exists_object stated
  rw [← hasRow.options] at checked
  rcases run.tag_of_mem_resolve checked resolvedMember inResolved with accepted | ownTag
  · exact accepted
  · exact own rule scope predicate object tag hasRow asks other ownTag

theorem own_of_tagsAccepted (accepted : ∀ record ∈ records, record.TagsAccepted) :
    run.OwnTagsAccepted cache := by
  intro rule scope predicate object tag hasRow asks other own
  obtain ⟨record, member, types, statements, maySay, renders⟩ :=
    (run.rows_of_records success).2 rule scope hasRow
  obtain ⟨resolved, resolvedMember, stated⟩ := maySay.exists_resolved asks
  obtain ⟨value, datatype, inResolved⟩ := run.exists_literal_of_ownTag resolvedMember own
  exact accepted record member value datatype tag
    (renders.literal_mem_iff.mpr ⟨predicate, other, stated _ inResolved⟩)

end

/-- The tags of a successful run are accepted exactly if those are that constant literals
bring along. Every tag that is asked for is; one that is refused makes its object fail with
the refusal, and that of the options the whole run. -/
theorem tagsAccepted_iff (cache : Cache) (world : σ) :
    (∀ records, (run.records cache world).1 = .ok records →
      ((∀ record ∈ records, record.TagsAccepted) ↔ run.OwnTagsAccepted cache) ∧
        ∀ rule scope predicate object tag, run.HasRow scope cache rule →
          scope.Asks rule predicate object → scope.Wants object tag →
            LanguageTag.check tag = .ok ()) ∧
      (∀ tag, run.options.language = some tag → LanguageTag.check tag ≠ .ok () →
        (run.records cache world).1 = .error (.invalidLanguageTag tag)) ∧
      ∀ (outputOf : Nat → RunM σ RuleOutput) scope object tag, scope.Wants object tag →
        LanguageTag.check tag ≠ .ok () → ∀ state, ∃ e next,
          (resolve (run.host outputOf) scope object).run.run state = (.error e, next) ∧
            (e = .invalidLanguageTag tag ∨ ∃ call, object.kind = .function call ∧
              (invoke (run.host outputOf) scope call).run.run state = (.error e, next)) := by
  refine ⟨?_, fun _ given refused => run.records_of_refused cache world given refused,
    fun _ _ _ _ wants refused => run.run_resolve_of_refused wants refused⟩
  intro records success
  refine ⟨⟨own_of_tagsAccepted success, tagsAccepted_of_own success⟩, ?_⟩
  intro rule scope predicate object tag hasRow asks wants
  exact check_of_records success hasRow asks wants

/-- Persons with a name in the language that their row gives, and with a greeting whose own
language is none. -/
def greetings : Run Unit where
  mapping :=
    { rules :=
        [tableRule "persons" "persons"
          [⟨[.constant "name"],
              [{ ObjectMap.ofKind (.reference "name") with
                languageMap := some (.reference "in") }]⟩,
            ⟨[.constant "says"],
              [.ofKind (.constant (.literal "hello" none (some "in English")))]⟩]]
      distinct := by decide
      closed := by decide }
  registry := Registry.standard
  options := {}
  sources := [("persons", "id,name,in\nann,Ann,en\n")]

def tagOf : ObjectValue → Option String
  | .literal _ _ language => language
  | .reference _ => none

theorem greetings_success :
    ∃ records, (greetings.records [] ()).1 = .ok records ∧
      records.map (fun record => (record.properties.flatMap Prod.snd).map tagOf) =
        [[some "en", some "in English"]] := by
  have success : ∃ outputs, (greetings.evaluateAll.run.run (greetings.start [] ())).1 =
        .ok outputs ∧
      (Join.nestedLoop outputs).flatten.map
          (fun record => (record.properties.flatMap Prod.snd).map tagOf) =
        [[some "en", some "in English"]] := by
    apply Outcome.map_eq_ok.mp
    decide +kernel
  obtain ⟨outputs, evaluated, shown⟩ := success
  exact ⟨_, greetings.records_of_fixedJoins (by decide) [] () rfl evaluated, shown⟩

theorem tagsAccepted_greetings_iff :
    ∃ records, (greetings.records [] ()).1 = .ok records ∧
      ((∀ record ∈ records, record.TagsAccepted) ↔ greetings.OwnTagsAccepted []) ∧
        ∀ rule scope predicate object tag, greetings.HasRow scope [] rule →
          scope.Asks rule predicate object → scope.Wants object tag →
            LanguageTag.check tag = .ok () := by
  obtain ⟨records, success, _⟩ := greetings_success
  exact ⟨records, success, (greetings.tagsAccepted_iff [] ()).1 records success⟩

/-- The tag of the greeting is refused, and has become that of a value. -/
theorem not_tagsAccepted_greetings :
    ∃ records, (greetings.records [] ()).1 = .ok records ∧
      ∃ record ∈ records, ¬ record.TagsAccepted := by
  obtain ⟨records, success, shown⟩ := greetings_success
  have only : [some "en", some "in English"] ∈
      records.map fun record => (record.properties.flatMap Prod.snd).map tagOf := by
    rw [shown]
    exact List.mem_cons_self
  obtain ⟨record, member, tags⟩ := List.mem_map.mp only
  have second : some "in English" ∈ (record.properties.flatMap Prod.snd).map tagOf := by
    rw [tags]
    decide
  obtain ⟨value, inRecord, same⟩ := List.mem_map.mp second
  refine ⟨records, success, record, member, ?_⟩
  intro accepted
  cases value with
  | reference id => cases same
  | literal value datatype language =>
      cases same
      have valid := LanguageTag.check_eq_ok_iff.mp (accepted value datatype _ inRecord)
      revert valid
      decide +kernel

end Run

end RdfMapping
