import RdfMapping.Evaluation.Rule
import RdfMapping.Proofs.Evaluation.Failure
import RdfMapping.Proofs.Mapping.References
/-!
The evaluation of a rule depends on its host through the four members of the host
alone. A relation between the computations of two monads that `pure` and `bind`
respect therefore holds between the evaluations of one rule over two hosts as soon as
it holds between their members (`evaluateRule_related`).

The members need not agree everywhere. Of other rules only the records are looked at
that a parameter of the rule asks for, and of all outcomes only those are passed on
that a row can have (`evaluateRule_linked`).
-/

namespace RdfMapping

/-- Both sides of a relation yield values of one type, and related computations go on
alike with every value. -/
structure Simulation (m n : Type → Type) [Monad m] [Monad n] where
  Rel : {α : Type} → m α → n α → Prop
  pure : ∀ {α : Type} (a : α), Rel (pure a) (pure a)
  bind : ∀ {α β : Type} {x : m α} {y : n α} {f : α → m β} {g : α → n β},
    Rel x y → (∀ a, Rel (f a) (g a)) → Rel (x >>= f) (y >>= g)

variable {m n : Type → Type} [Monad m] [Monad n]

namespace Simulation

variable (sim : Simulation m n) {α β : Type}

theorem foldlM {f : β → α → m β} {g : β → α → n β} {items : List α}
    (step : ∀ a ∈ items, ∀ b, sim.Rel (f b a) (g b a)) (b : β) :
    sim.Rel (items.foldlM f b) (items.foldlM g b) := by
  induction items generalizing b with
  | nil => exact sim.pure b
  | cons a rest ih =>
      rw [List.foldlM_cons, List.foldlM_cons]
      exact sim.bind (step a List.mem_cons_self b)
        (ih fun other member => step other (List.mem_cons_of_mem _ member))

private theorem mapM_loop {f : α → m β} {g : α → n β}
    (step : ∀ a, sim.Rel (f a) (g a)) (items : List α) (done : List β) :
    sim.Rel (List.mapM.loop f items done) (List.mapM.loop g items done) := by
  induction items generalizing done with
  | nil => exact sim.pure done.reverse
  | cons a rest ih => exact sim.bind (step a) fun b => ih (b :: done)

theorem mapM {f : α → m β} {g : α → n β}
    (step : ∀ a, sim.Rel (f a) (g a)) (items : List α) :
    sim.Rel (items.mapM f) (items.mapM g) :=
  sim.mapM_loop step items []

end Simulation

/-- Two hosts that are alike in what a call asks of them: in the outcomes of a row, in the
functions, and in the records for the references that are asked for. -/
structure Host.Linked (sim : Simulation m n) (admitted : MappingError → Prop)
    (asked : ParentReference → Prop) (left : Host m) (right : Host n) : Prop where
  admits : ∀ e, e.IsLocal → admitted e
  lift : ∀ {α : Type} (outcome : Outcome α), outcome.FailsWithin admitted →
    sim.Rel (left.lift outcome) (right.lift outcome)
  function : ∀ iri, Option.Rel
    (fun f g => ∀ arguments, sim.Rel (f arguments) (g arguments))
    (left.function? iri) (right.function? iri)
  records : ∀ scope reference, asked reference →
    sim.Rel (parentRecords left scope reference) (parentRecords right scope reference)

/-- Two hosts that are alike in what a rule asks of them. -/
structure Host.LinkedFor (sim : Simulation m n) (admitted : MappingError → Prop) (rule : Rule)
    (left : Host m) (right : Host n) : Prop extends left.Linked sim admitted rule.Needs right where
  position : left.position = right.position
  joins : ∀ reference ∈ rule.joinReferences,
    (left.position reference.parent).FailsWithin admitted
  subject : rule.subject.resolvedTermType = .literal →
    ∀ detail, admitted (.invalidTermType detail)

section

variable {sim : Simulation m n} {admitted : MappingError → Prop}
  {asked : ParentReference → Prop} {left : Host m} {right : Host n}

theorem Host.Linked.lift_local (linked : left.Linked sim admitted asked right) {α : Type}
    {outcome : Outcome α} (fails : outcome.FailsWithin MappingError.IsLocal) :
    sim.Rel (left.lift outcome) (right.lift outcome) :=
  linked.lift outcome (fails.mono linked.admits)

/-! ### Calls of functions -/

mutual

theorem invoke_linked (linked : left.Linked sim admitted asked right) (scope : RowScope) :
    ∀ call : FunctionCall,
      (∀ reference, call.Contains PredicateObjectMap.IsParameter reference → asked reference) →
      sim.Rel (invoke left scope call) (invoke right scope call)
  | ⟨id, members⟩, needed => by
      rw [invoke, invoke]
      apply sim.bind (linked.lift_local (FunctionCall.executed_local id members))
      intro iri
      have functions := linked.function iri
      cases leftAt : left.function? iri with
      | none =>
          cases rightAt : right.function? iri with
          | none => exact linked.lift_local (Outcome.failsWithin_error trivial)
          | some g => rw [leftAt, rightAt] at functions; cases functions
      | some f =>
          cases rightAt : right.function? iri with
          | none => rw [leftAt, rightAt] at functions; cases functions
          | some g =>
              rw [leftAt, rightAt] at functions
              cases functions with
              | some same =>
                  refine sim.bind (collectMembers_linked linked scope members ?_ .empty) same
                  intro member memberOf parameter object objectOf reference within
                  exact needed reference (.member memberOf parameter objectOf within)

theorem collectMembers_linked (linked : left.Linked sim admitted asked right)
    (scope : RowScope) :
    ∀ members : List PredicateObjectMap,
      (∀ member ∈ members, member.IsParameter → ∀ object ∈ member.objects, ∀ reference,
        object.kind.Contains PredicateObjectMap.IsParameter reference → asked reference) →
      ∀ arguments : Arguments,
        sim.Rel (collectMembers left scope members arguments)
          (collectMembers right scope members arguments)
  | [], _, arguments => by
      rw [collectMembers, collectMembers]
      exact sim.pure arguments
  | ⟨predicates, objects⟩ :: rest, needed, arguments => by
      have neededLater := fun member memberOf =>
        needed member (List.mem_cons_of_mem _ memberOf)
      rw [collectMembers, collectMembers]
      by_cases executes : FunctionCall.isExecutes ⟨predicates, objects⟩ = true
      · rw [if_pos executes, if_pos executes]
        exact collectMembers_linked linked scope rest neededLater arguments
      · rw [if_neg executes, if_neg executes]
        have parameter : PredicateObjectMap.IsParameter ⟨predicates, objects⟩ :=
          Bool.eq_false_iff.mpr executes
        apply sim.bind (linked.lift_local (scope.predicates_local predicates))
        intro keys
        apply sim.bind (collectObjects_linked linked scope keys objects
          (needed _ List.mem_cons_self parameter) arguments)
        intro extended
        exact collectMembers_linked linked scope rest neededLater extended

theorem collectObjects_linked (linked : left.Linked sim admitted asked right)
    (scope : RowScope) (keys : List String) :
    ∀ objects : List ObjectMap,
      (∀ object ∈ objects, ∀ reference,
        object.kind.Contains PredicateObjectMap.IsParameter reference → asked reference) →
      ∀ arguments : Arguments,
        sim.Rel (collectObjects left scope keys objects arguments)
          (collectObjects right scope keys objects arguments)
  | [], _, arguments => by
      rw [collectObjects, collectObjects]
      exact sim.pure arguments
  | ⟨kind, _, datatype, _, _⟩ :: rest, needed, arguments => by
      rw [collectObjects, collectObjects]
      apply sim.bind (parameterValues_linked linked scope datatype kind
        (needed _ List.mem_cons_self))
      intro values
      exact collectObjects_linked linked scope keys rest
        (fun object objectOf => needed object (List.mem_cons_of_mem _ objectOf))
        (arguments.pushAll keys values)

theorem parameterValues_linked (linked : left.Linked sim admitted asked right)
    (scope : RowScope) (datatype : Option String) :
    ∀ kind : ObjectKind,
      (∀ reference, kind.Contains PredicateObjectMap.IsParameter reference → asked reference) →
      sim.Rel (parameterValues left scope datatype kind)
        (parameterValues right scope datatype kind)
  | .constant value, _ => by
      rw [parameterValues, parameterValues]
      exact sim.pure _
  | .reference selector, _ => by
      rw [parameterValues, parameterValues]
      exact linked.lift_local (scope.values_local selector datatype)
  | .template template, _ => by
      rw [parameterValues, parameterValues]
      exact linked.lift_local ((scope.expand_local true template).map _)
  | .function call, needed => by
      rw [parameterValues, parameterValues]
      apply sim.bind (invoke_linked linked scope call fun reference within =>
        needed reference (.function within))
      intro result
      exact sim.pure _
  | .parent reference, needed => by
      rw [parameterValues, parameterValues]
      apply sim.bind (linked.records scope reference (needed reference (.parent reference)))
      intro records
      exact sim.pure _

end

end

/-! ### Rows -/

section

variable {sim : Simulation m n} {admitted : MappingError → Prop} {asked : ParentReference → Prop}
  {left : Host m} {right : Host n} (scope : RowScope) {rule : Rule}

theorem invoke_linkedFor (linked : left.Linked sim admitted rule.Needs right)
    {call : FunctionCall} (ofRule : rule.Calls call) :
    sim.Rel (invoke left scope call) (invoke right scope call) :=
  invoke_linked linked scope call fun _ within => ⟨call, ofRule, within⟩

theorem classes_linked (linked : left.Linked sim admitted rule.Needs right) :
    sim.Rel (classes left scope rule.subject) (classes right scope rule.subject) := by
  unfold classes
  cases given : rule.subject.classFunction with
  | none => exact sim.pure _
  | some call =>
      apply sim.bind (invoke_linkedFor scope linked (.classes given))
      intro result
      exact sim.pure _

theorem subjects_linked (linked : left.Linked sim admitted rule.Needs right)
    (subject : rule.subject.resolvedTermType = .literal →
      ∀ detail, admitted (.invalidTermType detail)) :
    sim.Rel (subjects left scope rule) (subjects right scope rule) := by
  unfold subjects
  by_cases literal : rule.subject.resolvedTermType = .literal
  · simp only [literal, if_true]
    exact linked.lift _ (Outcome.failsWithin_error (subject literal _))
  · simp only [literal, if_false]
    cases given : rule.subject.kind with
    | reference selector =>
        exact sim.bind (linked.lift_local (scope.strings_local selector)) fun _ => sim.pure _
    | template template =>
        exact sim.bind (linked.lift_local (scope.expand_local false template)) fun _ =>
          sim.pure _
    | function call =>
        apply sim.bind (invoke_linkedFor scope linked (.subject given))
        intro result
        cases valueTexts (unwrapSingle result) with
        | nil => exact sim.pure _
        | cons text rest => exact sim.pure _
    | constant iri => exact sim.pure _
    | blank => exact sim.pure _

theorem resolve_linked (linked : left.LinkedFor sim admitted rule right)
    {pom : PredicateObjectMap} (pomOf : pom ∈ rule.predicateObjectMaps) {object : ObjectMap}
    (objectOf : object ∈ pom.objects) :
    sim.Rel (resolve left scope object) (resolve right scope object) := by
  unfold resolve
  cases given : object.kind with
  | constant value =>
      cases value with
      | iri iri => exact sim.pure _
      | literal text datatype language =>
          exact sim.bind (linked.lift_local (scope.language_local object)) fun _ => sim.pure _
  | reference selector =>
      apply linked.lift_local
      apply (scope.language_local object).bind
      intro language
      exact (scope.values_local selector object.datatype).bind fun _ => Outcome.failsWithin_ok _
  | template template =>
      apply linked.lift_local
      apply (scope.language_local object).bind
      intro language
      exact (scope.expand_local _ template).bind fun _ => Outcome.failsWithin_ok _
  | function call =>
      apply sim.bind (invoke_linkedFor scope linked.toLinked (.object pomOf objectOf given))
      intro result
      exact sim.bind (linked.lift_local (scope.language_local object)) fun _ => sim.pure _
  | parent reference =>
      have ofRule : reference ∈ rule.joinReferences :=
        Rule.mem_joinReferences_iff.mpr ⟨pom, pomOf, object, objectOf, given⟩
      dsimp only
      rw [← linked.position]
      apply linked.lift
      apply (linked.joins reference ofRule).bind
      intro parent
      exact ((scope.pendingConditions_local reference.conditions).mono linked.admits).bind
        fun _ => Outcome.failsWithin_ok _

theorem extend_linked (linked : left.LinkedFor sim admitted rule right)
    {pom : PredicateObjectMap} (pomOf : pom ∈ rule.predicateObjectMaps) (draft : Draft) :
    sim.Rel (extend left scope draft pom) (extend right scope draft pom) := by
  unfold extend
  apply sim.bind (linked.lift_local (scope.predicates_local pom.predicates))
  intro predicates
  cases predicates.isEmpty with
  | true => exact sim.pure draft
  | false =>
      apply sim.foldlM
      intro object objectOf draft
      exact sim.bind (resolve_linked scope linked pomOf objectOf) fun _ => sim.pure _

theorem evaluateRow_linked (linked : left.LinkedFor sim admitted rule right)
    (paths : List String) :
    sim.Rel (evaluateRow left scope rule paths) (evaluateRow right scope rule paths) := by
  unfold evaluateRow
  apply sim.bind (classes_linked scope linked.toLinked)
  intro types
  apply sim.bind (subjects_linked scope linked.toLinked linked.subject)
  intro ids
  cases ids.isEmpty with
  | true => exact sim.pure []
  | false =>
      apply sim.bind
      · apply sim.foldlM
        intro pom pomOf draft
        exact extend_linked scope linked pomOf draft
      · intro draft
        have recorded : Outcome.FailsWithin MappingError.IsLocal (paths.mapM fun path =>
            (scope.values path none).map fun values => (path, values)) := by
          apply Outcome.failsWithin_mapM
          intro path
          exact (scope.values_local path none).map _
        exact sim.bind (linked.lift_local recorded) fun _ => sim.pure _

end

theorem evaluateRule_linked {sim : Simulation m n} {admitted : MappingError → Prop}
    {left : Host m} {right : Host n} {rule : Rule}
    (linked : left.LinkedFor sim admitted rule right) (options : Options) (rows : Rows)
    (paths : List String) :
    sim.Rel (evaluateRule left options rows rule paths)
      (evaluateRule right options rows rule paths) := by
  unfold evaluateRule
  apply sim.bind
  · apply sim.mapM
    intro row
    exact evaluateRow_linked ⟨rows, row, options⟩ linked paths
  · intro outputs
    exact sim.pure _

/-! ### Hosts that agree everywhere -/

structure Host.Related (sim : Simulation m n) (left : Host m) (right : Host n) : Prop where
  lift : ∀ {α : Type} (outcome : Outcome α), sim.Rel (left.lift outcome) (right.lift outcome)
  function : ∀ iri, Option.Rel
    (fun f g => ∀ arguments, sim.Rel (f arguments) (g arguments))
    (left.function? iri) (right.function? iri)
  position : left.position = right.position
  output : ∀ index, sim.Rel (left.output index) (right.output index)

theorem Host.Related.linkedFor {sim : Simulation m n} {left : Host m} {right : Host n}
    (related : left.Related sim right) (rule : Rule) :
    left.LinkedFor sim (fun _ => True) rule right where
  admits := fun _ _ => trivial
  lift := fun outcome _ => related.lift outcome
  function := related.function
  records := by
    intro scope reference _
    unfold parentRecords
    rw [related.position]
    apply sim.bind (related.lift _)
    intro parent
    apply sim.bind (related.output parent)
    intro output
    apply sim.bind (related.lift _)
    intro conditions
    exact sim.pure _
  position := related.position
  joins := fun _ _ _ _ => trivial
  subject := fun _ _ => trivial

theorem evaluateRule_related {sim : Simulation m n} {left : Host m} {right : Host n}
    (related : left.Related sim right) (options : Options) (rows : Rows)
    (rule : Rule) (paths : List String) :
    sim.Rel (evaluateRule left options rows rule paths)
      (evaluateRule right options rows rule paths) :=
  evaluateRule_linked (related.linkedFor rule) options rows paths

end RdfMapping
