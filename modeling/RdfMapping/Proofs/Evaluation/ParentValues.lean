import RdfMapping.Proofs.Evaluation.Slots
import RdfMapping.Proofs.Mapping.References
/-!
The selectors under which values of the parent are looked up. Wherever a parent reference
stands in a mapping, the rule that it refers to records its values under the selectors of
the reference, so that no join and no parameter looks for a value that was left out.
-/

namespace RdfMapping

namespace Run

variable {σ : Type} (run : Run σ)

/-! ### Records -/

theorem parentValues_of_mem_evaluateRow {scope : RowScope} {rule : Rule} {paths : List String}
    {output : RuleOutput}
    (member : output ∈ (evaluateRow run.looseHost scope rule paths).run)
    {evaluated : EvaluatedRecord} (inOutput : evaluated ∈ output) :
    evaluated.parentValues.map Prod.fst = paths := by
  unfold evaluateRow at member
  obtain ⟨types, _, afterTypes⟩ := SetM.mem_bind.mp member
  obtain ⟨ids, _, afterIds⟩ := SetM.mem_bind.mp afterTypes
  cases ids with
  | nil =>
      rw [SetM.mem_pure.mp afterIds] at inOutput
      cases inOutput
  | cons first rest =>
      obtain ⟨draft, _, afterDraft⟩ := SetM.mem_bind.mp afterIds
      obtain ⟨parentValues, read, same⟩ := SetM.mem_bind.mp afterDraft
      rw [SetM.mem_pure.mp same] at inOutput
      obtain ⟨other, _, rfl⟩ := List.mem_map.mp inOutput
      have keyed : parentValues.map Prod.fst = paths.map id := by
        apply Outcome.map_of_mapM_eq_ok _ ((run.mem_lift).mp read)
        intro path entry success
        obtain ⟨values, _, rfl⟩ := Outcome.map_eq_ok.mp success
        rfl
      rw [List.map_id] at keyed
      exact keyed

theorem parentValues_of_mem_evaluateRule {options : Options} {rows : Rows} {rule : Rule}
    {paths : List String} {output : RuleOutput}
    (member : output ∈ (evaluateRule run.looseHost options rows rule paths).run)
    {evaluated : EvaluatedRecord} (inOutput : evaluated ∈ output) :
    evaluated.parentValues.map Prod.fst = paths := by
  obtain ⟨parts, partsMember, flattened⟩ := SetM.mem_bind.mp member
  rw [SetM.mem_pure.mp flattened] at inOutput
  obtain ⟨part, partMember, inPart⟩ := List.mem_flatten.mp inOutput
  obtain ⟨row, partAt⟩ := List.getElem?_of_mem partMember
  have possible := (SetM.mem_mapM_range partsMember).2 row part partAt
  exact run.parentValues_of_mem_evaluateRow possible inPart

theorem asks_of_mem_slots {scope : RowScope} {rule : Rule} (ruleMember : rule ∈ run.mapping.rules)
    {shape : JoinShape} (member : shape ∈ scope.slots run.mapping rule) {path : String}
    (inPaths : path ∈ shape.paths) : run.mapping.Asks shape.parent path := by
  obtain ⟨pom, pomMember, ofPom⟩ := List.mem_flatMap.mp member
  obtain ⟨reference, referenceMember, ofReference⟩ := List.mem_flatMap.mp ofPom
  have mentions : rule.Mentions reference := by
    rw [← Rule.mem_parentReferences_iff]
    apply List.mem_append_left
    exact List.mem_flatMap.mpr ⟨pom, pomMember, referenceMember⟩
  unfold Mapping.slotsOf at ofReference
  cases found : run.mapping.indexOf? reference.parent with
  | none =>
      rw [found] at ofReference
      cases ofReference
  | some parent =>
      rw [found] at ofReference
      obtain ⟨predicate, _, rfl⟩ := List.mem_map.mp ofReference
      exact ⟨rule, ruleMember, reference, mentions, found, inPaths⟩

/-! ### Look-ups -/

/-- What the records of a rule keep for its joins: the values of all selectors that any
parent reference has for the rule, and joins with rules that keep theirs. -/
structure KeepsValues (index : Nat) (evaluated : EvaluatedRecord) : Prop where
  keys : evaluated.parentValues.map Prod.fst = run.mapping.parentPaths index
  asked : ∀ path, run.mapping.Asks index path →
    (evaluated.parentValues.lookup path).isSome = true
  joins : ∀ pending ∈ evaluated.pending, ∀ condition ∈ pending.conditions,
    run.mapping.Asks pending.parent condition.parentPath

theorem keepsValues_of_possible {cache : Cache} {index : Nat} {output : RuleOutput}
    (possible : output ∈ (run.possibleOutputs cache index).run) {evaluated : EvaluatedRecord}
    (inOutput : evaluated ∈ output) : run.KeepsValues index evaluated := by
  obtain ⟨rule, rows, ruleAt, _, member⟩ := possible
  have keys := run.parentValues_of_mem_evaluateRule member inOutput
  refine ⟨keys, ?_, ?_⟩
  · intro path asks
    rw [← Mapping.mem_parentPaths_iff, ← keys, List.mem_map] at asks
    obtain ⟨entry, entryMember, rfl⟩ := asks
    rw [Option.isSome_iff_ne_none]
    intro missing
    have different := List.lookup_eq_none_iff.mp missing entry entryMember
    simp at different
  · intro pending pendingMember condition conditionMember
    obtain ⟨row, _, _, sameShape⟩ := (run.mem_evaluateRule member).1 evaluated inOutput
    have slot : pending.shape ∈ evaluated.shape := List.mem_map_of_mem pendingMember
    rw [sameShape] at slot
    exact run.asks_of_mem_slots (List.mem_of_getElem? ruleAt) slot
      (List.mem_map_of_mem conditionMember)

/-- A mapping knows for each rule exactly the selectors of the references to it, and every
record that a run evaluates has its values under them. -/
theorem parentPaths_recorded {rules : List Rule}
    (accepted : Mapping.ofRules rules = .ok run.mapping) :
    run.mapping.rules = rules ∧
      (∀ rule ∈ rules, ∀ reference, rule.Mentions reference →
        ∃ parent, run.mapping.requireIndex reference.parent = .ok parent) ∧
      ∀ index, (run.mapping.parentPaths index).Nodup ∧
        (∀ path, path ∈ run.mapping.parentPaths index ↔ run.mapping.Asks index path) ∧
        ∀ cache world requests output,
          ((run.evaluate index).run.run (run.after requests (run.start cache world))).1 =
              .ok output →
            ∀ evaluated ∈ output, run.KeepsValues index evaluated := by
  have same := Mapping.ofRules_eq_ok_iff.mp accepted
  refine ⟨same, ?_, ?_⟩
  · intro rule member reference mentions
    rw [← same] at member
    obtain ⟨parent, found⟩ := Mapping.exists_indexOf?_of_mentions member mentions
    exact ⟨parent, Mapping.requireIndex_eq_ok_iff.mpr found⟩
  · intro index
    refine ⟨run.mapping.nodup_parentPaths index, fun _ => Mapping.mem_parentPaths_iff, ?_⟩
    intro cache world requests output success evaluated inOutput
    have sound := run.after_sound cache requests world
    exact run.keepsValues_of_possible
      ((run.evaluate_possible cache index _ sound).2 output success) inOutput

def joining (name : String) (parameter : ObjectKind) : FunctionCall :=
  ⟨name,
    [⟨[.constant Vocabulary.executes],
        [.ofKind (.constant (.iri (Vocabulary.grel "array_join")))]⟩,
      ⟨[.constant (Vocabulary.grel "p_array_a")], [.ofKind parameter]⟩]⟩

/-- Children that refer to their parents in a join, and in a call within a call. -/
def familyRun : Run Unit where
  mapping :=
    { rules :=
        [tableRule "children" "rows"
          [⟨[.constant "of"], [.ofKind (.parent ⟨"parents", [⟨"key", "name"⟩]⟩)]⟩,
            ⟨[.constant "with"],
              [.ofKind (.function (joining "outer"
                (.function (joining "inner" (.parent ⟨"parents", [⟨"key", "id"⟩]⟩)))))]⟩],
          tableRule "parents" "rows" []]
      distinct := by decide
      closed := by decide }
  registry := Registry.standard
  options := {}
  sources := [("rows", "id,name,key\n1,a,b\n2,b,a\n")]

theorem parentPaths_familyRun_recorded :
    Mapping.ofRules familyRun.mapping.rules = .ok familyRun.mapping ∧
      familyRun.mapping.parentPaths 1 = ["name", "id"] ∧
      ∃ output, ((familyRun.evaluate 1).run.run
          (familyRun.after [.name "children"] (familyRun.start [] ()))).1 = .ok output ∧
        output.length = 2 ∧ ∀ evaluated ∈ output, familyRun.KeepsValues 1 evaluated := by
  have accepted : Mapping.ofRules familyRun.mapping.rules = .ok familyRun.mapping :=
    Mapping.ofRules_eq_ok_iff.mpr rfl
  have success : ∃ output, ((familyRun.evaluate 1).run.run
      (familyRun.after [.name "children"] (familyRun.start [] ()))).1 = .ok output ∧
        output.length = 2 := by
    apply Outcome.map_eq_ok.mp
    decide +kernel
  obtain ⟨output, given, length⟩ := success
  exact ⟨accepted, by decide +kernel, output, given, length,
    ((familyRun.parentPaths_recorded accepted).2.2 1).2.2 [] () _ output given⟩

end Run

end RdfMapping
