import RdfMapping.Proofs.Evaluation.Slots
import RdfMapping.Proofs.Join.NestedLoop
/-!
The joins of a whole run. Every pending join is with a rule of the mapping, so that the
positions which are looked up can be judged by the outputs of the rules alone.
-/

namespace RdfMapping

theorem Mapping.lt_of_mem_slotsOf {mapping : Mapping} {predicates : List String}
    {reference : ParentReference} {shape : JoinShape}
    (member : shape ∈ mapping.slotsOf predicates reference) :
    shape.parent < mapping.rules.length := by
  unfold slotsOf at member
  cases found : mapping.indexOf? reference.parent with
  | none =>
      rw [found] at member
      cases member
  | some parent =>
      rw [found] at member
      obtain ⟨predicate, _, rfl⟩ := List.mem_map.mp member
      exact (List.findIdx?_eq_some_iff_getElem.mp found).1

namespace Run

variable {σ : Type} (run : Run σ)

theorem lt_of_mem_slots {scope : RowScope} {rule : Rule} {shape : JoinShape}
    (member : shape ∈ scope.slots run.mapping rule) : shape.parent < run.mapping.rules.length := by
  obtain ⟨pom, _, ofPom⟩ := List.mem_flatMap.mp member
  obtain ⟨reference, _, ofReference⟩ := List.mem_flatMap.mp ofPom
  exact Mapping.lt_of_mem_slotsOf ofReference

theorem evaluateAll_possible (cache : Cache) (world : σ) {outputs : List RuleOutput}
    (success : (run.evaluateAll.run.run (run.start cache world)).1 = .ok outputs) :
    outputs.length = run.mapping.rules.length ∧
      ∀ (index : Nat) (output : RuleOutput), outputs[index]? = some output →
        output ∈ (run.possibleOutputs cache index).run := by
  have related := (run.possible cache).mapM (run.evaluate_possible cache)
    (List.range run.mapping.rules.length)
  exact SetM.mem_mapM_range
    ((related _ (run.start_sound cache world)).2 outputs success)

theorem joinsInside_evaluateAll (cache : Cache) (world : σ) {outputs : List RuleOutput}
    (success : (run.evaluateAll.run.run (run.start cache world)).1 = .ok outputs) :
    Join.JoinsInside outputs := by
  obtain ⟨length, possible⟩ := run.evaluateAll_possible cache world success
  intro output member evaluated evaluatedMember pending pendingMember
  obtain ⟨index, outputAt⟩ := List.getElem?_of_mem member
  obtain ⟨rule, rows, _, _, ofRule⟩ := possible index output outputAt
  obtain ⟨row, _, _, sameShape⟩ := (run.mem_evaluateRule ofRule).1 evaluated evaluatedMember
  have slotMember : pending.shape ∈ evaluated.shape := List.mem_map_of_mem pendingMember
  rw [sameShape] at slotMember
  rw [length]
  exact run.lt_of_mem_slots slotMember

theorem uniformShape_evaluateAll (fixed : ∀ rule ∈ run.mapping.rules, rule.FixedJoins)
    (cache : Cache) (world : σ) {outputs : List RuleOutput}
    (success : (run.evaluateAll.run.run (run.start cache world)).1 = .ok outputs) :
    ∀ output ∈ outputs, UniformShape output := by
  intro output member
  obtain ⟨index, outputAt⟩ := List.getElem?_of_mem member
  have possible := (run.evaluateAll_possible cache world success).2 index output outputAt
  obtain ⟨rule, rows, ruleAt, _, uniform⟩ := run.uniformShape_of_possible possible
  exact uniform.mpr
    (run.steadyRows_of_fixedJoins (fixed rule (List.mem_of_getElem? ruleAt)) rows)

theorem records_of_fixedJoins (fixed : ∀ rule ∈ run.mapping.rules, rule.FixedJoins)
    (cache : Cache) (world : σ) (checked : checkLanguage run.options = .ok ())
    {outputs : List RuleOutput}
    (success : (run.evaluateAll.run.run (run.start cache world)).1 = .ok outputs) :
    (run.records cache world).1 = .ok (Join.nestedLoop outputs).flatten := by
  refine run.records_eq_ok_iff.mpr ⟨checked, outputs, success, ?_⟩
  rw [Join.resolve_of_uniform (run.joinsInside_evaluateAll cache world success)
    (run.uniformShape_evaluateAll fixed cache world success)]

theorem safeLookups_of_fixedJoins (fixed : ∀ rule ∈ run.mapping.rules, rule.FixedJoins)
    (cache : Cache) (world : σ) {outputs : List RuleOutput}
    (success : (run.evaluateAll.run.run (run.start cache world)).1 = .ok outputs) :
    Join.SafeLookups outputs :=
  Join.safeLookups_of_uniform (run.joinsInside_evaluateAll cache world success)
    (run.uniformShape_evaluateAll fixed cache world success)

/-- The joins of a run look up their own parent rules exactly if no stray join does harm. -/
theorem safeLookups_evaluateAll_iff (cache : Cache) (world : σ) {outputs : List RuleOutput}
    (success : (run.evaluateAll.run.run (run.start cache world)).1 = .ok outputs) :
    Join.SafeLookups outputs ↔ Join.HarmlessStrays outputs :=
  Join.safeLookups_iff (run.joinsInside_evaluateAll cache world success)

/-- Children joined with records of two rules. The second child has no value for the
predicate of the join in between. -/
def children : Run Unit where
  mapping :=
    { rules :=
        [tableRule "child" "children"
          [⟨[.constant "first"], [.ofKind (.parent ⟨"right", [⟨"k", "key"⟩]⟩)]⟩,
            ⟨[.reference "via"], [.ofKind (.parent ⟨"left", [⟨"k", "key"⟩]⟩)]⟩,
            ⟨[.constant "last"], [.ofKind (.parent ⟨"right", [⟨"k", "key"⟩]⟩)]⟩],
          tableRule "left" "left" [], tableRule "right" "right" []]
      distinct := by decide
      closed := by decide }
  registry := Registry.standard
  options := {}
  sources :=
    [("children", "id,k,via\nc1,1,via\nc2,2\n"), ("left", "key,id\n1,l1\n2,l2\n"),
      ("right", "key,id\n2,r2\n1,r1\n")]

theorem children_success :
    ∃ outputs, (children.evaluateAll.run.run (children.start [] ())).1 = .ok outputs ∧
      decide (∃ output ∈ outputs[0]?, ∃ evaluated ∈ output[1]?,
        ∃ shape ∈ (Join.shapes output)[1]?, ∃ own ∈ evaluated.pending[1]?,
          Join.Stray outputs 0 1 shape own 0) = true := by
  apply Outcome.map_eq_ok.mp
  decide +kernel

theorem safeLookups_children_iff :
    ∃ outputs, (children.evaluateAll.run.run (children.start [] ())).1 = .ok outputs ∧
      (Join.SafeLookups outputs ↔ Join.HarmlessStrays outputs) := by
  obtain ⟨outputs, success, _⟩ := children_success
  exact ⟨outputs, success, children.safeLookups_evaluateAll_iff [] () success⟩

/-- The second child is joined with a record on the left that has another key. -/
theorem not_safeLookups_children :
    ∃ outputs, (children.evaluateAll.run.run (children.start [] ())).1 = .ok outputs ∧
      ¬ Join.SafeLookups outputs := by
  obtain ⟨outputs, success, found⟩ := children_success
  obtain ⟨output, outputAt, evaluated, evaluatedAt, shape, shapeAt, own, ownAt, stray⟩ :=
    of_decide_eq_true found
  have inside := children.joinsInside_evaluateAll [] () success
  exact ⟨outputs, success, stray.not_safeLookups inside
    ⟨output, outputAt, List.mem_of_getElem? evaluatedAt, shapeAt⟩ ownAt⟩

end Run

end RdfMapping
