import RdfMapping.Proofs.Join.Resolve
import RdfMapping.Proofs.Join.Shape
/-!
The positions at which the resolution of joins looks records up. The rule whose records
are looked at is that of the first record's join, the positions come from the record's
own one. As long as both name the same parent rule, every position is inside and leads
to a record of this rule; `safeLookups_iff` tells what is left to chance otherwise.
-/

namespace RdfMapping

namespace Join

variable {outputs : List RuleOutput}

/-- All pending joins are with rules that have an output. -/
def JoinsInside (outputs : List RuleOutput) : Prop :=
  ∀ output ∈ outputs, ∀ evaluated ∈ output, ∀ pending ∈ evaluated.pending,
    pending.parent < outputs.length

instance (outputs : List RuleOutput) : Decidable (JoinsInside outputs) :=
  inferInstanceAs (Decidable (∀ output ∈ outputs, ∀ evaluated ∈ output,
    ∀ pending ∈ evaluated.pending, pending.parent < outputs.length))

/-- A record of a rule, and a slot of this rule as its first record has it. -/
def Meets (outputs : List RuleOutput) (rule slot : Nat) (evaluated : EvaluatedRecord)
    (shape : PendingJoin) : Prop :=
  ∃ output, outputs[rule]? = some output ∧ evaluated ∈ output ∧
    (shapes output)[slot]? = some shape

def identifiers (outputs : List RuleOutput) (rule : Nat) : List String :=
  (outputs[rule]?.getD []).map fun evaluated => evaluated.record.id

/-- All conditions of a join can be looked up when a slot of a rule is resolved. -/
def Sought (outputs : List RuleOutput) (rule slot : Nat) (own : PendingJoin) : Prop :=
  own.conditions ≠ [] ∧
    ∀ condition ∈ own.conditions,
      AskedFor (joinsUpTo outputs rule slot) own.parent condition.parentPath

/-- Every position that is looked up is that of a record, and this record has an
identifier of the rule with which the join was wanted. -/
def SafeLookups (outputs : List RuleOutput) : Prop :=
  ∀ rule slot evaluated shape, Meets outputs rule slot evaluated shape →
    ∃ target, outputs[shape.parent]? = some target ∧
      ∀ position ∈ places (slotIndexes outputs rule slot) target shape slot evaluated,
        ∃ found, target[position]? = some found ∧
          ∀ own, evaluated.pending[slot]? = some own →
            found.record.id ∈ identifiers outputs own.parent

/-- Where a record's join is with another rule than the first record's, the positions
found in the one rule happen to be good for the other one. -/
def HarmlessStrays (outputs : List RuleOutput) : Prop :=
  ∀ rule slot evaluated shape own, Meets outputs rule slot evaluated shape →
    evaluated.pending[slot]? = some own → own.parent ≠ shape.parent →
      (shape.conditions = [] →
        ∀ id ∈ identifiers outputs shape.parent, id ∈ identifiers outputs own.parent) ∧
      (shape.conditions ≠ [] → Sought outputs rule slot own →
        ∀ (position : Nat) (candidate : EvaluatedRecord),
          (outputs[own.parent]?.getD [])[position]? = some candidate →
          own.admits candidate = true →
          ∃ id, (identifiers outputs shape.parent)[position]? = some id ∧
            id ∈ identifiers outputs own.parent)

/-! ### Positions of one record -/

theorem mem_places_unconditional {indexes : Indexes} {target : RuleOutput} {shape : PendingJoin}
    (unconditional : shape.conditions = []) {slot : Nat} {evaluated : EvaluatedRecord}
    {position : Nat} :
    position ∈ places indexes target shape slot evaluated ↔ position < target.length := by
  unfold places
  rw [unconditional]
  exact List.mem_range

theorem mem_places_conditional {target ownTarget : RuleOutput} {shape own : PendingJoin}
    (conditional : shape.conditions ≠ []) {rule slot : Nat} {evaluated : EvaluatedRecord}
    (ownAt : evaluated.pending[slot]? = some own)
    (ownTargetAt : outputs[own.parent]? = some ownTarget) {position : Nat} :
    position ∈ places (slotIndexes outputs rule slot) target shape slot evaluated ↔
      Sought outputs rule slot own ∧
        ∃ candidate, ownTarget[position]? = some candidate ∧ own.admits candidate = true := by
  have someCondition : shape.conditions.isEmpty = false := by simpa using conditional
  unfold places
  simp only [someCondition, Bool.false_eq_true, if_false, ownAt]
  unfold slotIndexes
  by_cases ownConditions : own.conditions = []
  · simp [positions, Sought, ownConditions]
  · have inArray : outputs.toArray[own.parent]? = some ownTarget := by simpa using ownTargetAt
    rw [positions_indexesFor inArray ownConditions]
    by_cases asked : ∀ condition ∈ own.conditions,
        AskedFor (joinsUpTo outputs rule slot) own.parent condition.parentPath
    · rw [if_pos asked, mem_positionsWhere]
      exact (and_iff_right ⟨ownConditions, asked⟩).symm
    · rw [if_neg asked]
      simp [Sought, asked]

/-! ### All positions -/

theorem getElem?_identifiers {rule : Nat} {target : RuleOutput}
    (targetAt : outputs[rule]? = some target) (position : Nat) :
    (identifiers outputs rule)[position]? = target[position]?.map (·.record.id) := by
  unfold identifiers
  rw [targetAt, Option.getD_some, List.getElem?_map]

theorem mem_identifiers {rule : Nat} {target : RuleOutput}
    (targetAt : outputs[rule]? = some target) {position : Nat} {found : EvaluatedRecord}
    (foundAt : target[position]? = some found) :
    found.record.id ∈ identifiers outputs rule := by
  apply List.mem_of_getElem? (i := position)
  rw [getElem?_identifiers targetAt, foundAt]
  rfl

theorem Meets.parent (inside : JoinsInside outputs) {rule slot : Nat}
    {evaluated : EvaluatedRecord} {shape : PendingJoin}
    (meets : Meets outputs rule slot evaluated shape) :
    ∃ target, outputs[shape.parent]? = some target := by
  obtain ⟨output, outputAt, member, shapeAt⟩ := meets
  cases output with
  | nil => cases member
  | cons first rest =>
      have bound := inside _ (List.mem_of_getElem? outputAt) first List.mem_cons_self shape
        (List.mem_of_getElem? shapeAt)
      exact ⟨_, List.getElem?_eq_getElem bound⟩

theorem Meets.ownParent (inside : JoinsInside outputs) {rule slot : Nat}
    {evaluated : EvaluatedRecord} {shape own : PendingJoin}
    (meets : Meets outputs rule slot evaluated shape)
    (ownAt : evaluated.pending[slot]? = some own) :
    ∃ target, outputs[own.parent]? = some target := by
  obtain ⟨output, outputAt, member, _⟩ := meets
  have bound := inside _ (List.mem_of_getElem? outputAt) evaluated member own
    (List.mem_of_getElem? ownAt)
  exact ⟨_, List.getElem?_eq_getElem bound⟩

theorem harmlessStrays_of_safeLookups (inside : JoinsInside outputs)
    (safe : SafeLookups outputs) : HarmlessStrays outputs := by
  intro rule slot evaluated shape own meets ownAt _
  obtain ⟨target, targetAt, lookups⟩ := safe rule slot evaluated shape meets
  obtain ⟨ownTarget, ownTargetAt⟩ := meets.ownParent inside ownAt
  constructor
  · intro unconditional id member
    obtain ⟨position, idAt⟩ := List.getElem?_of_mem member
    rw [getElem?_identifiers targetAt, Option.map_eq_some_iff] at idAt
    obtain ⟨found, foundAt, rfl⟩ := idAt
    have bound := (List.getElem?_eq_some_iff.mp foundAt).1
    obtain ⟨same, sameAt, good⟩ :=
      lookups position ((mem_places_unconditional unconditional).mpr bound)
    cases foundAt.symm.trans sameAt
    exact good own ownAt
  · intro conditional sought position candidate candidateAt admitted
    rw [ownTargetAt, Option.getD_some] at candidateAt
    obtain ⟨found, foundAt, good⟩ := lookups position
      ((mem_places_conditional conditional ownAt ownTargetAt).mpr
        ⟨sought, candidate, candidateAt, admitted⟩)
    refine ⟨found.record.id, ?_, good own ownAt⟩
    rw [getElem?_identifiers targetAt, foundAt]
    rfl

theorem safeLookups_of_harmlessStrays (inside : JoinsInside outputs)
    (harmless : HarmlessStrays outputs) : SafeLookups outputs := by
  intro rule slot evaluated shape meets
  obtain ⟨target, targetAt⟩ := meets.parent inside
  refine ⟨target, targetAt, ?_⟩
  intro position reached
  by_cases unconditional : shape.conditions = []
  · have bound := (mem_places_unconditional unconditional).mp reached
    have foundAt := List.getElem?_eq_getElem bound
    refine ⟨_, foundAt, ?_⟩
    intro own ownAt
    have member := mem_identifiers targetAt foundAt
    by_cases aligned : own.parent = shape.parent
    · rw [aligned]
      exact member
    · exact (harmless rule slot evaluated shape own meets ownAt aligned).1 unconditional _ member
  · cases ownAt : evaluated.pending[slot]? with
    | none =>
        -- without a join of its own the record finds nothing
        have nothing : places (slotIndexes outputs rule slot) target shape slot evaluated = [] := by
          unfold places
          simp [unconditional, ownAt]
        rw [nothing] at reached
        cases reached
    | some own =>
        obtain ⟨ownTarget, ownTargetAt⟩ := meets.ownParent inside ownAt
        obtain ⟨sought, candidate, candidateAt, admitted⟩ :=
          (mem_places_conditional unconditional ownAt ownTargetAt).mp reached
        by_cases aligned : own.parent = shape.parent
        · rw [aligned, targetAt] at ownTargetAt
          cases ownTargetAt
          refine ⟨candidate, candidateAt, ?_⟩
          rintro _ ⟨⟩
          rw [aligned]
          exact mem_identifiers targetAt candidateAt
        · obtain ⟨id, idAt, good⟩ :=
            (harmless rule slot evaluated shape own meets ownAt aligned).2 unconditional sought
              position candidate (by rw [ownTargetAt]; exact candidateAt) admitted
          rw [getElem?_identifiers targetAt, Option.map_eq_some_iff] at idAt
          obtain ⟨found, foundAt, rfl⟩ := idAt
          refine ⟨found, foundAt, ?_⟩
          rintro _ ⟨⟩
          exact good

/-- The lookups of a resolution are safe exactly if those are that use another rule than
the one that was searched. -/
theorem safeLookups_iff (inside : JoinsInside outputs) :
    SafeLookups outputs ↔ HarmlessStrays outputs :=
  ⟨harmlessStrays_of_safeLookups inside, safeLookups_of_harmlessStrays inside⟩

theorem safeLookups_of_uniform (inside : JoinsInside outputs)
    (uniform : ∀ output ∈ outputs, UniformShape output) : SafeLookups outputs := by
  apply safeLookups_of_harmlessStrays inside
  intro rule slot evaluated shape own meets ownAt different
  obtain ⟨output, outputAt, member, shapeAt⟩ := meets
  have same := (uniform output (List.mem_of_getElem? outputAt)).getElem? member slot
  rw [ownAt, shapeAt] at same
  exact absurd (congrArg JoinShape.parent (Option.some.inj same)) different

/-- A position that a join finds in its own parent rule is looked up in another one, where
it leads to no record of the wanted rule. -/
def Stray (outputs : List RuleOutput) (rule slot : Nat) (shape own : PendingJoin)
    (position : Nat) : Prop :=
  own.parent ≠ shape.parent ∧ shape.conditions ≠ [] ∧ Sought outputs rule slot own ∧
    ∃ candidate ∈ (outputs[own.parent]?.getD [])[position]?, own.admits candidate = true ∧
      ∀ id ∈ (identifiers outputs shape.parent)[position]?, id ∉ identifiers outputs own.parent

instance (outputs : List RuleOutput) (rule slot : Nat) (own : PendingJoin) :
    Decidable (Sought outputs rule slot own) := by
  unfold Sought
  infer_instance

instance (outputs : List RuleOutput) (rule slot : Nat) (shape own : PendingJoin) (position : Nat) :
    Decidable (Stray outputs rule slot shape own position) := by
  unfold Stray
  infer_instance

theorem Stray.not_safeLookups (inside : JoinsInside outputs) {rule slot position : Nat}
    {evaluated : EvaluatedRecord} {shape own : PendingJoin}
    (meets : Meets outputs rule slot evaluated shape)
    (ownAt : evaluated.pending[slot]? = some own)
    (stray : Stray outputs rule slot shape own position) : ¬ SafeLookups outputs := by
  obtain ⟨different, conditional, sought, candidate, candidateAt, admitted, foreign⟩ := stray
  intro safe
  obtain ⟨id, idAt, good⟩ := (harmlessStrays_of_safeLookups inside safe rule slot evaluated shape
    own meets ownAt different).2 conditional sought position candidate candidateAt admitted
  exact foreign id idAt good

end Join

end RdfMapping
