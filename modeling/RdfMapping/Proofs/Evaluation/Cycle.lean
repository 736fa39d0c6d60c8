import RdfMapping.Proofs.Evaluation.Marks
import RdfMapping.Proofs.Evaluation.Memo
/-!
Cycles between rules. The recursion ends by itself: the number of rules bounds the
evaluations that are open at once, and the bound is never what stops an evaluation. A rule
that is reported as part of a cycle is on one, and the rule that was asked for leads to it.
Joins are resolved when all rules have been evaluated, and make no cycle.
-/

namespace RdfMapping

namespace Run

variable {σ : Type} (run : Run σ)

/-- Errors of an evaluation that starts at a rule: a cycle only where there is one. -/
def CyclesFrom (start : Nat) (e : MappingError) : Prop :=
  ∀ iri, e = .cyclicDependency iri →
    ∃ index rule, run.mapping.rules[index]? = some rule ∧ rule.iri = iri ∧
      Relation.ReflTransGen run.mapping.DependsOn start index ∧
      Relation.TransGen run.mapping.DependsOn index index

section

variable {run} {state : RunState σ}

theorem Marked.of_idle (size : state.rules.size = run.mapping.rules.length)
    (idle : ∀ index : Nat, state.rules[index]? ≠ some .inProgress) : run.Marked [] state where
  size := size
  distinct := List.nodup_nil
  inProgress := by
    intro index
    constructor
    · intro found
      exact (idle index found).elim
    · intro member
      cases member

theorem admits_cyclesFrom
    (functions : run.registry.FailsWithin fun e => ∀ iri, e ≠ .cyclicDependency iri)
    (start : Nat) : run.Admits start (run.CyclesFrom start) where
  cycle := by
    rintro index rule ruleAt reached onCycle iri ⟨⟩
    exact ⟨index, rule, ruleAt, rfl, reached, onCycle⟩
  other := by
    intro e different iri same
    exact (different iri same).elim
  functions := by
    intro iri function found arguments world e failed cyclic same
    exact (functions iri function found arguments world e failed cyclic same).elim

/-- The bound of the depth can be left out: an evaluation is what the recursion through
itself gives. -/
theorem run_evaluate_eq_consult (marked : run.Marked [] state) (index : Nat) :
    (run.evaluate index).run.run state =
      (run.consult (run.evaluateNew run.evaluate) index).run.run state := by
  have deeper := evaluateBeyond_keeps_evaluate (run.admits_any index)
    (fun _ rule => throw (.cyclicDependency rule.iri)) (Nat.le_succ _) state marked
  rw [evaluateBeyond, ← evaluateWithin_eq_evaluateBeyond] at deeper
  exact deeper.1.symm

end

/-- An evaluation never has more evaluations open at once than there are rules, and reports
only cycles that there are; where no rule needs another one, it reports none. -/
theorem evaluate_cyclesFrom {state : RunState σ}
    (size : state.rules.size = run.mapping.rules.length)
    (idle : ∀ index : Nat, state.rules[index]? ≠ some .inProgress)
    (functions : run.registry.FailsWithin fun e => ∀ iri, e ≠ .cyclicDependency iri)
    (start : Nat) :
    (∀ beyond, ∀ depth ≥ run.mapping.rules.length,
        (run.evaluateBeyond beyond depth start).run.run state =
          (run.evaluate start).run.run state) ∧
      Outcome.FailsWithin (run.CyclesFrom start) ((run.evaluate start).run.run state).1 ∧
      ((∀ rule ∈ run.mapping.rules, ∀ reference, ¬rule.Needs reference) →
        ∀ iri, ((run.evaluate start).run.run state).1 ≠ .error (.cyclicDependency iri)) := by
  have marked := Marked.of_idle size idle
  have admits := admits_cyclesFrom functions start
  have fails : Outcome.FailsWithin (run.CyclesFrom start)
      ((run.evaluate start).run.run state).1 := (evaluate_keeps admits marked).fails
  refine ⟨?_, fails, ?_⟩
  · intro beyond depth room
    exact (evaluateBeyond_keeps_evaluate admits beyond room state marked).1
  · intro unneeded iri failed
    obtain ⟨index, _, _, _, _, onCycle⟩ := fails _ failed iri rfl
    obtain ⟨_, ⟨rule, ruleAt, reference, needs, _⟩, _⟩ := Relation.TransGen.head'_iff.mp onCycle
    exact unneeded rule (List.mem_of_getElem? ruleAt) reference needs

/-- A rule that leads to two rules that need each other. -/
def entangledRun : Run Nat where
  mapping :=
    { rules := [needing "entry" "left", needing "left" "right", needing "right" "left"]
      distinct := by decide
      closed := by decide }
  registry := mutualRun.registry
  options := {}
  sources := [("rows", "key\n1\n2\n")]

theorem evaluate_entangledRun_cyclesFrom :
    entangledRun.registry.FailsWithin (fun e => ∀ iri, e ≠ .cyclicDependency iri) ∧
      ((entangledRun.evaluate 0).run.run (entangledRun.start [] 0)).1 =
        .error (.cyclicDependency "left") ∧
      entangledRun.CyclesFrom 0 (.cyclicDependency "left") := by
  have marked := entangledRun.start_marked [] 0
  have idle (index : Nat) : (entangledRun.start [] 0).rules[index]? ≠ some .inProgress := by
    intro found
    cases (marked.inProgress index).mp found
  have acyclic (e : MappingError) (isLocal : e.IsLocal) (iri : String) :
      e ≠ .cyclicDependency iri := by
    rintro rfl
    exact isLocal
  have functions : entangledRun.registry.FailsWithin fun e => ∀ iri, e ≠ .cyclicDependency iri :=
    (Registry.failsWithin_standard acyclic).register "first" fun _ _ => Outcome.failsWithin_ok _
  have failed : ((entangledRun.evaluate 0).run.run (entangledRun.start [] 0)).1 =
      .error (.cyclicDependency "left") := by
    decide +kernel
  exact ⟨functions, failed,
    (entangledRun.evaluate_cyclesFrom marked.size idle functions 0).2.1 _ failed⟩

end Run

end RdfMapping
