import RdfMapping.Proofs.Evaluation.Steps
import RdfMapping.Proofs.Source.Cache
/-!
The rows that a run has opened. Whenever a rule is evaluated, its rows are those that
the cache of the beginning gives.
-/

namespace RdfMapping

namespace Run

variable {σ : Type} (run : Run σ)

def rowsFrom (cache : Cache) (rule : Rule) : Outcome Rows :=
  (cache.openRows rule.source (Table.get? rule.source.id run.sources) run.options).1

structure OpensFrom (cache : Cache) (state : RunState σ) : Prop where
  views : ∀ index rows, state.views.lookup index = some rows →
    ∃ rule, run.mapping.rules[index]? = some rule ∧ run.rowsFrom cache rule = .ok rows
  cache : Cache.Agrees (Table.get? · run.sources) run.options cache state.cache

theorem start_opensFrom (cache : Cache) (world : σ) :
    run.OpensFrom cache (run.start cache world) where
  views := by
    intro index rows found
    cases found
  cache := Cache.Agrees.refl _ _ cache

variable {run}

theorem OpensFrom.rowsOf {cache : Cache} {state : RunState σ} (opens : run.OpensFrom cache state)
    {index : Nat} {rule : Rule} (ruleAt : run.mapping.rules[index]? = some rule) :
    ((run.rowsOf index rule).run.run state).1 = run.rowsFrom cache rule ∧
      ((run.rowsOf index rule).run.run state).2.rules = state.rules ∧
      run.OpensFrom cache ((run.rowsOf index rule).run.run state).2 := by
  cases viewed : state.views.lookup index with
  | some rows =>
      obtain ⟨sameRule, sameAt, opened⟩ := opens.views index rows viewed
      cases ruleAt.symm.trans sameAt
      rw [run.run_rowsOf_viewed viewed]
      exact ⟨opened.symm, rfl, opens⟩
  | none =>
      obtain ⟨same, agrees⟩ := opens.cache.openRows rule.source
      rw [run.run_rowsOf_unviewed viewed]
      rcases opened : state.cache.openRows rule.source
        (Table.get? rule.source.id run.sources) run.options with ⟨result, next⟩
      rw [opened] at same agrees
      cases result with
      | error e => exact ⟨same, rfl, opens.views, agrees⟩
      | ok rows =>
          refine ⟨same, rfl, ?_, agrees⟩
          intro other otherRows found
          change ((index, rows) :: state.views).lookup other = some otherRows at found
          rw [List.lookup_cons] at found
          by_cases sameIndex : other = index
          · subst sameIndex
            simp only [beq_self_eq_true, Option.some.injEq] at found
            subst found
            exact ⟨rule, ruleAt, same.symm⟩
          · rw [beq_false_of_ne sameIndex] at found
            exact opens.views other otherRows found

end Run

end RdfMapping
