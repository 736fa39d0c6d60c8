import RdfMapping.Proofs.Evaluation.Alike
import RdfMapping.Proofs.Evaluation.Joins
import RdfMapping.Proofs.Evaluation.Memo
/-!
Runs of the same rules in another order. As far as no row has a say in the predicates of
joins, and functions answer by their arguments alone, every rule has the same records
wherever it stands; only the order of the rules is that of the mapping.
-/

namespace RdfMapping

open Outcome

namespace Run

variable {σ : Type} (run : Run σ)

/-- A run gives every rule the records that a function of the rules tells, in the order of
its mapping. -/
def Gives (cache : Cache) (world : σ) (recordsOf : Rule → List Record) : Prop :=
  (run.recordsByRule.run.run (run.start cache world)).1 =
      .ok (run.mapping.rules.map recordsOf) ∧
    (run.records cache world).1 = .ok (run.mapping.rules.flatMap recordsOf)

/-! ### Whole runs -/

theorem run_evaluateAll (stateless : run.registry.Stateless) (cache : Cache) (world first : σ) :
    (run.evaluateAll.run.run (run.start cache first)).1 =
      (List.range run.mapping.rules.length).mapM
        (run.plain cache world run.mapping.rules.length []) := by
  have follows := (run.memo cache world run.mapping.rules.length []).mapM
    (run.evaluate_follows cache world stateless) (List.range run.mapping.rules.length)
  exact (follows _ (run.start_consistent cache world first)).result.trans (mapM_answers _ _)

theorem gives_of_recordsByRule {cache : Cache} {world : σ} {recordsOf : Rule → List Record}
    (success : (run.recordsByRule.run.run (run.start cache world)).1 =
      .ok (run.mapping.rules.map recordsOf)) : run.Gives cache world recordsOf := by
  refine ⟨success, ?_⟩
  rw [records_eq, success, List.flatMap_def]
  rfl

/-! ### Two orders -/

section

variable {run} {other : Mapping}

theorem mapM_plain_alike (sameRules : run.mapping.SameRules other) (cache : Cache) (world : σ)
    {count : Nat} (length : run.mapping.rules.length = count)
    (lengthOther : other.rules.length = count) :
    Matches (fun outputs others => outputs.length = count ∧ others.length = count ∧
        Join.Alike (run.mapping.Corresponds other) outputs others)
      ((List.range count).mapM (run.plain cache world count []))
      ((List.range count).mapM ((run.withMapping other).plain cache world count [])) := by
  have alike : AnswersAlike (run.mapping.Corresponds other) (run.plain cache world count [])
      ((run.withMapping other).plain cache world count []) := plain_alike sameRules cache world .nil
  have inside {index position : Nat} (corresponds : run.mapping.Corresponds other index position) :
      index < count ∧ position < count := by
    obtain ⟨rule, ruleAt, ruleAtOther⟩ := corresponds
    constructor
    · rw [← length]
      exact (List.getElem?_eq_some_iff.mp ruleAt).1
    · rw [← lengthOther]
      exact (List.getElem?_eq_some_iff.mp ruleAtOther).1
  apply Matches.of_exists_iff
  · rw [exists_mapM_eq_ok_iff, exists_mapM_eq_ok_iff]
    constructor
    · intro each position member
      rw [List.mem_range, ← lengthOther] at member
      obtain ⟨index, _, corresponds⟩ :=
        sameRules.symm.exists_corresponds (List.getElem?_eq_getElem member)
      apply (alike index position corresponds.symm).exists_iff.mp
      exact each index (List.mem_range.mpr (inside corresponds.symm).1)
    · intro each index member
      rw [List.mem_range, ← length] at member
      obtain ⟨position, _, corresponds⟩ :=
        sameRules.exists_corresponds (List.getElem?_eq_getElem member)
      apply (alike index position corresponds).exists_iff.mpr
      exact each position (List.mem_range.mpr (inside corresponds).2)
  · intro outputs others success successOther
    obtain ⟨lengthOutputs, each⟩ := of_forall₂_range (mapM_eq_ok.mp success)
    obtain ⟨lengthOthers, eachOther⟩ := of_forall₂_range (mapM_eq_ok.mp successOther)
    refine ⟨lengthOutputs, lengthOthers, ?_⟩
    intro index position corresponds
    obtain ⟨bound, boundOther⟩ := inside corresponds
    rw [← lengthOutputs] at bound
    rw [← lengthOthers] at boundOther
    have outputAt := List.getElem?_eq_getElem bound
    have otherAt := List.getElem?_eq_getElem boundOther
    have both := alike index position corresponds
    rw [each index _ outputAt, eachOther position _ otherAt] at both
    cases both with
    | ok records => exact ⟨_, _, outputAt, otherAt, records⟩

theorem evaluateAll_alike (sameRules : run.mapping.SameRules other)
    (sameLength : other.rules.length = run.mapping.rules.length)
    (stateless : run.registry.Stateless) (cache : Cache) (first second : σ) :
    Matches (fun outputs others => outputs.length = run.mapping.rules.length ∧
        others.length = other.rules.length ∧
        Join.Alike (run.mapping.Corresponds other) outputs others)
      (run.evaluateAll.run.run (run.start cache first)).1
      ((run.withMapping other).evaluateAll.run.run
        ((run.withMapping other).start cache second)).1 := by
  have evaluated := (run.withMapping other).run_evaluateAll stateless cache first second
  change _ = (List.range other.rules.length).mapM
    ((run.withMapping other).plain cache first other.rules.length []) at evaluated
  rw [run.run_evaluateAll stateless cache first first, evaluated, sameLength]
  exact mapM_plain_alike sameRules cache first rfl sameLength

theorem recordsByRule_alike (sameRules : run.mapping.SameRules other)
    (sameLength : other.rules.length = run.mapping.rules.length)
    (stateless : run.registry.Stateless) (fixed : ∀ rule ∈ run.mapping.rules, rule.FixedJoins)
    (cache : Cache) (first second : σ) :
    Matches (fun groups others => ∃ recordsOf : Rule → List Record,
        groups = run.mapping.rules.map recordsOf ∧ others = other.rules.map recordsOf)
      (run.recordsByRule.run.run (run.start cache first)).1
      ((run.withMapping other).recordsByRule.run.run
        ((run.withMapping other).start cache second)).1 := by
  have fixedOther : ∀ rule ∈ (run.withMapping other).mapping.rules, rule.FixedJoins :=
    fun rule member => fixed rule ((sameRules rule).mpr member)
  rw [run_recordsByRule, run_recordsByRule]
  apply (Matches.refl (checkLanguage run.options)).bind
  intro _ _ _
  apply (evaluateAll_alike sameRules sameLength stateless cache first second).with_values.bind
  rintro outputs others ⟨success, successOther, length, lengthOther, alike⟩
  have joined := Join.resolve_of_uniform (run.joinsInside_evaluateAll cache first success)
    (run.uniformShape_evaluateAll fixed cache first success)
  have joinedOther := Join.resolve_of_uniform
    ((run.withMapping other).joinsInside_evaluateAll cache second successOther)
    ((run.withMapping other).uniformShape_evaluateAll fixedOther cache second successOther)
  apply Matches.ok
  rw [joined, joinedOther]
  apply sameRules.exists_eq_map
  · rw [Join.length_nestedLoop, length]
  · rw [Join.length_nestedLoop, lengthOther]
  · intro index position corresponds
    exact Join.getElem?_nestedLoop_of_alike alike corresponds

end

/-- The rules of a mapping may be rearranged: either both orders fail, or every rule has the
same records in both. -/
theorem gives_of_perm {rules rearranged : List Rule} (perm : rules.Perm rearranged)
    (accepted : Mapping.ofRules rules = .ok run.mapping)
    (fixed : ∀ rule ∈ rules, rule.FixedJoins) (stateless : run.registry.Stateless)
    (cache : Cache) (first second : σ) :
    ∃ other, Mapping.ofRules rearranged = .ok other ∧
      ((∃ recordsOf, run.Gives cache first recordsOf ∧
          (run.withMapping other).Gives cache second recordsOf) ∨
        (∃ e, (run.records cache first).1 = .error e) ∧
          ∃ e, ((run.withMapping other).records cache second).1 = .error e) := by
  cases Mapping.ofRules_eq_ok_iff.mp accepted
  obtain ⟨other, acceptedOther, sameRules⟩ := Mapping.exists_ofRules_of_perm perm
  refine ⟨other, acceptedOther, ?_⟩
  cases Mapping.ofRules_eq_ok_iff.mp acceptedOther
  have alike := recordsByRule_alike sameRules perm.length_eq.symm stateless fixed cache first second
  rcases alike.ok_or_error with
    ⟨groups, others, success, successOther, recordsOf, rfl, rfl⟩ |
    ⟨⟨e, failed⟩, eOther, failedOther⟩
  · left
    exact ⟨recordsOf, run.gives_of_recordsByRule success,
      (run.withMapping other).gives_of_recordsByRule successOther⟩
  · right
    refine ⟨⟨e, ?_⟩, eOther, ?_⟩
    · rw [records_eq, failed]
      rfl
    · rw [records_eq, failedOther]
      rfl

/-- Orders that are joined with their clients, and a summary that needs all clients. -/
def ordersRun : Run Nat where
  mapping :=
    { rules :=
        [tableRule "orders" "rows"
          [⟨[.constant "by"], [.ofKind (.parent ⟨"clients", [⟨"client", "name"⟩]⟩)]⟩],
          needing "summary" "clients", tableRule "clients" "rows" []]
      distinct := by decide
      closed := by decide }
  registry := mutualRun.registry
  options := {}
  sources := [("rows", "id,name,client\n1,a,b\n2,b,b\n")]

theorem gives_ordersRun_reversed :
    (∀ rule ∈ ordersRun.mapping.rules, rule.FixedJoins) ∧ ordersRun.registry.Stateless ∧
      ∃ other, Mapping.ofRules ordersRun.mapping.rules.reverse = .ok other ∧
        ∃ recordsOf, ordersRun.Gives [] 0 recordsOf ∧
          (ordersRun.withMapping other).Gives [] 1 recordsOf := by
  have fixed : ∀ rule ∈ ordersRun.mapping.rules, rule.FixedJoins := by decide
  have stateless : ordersRun.registry.Stateless :=
    Registry.stateless_standard.register _ fun _ _ _ => rfl
  have success : ∃ outputs, (ordersRun.evaluateAll.run.run (ordersRun.start [] 0)).1 = .ok outputs ∧
      outputs.map List.length = [2, 4, 2] := by
    apply Outcome.map_eq_ok.mp
    decide +kernel
  obtain ⟨outputs, evaluated, _⟩ := success
  obtain ⟨other, accepted, gives⟩ := ordersRun.gives_of_perm (List.reverse_perm _).symm
    (Mapping.ofRules_eq_ok_iff.mpr rfl) fixed stateless [] 0 1
  rcases gives with both | ⟨⟨e, failed⟩, _⟩
  · exact ⟨fixed, stateless, other, accepted, both⟩
  · rw [records_eq, run_recordsByRule, evaluated] at failed
    cases failed

end Run

end RdfMapping
