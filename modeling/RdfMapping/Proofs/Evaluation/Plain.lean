import RdfMapping.Proofs.Evaluation.Opened
import RdfMapping.Proofs.Evaluation.Simulation
/-!
Evaluation without a memory. `plain` evaluates a rule by calling itself for every
rule that a function needs: each source is opened anew, and nothing is kept but the
list of the rules whose evaluation is open. Functions are asked in one fixed state.

What a completed evaluation has asked for can be replayed from any list of rules that
were completed before it (`Completed`), and the plain recursion finds the same outputs
there under every list of open rules that is disjoint from them.
-/

namespace RdfMapping

abbrev Asking := ReaderT (Nat → Outcome RuleOutput) Outcome

namespace Run

variable {σ : Type} (run : Run σ)

def askingHost (world : σ) : Host Asking where
  lift := fun outcome _ => outcome
  function? := fun iri => (run.registry.find? iri).map fun function arguments _ =>
    (function arguments world).1
  position := run.mapping.requireIndex
  output := fun index known => known index

/-- The output of a rule, as far as the outputs of others are known. -/
def outputGiven (cache : Cache) (world : σ) (index : Nat) (rule : Rule) : Asking RuleOutput := do
  let rows ← (fun _ => run.rowsFrom cache rule : Asking Rows)
  evaluateRule (run.askingHost world) run.options rows rule (run.mapping.parentPaths index)

def plain (cache : Cache) (world : σ) : (depth : Nat) → (openRules : List Nat) → (index : Nat) →
    Outcome RuleOutput
  | depth, openRules, index =>
      match run.mapping.rules[index]? with
      | none => .error (.unknownRule ("at position " ++ toString index))
      | some rule =>
          if index ∈ openRules then .error (.cyclicDependency rule.iri)
          else
            match depth with
            | 0 => .error (.cyclicDependency rule.iri)
            | depth + 1 =>
                run.outputGiven cache world index rule
                  (plain cache world depth (index :: openRules))

/-! ### Answers that are known already -/

/-- The second answers whatever the first answers, and with the same output. -/
def Answers (known further : Nat → Outcome RuleOutput) : Prop :=
  ∀ index output, known index = .ok output → further index = .ok output

/-- A computation that succeeds does so with every further answer. -/
def monotone : Simulation Asking Asking where
  Rel x y := ∀ known further, Answers known further → ∀ a, x known = .ok a → y further = .ok a
  pure := fun _ _ _ _ _ success => success
  bind := by
    intro α β x y f g first next known further answers b success
    cases found : x known with
    | error e =>
        change (x known >>= fun a => f a known) = .ok b at success
        rw [found] at success
        cases success
    | ok a =>
        change (x known >>= fun a => f a known) = .ok b at success
        rw [found] at success
        change (y further >>= fun a => g a further) = .ok b
        rw [first known further answers a found]
        exact next a known further answers b success

theorem askingHost_monotone (world : σ) :
    (run.askingHost world).Related monotone (run.askingHost world) where
  lift := fun _ _ _ _ _ success => success
  function := by
    intro iri
    change Option.Rel _ ((run.registry.find? iri).map _) ((run.registry.find? iri).map _)
    cases run.registry.find? iri with
    | none => exact .none
    | some function => exact .some fun _ _ _ _ _ success => success
  position := rfl
  output := fun index _ _ answers output success => answers index output success

theorem outputGiven_of_answers {cache : Cache} {world : σ} {index : Nat} {rule : Rule}
    {output : RuleOutput} {known further : Nat → Outcome RuleOutput}
    (answers : Answers known further)
    (success : run.outputGiven cache world index rule known = .ok output) :
    run.outputGiven cache world index rule further = .ok output := by
  have related : monotone.Rel (run.outputGiven cache world index rule)
      (run.outputGiven cache world index rule) := by
    apply monotone.bind
    · exact fun _ _ _ _ opened => opened
    · intro rows
      exact evaluateRule_related (run.askingHost_monotone world) _ rows rule _
  exact related known further answers output success

/-! ### Completed rules -/

def recorded (finished : List (Nat × RuleOutput)) (index : Nat) : Outcome RuleOutput :=
  match finished.lookup index with
  | some output => .ok output
  | none => .error (.unknownRule ("at position " ++ toString index))

/-- Outputs of rules, the latest one first. Each of them follows from those that were
completed before it. -/
inductive Completed (cache : Cache) (world : σ) : List (Nat × RuleOutput) → Prop where
  | nil : Completed cache world []
  | cons {index : Nat} {rule : Rule} {output : RuleOutput} {earlier : List (Nat × RuleOutput)} :
      Completed cache world earlier → earlier.lookup index = none →
      run.mapping.rules[index]? = some rule →
      run.outputGiven cache world index rule (recorded earlier) = .ok output →
      Completed cache world ((index, output) :: earlier)

theorem recorded_eq_ok {finished : List (Nat × RuleOutput)} {index : Nat} {output : RuleOutput} :
    recorded finished index = .ok output ↔ finished.lookup index = some output := by
  unfold recorded
  cases finished.lookup index with
  | none => simp
  | some known => simp

private theorem lookup_eq_none {finished : List (Nat × RuleOutput)} {index : Nat} :
    finished.lookup index = none ↔ index ∉ finished.map Prod.fst := by
  rw [List.lookup_eq_none_iff, List.mem_map]
  constructor
  · rintro apart ⟨entry, member, rfl⟩
    have different := apart entry member
    simp at different
  · intro missing entry member
    apply bne_iff_ne.mpr
    rintro rfl
    exact missing ⟨entry, member, rfl⟩

variable {run} in
theorem Completed.positions {cache : Cache} {world : σ} {finished : List (Nat × RuleOutput)}
    (completed : run.Completed cache world finished) :
    (finished.map Prod.fst).Nodup ∧
      ∀ index ∈ finished.map Prod.fst, index < run.mapping.rules.length := by
  induction completed with
  | nil => simp
  | @cons index rule output earlier completed fresh ruleAt success ih =>
      rw [List.map_cons]
      constructor
      · exact List.nodup_cons.mpr ⟨lookup_eq_none.mp fresh, ih.1⟩
      · intro other member
        rcases List.mem_cons.mp member with rfl | member
        · exact (List.getElem?_eq_some_iff.mp ruleAt).1
        · exact ih.2 other member

/-- No open rule is among the completed ones, hence the recursion that replays one of
them cannot come back to an open rule. -/
theorem plain_of_completed {cache : Cache} {world : σ} {finished : List (Nat × RuleOutput)}
    (completed : run.Completed cache world finished) {depth : Nat} {openRules : List Nat}
    (deep : finished.length ≤ depth)
    (apart : ∀ index ∈ openRules, finished.lookup index = none)
    {index : Nat} {output : RuleOutput} (known : finished.lookup index = some output) :
    run.plain cache world depth openRules index = .ok output := by
  induction completed generalizing depth openRules index output with
  | nil => cases known
  | @cons last rule lastOutput earlier completed fresh ruleAt success ih =>
      rw [List.length_cons] at deep
      have apartEarlier : ∀ other ∈ openRules, earlier.lookup other = none := by
        intro other member
        have missing := apart other member
        rw [List.lookup_cons] at missing
        split at missing
        · cases missing
        · exact missing
      rw [List.lookup_cons] at known
      by_cases same : index = last
      · subst same
        simp only [beq_self_eq_true, Option.some.injEq] at known
        subst known
        have closed : index ∉ openRules := by
          intro member
          have missing := apart index member
          simp at missing
        cases depth with
        | zero => omega
        | succ depth =>
            unfold plain
            simp only [ruleAt, if_neg closed]
            apply run.outputGiven_of_answers _ success
            intro other otherOutput answered
            apply ih (by omega) _ (recorded_eq_ok.mp answered)
            intro inner member
            rcases List.mem_cons.mp member with rfl | member
            · exact fresh
            · exact apartEarlier inner member
      · rw [beq_false_of_ne same] at known
        exact ih (by omega) apartEarlier known

end Run

end RdfMapping
