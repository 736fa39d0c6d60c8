import RdfMapping.Evaluation.Join
import RdfMapping.Evaluation.Rule
import RdfMapping.Function.Registry
import RdfMapping.Mapping.Basic
import RdfMapping.Record.Nesting
import RdfMapping.Record.Triples
import RdfMapping.Source.Cache
/-!
Runs of a mapping. A run evaluates every rule at most once and remembers its
records. A rule that is needed by a function of another one is evaluated then; a rule
that is needed while it is being evaluated itself is a cyclic dependency. An
evaluation that fails is forgotten, but keeps the rules that it has completed.
-/

namespace RdfMapping

structure Run (σ : Type) where
  mapping : Mapping
  registry : Registry σ
  options : Options
  /-- The contents of the sources by their identifiers, as a table. -/
  sources : List (String × String)

inductive RuleState where
  | pending
  | inProgress
  | done (output : RuleOutput)

/-- What a run remembers. The cache and the state of the functions outlive it. -/
structure RunState (σ : Type) where
  rules : Array RuleState
  /-- The rows of the rules whose sources have been opened. -/
  views : List (Nat × Rows)
  cache : Cache
  world : σ

/-- A step of a run. What it has remembered is kept even if it fails. -/
abbrev RunM (σ : Type) := ExceptT MappingError (StateM (RunState σ))

namespace Run

variable {σ : Type} (run : Run σ)

def start (cache : Cache) (world : σ) : RunState σ :=
  { rules := Array.replicate run.mapping.rules.length .pending, views := [], cache, world }

/-! ### Rows and functions -/

/-- The rows of the source of a rule, opened at most once. -/
def rowsOf (index : Nat) (rule : Rule) : RunM σ Rows := do
  let state ← get
  match state.views.lookup index with
  | some rows => return rows
  | none => do
      let (rows, cache) := state.cache.openRows rule.source
        (Table.get? rule.source.id run.sources) run.options
      set { state with cache }
      let rows ← liftExcept rows
      modify fun state => { state with views := (index, rows) :: state.views }
      return rows
where
  liftExcept {α : Type} (outcome : Outcome α) : RunM σ α := ExceptT.mk (pure outcome)

def call (function : Callable σ) (arguments : Arguments) : RunM σ Json := do
  let state ← get
  let (result, world) := function arguments state.world
  set { state with world }
  ExceptT.mk (pure result)

def host (output : Nat → RunM σ RuleOutput) : Host (RunM σ) where
  lift := fun outcome => ExceptT.mk (pure outcome)
  function? := fun iri => (run.registry.find? iri).map call
  position := run.mapping.requireIndex
  output

/-! ### Rules -/

def setRule (index : Nat) (ruleState : RuleState) : RunM σ Unit :=
  modify fun state => { state with rules := state.rules.setIfInBounds index ruleState }

def evaluateNew (output : Nat → RunM σ RuleOutput) (index : Nat) (rule : Rule) :
    RunM σ RuleOutput := do
  setRule index .inProgress
  tryCatch
    (do
      let rows ← run.rowsOf index rule
      let output ← evaluateRule (run.host output) run.options rows rule
        (run.mapping.parentPaths index)
      setRule index (.done output)
      return output)
    fun e => do
      setRule index .pending
      throw e

/-- The records of the rule at a position, at most `depth` evaluations being open at
once. -/
def evaluateWithin : (depth : Nat) → (index : Nat) → RunM σ RuleOutput
  | depth, index => do
      match run.mapping.rules[index]?, (← get).rules[index]? with
      | some _, some (.done output) => return output
      | some rule, some .inProgress => throw (.cyclicDependency rule.iri)
      | some rule, some .pending =>
          match depth with
          | 0 => throw (.cyclicDependency rule.iri)
          | depth + 1 => run.evaluateNew (evaluateWithin depth) index rule
      | _, _ => throw (.unknownRule ("at position " ++ toString index))

/-- The records of the rule at a position. Every open evaluation is of a rule of its
own, so that the number of rules bounds their depth. -/
def evaluate (index : Nat) : RunM σ RuleOutput :=
  run.evaluateWithin run.mapping.rules.length index

def evaluateNamed (iri : String) : RunM σ RuleOutput := do
  run.evaluate (← ExceptT.mk (pure (run.mapping.requireIndex iri)))

def isEvaluated (state : RunState σ) (index : Nat) : Bool :=
  match state.rules[index]? with
  | some (.done _) => true
  | _ => false

/-! ### Whole runs -/

def checkLanguage (options : Options) : Outcome Unit :=
  match options.language with
  | some tag => LanguageTag.check tag
  | none => .ok ()

/-- The records of each rule, with the joins that are left to resolve. -/
def evaluateAll : RunM σ (List RuleOutput) :=
  (List.range run.mapping.rules.length).mapM run.evaluate

def recordsByRule : RunM σ (List (List Record)) := do
  ExceptT.mk (pure (checkLanguage run.options))
  let outputs ← run.evaluateAll
  return Join.resolve outputs

def records (cache : Cache) (world : σ) : Outcome (List Record) × Cache × σ :=
  let (result, state) := run.recordsByRule.run.run (run.start cache world)
  (result.map List.flatten, state.cache, state.world)

end Run

inductive Shape where
  | jsonLd (value : Json)
  | nTriples (text : String)

def Shape.of (options : Options) (records : List Record) : Shape :=
  if options.toTriples then .nTriples (Record.renderTriples records)
  else if options.replace then .jsonLd (Record.replaceReferences records)
  else .jsonLd (Record.listJson records)

end RdfMapping
