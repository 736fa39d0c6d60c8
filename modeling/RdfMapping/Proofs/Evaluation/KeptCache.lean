import RdfMapping.Proofs.Evaluation.Invariant
import RdfMapping.Proofs.Evaluation.Order
/-!
Runs one after another on one cache, each with contents of its own. A document that has
been read once stays in the cache, whatever later contents have in its place. A run finds
its own contents in the cache as long as they are read like those before. After a run that
succeeds all documents are there, and every later run repeats its records.
-/

namespace RdfMapping

open Outcome

namespace Run

variable {σ : Type} (run : Run σ)

def withSources (sources : List (String × String)) : Run σ := { run with sources }

def afterRuns (history : List (List (String × String))) (kept : Cache × σ) : Cache × σ :=
  history.foldl (fun kept sources => ((run.withSources sources).records kept.1 kept.2).2) kept

/-- The result of a run after others that began with an empty cache. -/
def resultAfter (history : List (List (String × String))) (world : σ)
    (sources : List (String × String)) : Outcome (List Record) :=
  let kept := run.afterRuns history ([], world)
  ((run.withSources sources).records kept.1 kept.2).1

def documentFrom (cache : Cache) (rule : Rule) : Outcome Document :=
  (cache.read rule.source (Table.get? rule.source.id run.sources) run.options).1

/-! ### Runs that read the same documents -/

section

variable {run} {left right : List (String × String)} {cache other : Cache}
  (same : ∀ rule ∈ run.mapping.rules,
    (run.withSources left).documentFrom cache rule =
      (run.withSources right).documentFrom other rule)
include same

theorem plain_of_documents (world : σ) (depth : Nat) (openRules : List Nat) (index : Nat) :
    (run.withSources left).plain cache world depth openRules index =
      (run.withSources right).plain other world depth openRules index := by
  induction depth generalizing openRules index with
  | zero =>
      unfold plain
      rfl
  | succ depth ih =>
      have leftAt : (run.withSources left).mapping.rules[index]? = run.mapping.rules[index]? := rfl
      have rightAt : (run.withSources right).mapping.rules[index]? = run.mapping.rules[index]? := rfl
      unfold plain
      rw [leftAt, rightAt]
      cases ruleAt : run.mapping.rules[index]? with
      | none => rfl
      | some rule =>
          have answers : (run.withSources left).plain cache world depth (index :: openRules) =
              (run.withSources right).plain other world depth (index :: openRules) :=
            funext (ih (index :: openRules))
          have rows : (run.withSources left).rowsFrom cache rule =
              (run.withSources right).rowsFrom other rule :=
            congrArg (·.bind (Rows.ofDocument rule.source.iterator))
              (same rule (List.mem_of_getElem? ruleAt))
          simp only [answers, outputGiven]
          rw [rows]
          rfl

theorem records_of_documents (stateless : run.registry.Stateless) (first second : σ) :
    ((run.withSources left).records cache first).1 =
      ((run.withSources right).records other second).1 := by
  have leftAll := (run.withSources left).run_evaluateAll stateless cache first first
  have rightAll := (run.withSources right).run_evaluateAll stateless other first second
  have plains := funext (plain_of_documents same first run.mapping.rules.length [])
  rw [records_eq, records_eq, run_recordsByRule, run_recordsByRule, leftAll, rightAll]
  change Except.map _ (do
    checkLanguage run.options
    let outputs ← (List.range run.mapping.rules.length).mapM
      ((run.withSources left).plain cache first run.mapping.rules.length [])
    return Join.resolve outputs) = _
  rw [plains]
  rfl

end

/-! ### What a run leaves in the cache -/

def Cached (cache : Cache) (index : Nat) : Prop :=
  ∀ rule, run.mapping.rules[index]? = some rule →
    ∃ document, cache.find? (.of rule.source run.options) = some document

/-- A cache after a while of a run: what was there is kept, and what is new is a document
that the contents of the run give for the source of a rule. -/
structure Grown (before cache : Cache) : Prop where
  kept : ∀ key document, before.find? key = some document → cache.find? key = some document
  new : ∀ key document, before.find? key = none → cache.find? key = some document →
    ∃ rule ∈ run.mapping.rules, DocumentKey.of rule.source run.options = key ∧
      Cache.Gives (Table.get? · run.sources) run.options rule.source document

/-- The cache has grown, and has the documents of all rules that are open, viewed or done. -/
structure Stocked (before : Cache) (opened : List Nat) (state : RunState σ) : Prop where
  size : state.rules.size = run.mapping.rules.length
  grown : run.Grown before state.cache
  opened : ∀ index ∈ opened, run.Cached state.cache index
  viewed : ∀ index rows, state.views.lookup index = some rows → run.Cached state.cache index
  done : ∀ index output, state.output? index = some output → run.Cached state.cache index

section

variable {run} {before cache : Cache} {opened : List Nat} {state : RunState σ} {index : Nat}
  {rule : Rule}

theorem Grown.refl (cache : Cache) : run.Grown cache cache where
  kept := fun _ _ known => known
  new := by
    intro key document unknown known
    rw [unknown] at known
    cases known

theorem Grown.read (grown : run.Grown before cache) (member : rule ∈ run.mapping.rules) :
    run.Grown before
      (cache.read rule.source (Table.get? rule.source.id run.sources) run.options).2 where
  kept := fun key document known => Cache.find?_read (grown.kept key document known)
  new := by
    intro key document unknown known
    cases found : cache.find? key with
    | some other =>
        rw [Cache.find?_read found] at known
        exact grown.new key document unknown (found.trans known)
    | none =>
        obtain ⟨same, gives⟩ := Cache.find?_read_new found known
        exact ⟨rule, member, same, gives⟩

theorem Cached.read (cached : run.Cached cache index) (source : LogicalSource)
    (content : Option String) : run.Cached (cache.read source content run.options).2 index := by
  intro rule ruleAt
  obtain ⟨document, known⟩ := cached rule ruleAt
  exact ⟨document, Cache.find?_read known⟩

theorem Stocked.read (stocked : run.Stocked before opened state)
    (member : rule ∈ run.mapping.rules) :
    run.Stocked before opened
      { state with
        cache := (state.cache.read rule.source (Table.get? rule.source.id run.sources)
          run.options).2 } where
  size := stocked.size
  grown := stocked.grown.read member
  opened := fun index isOpen => (stocked.opened index isOpen).read _ _
  viewed := fun index rows viewed => (stocked.viewed index rows viewed).read _ _
  done := fun index output known => (stocked.done index output known).read _ _

theorem Stocked.cons (stocked : run.Stocked before opened state)
    (cached : run.Cached state.cache index) : run.Stocked before (index :: opened) state where
  size := stocked.size
  grown := stocked.grown
  opened := List.forall_mem_cons.mpr ⟨cached, stocked.opened⟩
  viewed := stocked.viewed
  done := stocked.done

theorem Stocked.drop (stocked : run.Stocked before (index :: opened) state) :
    run.Stocked before opened state where
  size := stocked.size
  grown := stocked.grown
  opened := (List.forall_mem_cons.mp stocked.opened).2
  viewed := stocked.viewed
  done := stocked.done

theorem Stocked.view (stocked : run.Stocked before (index :: opened) state) (rows : Rows) :
    run.Stocked before (index :: opened)
      { state with views := (index, rows) :: state.views } where
  size := stocked.size
  grown := stocked.grown
  opened := stocked.opened
  viewed := by
    intro other otherRows found
    change ((index, rows) :: state.views).lookup other = some otherRows at found
    rw [List.lookup_cons] at found
    split at found
    · next same =>
        rw [eq_of_beq same]
        exact stocked.opened index List.mem_cons_self
    · exact stocked.viewed other otherRows found
  done := stocked.done

theorem Stocked.mark (stocked : run.Stocked before opened state) {ruleState : RuleState}
    (cached : ∀ output, ruleState.output? = some output → run.Cached state.cache index) :
    run.Stocked before opened (state.mark index ruleState) where
  size := Array.size_setIfInBounds.trans stocked.size
  grown := stocked.grown
  opened := stocked.opened
  viewed := stocked.viewed
  done := by
    intro other output known
    unfold RunState.output? RunState.mark at known
    rw [Array.getElem?_setIfInBounds] at known
    by_cases same : index = other
    · subst same
      rw [if_pos rfl] at known
      split at known
      · exact cached output known
      · cases known
    · rw [if_neg same] at known
      exact stocked.done other output known

theorem Stocked.rowsOf (stocked : run.Stocked before opened state)
    (ruleAt : run.mapping.rules[index]? = some rule) :
    run.Stocked before opened ((run.rowsOf index rule).run.run state).2 ∧
      ∀ rows, ((run.rowsOf index rule).run.run state).1 = .ok rows →
        run.Stocked before (index :: opened) ((run.rowsOf index rule).run.run state).2 := by
  cases viewed : state.views.lookup index with
  | some rows =>
      rw [run_rowsOf_viewed run viewed]
      exact ⟨stocked, fun _ _ => stocked.cons (stocked.viewed index rows viewed)⟩
  | none =>
      have read := stocked.read (List.mem_of_getElem? ruleAt)
      have found (document : Document) := @Cache.find?_of_read run.options state.cache rule.source
        (Table.get? rule.source.id run.sources) document
      rw [run_rowsOf_unviewed run viewed]
      unfold Cache.openRows
      rcases opening : state.cache.read rule.source (Table.get? rule.source.id run.sources)
        run.options with ⟨document, cache⟩
      rw [opening] at read found
      cases document with
      | error e => exact ⟨read, nofun⟩
      | ok document =>
          have cached : run.Cached cache index := by
            intro other otherAt
            cases ruleAt.symm.trans otherAt
            exact ⟨document, found document rfl⟩
          -- the document is kept even if the iterator fails
          simp only [Except.bind]
          cases Rows.ofDocument rule.source.iterator document with
          | error e => exact ⟨read, nofun⟩
          | ok rows =>
              have inside := (read.cons cached).view rows
              exact ⟨inside.drop, fun _ _ => inside⟩

end

theorem invariant_stocked (before : Cache) : run.Invariant (run.Stocked before) where
  size := Stocked.size
  world := fun _ stocked =>
    ⟨stocked.size, stocked.grown, stocked.opened, stocked.viewed, stocked.done⟩
  opens := fun ruleAt stocked => stocked.rowsOf ruleAt
  mark := by
    intro _ _ index ruleState noOutput stocked
    apply stocked.mark
    intro output known
    rw [noOutput] at known
    cases known
  complete := fun index output stocked =>
    stocked.mark fun _ _ => stocked.opened index List.mem_cons_self
  remembered := fun known stocked => stocked.cons (stocked.done _ _ known)
  drop := Stocked.drop

theorem start_stocked (cache : Cache) (world : σ) :
    run.Stocked cache [] (run.start cache world) where
  size := Array.size_replicate
  grown := .refl cache
  opened := nofun
  viewed := nofun
  done := by
    intro index output known
    rw [output?_start] at known
    cases known

theorem records_grown (cache : Cache) (world : σ) :
    run.Grown cache (run.records cache world).2.1 := by
  obtain ⟨final, same, leaves⟩ := records_leaves (run.invariant_stocked cache)
    run.tolerates_any (run.start_stocked cache world)
  rw [same]
  exact leaves.holds.grown

variable {run} in
theorem exists_find?_of_success {cache : Cache} {world : σ} {records : List Record}
    (success : (run.records cache world).1 = .ok records) {rule : Rule}
    (member : rule ∈ run.mapping.rules) :
    ∃ document, (run.records cache world).2.1.find? (.of rule.source run.options) =
        some document ∧ run.documentFrom cache rule = .ok document := by
  obtain ⟨final, same, leaves⟩ := records_leaves (run.invariant_stocked cache)
    run.tolerates_any (run.start_stocked cache world)
  obtain ⟨index, bound, ruleAt⟩ := List.getElem_of_mem member
  have isOpen : index ∈ (List.range run.mapping.rules.length).reverse ++ [] := by
    simpa using bound
  obtain ⟨document, known⟩ := (leaves.opens records success).opened index isOpen rule
    (List.getElem?_eq_some_iff.mpr ⟨bound, ruleAt⟩)
  refine ⟨document, by rw [same]; exact known, ?_⟩
  unfold documentFrom
  -- a document is either an old one, which is kept, or what the contents of this run give
  cases before : cache.find? (.of rule.source run.options) with
  | some earlier =>
      rw [Cache.read_of_find? before]
      exact congrArg Except.ok
        (Option.some.inj ((leaves.holds.grown.kept _ _ before).symm.trans known))
  | none =>
      obtain ⟨other, _, sameKey, gives⟩ := leaves.holds.grown.new _ _ before known
      exact Cache.read_of_gives before (gives.of_key sameKey)

/-! ### Runs one after another -/

theorem afterRuns_kept (history : List (List (String × String))) {kept : Cache × σ}
    {key : DocumentKey} {document : Document} (known : kept.1.find? key = some document) :
    (run.afterRuns history kept).1.find? key = some document := by
  induction history generalizing kept with
  | nil => exact known
  | cons sources rest ih =>
      exact ih (((run.withSources sources).records_grown kept.1 kept.2).kept key document known)

theorem afterRuns_new (history : List (List (String × String))) {kept : Cache × σ}
    {key : DocumentKey} {document : Document} (unknown : kept.1.find? key = none)
    (known : (run.afterRuns history kept).1.find? key = some document) :
    ∃ earlier ∈ history, ∃ rule ∈ run.mapping.rules,
      DocumentKey.of rule.source run.options = key ∧
        Cache.Gives (Table.get? · earlier) run.options rule.source document := by
  induction history generalizing kept with
  | nil =>
      rw [show run.afterRuns [] kept = kept from rfl, unknown] at known
      cases known
  | cons sources rest ih =>
      let next := ((run.withSources sources).records kept.1 kept.2).2
      change (run.afterRuns rest next).1.find? key = some document at known
      cases found : next.1.find? key with
      | none =>
          obtain ⟨earlier, member, later⟩ := ih found known
          exact ⟨earlier, List.mem_cons_of_mem _ member, later⟩
      | some other =>
          rw [run.afterRuns_kept rest found] at known
          cases known
          exact ⟨sources, List.mem_cons_self,
            ((run.withSources sources).records_grown kept.1 kept.2).new key _ unknown found⟩

/-- What the earlier contents give for the source of a rule, the later ones give as well. -/
def Steady (earlier later : List (String × String)) : Prop :=
  ∀ rule ∈ run.mapping.rules, ∀ document,
    Cache.Gives (Table.get? · earlier) run.options rule.source document →
      Cache.Gives (Table.get? · later) run.options rule.source document

theorem documentFrom_of_steady {history : List (List (String × String))} {world : σ}
    {sources : List (String × String)} (steady : ∀ earlier ∈ history, run.Steady earlier sources)
    (rule : Rule) :
    (run.withSources sources).documentFrom (run.afterRuns history ([], world)).1 rule =
      (run.withSources sources).documentFrom [] rule := by
  unfold documentFrom
  cases found : (run.afterRuns history ([], world)).1.find? (.of rule.source run.options) with
  | none => exact (Cache.read_of_unknown found).trans (Cache.read_of_unknown rfl).symm
  | some document =>
      obtain ⟨earlier, member, other, otherMember, sameKey, gives⟩ :=
        run.afterRuns_new history rfl found
      have given := (steady earlier member other otherMember document gives).of_key sameKey
      exact (congrArg Prod.fst (Cache.read_of_find? found)).trans
        (Cache.read_of_gives rfl given).symm

theorem afterRuns_append (first second : List (List (String × String))) (kept : Cache × σ) :
    run.afterRuns (first ++ second) kept = run.afterRuns second (run.afterRuns first kept) :=
  List.foldl_append

theorem documentFrom_after_success {before after : List (List (String × String))}
    {contents sources : List (String × String)} {world : σ} {records : List Record}
    (success : run.resultAfter before world contents = .ok records) {rule : Rule}
    (member : rule ∈ run.mapping.rules) :
    (run.withSources sources).documentFrom
        (run.afterRuns (before ++ contents :: after) ([], world)).1 rule =
      (run.withSources contents).documentFrom (run.afterRuns before ([], world)).1 rule := by
  obtain ⟨document, known, read⟩ := exists_find?_of_success success member
  have kept := run.afterRuns_kept after known
  rw [read, afterRuns_append]
  unfold documentFrom
  exact congrArg Prod.fst (Cache.read_of_find? kept)

/-- A run does not notice the runs before it as long as its contents are read like theirs.
After a run that succeeded it repeats the records of that run, whatever its contents are. -/
theorem resultAfter_isolated_or_repeated (stateless : run.registry.Stateless)
    (history : List (List (String × String))) (sources : List (String × String))
    (world fresh : σ) :
    ((∀ earlier ∈ history, run.Steady earlier sources) →
        run.resultAfter history world sources = run.resultAfter [] fresh sources) ∧
      ∀ before contents after records, history = before ++ contents :: after →
        run.resultAfter before world contents = .ok records →
          run.resultAfter history world sources = .ok records := by
  constructor
  · intro steady
    exact records_of_documents (fun rule _ => run.documentFrom_of_steady steady rule) stateless _ _
  · rintro before contents after records rfl success
    rw [← success]
    exact records_of_documents
      (fun rule member => run.documentFrom_after_success success member) stateless _ _

/-! ### Two runs with different contents -/

def peopleRun : Run Unit where
  mapping := ⟨[tableRule "people" "people.csv" []], by decide, by decide⟩
  registry := .standard
  options := {}
  sources := []

def annsTable : List (String × String) := [("people.csv", "id\nann\n")]

def bobsTable : List (String × String) := [("people.csv", "id\nbob\n")]

theorem resultAfter_peopleRun_annsTable :
    peopleRun.registry.Stateless ∧
      peopleRun.resultAfter [annsTable] () (("other.csv", "") :: annsTable) =
        peopleRun.resultAfter [] () (("other.csv", "") :: annsTable) ∧
      ∃ records, records.map Record.id = ["ann"] ∧
        ∀ sources, peopleRun.resultAfter [annsTable] () sources = .ok records := by
  have stateless : peopleRun.registry.Stateless := Registry.stateless_standard
  have spec := peopleRun.resultAfter_isolated_or_repeated stateless [annsTable]
  refine ⟨stateless, ?_, ?_⟩
  · apply (spec _ () ()).1
    intro earlier member rule ruleMember document gives
    obtain rfl := List.mem_singleton.mp member
    obtain rfl := List.mem_singleton.mp ruleMember
    exact gives
  · have first : ∃ records, peopleRun.resultAfter [] () annsTable = .ok records ∧
        records.map Record.id = ["ann"] := by
      apply map_eq_ok.mp
      decide +kernel
    obtain ⟨records, success, ids⟩ := first
    exact ⟨records, ids, fun sources => (spec sources () ()).2 [] _ [] records rfl success⟩

theorem resultAfter_peopleRun_ne :
    peopleRun.registry.Stateless ∧
      peopleRun.resultAfter [annsTable] () bobsTable ≠ peopleRun.resultAfter [] () bobsTable := by
  refine ⟨Registry.stateless_standard, fun same => ?_⟩
  have ids := congrArg (Except.map (List.map Record.id)) same
  have later : (peopleRun.resultAfter [annsTable] () bobsTable).map (List.map Record.id) =
      .ok ["ann"] := by decide +kernel
  have fresh : (peopleRun.resultAfter [] () bobsTable).map (List.map Record.id) = .ok ["bob"] := by
    decide +kernel
  rw [later, fresh] at ids
  exact absurd ids (by decide)

end Run

end RdfMapping
