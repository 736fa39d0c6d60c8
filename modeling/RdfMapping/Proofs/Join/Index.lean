import Mathlib.Data.List.Basic
import Mathlib.Data.List.Induction
import RdfMapping.Evaluation.Join
/-!
What the indexes of a join hold. The index of a rule under a selector gives, for every
text, the positions of the records that have this text as their one value, in order;
and the indexes built for a list of joins are exactly those that the joins ask for.
-/

namespace RdfMapping

/-- A condition holds if the first of the row's values has the text of the one value
that the other record has. -/
def PendingCondition.admits (condition : PendingCondition) (candidate : EvaluatedRecord) : Bool :=
  match condition.childValues, candidate.valuesOf condition.parentPath with
  | child :: _, [value] => child.lexical = value.lexical
  | _, _ => false

def PendingJoin.admits (pending : PendingJoin) (candidate : EvaluatedRecord) : Bool :=
  pending.conditions.all (·.admits candidate)

namespace Join

/-! ### Positions of records -/

def positionsWhere (test : EvaluatedRecord → Bool) (output : RuleOutput) : List Nat :=
  (List.range output.length).filter fun position => output[position]?.any test

theorem mem_positionsWhere {test : EvaluatedRecord → Bool} {output : RuleOutput}
    {position : Nat} :
    position ∈ positionsWhere test output ↔
      ∃ evaluated, output[position]? = some evaluated ∧ test evaluated = true := by
  unfold positionsWhere
  rw [List.mem_filter, List.mem_range, Option.any_eq_true]
  constructor
  · rintro ⟨inside, evaluated, at_, passes⟩
    exact ⟨evaluated, at_, passes⟩
  · rintro ⟨evaluated, at_, passes⟩
    exact ⟨(List.getElem?_eq_some_iff.mp at_).1, evaluated, at_, passes⟩

theorem positionsWhere_concat (test : EvaluatedRecord → Bool) (output : RuleOutput)
    (last : EvaluatedRecord) :
    positionsWhere test (output ++ [last]) =
      positionsWhere test output ++ if test last then [output.length] else [] := by
  unfold positionsWhere
  rw [List.length_append, List.length_singleton, List.range_succ, List.filter_append]
  congr 1
  · apply List.filter_congr
    intro position member
    rw [List.getElem?_append_left (List.mem_range.mp member)]
  · simp [List.filter_cons]

theorem positionsWhere_true {test : EvaluatedRecord → Bool}
    (passes : ∀ evaluated, test evaluated = true) (output : RuleOutput) :
    positionsWhere test output = List.range output.length := by
  apply List.filter_eq_self.mpr
  intro position member
  rw [List.getElem?_eq_getElem (List.mem_range.mp member)]
  exact passes _

theorem filter_contains_positionsWhere (first second : EvaluatedRecord → Bool)
    (output : RuleOutput) :
    (positionsWhere first output).filter (positionsWhere second output).contains =
      positionsWhere (fun evaluated => first evaluated && second evaluated) output := by
  unfold positionsWhere
  rw [List.filter_filter]
  apply List.filter_congr
  intro position member
  have inside := List.mem_range.mp member
  rw [Bool.eq_iff_iff]
  simp [inside, and_comm]

theorem filterMap_positionsWhere {α : Type} (f : EvaluatedRecord → α)
    (test : EvaluatedRecord → Bool) (output : RuleOutput) :
    (positionsWhere test output).filterMap (fun position => output[position]?.map f) =
      (output.filter test).map f := by
  induction output using List.reverseRecOn with
  | nil => rfl
  | append_singleton output last ih =>
      rw [positionsWhere_concat, List.filterMap_append, List.filter_append, List.map_append, ← ih]
      congr 1
      · apply List.filterMap_congr
        intro position member
        obtain ⟨evaluated, at_, _⟩ := mem_positionsWhere.mp member
        rw [List.getElem?_append_left (List.getElem?_eq_some_iff.mp at_).1]
      · cases passes : test last <;> simp [passes]

/-! ### One index -/

theorem map_filter_zipIdx (test : EvaluatedRecord → Bool) (output : RuleOutput) :
    (output.zipIdx.filter fun entry => test entry.1).map Prod.snd = positionsWhere test output := by
  induction output using List.reverseRecOn with
  | nil => rfl
  | append_singleton output last ih =>
      rw [positionsWhere_concat, ← ih, List.zipIdx_append, List.filter_append, List.map_append]
      congr 1
      cases passes : test last <;> simp [passes]

theorem getD_indexOf (path : String) (output : RuleOutput) (key : String) :
    (indexOf path output).getD key [] =
      positionsWhere (fun evaluated => key? path evaluated = some key) output := by
  rw [← map_filter_zipIdx]
  unfold indexOf
  induction output.zipIdx with
  | nil => simp
  | cons entry rest ih =>
      rw [List.foldr_cons, List.filter_cons]
      cases keyed : key? path entry.1 with
      | none => simpa using ih
      | some other =>
          simp only [Std.HashMap.getD_insert, beq_iff_eq, Option.some.injEq, decide_eq_true_eq]
          by_cases same : other = key
          · subst same
            rw [if_pos rfl, if_pos rfl, List.map_cons, ← ih]
          · rw [if_neg same, if_neg same]
            exact ih

/-! ### All indexes -/

def indexesFor (outputs : Array RuleOutput) (joins : List PendingJoin) : Indexes :=
  joins.foldl (indexFor outputs) ∅

/-- Some join of a list compares the records of a rule under a selector. -/
def AskedFor (joins : List PendingJoin) (parent : Nat) (path : String) : Prop :=
  ∃ join ∈ joins, join.parent = parent ∧ path ∈ join.conditions.map PendingCondition.parentPath

instance (joins : List PendingJoin) (parent : Nat) (path : String) :
    Decidable (AskedFor joins parent path) :=
  inferInstanceAs (Decidable (∃ join ∈ joins,
    join.parent = parent ∧ path ∈ join.conditions.map PendingCondition.parentPath))

theorem getElem?_ensureIndex (target : RuleOutput) (parent : Nat) (indexes : Indexes)
    (path : String) (key : Nat × String) :
    (ensureIndex target parent indexes path)[key]? =
      indexes[key]?.or (if key = (parent, path) then some (indexOf path target) else none) := by
  unfold ensureIndex
  by_cases same : key = (parent, path)
  · subst same
    rw [if_pos rfl]
    cases known : indexes[(parent, path)]? with
    | none =>
        have missing : indexes.contains (parent, path) = false := by
          rw [Std.HashMap.contains_eq_isSome_getElem?, known]
          rfl
        rw [missing, if_neg Bool.false_ne_true, Std.HashMap.getElem?_insert_self]
        rfl
    | some index =>
        have present : indexes.contains (parent, path) = true := by
          rw [Std.HashMap.contains_eq_isSome_getElem?, known]
          rfl
        rw [if_pos present, known]
        rfl
  · rw [if_neg same, Option.or_none]
    split
    · rfl
    · rw [Std.HashMap.getElem?_insert, if_neg]
      intro equal
      exact same (eq_of_beq equal).symm

theorem getElem?_foldl_ensureIndex (target : RuleOutput) (parent : Nat) (paths : List String)
    (indexes : Indexes) (key : Nat × String) :
    (paths.foldl (ensureIndex target parent) indexes)[key]? =
      indexes[key]?.or
        (if key.1 = parent ∧ key.2 ∈ paths then some (indexOf key.2 target) else none) := by
  induction paths generalizing indexes with
  | nil => simp
  | cons path rest ih =>
      rw [List.foldl_cons, ih, getElem?_ensureIndex, Option.or_assoc]
      congr 1
      rcases key with ⟨keyParent, keyPath⟩
      by_cases sameParent : keyParent = parent
      · by_cases samePath : keyPath = path
        · simp [sameParent, samePath]
        · simp [sameParent, samePath]
      · simp [sameParent]

theorem getElem?_indexFor (outputs : Array RuleOutput) (indexes : Indexes) (join : PendingJoin)
    (parent : Nat) (path : String) :
    (indexFor outputs indexes join)[(parent, path)]? =
      indexes[(parent, path)]?.or
        (if AskedFor [join] parent path then outputs[parent]?.map (indexOf path) else none) := by
  have asked : AskedFor [join] parent path ↔
      parent = join.parent ∧ path ∈ join.conditions.map PendingCondition.parentPath := by
    unfold AskedFor
    simp [eq_comm]
  unfold indexFor
  cases targetAt : outputs[join.parent]? with
  | none =>
      by_cases same : parent = join.parent
      · subst same
        simp [targetAt]
      · simp [asked, same]
  | some target =>
      simp only [getElem?_foldl_ensureIndex, asked]
      by_cases same : parent = join.parent
      · subst same
        simp [targetAt]
      · simp [same]

theorem getElem?_indexesFor (outputs : Array RuleOutput) (joins : List PendingJoin)
    (parent : Nat) (path : String) :
    (indexesFor outputs joins)[(parent, path)]? =
      if AskedFor joins parent path then outputs[parent]?.map (indexOf path) else none := by
  induction joins using List.reverseRecOn with
  | nil => simp [indexesFor, AskedFor]
  | append_singleton joins join ih =>
      have built : indexesFor outputs (joins ++ [join]) =
          indexFor outputs (indexesFor outputs joins) join := List.foldl_concat ..
      have asked : AskedFor (joins ++ [join]) parent path ↔
          AskedFor joins parent path ∨ AskedFor [join] parent path := by
        unfold AskedFor
        simp [or_and_right, exists_or]
      rw [built, getElem?_indexFor, ih]
      by_cases before : AskedFor joins parent path
      · rw [if_pos before, if_pos (asked.mpr (Or.inl before))]
        cases outputs[parent]? <;> simp
      · rw [if_neg before, Option.none_or]
        by_cases now : AskedFor [join] parent path
        · rw [if_pos now, if_pos (asked.mpr (Or.inr now))]
        · rw [if_neg now, if_neg (fun either => (asked.mp either).elim before now)]

/-! ### Looking up -/

theorem found_indexesFor {outputs : Array RuleOutput} {parent : Nat} {target : RuleOutput}
    (targetAt : outputs[parent]? = some target) (joins : List PendingJoin)
    (condition : PendingCondition) :
    found (indexesFor outputs joins) parent condition =
      if AskedFor joins parent condition.parentPath then positionsWhere condition.admits target
      else [] := by
  have keyed (child : Json) (rest : List Json) (given : condition.childValues = child :: rest) :
      condition.admits =
        fun candidate => decide (key? condition.parentPath candidate = some child.lexical) := by
    funext candidate
    unfold PendingCondition.admits key?
    rw [given]
    rcases candidate.valuesOf condition.parentPath with _ | ⟨value, _ | ⟨second, others⟩⟩
    · simp
    · simp [eq_comm]
    · simp
  unfold found
  rw [getElem?_indexesFor, targetAt]
  cases given : condition.childValues with
  | nil =>
      have nowhere : condition.admits = fun _ => false := by
        funext candidate
        unfold PendingCondition.admits
        rw [given]
      rw [nowhere]
      simp [positionsWhere]
  | cons child rest =>
      by_cases asked : AskedFor joins parent condition.parentPath
      · rw [if_pos asked, if_pos asked]
        exact (getD_indexOf _ _ _).trans (by rw [keyed child rest given])
      · rw [if_neg asked, if_neg asked]

private theorem foldl_filter_nil (rest : List PendingCondition)
    (others : PendingCondition → List Nat) :
    rest.foldl (fun positions next => positions.filter (others next).contains) [] = [] := by
  induction rest with
  | nil => rfl
  | cons next rest ih => exact ih

theorem foldl_found {outputs : Array RuleOutput} {parent : Nat} {target : RuleOutput}
    (targetAt : outputs[parent]? = some target) (joins : List PendingJoin)
    (rest : List PendingCondition) (test : EvaluatedRecord → Bool) :
    rest.foldl
        (fun positions next =>
          positions.filter (found (indexesFor outputs joins) parent next).contains)
        (positionsWhere test target) =
      if ∀ condition ∈ rest, AskedFor joins parent condition.parentPath then
        positionsWhere (fun candidate => test candidate && rest.all (·.admits candidate)) target
      else [] := by
  induction rest generalizing test with
  | nil => simp
  | cons next rest ih =>
      rw [List.foldl_cons, found_indexesFor targetAt]
      by_cases asked : AskedFor joins parent next.parentPath
      · rw [if_pos asked, filter_contains_positionsWhere, ih]
        simp [asked, Bool.and_assoc]
      · rw [if_neg asked, if_neg (fun all => asked (all next List.mem_cons_self))]
        have nothing : (positionsWhere test target).filter ([] : List Nat).contains = [] := by simp
        rw [nothing]
        exact foldl_filter_nil rest _

/-- A join finds nothing as long as one of the indexes that it needs is missing. -/
theorem positions_indexesFor {outputs : Array RuleOutput} {pending : PendingJoin}
    {target : RuleOutput} (targetAt : outputs[pending.parent]? = some target)
    (conditional : pending.conditions ≠ []) (joins : List PendingJoin) :
    positions (indexesFor outputs joins) pending =
      if ∀ condition ∈ pending.conditions, AskedFor joins pending.parent condition.parentPath then
        positionsWhere pending.admits target
      else [] := by
  unfold positions PendingJoin.admits
  cases conditions : pending.conditions with
  | nil => exact absurd conditions conditional
  | cons condition rest =>
      simp only [List.all_cons]
      rw [found_indexesFor targetAt]
      by_cases asked : AskedFor joins pending.parent condition.parentPath
      · rw [if_pos asked]
        exact (foldl_found targetAt joins rest _).trans (by simp [asked])
      · rw [if_neg asked, if_neg (fun all => asked (all condition List.mem_cons_self))]
        exact foldl_filter_nil rest _

end Join

end RdfMapping
