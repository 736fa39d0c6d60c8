import RdfMapping.Proofs.Record.Statements
/-!
Statements in another order. A record keeps apart what is stated under different predicates,
and so only the order under each predicate counts.
-/

namespace RdfMapping

section

variable {α β : Type} {key : α → String}

/-- The elements of every key are the same in both lists, in the same order. -/
def SameByKey (key : α → String) (left right : List α) : Prop :=
  ∀ wanted, left.filter (key · = wanted) = right.filter (key · = wanted)

theorem SameByKey.refl (key : α → String) (items : List α) : SameByKey key items items :=
  fun _ => rfl

theorem SameByKey.append {left right further others : List α} (first : SameByKey key left right)
    (second : SameByKey key further others) :
    SameByKey key (left ++ further) (right ++ others) := by
  intro wanted
  rw [List.filter_append, List.filter_append, first, second]

theorem filter_key_self (key : α → String) (first : α) (rest : List α) :
    (first :: rest).filter (key · = key first) =
      first :: rest.filter (key · = key first) :=
  List.filter_cons_of_pos (decide_eq_true rfl)

/-- The first element of one list stands in the other one behind elements of other keys. -/
theorem SameByKey.exists_split {first : α} {rest right : List α}
    (same : SameByKey key (first :: rest) right) :
    ∃ before after, right = before ++ first :: after ∧ (∀ a ∈ before, key a ≠ key first) ∧
      SameByKey key rest (before ++ after) := by
  have found := (same (key first)).symm
  rw [filter_key_self, List.filter_eq_cons_iff] at found
  obtain ⟨before, after, rfl, others, _, later⟩ := found
  have apart : ∀ a ∈ before, key a ≠ key first := by
    intro a member
    simpa using others a member
  refine ⟨before, after, rfl, apart, ?_⟩
  intro wanted
  have under := same wanted
  rw [List.filter_append] at under ⊢
  by_cases here : key first = wanted
  · have none : before.filter (key · = wanted) = [] := by
      rw [List.filter_eq_nil_iff]
      intro a member
      rw [decide_eq_true_eq, ← here]
      exact apart a member
    rw [none, ← here, List.nil_append]
    exact later.symm
  · rw [List.filter_cons_of_neg (by simpa using here),
      List.filter_cons_of_neg (by simpa using here)] at under
    exact under

theorem SameByKey.perm {left right : List α} (same : SameByKey key left right) :
    left.Perm right := by
  induction left generalizing right with
  | nil =>
      cases right with
      | nil => exact .nil
      | cons first rest =>
          have absent := same (key first)
          rw [filter_key_self] at absent
          cases absent
  | cons first rest ih =>
      obtain ⟨before, after, rfl, _, later⟩ := same.exists_split
      exact ((ih later).cons first).trans List.perm_middle.symm

section

variable {step : β → α → β}
  (comm : ∀ b first second, key first ≠ key second →
    step (step b first) second = step (step b second) first)
include comm

theorem foldl_step_of_apart {first : α} {before : List α}
    (apart : ∀ a ∈ before, key a ≠ key first) (b : β) :
    step (before.foldl step b) first = before.foldl step (step b first) := by
  induction before generalizing b with
  | nil => rfl
  | cons a rest ih =>
      obtain ⟨here, later⟩ := List.forall_mem_cons.mp apart
      rw [List.foldl_cons, List.foldl_cons, ih later, comm b a first here]

/-- Where steps of different keys commute, only the order under each key counts. -/
theorem SameByKey.foldl_eq {left right : List α} (same : SameByKey key left right) (b : β) :
    left.foldl step b = right.foldl step b := by
  induction left generalizing right b with
  | nil => rw [List.Perm.nil_eq same.perm]
  | cons first rest ih =>
      obtain ⟨before, after, rfl, apart, later⟩ := same.exists_split
      rw [List.foldl_append, List.foldl_cons, List.foldl_cons, foldl_step_of_apart comm apart,
        ih later, List.foldl_append]

end

end

namespace Record

theorem add_comm {predicate other : String} (apart : predicate ≠ other) (record : Record)
    (first second : ObjectValue) :
    (record.add predicate first).add other second =
      (record.add other second).add predicate first :=
  congrArg (Record.mk record.id record.types) (Table.alter_comm apart.symm _ _ _)

theorem add_addType (record : Record) (predicate type : String) (value : ObjectValue) :
    (record.addType type).add predicate value = (record.add predicate value).addType type := by
  unfold addType
  split
  · next known => exact (if_pos known).symm
  · next unknown => exact (if_neg unknown).symm

theorem add_foldl_addType (types : List String) (record : Record) (predicate : String)
    (value : ObjectValue) :
    (types.foldl addType record).add predicate value =
      types.foldl addType (record.add predicate value) := by
  induction types generalizing record with
  | nil => rfl
  | cons type rest ih => rw [List.foldl_cons, List.foldl_cons, ih, add_addType]

theorem state_comm (record : Record) (first second : Statement) (apart : first.1 ≠ second.1) :
    (record.state first).state second = (record.state second).state first := by
  unfold state
  by_cases type : first.1 = Vocabulary.rdfType
  · have other : second.1 ≠ Vocabulary.rdfType := fun same => apart (type.trans same.symm)
    rw [if_pos type, if_neg other, if_neg other, if_pos type, add_foldl_addType]
  · rw [if_neg type, if_neg type]
    split
    · rw [add_foldl_addType]
    · exact add_comm apart record _ _

theorem foldl_state_of_sameByKey {statements others : List Statement}
    (same : SameByKey Prod.fst statements others) (record : Record) :
    statements.foldl state record = others.foldl state record :=
  same.foldl_eq state_comm record

end Record

end RdfMapping
