import Mathlib.Data.List.Forall2
import RdfMapping.Error
/-!
Outcomes that succeed, and the errors of those that fail. A sequence of computations
succeeds exactly if each of them does, and fails with an error of one of them. Two
outcomes match if both fail, whatever their errors are, or both succeed with values that
are related.
-/

namespace RdfMapping.Outcome

variable {α β : Type}

theorem bind_eq_ok {x : Outcome α} {f : α → Outcome β} {b : β} :
    x >>= f = .ok b ↔ ∃ a, x = .ok a ∧ f a = .ok b := by
  cases x with
  | error e =>
      constructor
      · intro success
        cases success
      · rintro ⟨a, failed, _⟩
        cases failed
  | ok a =>
      constructor
      · intro success
        exact ⟨a, rfl, success⟩
      · rintro ⟨_, ⟨⟩, success⟩
        exact success

theorem map_eq_ok {ε : Type} {x : Except ε α} {f : α → β} {b : β} :
    x.map f = .ok b ↔ ∃ a, x = .ok a ∧ f a = b := by
  cases x with
  | error e => simp [Except.map]
  | ok a => simp [Except.map]

theorem mapM_eq_ok {f : α → Outcome β} {items : List α} {results : List β} :
    items.mapM f = .ok results ↔ List.Forall₂ (fun a b => f a = .ok b) items results := by
  induction items generalizing results with
  | nil =>
      rw [List.mapM_nil, List.forall₂_nil_left_iff]
      exact ⟨fun success => (Except.ok.inj success).symm, fun same => congrArg Except.ok same.symm⟩
  | cons a rest ih =>
      rw [List.mapM_cons, bind_eq_ok, List.forall₂_cons_left_iff]
      constructor
      · rintro ⟨b, first, later⟩
        obtain ⟨bs, others, same⟩ := bind_eq_ok.mp later
        exact ⟨b, bs, first, ih.mp others, (Except.ok.inj same).symm⟩
      · rintro ⟨b, bs, first, others, rfl⟩
        exact ⟨b, first, bind_eq_ok.mpr ⟨bs, ih.mpr others, rfl⟩⟩

theorem exists_of_mem_left {related : α → β → Prop} {items : List α} {results : List β}
    (each : List.Forall₂ related items results) {a : α} (member : a ∈ items) :
    ∃ b ∈ results, related a b := by
  induction each with
  | nil => cases member
  | @cons first b _ _ step _ ih =>
      rcases List.mem_cons.mp member with here | later
      · rw [here]
        exact ⟨b, List.mem_cons_self, step⟩
      · obtain ⟨other, otherMember, given⟩ := ih later
        exact ⟨other, List.mem_cons_of_mem _ otherMember, given⟩

theorem exists_of_mem_right {related : α → β → Prop} {items : List α} {results : List β}
    (each : List.Forall₂ related items results) {b : β} (member : b ∈ results) :
    ∃ a ∈ items, related a b :=
  exists_of_mem_left each.flip member

theorem exists_of_mem_mapM {f : α → Outcome β} {items : List α} {results : List β} {b : β}
    (success : items.mapM f = .ok results) (member : b ∈ results) : ∃ a ∈ items, f a = .ok b :=
  exists_of_mem_right (mapM_eq_ok.mp success) member

theorem map_of_mapM_eq_ok {γ : Type} {f : α → Outcome β} {given : α → γ} {kept : β → γ}
    (each : ∀ a b, f a = .ok b → kept b = given a) {items : List α} {results : List β}
    (success : items.mapM f = .ok results) : results.map kept = items.map given := by
  have steps := mapM_eq_ok.mp success
  clear success
  induction steps with
  | nil => rfl
  | cons first _ ih => rw [List.map_cons, List.map_cons, ih, each _ _ first]

theorem exists_mapM_eq_ok_iff {f : α → Outcome β} {items : List α} :
    (∃ results, items.mapM f = .ok results) ↔ ∀ a ∈ items, ∃ b, f a = .ok b := by
  induction items with
  | nil =>
      constructor
      · intro _ a member
        cases member
      · intro _
        exact ⟨[], rfl⟩
  | cons a rest ih =>
      rw [List.forall_mem_cons, ← ih]
      constructor
      · rintro ⟨results, success⟩
        rw [List.mapM_cons] at success
        obtain ⟨b, first, later⟩ := bind_eq_ok.mp success
        obtain ⟨bs, others, _⟩ := bind_eq_ok.mp later
        exact ⟨⟨b, first⟩, bs, others⟩
      · rintro ⟨⟨b, first⟩, bs, others⟩
        refine ⟨b :: bs, ?_⟩
        rw [List.mapM_cons, bind_eq_ok]
        exact ⟨b, first, bind_eq_ok.mpr ⟨bs, others, rfl⟩⟩

theorem rel_getElem? {α β : Type} {related : α → β → Prop} {items : List α} {others : List β}
    (each : List.Forall₂ related items others) (index : Nat) :
    Option.Rel related items[index]? others[index]? := by
  induction each generalizing index with
  | nil => exact .none
  | cons first _ ih =>
      cases index with
      | zero => exact .some first
      | succ index => exact ih index

theorem forall₂_set {α : Type} {related : α → α → Prop} (refl : ∀ a, related a a)
    {items : List α} {index : Nat} {a b : α} (here : items[index]? = some a)
    (replaced : related a b) : List.Forall₂ related items (items.set index b) := by
  induction items generalizing index with
  | nil => cases here
  | cons first rest ih =>
      cases index with
      | zero =>
          cases here
          exact .cons replaced (List.forall₂_same.mpr fun a _ => refl a)
      | succ index => exact .cons (refl first) (ih here)

theorem of_forall₂_range {related : Nat → α → Prop} {count : Nat} {results : List α}
    (each : List.Forall₂ related (List.range count) results) :
    results.length = count ∧
      ∀ (index : Nat) (result : α), results[index]? = some result → related index result := by
  have length : results.length = count := by
    rw [← each.length_eq, List.length_range]
  refine ⟨length, ?_⟩
  intro index result found
  obtain ⟨bound, same⟩ := List.getElem?_eq_some_iff.mp found
  have inside : index < (List.range count).length := by
    rw [List.length_range, ← length]
    exact bound
  have here := each.get inside bound
  rw [List.get_eq_getElem, List.get_eq_getElem, List.getElem_range, same] at here
  exact here

/-! ### Errors -/

instance (x : Outcome α) (e : MappingError) : Decidable (x = .error e) :=
  match x with
  | .ok _ => isFalse nofun
  | .error other => decidable_of_iff (other = e) ⟨congrArg Except.error, Except.error.inj⟩

/-- Every error of an outcome is an admitted one. -/
def FailsWithin (admitted : MappingError → Prop) (x : Outcome α) : Prop :=
  ∀ e, x = .error e → admitted e

section

variable {admitted : MappingError → Prop}

theorem failsWithin_ok (a : α) : FailsWithin admitted (.ok a) := by
  intro e failed
  cases failed

theorem failsWithin_error {e : MappingError} (fine : admitted e) :
    FailsWithin (α := α) admitted (.error e) := by
  rintro _ ⟨⟩
  exact fine

theorem FailsWithin.mono {further : MappingError → Prop} {x : Outcome α}
    (fails : FailsWithin admitted x) (more : ∀ e, admitted e → further e) :
    FailsWithin further x :=
  fun e failed => more e (fails e failed)

theorem FailsWithin.bind {x : Outcome α} {f : α → Outcome β} (first : FailsWithin admitted x)
    (next : ∀ a, FailsWithin admitted (f a)) : FailsWithin admitted (x >>= f) := by
  cases x with
  | error e => exact failsWithin_error (first e rfl)
  | ok a => exact next a

theorem FailsWithin.map {x : Outcome α} (fails : FailsWithin admitted x) (f : α → β) :
    FailsWithin admitted (x.map f) := by
  cases x with
  | error e => exact failsWithin_error (fails e rfl)
  | ok a => exact failsWithin_ok (f a)

theorem failsWithin_mapM {f : α → Outcome β} (each : ∀ a, FailsWithin admitted (f a))
    (items : List α) : FailsWithin admitted (items.mapM f) := by
  induction items with
  | nil => exact failsWithin_ok []
  | cons a rest ih =>
      rw [List.mapM_cons]
      exact (each a).bind fun b => ih.bind fun bs => failsWithin_ok (b :: bs)

end

/-! ### Outcomes that match -/

/-- Both outcomes fail, or both succeed with related values. -/
inductive Matches (related : α → β → Prop) : Outcome α → Outcome β → Prop
  | error (e other : MappingError) : Matches related (.error e) (.error other)
  | ok {a : α} {b : β} : related a b → Matches related (.ok a) (.ok b)

section

variable {γ δ : Type} {related : α → β → Prop} {further : γ → δ → Prop}

theorem Matches.refl (x : Outcome α) : Matches Eq x x := by
  cases x with
  | error e => exact .error e e
  | ok a => exact .ok rfl

theorem Matches.mono {weaker : α → β → Prop} {x : Outcome α} {y : Outcome β}
    (same : Matches related x y) (more : ∀ a b, related a b → weaker a b) :
    Matches weaker x y := by
  cases same with
  | error e other => exact .error e other
  | ok same => exact .ok (more _ _ same)

theorem Matches.bind {x : Outcome α} {y : Outcome β} {f : α → Outcome γ} {g : β → Outcome δ}
    (first : Matches related x y) (next : ∀ a b, related a b → Matches further (f a) (g b)) :
    Matches further (x >>= f) (y >>= g) := by
  cases first with
  | error e other => exact .error e other
  | ok same => exact next _ _ same

theorem Matches.mapM {f : α → Outcome γ} {g : β → Outcome δ} {items : List α} {others : List β}
    (each : List.Forall₂ (fun a b => Matches further (f a) (g b)) items others) :
    Matches (List.Forall₂ further) (items.mapM f) (others.mapM g) := by
  induction each with
  | nil => exact .ok .nil
  | cons first _ ih =>
      rw [List.mapM_cons, List.mapM_cons]
      exact first.bind fun c d same => ih.bind fun cs ds rest => .ok (.cons same rest)

theorem Matches.foldlM {f : α → γ → Outcome α} {g : β → γ → Outcome β}
    (step : ∀ a b c, related a b → Matches related (f a c) (g b c)) (items : List γ) {a : α} {b : β}
    (same : related a b) : Matches related (items.foldlM f a) (items.foldlM g b) := by
  induction items generalizing a b with
  | nil => exact .ok same
  | cons c rest ih =>
      rw [List.foldlM_cons, List.foldlM_cons]
      exact (step a b c same).bind fun _ _ => ih

theorem Matches.of_exists_iff {x : Outcome α} {y : Outcome β}
    (both : (∃ a, x = .ok a) ↔ ∃ b, y = .ok b)
    (same : ∀ a b, x = .ok a → y = .ok b → related a b) : Matches related x y := by
  cases x with
  | error e =>
      cases y with
      | error other => exact .error e other
      | ok b =>
          obtain ⟨a, success⟩ := both.mpr ⟨b, rfl⟩
          cases success
  | ok a =>
      cases y with
      | error other =>
          obtain ⟨b, success⟩ := both.mp ⟨a, rfl⟩
          cases success
      | ok b => exact .ok (same a b rfl rfl)

theorem Matches.with_values {x : Outcome α} {y : Outcome β} (same : Matches related x y) :
    Matches (fun a b => x = .ok a ∧ y = .ok b ∧ related a b) x y := by
  cases same with
  | error e other => exact .error e other
  | ok same => exact .ok ⟨rfl, rfl, same⟩

theorem Matches.ok_or_error {x : Outcome α} {y : Outcome β} (same : Matches related x y) :
    (∃ a b, x = .ok a ∧ y = .ok b ∧ related a b) ∨ (∃ e, x = .error e) ∧ ∃ e, y = .error e := by
  cases same with
  | error e other => exact .inr ⟨⟨e, rfl⟩, other, rfl⟩
  | ok same => exact .inl ⟨_, _, rfl, rfl, same⟩

theorem Matches.exists_iff {x : Outcome α} {y : Outcome β} (same : Matches related x y) :
    (∃ a, x = .ok a) ↔ ∃ b, y = .ok b := by
  cases same with
  | error e other => simp
  | ok related => simp

end

/-! ### Folds over answers -/

section

variable {α β γ δ ρ : Type} {given : α → Outcome γ}

theorem foldlM_of_answers {step : β → α → γ → β} {answer : α → γ} (items : List α)
    (each : ∀ a ∈ items, given a = .ok (answer a)) (b : β) :
    items.foldlM (fun b a => return step b a (← given a)) b =
      (.ok (items.foldl (fun b a => step b a (answer a)) b) : Outcome β) := by
  induction items generalizing b with
  | nil => rfl
  | cons a rest ih =>
      obtain ⟨here, later⟩ := List.forall_mem_cons.mp each
      rw [List.foldlM_cons, here]
      exact ih later _

theorem exists_error_of_mem (step : β → α → γ → β) {items : List α} {a : α} (member : a ∈ items)
    {e : MappingError} (failed : given a = .error e) (b : β) :
    ∃ e, items.foldlM (fun b a => return step b a (← given a)) b = (.error e : Outcome β) := by
  induction items generalizing b with
  | nil => cases member
  | cons first rest ih =>
      rw [List.foldlM_cons]
      cases here : given first with
      | error e => exact ⟨e, rfl⟩
      | ok c =>
          rcases List.mem_cons.mp member with rfl | later
          · rw [failed] at here
            cases here
          · exact ih later _

/-- Two folds that ask for the same answers, however often and in whatever order, match if
their results do for all answers. -/
theorem Matches.foldlM_answers [Nonempty γ] {givenOther : δ → Outcome γ} {asks : δ → α}
    (same : ∀ d, Matches Eq (given (asks d)) (givenOther d)) {items : List α} {others : List δ}
    (asked : ∀ a, a ∈ items ↔ ∃ d ∈ others, asks d = a) {step : β → α → γ → β}
    {stepOther : ρ → δ → γ → ρ}
    {related : β → ρ → Prop} {b : β} {r : ρ}
    (folds : ∀ answer : α → γ, related (items.foldl (fun b a => step b a (answer a)) b)
      (others.foldl (fun r d => stepOther r d (answer (asks d))) r)) :
    Matches related (items.foldlM (fun b a => return step b a (← given a)) b)
      (others.foldlM (fun r d => return stepOther r d (← givenOther d)) r) := by
  by_cases every : ∀ a ∈ items, ∃ c, given a = .ok c
  · choose! answer each using every
    have eachOther : ∀ d ∈ others, givenOther d = .ok (answer (asks d)) := by
      intro d member
      have both := same d
      rw [each (asks d) ((asked _).mpr ⟨d, member, rfl⟩)] at both
      generalize givenOther d = found at both
      cases both with
      | ok equal => rw [equal]
    rw [foldlM_of_answers items each, foldlM_of_answers others eachOther]
    exact .ok (folds answer)
  · push Not at every
    obtain ⟨a, member, fails⟩ := every
    obtain ⟨d, otherMember, rfl⟩ := (asked a).mp member
    rcases (same d).ok_or_error with ⟨c, _, success, _⟩ | ⟨⟨e, failed⟩, f, failedOther⟩
    · exact absurd success (fails c)
    · obtain ⟨e, left⟩ := exists_error_of_mem step member failed b
      obtain ⟨f, right⟩ := exists_error_of_mem stepOther otherMember failedOther r
      rw [left, right]
      exact .error e f

end

end RdfMapping.Outcome
