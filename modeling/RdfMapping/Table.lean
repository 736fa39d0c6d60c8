/-!
Tables with text keys, kept as lists in increasing order of the keys, each key at
most once. Two tables with the same entries are therefore the same list. Keys
are ordered by code points.
-/

namespace RdfMapping.Table

variable {α : Type}

def get? (key : String) : List (String × α) → Option α
  | [] => none
  | (k, value) :: rest => if k = key then some value else get? key rest

def contains (key : String) (table : List (String × α)) : Bool :=
  (get? key table).isSome

/-- The table with the value of one key computed anew from the old one. -/
def alter (key : String) (f : Option α → α) : List (String × α) → List (String × α)
  | [] => [(key, f none)]
  | (k, value) :: rest =>
      if key < k then (key, f none) :: (k, value) :: rest
      else if k = key then (key, f (some value)) :: rest
      else (k, value) :: alter key f rest

def insert (key : String) (value : α) (table : List (String × α)) : List (String × α) :=
  alter key (fun _ => value) table

/-- The table of a list of entries, the last entry of a key winning. -/
def ofList (entries : List (String × α)) : List (String × α) :=
  entries.foldl (fun table entry => insert entry.1 entry.2 table) []

/-! ### Order and lookup -/

def Sorted (table : List (String × α)) : Prop :=
  table.Pairwise fun left right => left.1 < right.1

instance (table : List (String × α)) : Decidable (Sorted table) :=
  inferInstanceAs (Decidable (table.Pairwise fun left right => left.1 < right.1))

theorem get?_eq_none_of_lt {key : String} {table : List (String × α)}
    (before : ∀ entry ∈ table, key < entry.1) : get? key table = none := by
  induction table with
  | nil => rfl
  | cons entry rest ih =>
      have apart : ¬ entry.1 = key := fun same =>
        String.lt_irrefl key (same ▸ before entry (by simp))
      unfold get?
      rw [if_neg apart]
      exact ih fun e member => before e (by simp [member])

theorem mem_alter {key : String} {f : Option α → α} {table : List (String × α)}
    {entry : String × α} (member : entry ∈ alter key f table) :
    entry.1 = key ∨ entry ∈ table := by
  induction table with
  | nil => simp [alter] at member; exact Or.inl (by simp [member])
  | cons first rest ih =>
      unfold alter at member
      split at member
      · simp at member; rcases member with same | same | later
        · exact Or.inl (by simp [same])
        · exact Or.inr (by simp [same])
        · exact Or.inr (by simp [later])
      · split at member
        · simp at member; rcases member with same | later
          · exact Or.inl (by simp [same])
          · exact Or.inr (by simp [later])
        · simp at member; rcases member with same | later
          · exact Or.inr (by simp [same])
          · rcases ih later with here | there
            · exact Or.inl here
            · exact Or.inr (by simp [there])

theorem value_of_mem_alter {key : String} {f : Option α → α} {table : List (String × α)}
    {entry : String × α} (member : entry ∈ alter key f table) :
    entry ∈ table ∨ entry.1 = key ∧
      (entry.2 = f none ∨ ∃ old, (key, old) ∈ table ∧ entry.2 = f (some old)) := by
  induction table with
  | nil =>
      rw [List.mem_singleton.mp member]
      exact Or.inr ⟨rfl, Or.inl rfl⟩
  | cons first rest ih =>
      unfold alter at member
      split at member
      · rcases List.mem_cons.mp member with here | later
        · rw [here]
          exact Or.inr ⟨rfl, Or.inl rfl⟩
        · exact Or.inl later
      · split at member
        · next same =>
            rcases List.mem_cons.mp member with here | later
            · rw [here, ← same]
              exact Or.inr ⟨rfl, Or.inr ⟨first.2, List.mem_cons_self, rfl⟩⟩
            · exact Or.inl (List.mem_cons_of_mem _ later)
        · rcases List.mem_cons.mp member with here | later
          · rw [here]
            exact Or.inl List.mem_cons_self
          · rcases ih later with known | ⟨same, fresh | ⟨old, oldMember, value⟩⟩
            · exact Or.inl (List.mem_cons_of_mem _ known)
            · exact Or.inr ⟨same, Or.inl fresh⟩
            · exact Or.inr ⟨same, Or.inr ⟨old, List.mem_cons_of_mem _ oldMember, value⟩⟩

theorem sorted_alter {key : String} {f : Option α → α} {table : List (String × α)}
    (sorted : Sorted table) : Sorted (alter key f table) := by
  induction table with
  | nil => simp [alter, Sorted]
  | cons first rest ih =>
      have parts := List.pairwise_cons.1 sorted
      unfold alter
      split
      · next before =>
          refine List.pairwise_cons.2 ⟨fun entry member => ?_, sorted⟩
          rcases List.mem_cons.1 member with rfl | later
          · exact before
          · exact String.lt_trans before (parts.1 entry later)
      · split
        · next same => exact List.pairwise_cons.2 ⟨fun e m => same ▸ parts.1 e m, parts.2⟩
        · next before apart =>
            refine List.pairwise_cons.2 ⟨fun entry member => ?_, ih parts.2⟩
            rcases mem_alter member with same | there
            · rw [same]
              exact Std.lt_of_le_of_ne (String.not_lt.1 before) apart
            · exact parts.1 entry there

theorem get?_alter {key other : String} {f : Option α → α} {table : List (String × α)}
    (sorted : Sorted table) :
    get? other (alter key f table) =
      if key = other then some (f (get? key table)) else get? other table := by
  induction table with
  | nil => simp [alter, get?]
  | cons first rest ih =>
      have parts := List.pairwise_cons.1 sorted
      unfold alter
      split
      · next before =>
          have missing : get? key (first :: rest) = none := get?_eq_none_of_lt fun e member => by
            rcases List.mem_cons.1 member with rfl | later
            · exact before
            · exact String.lt_trans before (parts.1 e later)
          rw [missing]
          rfl
      · split
        · next same =>
            subst same
            simp only [get?, if_true]
            split <;> rfl
        · next before apart =>
            rw [get?, ih parts.2]
            by_cases same : key = other
            · subst same
              simp [get?, apart]
            · simp [get?, same]

theorem alter_comm_of_lt {key other : String} (before : key < other) (f g : Option α → α)
    (table : List (String × α)) :
    alter key f (alter other g table) = alter other g (alter key f table) := by
  have notAfter := String.lt_asymm before
  have apart : key ≠ other := by
    rintro rfl
    exact String.lt_irrefl key before
  induction table with
  | nil => simp only [alter, if_pos before, if_neg notAfter, if_neg apart]
  | cons entry rest ih =>
      obtain ⟨name, value⟩ := entry
      by_cases first : key < name
      · rw [alter.eq_2 key f name, if_pos first, alter.eq_2 other g key, if_neg notAfter,
          if_neg apart, alter.eq_2 other g name]
        split
        · rw [alter, if_pos before]
        · split
          · rw [alter, if_pos before]
          · rw [alter, if_pos first]
      · by_cases same : name = key
        · subst same
          simp only [alter, if_neg notAfter, if_neg apart, if_neg first, if_true]
        · have earlier : name < key := Std.lt_of_le_of_ne (String.not_lt.1 first) same
          have also := String.lt_trans earlier before
          have different : name ≠ other := by
            rintro rfl
            exact String.lt_irrefl name also
          simp only [alter, if_neg first, if_neg same, if_neg (String.lt_asymm also),
            if_neg different, ih]

theorem alter_comm {key other : String} (apart : key ≠ other) (f g : Option α → α)
    (table : List (String × α)) :
    alter key f (alter other g table) = alter other g (alter key f table) := by
  rcases Std.lt_trichotomy key other with before | same | after
  · exact alter_comm_of_lt before f g table
  · exact absurd same apart
  · exact (alter_comm_of_lt after g f table).symm

theorem sorted_insert {key : String} {value : α} {table : List (String × α)}
    (sorted : Sorted table) : Sorted (insert key value table) := sorted_alter sorted

theorem get?_insert {key other : String} {value : α} {table : List (String × α)}
    (sorted : Sorted table) :
    get? other (insert key value table) = if key = other then some value else get? other table :=
  get?_alter sorted

theorem sorted_ofList (entries : List (String × α)) : Sorted (ofList entries) := by
  suffices step : ∀ table : List (String × α), Sorted table →
      Sorted (entries.foldl (fun table entry => insert entry.1 entry.2 table) table) from
    step [] List.Pairwise.nil
  induction entries with
  | nil => exact fun _ sorted => sorted
  | cons entry rest ih => exact fun table sorted => ih _ (sorted_insert sorted)

theorem get?_ofList (entries : List (String × α)) (key : String) :
    get? key (ofList entries) = entries.reverse.lookup key := by
  suffices step : ∀ table : List (String × α), Sorted table →
      get? key (entries.foldl (fun table entry => insert entry.1 entry.2 table) table) =
        (entries.reverse.lookup key).or (get? key table) by
    have whole := step [] List.Pairwise.nil
    rw [get?, Option.or_none] at whole
    exact whole
  induction entries with
  | nil => exact fun _ _ => rfl
  | cons entry rest ih =>
      intro table sorted
      rw [List.foldl_cons, ih _ (sorted_insert sorted), get?_insert sorted, List.reverse_cons,
        List.lookup_append, Option.or_assoc, List.lookup_cons, List.lookup_nil]
      by_cases same : entry.1 = key
      · rw [if_pos same, same, beq_self_eq_true]
        rfl
      · rw [if_neg same, beq_false_of_ne (Ne.symm same)]
        rfl

theorem get?_ofList_of_mem {entries : List (String × α)} (distinct : (entries.map Prod.fst).Nodup)
    {entry : String × α} (member : entry ∈ entries) :
    get? entry.1 (ofList entries) = some entry.2 := by
  obtain ⟨before, after, rfl⟩ := List.append_of_mem member
  rw [List.map_append, List.map_cons, List.nodup_append, List.nodup_cons] at distinct
  rw [get?_ofList, List.lookup_eq_some_iff]
  refine ⟨after.reverse, before.reverse, by simp, ?_⟩
  intro other later
  apply bne_iff_ne.mpr
  intro same
  apply distinct.2.1.1
  rw [same]
  exact List.mem_map_of_mem (List.mem_reverse.mp later)

theorem nodup_keys {table : List (String × α)} (sorted : Sorted table) :
    (table.map Prod.fst).Nodup := by
  rw [List.Nodup, List.pairwise_map]
  apply List.Pairwise.imp _ sorted
  intro left right before same
  rw [same] at before
  exact String.lt_irrefl _ before

theorem get?_eq_some_iff {table : List (String × α)} (sorted : Sorted table) {key : String}
    {value : α} : get? key table = some value ↔ (key, value) ∈ table := by
  induction table with
  | nil => simp [get?]
  | cons entry rest ih =>
      have parts := List.pairwise_cons.1 sorted
      unfold get?
      by_cases same : entry.1 = key
      · have later : (key, value) ∉ rest := by
          intro member
          have before := parts.1 _ member
          rw [same] at before
          exact String.lt_irrefl key before
        rw [if_pos same, List.mem_cons, or_iff_left later, Option.some_inj, Prod.ext_iff, same]
        simp [eq_comm]
      · have apart : (key, value) ≠ entry := fun equal => same (congrArg Prod.fst equal.symm)
        rw [if_neg same, ih parts.2, List.mem_cons, or_iff_right apart]

end RdfMapping.Table
