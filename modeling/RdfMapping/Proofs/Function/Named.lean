import Mathlib.Data.List.Perm.Subperm
import Mathlib.Tactic.TFAE
import RdfMapping.Proofs.Function.Reading
/-!
Calls of the library by name. A value under the key of a parameter goes to that parameter. But it
has a position as well, and a parameter that is not given takes what stands at its own position,
under whatever key it was given there. Nothing is mixed up exactly if the parameters that are
given are the first ones of the function, in any order among themselves.
-/

namespace RdfMapping.Library

open Vocabulary (grel)

/-- A call reads its arguments by their names: a parameter takes the value that it was given, and
none if it was given none; the result is that of the same values under the same names at no
position; and the order in which the values are given does not matter. -/
structure ReadsByName (function : Arguments → Outcome Json) (parameters : List String)
    (entries : List (String × Json)) : Prop where
  takes : ∀ position key, parameters[position]? = some key →
    argument? (given entries) key position =
      (entries.lookup key).filter fun value => !value.isNull
  named : function (given entries) = function (given entries).byName
  order : ∀ others, others.Perm entries → function (given others) = function (given entries)

/-! ### The first parameters of a function -/

section Positions

variable {parameters keys : List String}

theorem length_le_of_first (first : keys.Perm (parameters.take keys.length)) {position : Nat}
    {key : String} (here : parameters[position]? = some key) (absent : key ∉ keys) :
    keys.length ≤ position := by
  by_contra inside
  apply absent
  rw [first.mem_iff, List.mem_take_iff_getElem]
  obtain ⟨bound, same⟩ := List.getElem?_eq_some_iff.mp here
  exact ⟨position, by omega, same⟩

theorem exists_gap (apart : parameters.Nodup) (distinct : keys.Nodup) (own : keys ⊆ parameters)
    (other : ¬ keys.Perm (parameters.take keys.length)) :
    ∃ position key, parameters[position]? = some key ∧ key ∉ keys ∧ position < keys.length ∧
      keys.length < parameters.length := by
  have short := distinct.length_le_of_subset own
  have reached : ¬ parameters.take keys.length ⊆ keys := by
    intro inside
    have within := List.subperm_of_subset (apart.sublist (List.take_sublist _ _)) inside
    exact other (within.perm_of_length_le (by rw [List.length_take]; omega)).symm
  obtain ⟨key, taken, absent⟩ : ∃ key ∈ parameters.take keys.length, key ∉ keys := by
    simpa [List.subset_def] using reached
  obtain ⟨position, bound, rfl⟩ := List.mem_take_iff_getElem.mp taken
  have room : keys.length ≠ parameters.length := by
    intro full
    have whole := (List.subperm_of_subset distinct own).perm_of_length_le (Nat.le_of_eq full.symm)
    exact absent (whole.mem_iff.mpr (List.getElem_mem _))
  exact ⟨position, _, List.getElem?_eq_getElem (by omega), absent, by omega, by omega⟩

end Positions

theorem nodup_parametersOf (name : String) : (parametersOf name).Nodup := by
  unfold parametersOf
  split <;> decide

section First

variable {name : String} {function : Arguments → Outcome Json} {entries : List (String × Json)}

theorem argument?_of_first (distinct : (entries.map Prod.fst).Nodup)
    (first : (entries.map Prod.fst).Perm ((parametersOf name).take entries.length))
    {position : Nat} {key : String} (here : (parametersOf name)[position]? = some key) :
    argument? (given entries) key position =
      (entries.lookup key).filter fun value => !value.isNull := by
  rw [argument?_given distinct]
  by_cases member : key ∈ entries.map Prod.fst
  · obtain ⟨value, found⟩ := exists_lookup_of_mem distinct member
    rw [found, Option.some_or]
  · have behind : entries.length ≤ position := by
      rw [← List.length_map Prod.fst] at first ⊢
      exact length_le_of_first first here member
    rw [List.getElem?_eq_none behind, Option.map_none, Option.or_none]

theorem readsByName_of_first (known : (name, function) ∈ functions)
    (distinct : (entries.map Prod.fst).Nodup)
    (first : (entries.map Prod.fst).Perm ((parametersOf name).take entries.length)) :
    ReadsByName function (parametersOf name) entries where
  takes := fun _ _ here => argument?_of_first distinct first here
  named := by
    apply eq_of_arguments known
    intro position key here
    rw [argument?_of_first distinct first here, argument?_byName distinct]
  order := by
    intro others same
    have keys := same.map Prod.fst
    have alsoDistinct := keys.nodup_iff.mpr distinct
    have alsoFirst := keys.trans first
    rw [← same.length_eq] at alsoFirst
    apply eq_of_arguments known
    intro position key here
    rw [argument?_of_first alsoDistinct alsoFirst here, argument?_of_first distinct first here,
      lookup_of_perm distinct same]

end First

/-! ### Arguments out of their place -/

section Gaps

variable {keys : List String} {key : String} {position : Nat}

/-- A value that counts as true, another one for the last branch of a choice. -/
def mark (key : String) : Json := if key = "any_false" then .string "true" else .bool true

def marked (keys : List String) : Arguments := given (keys.zip (keys.map mark))

theorem isNull_mark (key : String) : (mark key).isNull = false := by
  unfold mark
  split <;> rfl

theorem isTrue_mark (key : String) : isTrue (mark key) = true := by
  unfold mark
  split <;> decide

theorem map_fst_marked (keys : List String) :
    (keys.zip (keys.map mark)).map Prod.fst = keys :=
  List.map_fst_zip (by simp)

theorem lookup_marked (key : String) (keys : List String) :
    (keys.zip (keys.map mark)).lookup key = if key ∈ keys then some (mark key) else none := by
  induction keys with
  | nil => rfl
  | cons first rest ih =>
      rw [List.map_cons, List.zip_cons_cons, List.lookup_cons, ih]
      by_cases same : key = first
      · simp [same]
      · rw [beq_false_of_ne same]
        simp [same]

variable (distinct : keys.Nodup)
include distinct

theorem argument?_marked_of_mem (member : key ∈ keys) (position : Nat) :
    argument? (marked keys) key position = some (mark key) := by
  rw [marked, argument?_given (by rwa [map_fst_marked]), lookup_marked, if_pos member]
  simp [isNull_mark]

theorem argument?_marked_of_not_mem (absent : key ∉ keys) (position : Nat) :
    argument? (marked keys) key position = keys[position]?.map mark := by
  rw [marked, argument?_given (by rwa [map_fst_marked]), lookup_marked, if_neg absent,
    Option.none_or, ← List.getElem?_map, List.map_snd_zip (by simp), List.getElem?_map]
  cases keys[position]? with
  | none => rfl
  | some other => simp [isNull_mark]

theorem argument?_marked_byName (key : String) (position : Nat) :
    argument? (marked keys).byName key position = if key ∈ keys then some (mark key) else none := by
  rw [marked, argument?_byName (by rwa [map_fst_marked]), lookup_marked]
  split
  · simp [isNull_mark]
  · rfl

end Gaps

/-! ### With and without an argument -/

def missing (function key : String) : MappingError :=
  .function (function ++ ": missing argument " ++ grel key)

section Demands

variable {arguments : Arguments} {function key other : String} {position : Nat}
  {use : String → Outcome Json}

theorem missing_injective (function : String) : Function.Injective (missing function) := by
  intro key other same
  exact grel_injective ((String.append_right_inj _).mp (MappingError.function.inj same))

theorem ok_ne_missing (value : Json) (function key : String) :
    Except.ok value ≠ Except.error (missing function key) := by
  simp

theorem require_of_some {value : Json} (found : argument? arguments key position = some value) :
    require arguments function key position = .ok (text value) := by
  rw [require, found]

theorem require_of_none (absent : argument? arguments key position = none) :
    require arguments function key position = .error (missing function key) := by
  rw [require, absent]
  rfl

theorem require_bind_eq_missing_iff (later : ∀ text, use text ≠ .error (missing function key)) :
    (require arguments function key position >>= use) = .error (missing function key) ↔
      argument? arguments key position = none := by
  cases found : argument? arguments key position with
  | none => simp [require_of_none found, bind, Except.bind]
  | some value => simpa [require_of_some found, bind, Except.bind] using later (text value)

theorem require_bind_ne_missing (apart : key ≠ other)
    (later : ∀ text, use text ≠ .error (missing function other)) :
    (require arguments function key position >>= use) ≠ .error (missing function other) := by
  cases found : argument? arguments key position with
  | none =>
      simp [require_of_none found, bind, Except.bind, (missing_injective function).eq_iff, apart]
  | some value => simpa [require_of_some found, bind, Except.bind] using later (text value)

theorem split_eq_missing_iff (arguments : Arguments) :
    split arguments = .error (missing "string_split" "valueParameter") ↔
      argument? arguments "valueParameter" 0 = none := by
  refine require_bind_eq_missing_iff fun _ => ?_
  exact require_bind_ne_missing (by decide) fun _ => ok_ne_missing _ _ _

theorem concat_eq_missing_iff (arguments : Arguments) :
    concat arguments = .error (missing "string_concat" "valueParameter") ↔
      argument? arguments "valueParameter" 0 = none :=
  require_bind_eq_missing_iff fun _ => ok_ne_missing _ _ _

theorem replace_eq_missing_iff (arguments : Arguments) :
    replace arguments = .error (missing "string_replace" "valueParameter") ↔
      argument? arguments "valueParameter" 0 = none := by
  refine require_bind_eq_missing_iff fun _ => ?_
  refine require_bind_ne_missing (by decide) fun _ => ?_
  exact require_bind_ne_missing (by decide) fun _ => ok_ne_missing _ _ _

theorem replace_eq_missing_find_iff (present : argument? arguments "valueParameter" 0 ≠ none) :
    replace arguments = .error (missing "string_replace" "p_string_find") ↔
      argument? arguments "p_string_find" 1 = none := by
  obtain ⟨value, found⟩ := Option.ne_none_iff_exists'.mp present
  rw [replace, require_of_some found]
  refine require_bind_eq_missing_iff fun _ => ?_
  exact require_bind_ne_missing (by decide) fun _ => ok_ne_missing _ _ _

theorem choose_of_mark (found : argument? arguments "bool_b" 0 = some (mark other)) :
    choose arguments = .ok ((argument? arguments "any_true" 1).getD .null) := by
  have decided : holds arguments "bool_b" 0 = true := by
    rw [holds, found, Option.map_some, isTrue_mark]
    rfl
  rw [choose, if_pos decided]

theorem choose_of_none (absent : argument? arguments "bool_b" 0 = none) :
    choose arguments = .ok ((argument? arguments "any_false" 2).getD .null) := by
  have undecided : ¬ holds arguments "bool_b" 0 = true := by
    rw [holds, absent]
    exact Bool.false_ne_true
  rw [choose, if_neg undecided]

end Demands

/-! ### Results that are mixed up -/

section Mixed

variable {keys : List String} {key : String} {position : Nat}
  {function : Arguments → Outcome Json} (distinct : keys.Nodup)
include distinct

theorem ne_byName_of_demanded {error : MappingError} (absent : key ∉ keys)
    (inside : position < keys.length)
    (demands : ∀ arguments, arguments = marked keys ∨ arguments = (marked keys).byName →
      (function arguments = .error error ↔ argument? arguments key position = none)) :
    function (marked keys) ≠ function (marked keys).byName := by
  intro same
  have named : function (marked keys).byName = .error error := by
    rw [demands _ (.inr rfl), argument?_marked_byName distinct, if_neg absent]
  rw [← same, demands _ (.inl rfl), argument?_marked_of_not_mem distinct absent,
    List.getElem?_eq_getElem inside] at named
  cases named

theorem joinTexts_ne_byName (absent : "p_array_a" ∉ keys) (inside : 0 < keys.length) :
    joinTexts (marked keys) ≠ joinTexts (marked keys).byName := by
  have one (other : String) : texts (some (mark other)) = ["true"] := by
    unfold mark
    split <;> rfl
  have seen : joinTexts (marked keys) = .ok (.string "true") := by
    rw [joinTexts, argument?_marked_of_not_mem distinct absent, List.getElem?_eq_getElem inside,
      Option.map_some, one, String.intercalate_singleton]
  have named : joinTexts (marked keys).byName = .ok (.string "") := by
    rw [joinTexts, argument?_marked_byName distinct, if_neg absent, texts,
      String.intercalate_nil]
  rw [seen, named]
  simp

theorem choose_ne_byName_of_condition (condition : "bool_b" ∈ keys) (absent : "any_true" ∉ keys)
    (inside : 1 < keys.length) : choose (marked keys) ≠ choose (marked keys).byName := by
  have seen := choose_of_mark (argument?_marked_of_mem distinct condition 0)
  have named : choose (marked keys).byName = .ok .null := by
    rw [choose_of_mark (by rw [argument?_marked_byName distinct, if_pos condition]),
      argument?_marked_byName distinct, if_neg absent]
    rfl
  rw [argument?_marked_of_not_mem distinct absent, List.getElem?_eq_getElem inside] at seen
  rw [seen, named]
  intro same
  have null : mark keys[1] = .null := by simpa using same
  have proper := isNull_mark keys[1]
  rw [null] at proper
  cases proper

theorem choose_ne_byName_of_no_condition (own : keys ⊆ ["bool_b", "any_true", "any_false"])
    (absent : "bool_b" ∉ keys) (inside : 0 < keys.length) :
    choose (marked keys) ≠ choose (marked keys).byName := by
  have condition : argument? (marked keys) "bool_b" 0 = some (mark keys[0]) := by
    rw [argument?_marked_of_not_mem distinct absent, List.getElem?_eq_getElem inside]
    rfl
  have seen := choose_of_mark condition
  have nowhere : argument? (marked keys).byName "bool_b" 0 = none := by
    rw [argument?_marked_byName distinct, if_neg absent]
  have named := choose_of_none nowhere
  rw [argument?_marked_byName distinct] at named
  rw [seen, named]
  by_cases given : "any_true" ∈ keys
  · rw [argument?_marked_of_mem distinct given]
    split <;> simp [mark]
  · have only : keys ⊆ ["any_false"] := by
      intro other member
      have among := own member
      simp only [List.mem_cons, List.not_mem_nil, or_false] at among ⊢
      rcases among with rfl | rfl | same
      · exact absurd member absent
      · exact absurd member given
      · exact same
    have alone : keys.length ≤ 1 := distinct.length_le_of_subset only
    have last : "any_false" ∈ keys := by
      have member := List.getElem_mem inside
      rwa [List.mem_singleton.mp (only member)] at member
    rw [argument?_marked_of_not_mem distinct given, List.getElem?_eq_none alone, if_pos last]
    simp [mark]

end Mixed

section GapCases

variable {first second key : String} {rest keys : List String} {position : Nat}

theorem gap_cases (here : (first :: second :: rest)[position]? = some key) (absent : key ∉ keys)
    (inside : position < keys.length) (room : keys.length < 3) :
    first ∉ keys ∧ 0 < keys.length ∨ first ∈ keys ∧ second ∉ keys ∧ 1 < keys.length := by
  by_cases given : first ∈ keys
  · right
    match position with
    | 0 => exact absurd (Option.some.inj here ▸ given) absent
    | 1 => exact ⟨given, Option.some.inj here ▸ absent, inside⟩
    | later + 2 => omega
  · exact .inl ⟨given, by omega⟩

theorem gap_of_two (here : [first, second][position]? = some key) (absent : key ∉ keys)
    (inside : position < keys.length) (room : keys.length < 2) :
    first ∉ keys ∧ 0 < keys.length := by
  rcases gap_cases here absent inside (by omega) with atFirst | ⟨_, _, atSecond⟩
  · exact atFirst
  · omega

end GapCases

theorem ne_byName_of_gap {name key : String} {function : Arguments → Outcome Json}
    (known : (name, function) ∈ functions) {keys : List String} (distinct : keys.Nodup)
    (own : keys ⊆ parametersOf name) {position : Nat}
    (here : (parametersOf name)[position]? = some key) (absent : key ∉ keys)
    (inside : position < keys.length) (room : keys.length < (parametersOf name).length) :
    function (marked keys) ≠ function (marked keys).byName := by
  -- A function of one parameter has no gap, since a value stands before the last parameter.
  have several : 1 < (parametersOf name).length := by omega
  simp only [functions, List.mem_cons, Prod.mk.injEq, List.not_mem_nil, or_false] at known
  rcases known with ⟨rfl, rfl⟩ | ⟨rfl, rfl⟩ | ⟨rfl, rfl⟩ | ⟨rfl, rfl⟩ | ⟨rfl, rfl⟩ | ⟨rfl, rfl⟩ |
    ⟨rfl, rfl⟩ | ⟨rfl, rfl⟩ | ⟨rfl, rfl⟩ | ⟨rfl, rfl⟩ | ⟨rfl, rfl⟩
  · exact absurd several (by decide)
  · exact absurd several (by decide)
  · exact absurd several (by decide)
  · exact absurd several (by decide)
  · rcases gap_cases here absent inside room with ⟨missing, first⟩ | ⟨value, missing, second⟩
    · exact ne_byName_of_demanded distinct missing first fun arguments _ =>
        replace_eq_missing_iff arguments
    · refine ne_byName_of_demanded distinct missing second fun arguments among =>
        replace_eq_missing_find_iff ?_
      rcases among with rfl | rfl
      · simp [argument?_marked_of_mem distinct value]
      · simp [argument?_marked_byName distinct, value]
  · obtain ⟨missing, first⟩ := gap_of_two here absent inside room
    exact ne_byName_of_demanded distinct missing first fun arguments _ =>
      split_eq_missing_iff arguments
  · obtain ⟨missing, first⟩ := gap_of_two here absent inside room
    exact ne_byName_of_demanded distinct missing first fun arguments _ =>
      concat_eq_missing_iff arguments
  · obtain ⟨missing, first⟩ := gap_of_two here absent inside room
    exact joinTexts_ne_byName distinct missing first
  · rcases gap_cases here absent inside room with ⟨missing, first⟩ | ⟨condition, missing, second⟩
    · exact choose_ne_byName_of_no_condition distinct own missing first
    · exact choose_ne_byName_of_condition distinct condition missing second
  · exact absurd several (by decide)
  · exact absurd several (by decide)

/-- What is read of the arguments of a function of the library, if each of them is given by the
name of one of its parameters and none twice: every call with these names reads them by name,
whatever the values and their order, exactly if the names are those of the first parameters of
the function. For all other names there are values for which the result is not that of a call by
name. -/
theorem readsByName_tfae {name : String} {function : Arguments → Outcome Json}
    (known : (name, function) ∈ functions) {keys : List String} (distinct : keys.Nodup)
    (own : keys ⊆ parametersOf name) :
    [∀ values : List Json, values.length = keys.length →
        ReadsByName function (parametersOf name) (keys.zip values),
      ∀ values : List Json, values.length = keys.length →
        function (given (keys.zip values)) = function (given (keys.zip values)).byName,
      keys.Perm ((parametersOf name).take keys.length)].TFAE := by
  tfae_have 1 → 2 := fun reads values fits => (reads values fits).named
  tfae_have 2 → 3 := by
    intro named
    by_contra other
    obtain ⟨position, key, here, absent, inside, room⟩ :=
      exists_gap (nodup_parametersOf name) distinct own other
    exact ne_byName_of_gap known distinct own here absent inside room
      (named (keys.map mark) (List.length_map _))
  tfae_have 3 → 1 := by
    intro first values fits
    have keysOf : (keys.zip values).map Prod.fst = keys :=
      List.map_fst_zip (Nat.le_of_eq fits.symm)
    have length : (keys.zip values).length = keys.length := by
      rw [List.length_zip, fits, Nat.min_self]
    apply readsByName_of_first known
    · rwa [keysOf]
    · rwa [keysOf, length]
  tfae_finish

theorem readsByName_choose : ("controls_if", choose) ∈ functions ∧
    ∀ values : List Json, values.length = 3 →
      ReadsByName choose (parametersOf "controls_if")
        (["any_false", "bool_b", "any_true"].zip values) := by
  have known : ("controls_if", choose) ∈ functions := by simp [functions]
  have distinct : ["any_false", "bool_b", "any_true"].Nodup := by decide
  have reads := readsByName_tfae known distinct (by decide)
  exact ⟨known, (reads.out 2 0).mp (by decide)⟩

def unbranched : List (String × Json) := [("bool_b", .bool true), ("any_false", .string "no")]

/-- Without the branch for true, a choice takes the other branch, which stands second. -/
theorem not_readsByName_unbranched : choose (given unbranched) = .ok (.string "no") ∧
    choose (given unbranched).byName = .ok .null ∧
    ¬ ReadsByName choose (parametersOf "controls_if") unbranched := by
  refine ⟨rfl, rfl, fun reads => ?_⟩
  have same := reads.named
  cases same

end RdfMapping.Library
