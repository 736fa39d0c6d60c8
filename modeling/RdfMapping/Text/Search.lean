/-!
Finding one text inside another: cutting at the first occurrence, cutting at
every occurrence, and replacing every occurrence. Occurrences are taken from the
left and do not overlap.
-/

namespace RdfMapping.Text

/-- What follows `start` in a text that begins with it. -/
def dropStart? : (start text : List Char) → Option (List Char)
  | [], text => some text
  | _ :: _, [] => none
  | s :: start, c :: text => if s = c then dropStart? start text else none

theorem dropStart?_eq_some_iff {start text rest : List Char} :
    dropStart? start text = some rest ↔ text = start ++ rest := by
  induction start generalizing text with
  | nil => simp [dropStart?, eq_comm]
  | cons s start ih =>
      cases text with
      | nil => simp [dropStart?]
      | cons c text =>
          by_cases same : s = c
          · simp [dropStart?, same, ih]
          · simp [dropStart?, same, Ne.symm same]

def cutAt? (needle : List Char) : List Char → Option (List Char × List Char)
  | [] => if needle.isEmpty then some ([], []) else none
  | c :: rest =>
      match dropStart? needle (c :: rest) with
      | some after => some ([], after)
      | none => (cutAt? needle rest).map fun parts => (c :: parts.1, parts.2)

theorem eq_of_cutAt? {needle text before after : List Char}
    (found : cutAt? needle text = some (before, after)) :
    text = before ++ needle ++ after := by
  induction text generalizing before after with
  | nil =>
      unfold cutAt? at found
      split at found
      · next empty => simp_all
      · cases found
  | cons c rest ih =>
      unfold cutAt? at found
      split at found
      · next tail here =>
          cases found
          simpa using dropStart?_eq_some_iff.1 here
      · next =>
          obtain ⟨parts, inner, joined⟩ := Option.map_eq_some_iff.1 found
          cases joined
          simpa using ih inner

theorem length_lt_of_cutAt? {needle text before after : List Char} (proper : needle ≠ [])
    (found : cutAt? needle text = some (before, after)) : after.length < text.length := by
  have positive := List.length_pos_iff.2 proper
  rw [eq_of_cutAt? found, List.length_append, List.length_append]
  omega

def splitBetween (separator : List Char) (proper : separator ≠ []) (text : List Char) :
    List (List Char) :=
  match _found : cutAt? separator text with
  | none => [text]
  | some (before, after) => before :: splitBetween separator proper after
termination_by text.length
decreasing_by exact length_lt_of_cutAt? proper _found

/-- The parts between the occurrences of `separator`. The empty text occurs
before every character and at the end, so that it separates all characters and
leaves an empty part on both sides. -/
def splitOn (separator text : List Char) : List (List Char) :=
  if proper : separator = [] then [] :: (text.map fun c => [c]) ++ [[]]
  else splitBetween separator proper text

def join (separator : List Char) (parts : List (List Char)) : List Char :=
  List.intercalate separator parts

/-- The text with the occurrences of a `needle` that is not empty replaced, one after the other as
one goes along. -/
def replaceAlong (needle : List Char) (proper : needle ≠ []) (replacement text : List Char) :
    List Char :=
  match text with
  | [] => []
  | c :: rest =>
      match _found : dropStart? needle (c :: rest) with
      | some after => replacement ++ replaceAlong needle proper replacement after
      | none => c :: replaceAlong needle proper replacement rest
termination_by text.length
decreasing_by
  · have whole := congrArg List.length (dropStart?_eq_some_iff.1 _found)
    have positive := List.length_pos_iff.2 proper
    rw [List.length_append] at whole
    omega
  · exact Nat.lt_succ_self _

/-- The text with every occurrence of `needle` replaced. The empty text occurs before every
character and at the end. -/
def replaceAll (needle replacement text : List Char) : List Char :=
  if proper : needle = [] then replacement ++ text.flatMap fun c => c :: replacement
  else replaceAlong needle proper replacement text

/-! ### At one position -/

theorem dropStart?_of_not_prefix {start text : List Char} (apart : ¬ start <+: text) :
    dropStart? start text = none := by
  cases found : dropStart? start text with
  | none => rfl
  | some after => exact absurd ⟨after, (dropStart?_eq_some_iff.mp found).symm⟩ apart

theorem cutAt?_cons {needle : List Char} {c : Char} {rest : List Char}
    (apart : ¬ needle <+: c :: rest) :
    cutAt? needle (c :: rest) =
      (cutAt? needle rest).map fun parts => (c :: parts.1, parts.2) := by
  rw [cutAt?, dropStart?_of_not_prefix apart]

section Proper

variable {needle : List Char} (proper : needle ≠ [])
include proper

theorem cutAt?_start (rest : List Char) : cutAt? needle (needle ++ rest) = some ([], rest) := by
  obtain ⟨c, more, whole⟩ := List.exists_cons_of_ne_nil proper
  have here : dropStart? (c :: more) (c :: (more ++ rest)) = some rest :=
    dropStart?_eq_some_iff.mpr rfl
  rw [whole, List.cons_append, cutAt?, here]

variable (replacement : List Char)

theorem replaceAll_nil : replaceAll needle replacement [] = [] := by
  rw [replaceAll, dif_neg proper, replaceAlong]

theorem replaceAll_start (rest : List Char) :
    replaceAll needle replacement (needle ++ rest) =
      replacement ++ replaceAll needle replacement rest := by
  cases needle with
  | nil => exact absurd rfl proper
  | cons c more =>
      have here : dropStart? (c :: more) (c :: (more ++ rest)) = some rest :=
        dropStart?_eq_some_iff.mpr rfl
      rw [replaceAll, dif_neg proper, List.cons_append, replaceAlong, replaceAll, dif_neg proper]
      split
      · next after found =>
          rw [here] at found
          cases found
          rfl
      · next absent =>
          rw [here] at absent
          cases absent

theorem replaceAll_cons {c : Char} {rest : List Char} (apart : ¬ needle <+: c :: rest) :
    replaceAll needle replacement (c :: rest) = c :: replaceAll needle replacement rest := by
  have elsewhere := dropStart?_of_not_prefix apart
  rw [replaceAll, dif_neg proper, replaceAlong, replaceAll, dif_neg proper]
  split
  · next after found =>
      rw [elsewhere] at found
      cases found
  · rfl

end Proper

def unquote? (mark : Char) (text : List Char) : Option (List Char) :=
  match text with
  | first :: rest =>
      if first = mark ∧ rest.getLast? = some mark then some rest.dropLast else none
  | [] => none

end RdfMapping.Text
