import RdfMapping.Proofs.Json.Location
import RdfMapping.Proofs.Json.Written
/-!
Written locations as paths. A written location is read link by link, unless a name contains a
quote or a closing bracket: a bracket is closed by the first one behind it, and the backslash
that is written before a quote is read as part of the name. Exactly the locations without such
names, and with positions that a machine word holds, lead back to their nodes.
-/

namespace RdfMapping

/-! ### Reading written locations -/

def JsonKey.IsReadable : JsonKey → Prop
  | .member name => '\'' ∉ name.toList ∧ ']' ∉ name.toList
  | .index position => position < Nat.pow 2 63

instance (key : JsonKey) : Decidable key.IsReadable :=
  match key with
  | .member name => inferInstanceAs (Decidable ('\'' ∉ name.toList ∧ ']' ∉ name.toList))
  | .index position => inferInstanceAs (Decidable (position < Nat.pow 2 63))

def JsonKey.step : JsonKey → JsonStep
  | .member name => .field name
  | .index position => .index position

namespace JsonPath

open JsonKey (escapeQuotes IsPlain)

/-- A name after a dot ends where the next step begins. -/
theorem readSteps_dot {name rest : List Char} (proper : name ≠ [])
    (named : ∀ c ∈ name, isNameChar c = true)
    (follows : ∀ c, rest.head? = some c → isNameChar c = false) :
    readSteps ('.' :: (name ++ rest)) = (readSteps rest).map (nameStep name :: ·) := by
  obtain ⟨taken, left⟩ := Text.span_of_stop named follows
  rw [readSteps, taken, left, if_neg (by simpa using proper)]
  · rfl
  · intro _ same
    obtain ⟨first, further, whole⟩ := List.exists_cons_of_ne_nil proper
    rw [whole, List.cons_append] at same
    have noDot := named first (whole ▸ List.mem_cons_self)
    rw [(List.cons.inj same).1] at noDot
    cases noDot

theorem readSteps_dots {name rest : List Char} (proper : name ≠ [])
    (named : ∀ c ∈ name, isNameChar c = true)
    (follows : ∀ c, rest.head? = some c → isNameChar c = false) :
    readSteps ('.' :: '.' :: (name ++ rest)) = (readSteps rest).map (descendantStep name :: ·) := by
  obtain ⟨taken, left⟩ := Text.span_of_stop named follows
  rw [readSteps, taken, left, if_neg (by simpa using proper)]
  rfl

theorem isNameChar_of_not_mem {name : List Char} (noDot : '.' ∉ name) (noBracket : '[' ∉ name) :
    ∀ c ∈ name, isNameChar c = true := by
  intro c member
  have notDot : c ≠ '.' := fun same => noDot (same ▸ member)
  have notBracket : c ≠ '[' := fun same => noBracket (same ▸ member)
  simp [isNameChar, notDot, notBracket]

theorem readSteps_plain {name : String} (plain : IsPlain name) (rest : JsonLocation) :
    readSteps ('.' :: (name.toList ++ rest.chars)) =
      (readSteps rest.chars).map (.field name :: ·) := by
  have named := isNameChar_of_not_mem (JsonLocation.not_mem_plain plain (c := '.') (by decide))
    (JsonLocation.not_mem_plain plain (c := '[') (by decide))
  have noStar : '*' ∉ name.toList := JsonLocation.not_mem_plain plain (by decide)
  have step : nameStep name.toList = .field name := by
    have notWildcard : name.toList ≠ ['*'] := fun same => noStar (same ▸ List.mem_cons_self)
    rw [nameStep, if_neg notWildcard, String.ofList_toList]
  rw [readSteps_dot plain.1 named, step]
  intro c first
  rcases JsonLocation.head?_chars first with rfl | rfl
  · rfl
  · rfl

theorem readSteps_bracket {content : List Char} (closed : ']' ∉ content) (after : List Char) :
    readSteps ('[' :: (content ++ ']' :: after)) =
      match bracketStep? (Text.trim Text.isBlank content) with
      | none => .error .unsupportedBracket
      | some step => (readSteps after).map (step :: ·) := by
  have cut := Text.cutAt?_mark closed after
  rw [readSteps]
  split
  · next none => rw [cut] at none; cases none
  · next found =>
      rw [cut] at found
      cases found
      rfl

theorem bracketStep?_quoted {mark : Char} (quote : mark = '\'' ∨ mark = '"') (name : List Char) :
    bracketStep? (Text.trim Text.isBlank (mark :: (name ++ [mark]))) =
      some (.field (String.ofList name)) := by
  rw [Text.trim_quoted quote, bracketStep?, if_neg (by simp), Text.unquote?_quoted quote]

/-- A bracket that begins with a quote holds a name, if it holds anything. -/
theorem name_of_bracketStep? {inside : List Char} {mark : Char} (absent : mark ∉ inside)
    {step : JsonStep}
    (read : bracketStep? (Text.trim Text.isBlank ('\'' :: inside)) = some step) :
    ∃ name, step = .field name ∧ mark ∉ name.toList := by
  have noNumber (text : List Char) : Text.integer? ('\'' :: text) = none := rfl
  have noDouble (text : List Char) : Text.unquote? '"' ('\'' :: text) = none := rfl
  rw [Text.trim_cons_of_visible (by decide), bracketStep?, if_neg (by simp), noDouble,
    Option.or_none, noNumber] at read
  split at read
  · next name unquoted =>
      rw [Text.unquote?, Option.ite_none_right_eq_some] at unquoted
      refine ⟨_, (Option.some.inj read).symm, ?_⟩
      rw [String.toList_ofList, ← Option.some.inj unquoted.2]
      exact fun member => absent (Text.mem_of_mem_trimEnd ((List.dropLast_subset _) member))
  · cases read

/-- A bracket with digits and a sign holds a number, if it holds anything. -/
theorem bracketStep?_of_digits {content : List Char}
    (inside : ∀ c ∈ content, c = '-' ∨ c.isDigit = true) :
    bracketStep? (Text.trim Text.isBlank content) = (Text.integer? content).map .index := by
  have visible : ∀ c ∈ content, Text.isBlank c = false := by
    intro c member
    rcases inside c member with rfl | digit
    · decide
    · exact Text.isBlank_of_isDigit digit
  have absent (mark : Char) (sign : mark ≠ '-') (noDigit : mark.isDigit = false) :
      mark ∉ content := by
    intro member
    rcases inside mark member with minus | digit
    · exact sign minus
    · rw [noDigit] at digit
      cases digit
  have unquoted {mark : Char} (absent : mark ∉ content) : Text.unquote? mark content = none := by
    cases content with
    | nil => rfl
    | cons first rest =>
        have other : first ≠ mark := fun same => absent (same ▸ List.mem_cons_self)
        rw [Text.unquote?, if_neg fun both => other both.1]
  have notStar : content ≠ ['*'] := by
    intro star
    exact absent '*' (by decide) (by decide) (star ▸ List.mem_cons_self)
  have whole : Text.trim Text.isBlank content = content :=
    Text.trim_of_visible (fun c first => visible c (List.mem_of_head? first))
      (fun c last => visible c (List.mem_of_getLast? last))
  rw [whole, bracketStep?, if_neg notStar, unquoted (absent _ (by decide) (by decide)),
    unquoted (absent _ (by decide) (by decide))]
  rfl

theorem bracketStep?_numeral (position : Nat) :
    bracketStep? (Text.trim Text.isBlank (toString position).toList) =
      if position < Nat.pow 2 63 then some (.index position) else none := by
  rw [bracketStep?_of_digits fun c member => Or.inr (Text.isDigit_of_mem_numeral member)]
  by_cases small : position < Nat.pow 2 63
  · rw [Text.integer?_numeral small, if_pos small]
    rfl
  · rw [Text.integer?_numeral_of_large small, if_neg small]
    rfl

theorem isReadable_of_plain {name : String} (plain : IsPlain name) :
    (JsonKey.member name).IsReadable :=
  ⟨JsonLocation.not_mem_plain plain (by decide), JsonLocation.not_mem_plain plain (by decide)⟩

theorem readSteps_quoted {name : List Char} (closed : ']' ∉ name) (rest : List Char) :
    readSteps ('[' :: '\'' :: (escapeQuotes name ++ '\'' :: ']' :: rest)) =
      (readSteps rest).map (.field (String.ofList (escapeQuotes name)) :: ·) := by
  have notWritten := JsonKey.not_mem_escapeQuotes closed (by decide)
  have content : ']' ∉ '\'' :: (escapeQuotes name ++ ['\'']) := by
    simpa using notWritten
  have read := readSteps_bracket content rest
  rw [bracketStep?_quoted (Or.inl rfl), List.cons_append, List.append_assoc,
    List.singleton_append] at read
  exact read

theorem readSteps_index (position : Nat) (rest : List Char) :
    readSteps ('[' :: ((toString position).toList ++ ']' :: rest)) =
      if position < Nat.pow 2 63 then (readSteps rest).map (.index position :: ·)
      else .error .unsupportedBracket := by
  rw [readSteps_bracket (JsonLocation.not_mem_numeral position (by decide)),
    bracketStep?_numeral]
  by_cases small : position < Nat.pow 2 63
  · rw [if_pos small, if_pos small]
  · rw [if_neg small, if_neg small]

theorem readSteps_render {key : JsonKey} (readable : key.IsReadable) (rest : JsonLocation) :
    readSteps (key.render.toList ++ rest.chars) = (readSteps rest.chars).map (key.step :: ·) := by
  rcases key.render_cases with
    ⟨name, rfl, plain, written⟩ | ⟨name, rfl, _, written⟩ | ⟨position, rfl, written⟩
  · rw [written]
    exact readSteps_plain plain rest
  · have read := readSteps_quoted readable.2 rest.chars
    rw [JsonKey.escapeQuotes_of_no_quote readable.1, String.ofList_toList] at read
    rw [written, JsonKey.escapeQuotes_of_no_quote readable.1]
    simpa [JsonKey.step] using read
  · have small : position < Nat.pow 2 63 := readable
    have read := readSteps_index position rest.chars
    rw [if_pos small] at read
    rw [written]
    simpa [JsonKey.step] using read

theorem map_cons_cases {ε : Type} (step : JsonStep) (steps : Except ε (List JsonStep)) :
    (∃ fault, steps.map (step :: ·) = .error fault) ∨
      ∃ later, steps.map (step :: ·) = .ok (step :: later) := by
  cases steps with
  | error fault => exact Or.inl ⟨fault, rfl⟩
  | ok later => exact Or.inr ⟨later, rfl⟩

/-- Any other link is refused, or read as the name of another member. -/
theorem readSteps_unreadable {key : JsonKey} (unreadable : ¬ key.IsReadable)
    (rest : JsonLocation) :
    (∃ fault, readSteps (key.render.toList ++ rest.chars) = .error fault) ∨
      ∃ name steps, readSteps (key.render.toList ++ rest.chars) = .ok (.field name :: steps) ∧
        key ≠ .member name := by
  rcases key.render_cases with
    ⟨name, rfl, plain, written⟩ | ⟨name, rfl, _, written⟩ | ⟨position, rfl, written⟩
  · exact absurd (isReadable_of_plain plain) unreadable
  · rw [written]
    by_cases bracket : ']' ∈ name.toList
    · -- the bracket is closed inside the name
      obtain ⟨before, after, split, absent⟩ := List.eq_append_cons_of_mem bracket
      have unwritten := JsonKey.not_mem_escapeQuotes absent (by decide)
      have closed : ']' ∉ '\'' :: escapeQuotes before := by
        simpa using unwritten
      have read := readSteps_bracket closed (escapeQuotes after ++ '\'' :: ']' :: rest.chars)
      have whole : '[' :: '\'' :: (escapeQuotes name.toList ++ ['\'', ']']) ++ rest.chars =
          '[' :: ('\'' :: escapeQuotes before ++
            ']' :: (escapeQuotes after ++ '\'' :: ']' :: rest.chars)) := by
        rw [split, JsonKey.escapeQuotes_append, JsonKey.escapeQuotes_cons (by decide)]
        simp
      rw [whole, read]
      cases inside : bracketStep? (Text.trim Text.isBlank ('\'' :: escapeQuotes before)) with
      | none => exact Or.inl ⟨_, rfl⟩
      | some step =>
          obtain ⟨found, rfl, without⟩ := name_of_bracketStep? unwritten inside
          have other : JsonKey.member name ≠ .member found := by
            intro same
            cases same
            exact without bracket
          rcases map_cons_cases (.field found) _ with ⟨fault, refused⟩ | ⟨later, goesOn⟩
          · exact Or.inl ⟨fault, refused⟩
          · exact Or.inr ⟨found, later, goesOn, other⟩
    · -- the backslashes are read as a part of the name
      have quote : '\'' ∈ name.toList := by
        by_contra noQuote
        exact unreadable ⟨noQuote, bracket⟩
      have other : JsonKey.member name ≠ .member (String.ofList (escapeQuotes name.toList)) := by
        intro same
        have kept := congrArg String.toList (JsonKey.member.inj same)
        rw [String.toList_ofList] at kept
        exact JsonKey.escapeQuotes_ne_self quote kept.symm
      have read := readSteps_quoted bracket rest.chars
      have whole : '[' :: '\'' :: (escapeQuotes name.toList ++ ['\'', ']']) ++ rest.chars =
          '[' :: '\'' :: (escapeQuotes name.toList ++ '\'' :: ']' :: rest.chars) := by
        simp
      rw [whole, read]
      rcases map_cons_cases (.field (String.ofList (escapeQuotes name.toList))) _ with
        ⟨fault, refused⟩ | ⟨later, goesOn⟩
      · exact Or.inl ⟨fault, refused⟩
      · exact Or.inr ⟨_, later, goesOn, other⟩
  · have large : ¬ position < Nat.pow 2 63 := unreadable
    have read := readSteps_index position rest.chars
    rw [if_neg large] at read
    rw [written]
    exact Or.inl ⟨_, by simpa using read⟩

theorem readSteps_append {readable : JsonLocation} (all : ∀ key ∈ readable, key.IsReadable)
    (rest : JsonLocation) :
    readSteps (readable ++ rest).chars =
      (readSteps rest.chars).map (readable.map JsonKey.step ++ ·) := by
  induction readable with
  | nil =>
      rw [List.nil_append]
      cases readSteps rest.chars <;> rfl
  | cons key readable ih =>
      obtain ⟨here, later⟩ := List.forall_mem_cons.mp all
      rw [List.cons_append, JsonLocation.chars_cons, readSteps_render here, ih later]
      cases readSteps rest.chars <;> rfl

theorem readSteps_chars {location : JsonLocation} (all : ∀ key ∈ location, key.IsReadable) :
    readSteps location.chars = .ok (location.map JsonKey.step) := by
  have ends : readSteps (JsonLocation.chars []) = .ok [] := by
    rw [JsonLocation.chars, List.flatMap_nil, readSteps]
  have read := readSteps_append all []
  rw [List.append_nil, ends] at read
  rw [read]
  exact congrArg Except.ok (List.append_nil _)

theorem visible_of_getLast?_render {key : JsonKey} {c : Char}
    (last : key.render.toList.getLast? = some c) : Text.isBlank c = false := by
  have bracket {text : List Char} (ends : (text ++ [']']).getLast? = some c) :
      Text.isBlank c = false := by
    rw [List.getLast?_concat] at ends
    rw [← Option.some.inj ends]
    decide
  rcases key.render_cases with
    ⟨name, rfl, plain, written⟩ | ⟨name, rfl, _, written⟩ | ⟨position, rfl, written⟩
  · obtain ⟨first, rest, whole⟩ := List.exists_cons_of_ne_nil plain.1
    rw [written, whole, List.getLast?_cons_cons, ← whole] at last
    exact JsonKey.isBlank_of_plain (plain.2 c (List.mem_of_getLast? last))
  · have ends : (('[' :: '\'' :: (escapeQuotes name.toList ++ ['\''])) ++ [']']).getLast? =
        some c := by
      simpa [written] using last
    exact bracket ends
  · have ends : (('[' :: (toString position).toList) ++ [']']).getLast? = some c := by
      simpa [written] using last
    exact bracket ends

theorem trim_chars (location : JsonLocation) :
    Text.trim Text.isBlank ('$' :: location.chars) = '$' :: location.chars := by
  apply Text.trim_of_visible
  · intro c first
    rw [← Option.some.inj first]
    decide
  · intro c last
    rcases List.eq_nil_or_concat location with rfl | ⟨before, key, rfl⟩
    · rw [← Option.some.inj last]
      decide
    · rw [List.concat_eq_append, JsonLocation.chars, List.flatMap_append,
        List.flatMap_singleton, ← List.cons_append,
        List.getLast?_append] at last
      obtain ⟨final, ends⟩ := Option.ne_none_iff_exists'.mp
        (mt List.getLast?_eq_none_iff.mp key.render_ne_nil)
      rw [ends, Option.some_or] at last
      exact visible_of_getLast?_render (ends.trans last)

theorem parse_render (location : JsonLocation) :
    parse (location.render "$") =
      match readSteps location.chars with
      | .ok steps => .ok ⟨steps⟩
      | .error fault => .error (.invalidSelector (location.render "$") fault.detail) := by
  have trimmed : Text.trim Text.isBlank ("$".toList ++ location.chars) = '$' :: location.chars :=
    trim_chars location
  have whole : read (Text.trim Text.isBlank (location.render "$").toList) =
      readSteps location.chars := by
    rw [JsonLocation.toList_render, trimmed, read, if_pos (Or.inl rfl)]
  cases outcome : readSteps location.chars with
  | ok steps => rw [parse, whole, outcome]
  | error fault => rw [parse, whole, outcome]

end JsonPath

/-! ### Going to written locations -/

namespace JsonHit

theorem resolveIndex?_natural (position length : Nat) :
    resolveIndex? position length = if position < length then some position else none := by
  have forward : ¬ (position : Int) < 0 := by omega
  rw [resolveIndex?, if_neg forward]
  by_cases inside : position < length
  · rw [if_pos inside, if_pos (by omega)]
    rfl
  · rw [if_neg inside, if_neg (by omega)]

theorem step_key (hit : JsonHit) (key : JsonKey) :
    hit.step key.step =
      ((hit.2.child? key).map fun child => (hit.1 ++ [key], child)).toList := by
  obtain ⟨location, value⟩ := hit
  cases key with
  | member name =>
      show field name (location, value) = ((value.member? name).map _).toList
      rw [field]
      cases value.member? name <;> rfl
  | index position =>
      cases value with
      | array elements =>
          show element position (location, .array elements) = (elements[position]?.map _).toList
          simp only [element, resolveIndex?_natural]
          by_cases inside : position < elements.length
          · rw [if_pos inside]
          · rw [if_neg inside, List.getElem?_eq_none (Nat.le_of_not_lt inside)]
            rfl
      | _ => rfl

/-- The steps of a location lead to the node at it and to no other node. -/
theorem selectFrom_location (location : JsonLocation) (hit : JsonHit) :
    JsonPath.selectFrom ⟨location.map JsonKey.step⟩ hit =
      ((hit.2.at? location).map fun node => (hit.1 ++ location, node)).toList := by
  induction location generalizing hit with
  | nil =>
      rw [List.append_nil]
      rfl
  | cons key rest ih =>
      rw [List.map_cons, selectFrom_cons, step_key, Json.at?]
      cases hit.2.child? key with
      | none => rfl
      | some child =>
          show List.flatMap _ [(hit.1 ++ [key], child)] = ((child.at? rest).map _).toList
          rw [List.flatMap_singleton, ih]
          simp

/-- The written location of a node is a path that selects this node and no other one. -/
def ReadsBack (root : Json) (hit : JsonHit) : Prop :=
  ∃ path, JsonPath.parse (hit.1.render "$") = .ok path ∧
    (path.select root).map (fun found => (found.1.render "$", found.2)) =
      [(hit.1.render "$", hit.2)]

theorem readsBack_of_readable {root : Json} {hit : JsonHit} (stands : hit.Stands root)
    (readable : ∀ key ∈ hit.1, key.IsReadable) : hit.ReadsBack root := by
  refine ⟨⟨hit.1.map JsonKey.step⟩, ?_, ?_⟩
  · rw [JsonPath.parse_render, JsonPath.readSteps_chars readable]
  · have there : root.at? hit.1 = some hit.2 := stands
    rw [JsonPath.select, selectFrom_location, there]
    rfl

/-- The names on the way to a node that a path of names begins with. -/
theorem location_of_mem_select {root : Json} (tabled : root.Tabled) {before : JsonLocation}
    {name : String} {steps : List JsonStep} {found : JsonHit}
    (selected : found ∈ JsonPath.select ⟨before.map JsonKey.step ++ .field name :: steps⟩ root) :
    ∃ way, found.1 = before ++ .member name :: way := by
  rw [JsonPath.select, selectFrom_append, selectFrom_location] at selected
  obtain ⟨start, starts, selected⟩ := List.mem_flatMap.mp selected
  obtain ⟨node, there, rfl⟩ := Option.map_eq_some_iff.mp (Option.mem_toList.mp starts)
  rw [selectFrom_cons] at selected
  obtain ⟨middle, stepped, further⟩ := List.mem_flatMap.mp selected
  have below := below_of_mem_field stepped
  have tabledMiddle := below.tabled (tabled.at? there)
  obtain ⟨way, located, _⟩ := below_of_mem_selectFrom tabledMiddle further
  rw [show JsonHit.step _ (.field name) = field name _ from rfl, field] at stepped
  split at stepped
  · rw [List.mem_singleton.mp stepped] at located
    exact ⟨way, by simpa using located⟩
  · cases stepped

theorem readable_of_readsBack {root : Json} (tabled : root.Tabled) {hit : JsonHit}
    (readsBack : hit.ReadsBack root) : ∀ key ∈ hit.1, key.IsReadable := by
  obtain ⟨path, parsed, selects⟩ := readsBack
  by_contra unreadable
  -- the links before the first one that is not readable are read, and nothing behind it counts
  obtain ⟨before, key, rest, split, all, fails⟩ : ∃ before key rest,
      hit.1 = before ++ key :: rest ∧ (∀ key ∈ before, key.IsReadable) ∧ ¬ key.IsReadable := by
    have some : hit.1.find? (fun key => decide (¬ key.IsReadable)) ≠ none := fun none =>
      unreadable fun key member => by simpa using List.find?_eq_none.mp none key member
    obtain ⟨key, found⟩ := Option.ne_none_iff_exists'.mp some
    obtain ⟨fails, before, rest, split, all⟩ := List.find?_eq_some_iff_append.mp found
    exact ⟨before, key, rest, split, fun link member => by simpa using all link member,
      by simpa using fails⟩
  rw [split, JsonPath.parse_render, JsonPath.readSteps_append all, JsonLocation.chars_cons]
    at parsed
  rcases JsonPath.readSteps_unreadable fails rest with
    ⟨fault, refused⟩ | ⟨name, steps, read, other⟩
  · rw [refused] at parsed
    cases parsed
  · rw [read] at parsed
    cases parsed
    obtain ⟨found, selected, same⟩ := List.mem_map.mp
      (selects ▸ List.mem_singleton_self (hit.1.render "$", hit.2))
    obtain ⟨way, located⟩ := location_of_mem_select tabled selected
    have written := JsonLocation.render_injective "$" (Prod.ext_iff.mp same).1
    rw [located, split] at written
    exact other (List.cons.inj (List.append_cancel_left written)).1.symm

/-- A selected node is found again by its written location exactly when no name on the way to
it has a quote or a closing bracket in it, and every position is one of a machine word. -/
theorem readsBack_iff {root : Json} (tabled : root.Tabled) {path : JsonPath} {hit : JsonHit}
    (selected : hit ∈ path.select root) :
    hit.ReadsBack root ↔ ∀ key ∈ hit.1, key.IsReadable :=
  ⟨readable_of_readsBack tabled, readsBack_of_readable (stands_of_mem_select tabled selected)⟩

/-- Members whose names have a dot, an opening bracket, a double quote and a backslash. -/
def nested : Json :=
  .object [("a.b", .object [("x\"[\\", .array [.null, .bool true])])]

theorem tabled_nested : nested.Tabled := by
  have elements : ∀ element ∈ [Json.null, .bool true], element.Tabled := by
    rintro element member
    rcases List.mem_cons.mp member with rfl | last
    · exact .null
    · rw [List.mem_singleton.mp last]
      exact .bool true
  have table (name : String) (value : Json) (inside : value.Tabled) :
      (Json.object [(name, value)]).Tabled :=
    .object (List.pairwise_singleton _ _) (List.forall_mem_singleton.mpr inside)
  exact table _ _ (table _ _ (.array elements))

theorem readsBack_nested :
    ([.member "a.b", .member "x\"[\\", .index 1], .bool true) ∈
        JsonPath.select ⟨[.descendantWildcard]⟩ nested ∧
      ReadsBack nested ([.member "a.b", .member "x\"[\\", .index 1], .bool true) := by
  have selected : ([.member "a.b", .member "x\"[\\", .index 1], .bool true) ∈
      JsonPath.select ⟨[.descendantWildcard]⟩ nested := by
    apply List.mem_of_getElem? (i := 3)
    rfl
  exact ⟨selected, (readsBack_iff tabled_nested selected).mpr (by decide)⟩

/-- The only member of an object with a quote in its name is selected by `$.*`, and is not found
again. -/
theorem not_readsBack_quote :
    ([.member "it's"], .number (.integer 1)) ∈
        JsonPath.select ⟨[.wildcard]⟩ (.object [("it's", .number (.integer 1))]) ∧
      ¬ ReadsBack (.object [("it's", .number (.integer 1))])
        ([.member "it's"], .number (.integer 1)) := by
  have tabled : (Json.object [("it's", .number (.integer 1))]).Tabled :=
    .object (List.pairwise_singleton _ _) (List.forall_mem_singleton.mpr (.number _))
  refine ⟨List.mem_singleton_self _, fun readsBack => ?_⟩
  have readable := readable_of_readsBack tabled readsBack _ (List.mem_singleton_self _)
  exact absurd readable (by decide)

end JsonHit

end RdfMapping
