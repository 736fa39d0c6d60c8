import RdfMapping.Proofs.Repeats
import RdfMapping.Proofs.Xml.Spelling
/-!
Filters by the value of an attribute. The value stands in quotes, and a slash or a bracket in it
does not end the step. But the filter itself is read up to the first closing bracket, even if that
stands in the quotes: the values that can be asked for are those without one, and then exactly the
elements with this value are selected.
-/

namespace RdfMapping.XPath

/-! ### How they are written -/

def attributeContent (key right : List Char) : List Char := '@' :: (key ++ '=' :: right)

/-- A filter for the elements whose attribute has a value, in quotes of either kind. -/
def filterText (key : String) (mark : Char) (value : String) : List Char :=
  '[' :: (attributeContent key.toList (mark :: (value.toList ++ [mark])) ++ [']'])

def attributeText (name key : String) (mark : Char) (value : String) : List Char :=
  name.toList ++ filterText key mark value

/-! ### Where they end -/

theorem cutStep_quoted {mark : Char} (quote : mark = '\'' ∨ mark = '"') {value : List Char}
    (unquoted : mark ∉ value) (depth : Nat) (rest : List Char) :
    cutStep depth none (mark :: (value ++ mark :: rest)) =
      (mark :: (value ++ mark :: (cutStep depth none rest).1), (cutStep depth none rest).2) := by
  have inside : cutStep depth (some mark) (value ++ mark :: rest) =
      (value ++ mark :: (cutStep depth none rest).1, (cutStep depth none rest).2) := by
    induction value with
    | nil =>
        rw [List.nil_append, cutStep, if_pos rfl]
        rfl
    | cons c value ih =>
        obtain ⟨apart, later⟩ := not_or.mp (mt List.mem_cons.mpr unquoted)
        rw [List.cons_append, cutStep, if_neg (Ne.symm apart), ih later]
        rfl
  have noSlash : mark ≠ '/' := by
    rintro rfl
    simp at quote
  rw [cutStep, if_neg fun both => noSlash both.1, if_pos quote, inside]

theorem cutStep_attributeContent {mark : Char} (quote : mark = '\'' ∨ mark = '"')
    {key value : List Char} (named : Xml.isName key = true) (unquoted : mark ∉ value)
    (rest : List Char) :
    cutStep 1 none (attributeContent key (mark :: (value ++ [mark])) ++ rest) =
      (attributeContent key (mark :: (value ++ [mark])) ++ (cutStep 1 none rest).1,
        (cutStep 1 none rest).2) := by
  have unmarked : ∀ c ∈ attributeContent key [], c ∉ marks := by
    intro c member
    rcases List.mem_cons.mp member with rfl | later
    · decide
    · rcases List.mem_append.mp later with inName | last
      · exact unmarked_of_name named c inName
      · rw [List.mem_singleton.mp last]
        decide
  have split (right : List Char) :
      attributeContent key (mark :: (value ++ [mark])) ++ right =
        attributeContent key [] ++ mark :: (value ++ mark :: right) := by
    simp [attributeContent]
  rw [split, split, cutStep_append unmarked, cutStep_quoted quote unquoted]

theorem isSegment_attributeText {name key value : String} {mark : Char}
    (quote : mark = '\'' ∨ mark = '"') (named : Xml.isName name.toList = true)
    (keyed : Xml.isName key.toList = true) (unquoted : mark ∉ value.toList) :
    IsSegment (attributeText name key mark value) :=
  isSegment_filter named (cutStep_attributeContent quote keyed unquoted)

/-! ### How they are read -/

/-- The attribute is what stands before the first equals sign, so that the value may have more of
them; it is a value only in quotes. -/
theorem readFilter_attributeContent {key : List Char} (named : Xml.isName key = true)
    (right : List Char) :
    readFilter (attributeContent key right) =
      match (Text.unquote? '\'' (Text.trim Text.isBlank right)).or
        (Text.unquote? '"' (Text.trim Text.isBlank right)) with
      | some value =>
          .ok (.attribute (String.ofList (Text.trimEnd Text.isBlank key)) (String.ofList value))
      | none => .error (.unsupportedFilter (String.ofList (attributeContent key right))) := by
  have noIndex : Text.index? (attributeContent key right) = none := rfl
  have noEquals : '=' ∉ '@' :: key := by
    rw [List.mem_cons, not_or]
    exact ⟨by decide, Xml.not_mem_name named (by decide)⟩
  have cut : Text.cutAt? ['='] (attributeContent key right) = some ('@' :: key, right) :=
    Text.cutAt?_mark noEquals right
  have trimmed : Text.trim Text.isBlank ('@' :: key) = '@' :: Text.trimEnd Text.isBlank key :=
    Text.trim_cons_of_visible (by decide) key
  have named : Text.dropStart? ['@'] ('@' :: Text.trimEnd Text.isBlank key) =
      some (Text.trimEnd Text.isBlank key) := Text.dropStart?_eq_some_iff.mpr rfl
  rw [readFilter, noIndex, attributeFilter?, cut, Option.bind_eq_bind, Option.bind_some]
  simp only [trimmed, named, Option.bind_eq_bind, Option.bind_some]
  cases (Text.unquote? '\'' (Text.trim Text.isBlank right)).or
    (Text.unquote? '"' (Text.trim Text.isBlank right)) <;> rfl

theorem trim_attributeContent {key right : List Char} {c : Char}
    (visible : Text.isBlank c = false) :
    Text.trim Text.isBlank (attributeContent key (c :: right)) =
      attributeContent key (c :: Text.trimEnd Text.isBlank right) := by
  have visibleEquals : Text.isBlank '=' = false := by decide
  rw [attributeContent, Text.trim_cons_of_visible (by decide),
    Text.trimEnd_append_of_visible visibleEquals, Text.trimEnd_cons_of_visible visible]
  rfl

section Filter

variable {key value : String} {mark : Char} (quote : mark = '\'' ∨ mark = '"')
  (keyed : Xml.isName key.toList = true) (unquoted : mark ∉ value.toList)
include quote

theorem bracket_ne_mark : ']' ≠ mark := by
  rintro rfl
  simp at quote

include keyed

theorem bracket_not_mem {right : List Char} (absent : ']' ∉ right) :
    ']' ∉ attributeContent key.toList (mark :: right) := by
  have noName := Xml.not_mem_name keyed (c := ']') (by decide)
  simp [attributeContent, noName, bracket_ne_mark quote, absent]

theorem readFilters_of_unbracketed (unbracketed : ']' ∉ value.toList) :
    readFilters (filterText key mark value) =
      .ok [.attribute (String.ofList (Text.trimEnd Text.isBlank key.toList)) value] := by
  have absent : ']' ∉ value.toList ++ [mark] := by
    simp [bracket_ne_mark quote, unbracketed]
  have unclosed := bracket_not_mem quote keyed absent
  have visible := Text.visible_of_quote quote
  rw [filterText, readFilters_append unclosed, trim_attributeContent visible,
    Text.trimEnd_concat_of_not _ _ _ visible, readFilter_attributeContent keyed,
    Text.trim_quoted quote, Text.unquote?_quoted quote, readFilters]
  show Except.ok [Filter.attribute _ (String.ofList value.toList)] = _
  rw [String.ofList_toList]

include unquoted

theorem exists_fault_of_bracketed (bracketed : ']' ∈ value.toList) :
    ∃ fault, readFilters (filterText key mark value) = .error fault := by
  obtain ⟨before, after, whole, unbracketed⟩ := List.eq_append_cons_of_mem bracketed
  have unclosed := bracket_not_mem quote keyed unbracketed
  -- the filter ends at the first bracket, and there its quotes are not closed
  have cut : attributeContent key.toList (mark :: (value.toList ++ [mark])) ++ [']'] =
      attributeContent key.toList (mark :: before) ++ ']' :: (after ++ [mark, ']']) := by
    simp [attributeContent, whole]
  have visible := Text.visible_of_quote quote
  have unfinished : mark ∉ Text.trimEnd Text.isBlank (Text.trimEnd Text.isBlank before) := by
    intro member
    have kept := Text.mem_of_mem_trimEnd (Text.mem_of_mem_trimEnd member)
    exact unquoted (whole ▸ List.mem_append_left _ kept)
  rw [filterText, cut, readFilters_append unclosed, trim_attributeContent visible,
    readFilter_attributeContent keyed, Text.trim_cons_of_visible visible,
    Text.unquote?_unclosed quote unfinished]
  exact ⟨_, rfl⟩

end Filter

theorem read_attributeText {name : String} (named : Xml.isName name.toList = true) (axis : Axis)
    (key : String) (mark : Char) (value : String) :
    Segment.read (axis, attributeText name key mark value) =
      (readFilters (filterText key mark value)).map (⟨axis, .element (some name), ·⟩) := by
  have read := readStep_name named axis (filterText key mark value)
    fun c first => (Option.some.inj first).symm
  rwa [String.ofList_toList] at read

/-! ### What they select -/

/-- The step that a name with such a filter is meant as. -/
def attributeStep (axis : Axis) (name key value : String) : Step :=
  ⟨axis, .element (some name), [.attribute key value]⟩

def candidates (document : Xml.Document) (axis : Axis) (hits : List Hit) : List Hit :=
  Step.select document hits ⟨axis, .element none, []⟩

def carries (document : Xml.Document) (name key value : String) (hit : Hit) : Bool :=
  document.name hit.owner = name && document.attribute? hit.owner key = some value

variable {name key value : String}

theorem selectAt_attributeStep (document : Xml.Document) (axis : Axis) (parent : Nat) :
    (attributeStep axis name key value).selectAt document parent =
      (Step.selectAt document ⟨axis, .element none, []⟩ parent).filter
        (carries document name key value) := by
  show (((document.children parent).filter (admits (some name) <| document.name ·)).map
      Hit.element).filter _ = (((document.children parent).filter
        (admits none <| document.name ·)).map Hit.element).filter _
  rw [List.filter_map, List.filter_map, List.filter_filter, List.filter_filter]
  refine congrArg (List.map Hit.element) (List.filter_congr fun index _ => ?_)
  simp only [Function.comp_apply, admits, carries, Hit.owner, Bool.and_true]
  exact Bool.and_comm _ _

theorem select_attributeStep (document : Xml.Document) (axis : Axis) (hits : List Hit) :
    Step.select document hits (attributeStep axis name key value) =
      (candidates document axis hits).filter (carries document name key value) := by
  have selected (hit : Hit) : (attributeStep axis name key value).selectFrom document hit =
      (Step.selectFrom document ⟨axis, .element none, []⟩ hit).filter
        (carries document name key value) := by
    cases hit with
    | element index =>
        show (axis.origins document index).flatMap _ =
          ((axis.origins document index).flatMap _).filter _
        rw [List.filter_flatMap]
        exact congrArg (List.flatMap · _) (funext fun parent =>
          selectAt_attributeStep document axis parent)
    | _ => rfl
  rw [candidates, Step.select, Step.select, ← eraseDups_filter, List.filter_flatMap]
  exact congrArg List.eraseDups (congrArg (List.flatMap · hits) (funext selected))

/-! ### Paths with filters -/

section Path

variable {before after : List Segment} {stepsBefore stepsAfter : List Step}
  (spelledBefore : List.Forall₂ Segment.Spells before stepsBefore)
  (spelledAfter : List.Forall₂ Segment.Spells after stepsAfter)
  (named : Xml.isName name.toList = true) (keyed : Xml.isName key.toList = true)
  {mark : Char} (quote : mark = '\'' ∨ mark = '"') (unquoted : mark ∉ value.toList)
  {absolute : Bool} {axis : Axis} {text : String}
  (written : PathText absolute (before ++ (axis, attributeText name key mark value) :: after)
    (Text.trim Text.isBlank text.toList))
include spelledBefore spelledAfter named keyed quote unquoted written

theorem parse_of_unbracketed (visible : ∀ c, key.toList.getLast? = some c → Text.isBlank c = false)
    (unbracketed : ']' ∉ value.toList) :
    parse text = .ok ⟨absolute, stepsBefore ++ attributeStep axis name key value :: stepsAfter⟩ := by
  have read := read_attributeText named axis key mark value
  rw [readFilters_of_unbracketed quote keyed unbracketed, Text.trimEnd_eq_self_iff.mpr visible,
    String.ofList_toList] at read
  have spells : Segment.Spells (axis, attributeText name key mark value)
      (attributeStep axis name key value) :=
    ⟨isSegment_attributeText quote named keyed unquoted, read⟩
  exact parse_of_spells written (List.rel_append spelledBefore (.cons spells spelledAfter))

theorem exists_error_of_bracketed (bracketed : ']' ∈ value.toList) :
    ∃ error, parse text = .error error := by
  obtain ⟨fault, faulty⟩ := exists_fault_of_bracketed quote keyed unquoted bracketed
  have refused := read_attributeText named axis key mark value
  rw [faulty] at refused
  have segments : ∀ segment ∈ before ++ (axis, attributeText name key mark value) :: after,
      IsSegment segment.2 :=
    List.forall_mem_append.mpr ⟨isSegment_of_spells spelledBefore, List.forall_mem_cons.mpr
      ⟨isSegment_attributeText quote named keyed unquoted, isSegment_of_spells spelledAfter⟩⟩
  rw [parse_segments written segments, List.mapM_append, mapM_read_of_spells spelledBefore,
    List.mapM_cons, refused]
  exact ⟨_, rfl⟩

/-- A path with a filter by the value of an attribute is accepted exactly if there is no closing
bracket in the value. It then goes on, from what its first steps select, with the elements of the
name whose attribute has this value. The name of the attribute must not end in a blank, as the
ogham space mark is one and may stand in a name. -/
theorem select_attributeText
    (visible : ∀ c, key.toList.getLast? = some c → Text.isBlank c = false) :
    ((∃ path, parse text = .ok path) ↔ ']' ∉ value.toList) ∧
      ∀ path, parse text = .ok path → ∀ document context,
        path.select document context =
          stepsAfter.foldl (Step.select document)
            ((candidates document axis
              ((XPath.mk absolute stepsBefore).select document context)).filter
                (carries document name key value)) := by
  have refused := exists_error_of_bracketed spelledBefore spelledAfter named keyed quote unquoted
    written
  have accepted := parse_of_unbracketed spelledBefore spelledAfter named keyed quote unquoted
    written visible
  have unbracketed (path : XPath) (parsed : parse text = .ok path) : ']' ∉ value.toList := by
    intro bracketed
    obtain ⟨error, failed⟩ := refused bracketed
    rw [failed] at parsed
    cases parsed
  refine ⟨⟨fun ⟨path, parsed⟩ => unbracketed path parsed, fun absent => ⟨_, accepted absent⟩⟩, ?_⟩
  intro path parsed document context
  rw [accepted (unbracketed path parsed)] at parsed
  cases parsed
  rw [select, List.foldl_append, List.foldl_cons, select_attributeStep]
  rfl

end Path

/-- Boxes of several kinds, one of which is written with slashes, brackets and quotes. -/
def boxes : Xml.Document :=
  .ofEvents [.opening "room" [], .empty "box" [("kind", "a")], .opening "box"
    [("kind", "a/b [= \"c\" ")], .empty "lid" [], .closing, .empty "lid" [], .closing]

theorem select_attributeText_boxes :
    ∃ path, parse "//box[@kind='a/b [= \"c\" ']/lid" = .ok path ∧
      path.select boxes 0 = [.element 4] := by
  have named : Xml.isName "box".toList = true := by decide
  have keyed : Xml.isName "kind".toList = true := by decide
  have lid : Segment.Spells (.child, "lid".toList) ⟨.child, .element (some "lid"), []⟩ := by
    refine ⟨isSegment_name (by decide), ?_⟩
    decide +kernel
  have visible : ∀ c, "kind".toList.getLast? = some c → Text.isBlank c = false := by
    rintro _ ⟨⟩
    decide
  have written : PathText true
      ([] ++ (.descendant, attributeText "box" "kind" '\'' "a/b [= \"c\" ") ::
        [(.child, "lid".toList)])
      (Text.trim Text.isBlank "//box[@kind='a/b [= \"c\" ']/lid".toList) :=
    .absolute (List.cons_ne_nil _ _)
  obtain ⟨accepted, selects⟩ := select_attributeText .nil (.cons lid .nil) named keyed (Or.inl rfl)
    (by decide) written visible
  obtain ⟨path, parsed⟩ := accepted.mpr (by decide)
  refine ⟨path, parsed, (selects path parsed boxes 0).trans ?_⟩
  decide +kernel

/-- The bracket in the value closes the filter, and what it closes is no filter. -/
theorem select_attributeText_bracket :
    Xml.isName "a".toList = true ∧ Xml.isName "b".toList = true ∧ '\'' ∉ "x]y".toList ∧
      "a[@b='x]y']".toList = attributeText "a" "b" '\'' "x]y" ∧
      parse "a[@b='x]y']" =
        .error (.invalidSelector "a[@b='x]y']" "unsupported predicate '[@b='x]'") := by
  refine ⟨by decide, by decide, by decide, by decide, ?_⟩
  decide +kernel

end RdfMapping.XPath
