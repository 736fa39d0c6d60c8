import RdfMapping.Evaluation.Run
import RdfMapping.Proofs.Triple.Reading
/-!
Whether the notation of triples can be read back. Strings are escaped, and always can;
IRIs, labels and language tags are written as they are, so that a document gives back its
triples exactly if all of these keep to the grammar.
-/

namespace RdfMapping

open NTriples

def IsPlain (text : String) : Prop := ∀ c ∈ text.toList, isIriChar c = true

instance (text : String) : Decidable (IsPlain text) :=
  decidable_of_iff (text.toList.all isIriChar = true) List.all_eq_true

namespace Term

def normal : Term → Term
  | .literal value none none => .typed value Vocabulary.xsdString
  | term => term

def isResource : Term → Bool
  | .iri _ | .blank _ => true
  | .literal .. => false

def Writable : Term → Prop
  | .iri text => IsPlain text
  | .blank label => isLabel label.toList = true
  | .literal _ datatype (some tag) =>
      datatype = some Vocabulary.rdfLangString ∧ isTag tag.toList = true
  | .literal _ (some datatype) none => IsPlain datatype
  | .literal _ none none => True

instance : (term : Term) → Decidable term.Writable
  | .iri text => inferInstanceAs (Decidable (IsPlain text))
  | .blank label => inferInstanceAs (Decidable (isLabel label.toList = true))
  | .literal _ datatype (some tag) =>
      inferInstanceAs
        (Decidable (datatype = some Vocabulary.rdfLangString ∧ isTag tag.toList = true))
  | .literal _ (some datatype) none => inferInstanceAs (Decidable (IsPlain datatype))
  | .literal _ none none => isTrue trivial

end Term

namespace Triple

def normal (triple : Triple) : Triple :=
  ⟨triple.subject.normal, triple.predicate.normal, triple.object.normal⟩

structure Writable (triple : Triple) : Prop where
  subject : triple.subject.Writable
  isResource : triple.subject.isResource = true
  predicate : triple.predicate.Writable
  isIri : ∃ iri, triple.predicate = .iri iri
  object : triple.object.Writable

def line (triple : Triple) : List Char :=
  triple.subject.render.toList ++ ' ' :: (triple.predicate.render.toList ++
    ' ' :: (triple.object.render.toList ++ [' ', '.']))

theorem toList_render (triple : Triple) : triple.render.toList = triple.line ++ ['\n'] := by
  unfold render line
  simp

end Triple

/-! ### Writing -/

theorem NTriples.blanks_space : Blanks [' '] := by
  intro c member
  rw [List.mem_singleton.mp member]
  rfl

namespace Term

theorem toList_render_iri (iri : String) :
    (render (.iri iri)).toList = '<' :: (iri.toList ++ ['>']) := by
  simp [render]

theorem toList_render_blank (label : String) :
    (render (.blank label)).toList = '_' :: ':' :: label.toList := by
  simp [render, blankMark]

theorem toList_render_literal (value : String) (datatype language : Option String) :
    (render (.literal value datatype language)).toList =
      '"' :: (value.toList.flatMap escapeChar ++
        '"' :: (literalSuffix datatype language).toList) := by
  simp [render, escapeLiteral]

theorem writes_escapeChar (c : Char) : stringQuoting.Writes (escapeChar c) c := by
  unfold escapeChar
  split
  · exact .escaped (.named rfl)
  · exact .escaped (.named rfl)
  · exact .escaped (.named rfl)
  · exact .escaped (.named rfl)
  · exact .escaped (.named rfl)
  · next quote backslash newline carriage tab =>
      apply Quoting.Writes.plain
      change isStringChar c = true
      unfold isStringChar isEndOfLine
      simp_all

theorem body_escaped (value : List Char) :
    stringQuoting.Body (value.flatMap escapeChar) value := by
  induction value with
  | nil => exact Quoting.Body.nil
  | cons c rest ih => exact Quoting.Body.cons (writes_escapeChar c) ih

theorem iriText_of_plain {iri : String} (plain : IsPlain iri) :
    IriText ('<' :: (iri.toList ++ ['>'])) iri :=
  IriText.mk (Quoting.body_of_plain plain)

theorem resourceText_of_writable {term : Term} (writable : term.Writable)
    (isResource : term.isResource = true) : ResourceText term.render.toList term := by
  cases term with
  | iri iri =>
      rw [toList_render_iri]
      exact ResourceText.iri (iriText_of_plain writable)
  | blank label =>
      rw [toList_render_blank]
      exact ResourceText.blank writable
  | literal value datatype language => cases isResource

theorem suffixText_of_writable {value : String} {datatype language : Option String}
    (writable : (literal value datatype language).Writable) :
    SuffixText value (literalSuffix datatype language).toList
      (literal value datatype language).normal := by
  match datatype, language with
  | none, none => exact SuffixText.none
  | some datatype, none =>
      change SuffixText value
        (if datatype = Vocabulary.xsdString then "" else "^^<" ++ datatype ++ ">").toList _
      by_cases same : datatype = Vocabulary.xsdString
      · rw [if_pos same, same]
        exact SuffixText.none
      · have written : ("^^<" ++ datatype ++ ">").toList =
            [] ++ '^' :: '^' :: ([] ++ '<' :: (datatype.toList ++ ['>'])) := by simp
        rw [if_neg same, written]
        exact SuffixText.typed nofun ⟨[], _, nofun, iriText_of_plain writable, rfl⟩
  | datatype, some tag =>
      obtain ⟨sameDatatype, isTag⟩ := writable
      have written : ("@" ++ tag).toList = [] ++ '@' :: tag.toList := by simp
      rw [sameDatatype]
      change SuffixText value ("@" ++ tag).toList _
      rw [written]
      exact SuffixText.inLanguage nofun isTag

theorem objectText_of_writable {term : Term} (writable : term.Writable) :
    ObjectText term.render.toList term.normal := by
  cases term with
  | iri iri => exact ObjectText.resource (resourceText_of_writable writable rfl)
  | blank label => exact ObjectText.resource (resourceText_of_writable writable rfl)
  | literal value datatype language =>
      rw [toList_render_literal]
      exact ObjectText.literal (body_escaped value.toList) (suffixText_of_writable writable)

end Term

theorem Triple.line_of_writable {triple : Triple} (writable : triple.Writable) :
    Line triple.line triple.normal := by
  obtain ⟨subject, isResource, predicate, ⟨iri, isIri⟩, object⟩ := writable
  rw [isIri] at predicate
  have resource : triple.subject.normal = triple.subject := by
    cases named : triple.subject with
    | iri text => rfl
    | blank label => rfl
    | literal value datatype language =>
        rw [named] at isResource
        cases isResource
  refine ⟨triple.subject.render.toList, ' ' :: triple.predicate.render.toList,
    ' ' :: triple.object.render.toList, [' ', '.'], iri, ?_, ?_, ?_, ?_, ?_, rfl⟩
  · rw [normal, resource]
    exact ⟨[], _, nofun, Term.resourceText_of_writable subject isResource, rfl⟩
  · rw [isIri, Term.toList_render_iri]
    exact ⟨[' '], _, blanks_space, Term.iriText_of_plain predicate, rfl⟩
  · rw [normal, isIri]
    rfl
  · exact ⟨[' '], _, blanks_space, Term.objectText_of_writable object, rfl⟩
  · exact ⟨[' '], [], [], blanks_space, nofun, Or.inl rfl, rfl⟩

/-! ### Reading -/

theorem plain_of_iriText {text gap rest other : List Char} {iri : String}
    (given : Spaced IriText text iri) (before : Blanks gap)
    (same : text ++ rest = gap ++ '<' :: (iri.toList ++ '>' :: other)) :
    IsPlain iri ∧ rest = other := by
  obtain ⟨blanks, token, spaced, ⟨body⟩, rfl⟩ := given
  rw [List.append_assoc, List.cons_append, List.append_assoc] at same
  obtain ⟨_, _, inner⟩ := run_unique spaced before rfl rfl same
  exact plain_of_iriBody body inner

namespace Term

theorem writable_of_resourceText {term : Term} {text gap rest other : List Char}
    (given : Spaced ResourceText text term) (before : Blanks gap)
    (same : text ++ rest = gap ++ (term.render.toList ++ other)) :
    term.Writable ∧ rest = other := by
  obtain ⟨blanks, token, spaced, resource, rfl⟩ := given
  cases resource with
  | @iri token iri found =>
      rw [toList_render_iri, List.cons_append, List.append_assoc iri.toList] at same
      exact plain_of_iriText ⟨blanks, token, spaced, found, rfl⟩ before same
  | @blank label isLabel =>
      rw [toList_render_blank, List.append_assoc] at same
      obtain ⟨_, _, inner⟩ := run_unique spaced before rfl rfl same
      exact ⟨isLabel, List.append_cancel_left (List.cons.inj inner).2⟩

theorem writable_of_suffixText {value meant : String} {datatype language : Option String}
    {suffix rest other : List Char}
    (given : SuffixText value suffix (literal meant datatype language).normal)
    (same : suffix ++ rest = (literalSuffix datatype language).toList ++ other) :
    (literal meant datatype language).Writable := by
  match datatype, language with
  | none, none => trivial
  | none, some tag => cases given
  | some datatype, some tag =>
      cases given with
      | inLanguage gap isTag => exact ⟨rfl, isTag⟩
  | some datatype, none =>
      change IsPlain datatype
      cases given with
      | none => exact (by decide : IsPlain Vocabulary.xsdString)
      | typed gap found =>
          by_cases isString : datatype = Vocabulary.xsdString
          · rw [isString]
            exact (by decide : IsPlain Vocabulary.xsdString)
          · change _ = (if datatype = Vocabulary.xsdString then ""
              else "^^<" ++ datatype ++ ">").toList ++ other at same
            have written : ("^^<" ++ datatype ++ ">").toList ++ other =
                [] ++ '^' :: '^' :: '<' :: (datatype.toList ++ '>' :: other) := by simp
            rw [if_neg isString, written, List.append_assoc] at same
            obtain ⟨_, _, inner⟩ := run_unique gap (nofun : Blanks []) rfl rfl same
            exact (plain_of_iriText found (nofun : Blanks []) (List.cons.inj inner).2).1

theorem normal_literal (value : String) (datatype language : Option String) :
    ∃ other, (literal value datatype language).normal = literal value other language := by
  match datatype, language with
  | none, none => exact ⟨_, rfl⟩
  | none, some tag => exact ⟨_, rfl⟩
  | some datatype, _ => exact ⟨_, rfl⟩

/-- The term that a resource stands for is no literal, and is not changed. -/
theorem isResource_of_resourceText {term : Term} {text : List Char}
    (given : ResourceText text term.normal) : term.isResource = true ∧ term.normal = term := by
  cases term with
  | iri text => exact ⟨rfl, rfl⟩
  | blank label => exact ⟨rfl, rfl⟩
  | literal value datatype language =>
      obtain ⟨other, isLiteral⟩ := normal_literal value datatype language
      rw [isLiteral] at given
      cases given

theorem writable_of_objectText {term : Term} {text gap rest other : List Char}
    (given : Spaced ObjectText text term.normal) (before : Blanks gap)
    (same : text ++ rest = gap ++ (term.render.toList ++ other)) : term.Writable := by
  obtain ⟨blanks, token, spaced, object, split⟩ := given
  generalize means : term.normal = meant at object
  cases object with
  | resource resource =>
      rw [← means] at resource
      rw [(isResource_of_resourceText resource).2] at resource
      exact (writable_of_resourceText ⟨blanks, token, spaced, resource, split⟩ before same).1
  | literal body ending =>
      rw [← means] at ending
      cases term with
      | iri text => cases ending
      | blank label => cases ending
      | literal value datatype language =>
          rw [split, toList_render_literal, List.append_assoc, List.cons_append, List.cons_append,
            List.append_assoc, List.append_assoc] at same
          obtain ⟨_, _, inner⟩ := run_unique spaced before rfl rfl same
          exact writable_of_suffixText ending (body.unique (body_escaped value.toList) inner).2

end Term

theorem Triple.writable_of_line {triple : Triple} (given : Line triple.line triple.normal) :
    triple.Writable := by
  obtain ⟨subject, predicate, object, ending, iri, subjectText, predicateText, isIri, objectText,
    _, same⟩ := given
  obtain ⟨blanks, token, spaced, resource, split⟩ := subjectText
  change ResourceText token triple.subject.normal at resource
  obtain ⟨isResource, unchanged⟩ := Term.isResource_of_resourceText resource
  rw [unchanged] at resource
  obtain ⟨subjectWritable, afterSubject⟩ := Term.writable_of_resourceText
    ⟨blanks, token, spaced, resource, split⟩ (nofun : Blanks []) same.symm
  have named : triple.predicate = .iri iri := by
    change triple.predicate.normal = .iri iri at isIri
    cases given : triple.predicate with
    | iri text =>
        rw [given] at isIri
        exact isIri
    | blank label =>
        rw [given] at isIri
        cases isIri
    | literal value datatype language =>
        obtain ⟨other, isLiteral⟩ := Term.normal_literal value datatype language
        rw [given, isLiteral] at isIri
        cases isIri
  have written : predicate ++ (object ++ ending) =
      [' '] ++ '<' :: (iri.toList ++ '>' ::
        ([' '] ++ (triple.object.render.toList ++ [' ', '.']))) := by
    rw [afterSubject, named, Term.toList_render_iri]
    simp
  obtain ⟨predicateWritable, afterPredicate⟩ := plain_of_iriText predicateText blanks_space written
  have objectWritable := Term.writable_of_objectText objectText blanks_space afterPredicate
  exact ⟨subjectWritable, isResource, by rw [named]; exact predicateWritable, ⟨iri, named⟩,
    objectWritable⟩

/-! ### Documents -/

namespace NTriples

theorem lines_append (before after : List Char) {c : Char} (ends : isEndOfLine c = true) :
    lines (before ++ c :: after) = lines before ++ lines after := by
  unfold lines
  rw [List.splitOnP_append_cons before after ends, List.filter_append]

theorem lines_of_single {text : List Char} (some : text ≠ [])
    (single : ∀ c ∈ text, isEndOfLine c = false) : lines text = [text] := by
  unfold lines
  rw [List.splitOnP_eq_singleton single]
  simp [some]

theorem lines_ne_nil {text : List Char} {c : Char} (member : c ∈ text)
    (visible : isEndOfLine c = false) : lines text ≠ [] := by
  obtain ⟨piece, pieceMember, inPiece⟩ := mem_splitOnP member visible
  apply List.ne_nil_of_mem
  refine List.mem_filter.mpr ⟨pieceMember, ?_⟩
  rw [Bool.not_eq_true', List.isEmpty_eq_false_iff]
  exact List.ne_nil_of_mem inPiece

/-- A text that neither begins nor ends with an end of a line is a line by itself, or
several. -/
theorem lines_single_or_more {text : List Char} {first last : Char}
    (starts : text.head? = some first) (visible : isEndOfLine first = false)
    (ends : text.getLast? = some last) (seen : isEndOfLine last = false) :
    lines text = [text] ∨ 2 ≤ (lines text).length := by
  by_cases single : ∀ c ∈ text, isEndOfLine c = false
  · have some : text ≠ [] := by
      intro none
      rw [none] at starts
      cases starts
    exact Or.inl (lines_of_single some single)
  · simp only [not_forall, Bool.not_eq_false] at single
    obtain ⟨c, member, breaks⟩ := single
    obtain ⟨before, after, split⟩ := List.append_of_mem member
    have firstMember : first ∈ before := by
      cases before with
      | nil =>
          rw [split, List.nil_append, List.head?_cons, Option.some_inj] at starts
          rw [starts, visible] at breaks
          cases breaks
      | cons head rest =>
          rw [split, List.cons_append, List.head?_cons, Option.some_inj] at starts
          rw [starts]
          exact List.mem_cons_self
    have lastMember : last ∈ after := by
      rw [split, List.getLast?_append_of_ne_nil _ (List.cons_ne_nil _ _)] at ends
      cases after with
      | nil =>
          rw [List.getLast?_singleton, Option.some_inj] at ends
          rw [ends, seen] at breaks
          cases breaks
      | cons head rest =>
          rw [List.getLast?_cons_cons] at ends
          exact List.mem_of_getLast? ends
    rw [split, lines_append before after breaks, List.length_append]
    have early := List.length_pos_iff.mpr (lines_ne_nil firstMember visible)
    have late := List.length_pos_iff.mpr (lines_ne_nil lastMember seen)
    exact Or.inr (by omega)

/-- If a list has no more parts than items, and each item has one, each has just one. -/
theorem length_eq_one_of_flatMap {α β : Type} {parts : α → List β} {items : List α}
    (some : ∀ a ∈ items, parts a ≠ [])
    (few : (items.flatMap parts).length ≤ items.length) : ∀ a ∈ items, (parts a).length = 1 := by
  have many (others : List α) (some : ∀ a ∈ others, parts a ≠ []) :
      others.length ≤ (others.flatMap parts).length := by
    induction others with
    | nil => exact Nat.le_refl _
    | cons a rest ih =>
        obtain ⟨first, later⟩ := List.forall_mem_cons.mp some
        have here := List.length_pos_iff.mpr first
        have there := ih later
        rw [List.flatMap_cons, List.length_append, List.length_cons]
        omega
  induction items with
  | nil => nofun
  | cons a rest ih =>
      obtain ⟨first, later⟩ := List.forall_mem_cons.mp some
      have here := List.length_pos_iff.mpr first
      have there := many rest later
      rw [List.flatMap_cons, List.length_append, List.length_cons] at few
      exact List.forall_mem_cons.mpr ⟨by omega, ih later (by omega)⟩

end NTriples

namespace Triple

theorem head?_line (triple : Triple) :
    ∃ first, triple.line.head? = some first ∧ isEndOfLine first = false := by
  unfold line
  cases triple.subject with
  | iri text =>
      rw [Term.toList_render_iri]
      exact ⟨'<', rfl, rfl⟩
  | blank label =>
      rw [Term.toList_render_blank]
      exact ⟨'_', rfl, rfl⟩
  | literal value datatype language =>
      rw [Term.toList_render_literal]
      exact ⟨'"', rfl, rfl⟩

theorem getLast?_line (triple : Triple) : triple.line.getLast? = some '.' := by
  have split : triple.line = (triple.subject.render.toList ++ ' ' ::
      (triple.predicate.render.toList ++ ' ' :: (triple.object.render.toList ++ [' ']))) ++
        ['.'] := by simp [line]
  rw [split, List.getLast?_concat]

theorem lines_line_ne_nil (triple : Triple) : lines triple.line ≠ [] :=
  lines_ne_nil (List.mem_of_getLast? triple.getLast?_line) rfl

def document (triples : List Triple) : List Char :=
  triples.flatMap fun triple => triple.line ++ ['\n']

theorem lines_document (triples : List Triple) :
    lines (document triples) = triples.flatMap fun triple => lines triple.line := by
  induction triples with
  | nil => rfl
  | cons triple rest ih =>
      unfold document at ih ⊢
      rw [List.flatMap_cons, List.flatMap_cons, ← ih, List.append_assoc]
      exact lines_append _ _ rfl

theorem lines_document_of_single {triples : List Triple}
    (single : ∀ triple ∈ triples, lines triple.line = [triple.line]) :
    lines (document triples) = triples.map line := by
  rw [lines_document, List.map_eq_flatMap]
  exact List.flatMap_congr single

theorem writable_of_document {triples : List Triple}
    (given : List.Forall₂ Line (lines (document triples)) (triples.map normal)) :
    ∀ triple ∈ triples, triple.Writable := by
  -- a triple that is written as several lines leaves more lines than there are triples
  have length := given.length_eq
  rw [lines_document, List.length_map] at length
  have each := length_eq_one_of_flatMap (fun triple _ => triple.lines_line_ne_nil)
    (Nat.le_of_eq length)
  have single : ∀ triple ∈ triples, lines triple.line = [triple.line] := by
    intro triple member
    obtain ⟨first, starts, visible⟩ := triple.head?_line
    rcases lines_single_or_more starts visible triple.getLast?_line rfl with one | more
    · exact one
    · have one := each triple member
      omega
  rw [lines_document_of_single single, List.forall₂_map_left_iff, List.forall₂_map_right_iff,
    List.forall₂_same] at given
  intro triple member
  exact writable_of_line (given triple member)

end Triple

/-! ### Whole documents -/

namespace NTriples

theorem not_endOfLine_of_class {isOfClass : Char → Bool} (newline : isOfClass '\n' = false)
    (carriageReturn : isOfClass '\r' = false) {c : Char} (member : isOfClass c = true) :
    isEndOfLine c = false := by
  unfold isEndOfLine
  rw [Bool.or_eq_false_iff, beq_eq_false_iff_ne, beq_eq_false_iff_ne]
  constructor
  · intro same
    rw [same, newline] at member
    cases member
  · intro same
    rw [same, carriageReturn] at member
    cases member

theorem labelChar_of_mem {label : List Char} (given : isLabel label = true) :
    ∀ c ∈ label, isLabelStart c = true ∨ isLabelChar c = true := by
  cases label with
  | nil => cases given
  | cons first rest =>
      unfold isLabel at given
      rw [Bool.and_eq_true, Bool.and_eq_true, List.all_eq_true] at given
      obtain ⟨⟨start, others⟩, _⟩ := given
      exact List.forall_mem_cons.mpr ⟨Or.inl start, fun c member => Or.inr (others c member)⟩

theorem not_endOfLine_of_label {label : List Char} (given : isLabel label = true) :
    ∀ c ∈ label, isEndOfLine c = false := by
  intro c member
  rcases labelChar_of_mem given c member with start | inside
  · exact not_endOfLine_of_class (by decide) (by decide) start
  · exact not_endOfLine_of_class (by decide) (by decide) inside

end NTriples

namespace Term

theorem not_endOfLine_of_iri {iri : String} (plain : IsPlain iri) :
    ∀ c ∈ '<' :: (iri.toList ++ ['>']), isEndOfLine c = false := by
  rw [List.forall_mem_cons, List.forall_mem_append]
  refine ⟨rfl, ?_, by simp [isEndOfLine]⟩
  intro c member
  exact not_endOfLine_of_class (by decide) (by decide) (plain c member)

theorem not_endOfLine_of_escape (c : Char) : ∀ d ∈ escapeChar c, isEndOfLine d = false := by
  unfold escapeChar
  split
  · simp [isEndOfLine]
  · simp [isEndOfLine]
  · simp [isEndOfLine]
  · simp [isEndOfLine]
  · simp [isEndOfLine]
  · next quote backslash newline carriageReturn tab =>
      intro d member
      rw [List.mem_singleton.mp member]
      unfold isEndOfLine
      simp_all

theorem not_endOfLine_of_suffix {value : String} {datatype language : Option String}
    (writable : (literal value datatype language).Writable) :
    ∀ c ∈ (literalSuffix datatype language).toList, isEndOfLine c = false := by
  match datatype, language with
  | none, none => nofun
  | datatype, some tag =>
      change ∀ c ∈ ("@" ++ tag).toList, _
      rw [String.toList_append, List.forall_mem_append]
      refine ⟨by simp [isEndOfLine], ?_⟩
      intro c member
      exact not_endOfLine_of_class (by decide) (by decide) (isTagChar_of_mem writable.2 c member)
  | some datatype, none =>
      change ∀ c ∈ (if datatype = Vocabulary.xsdString then ""
        else "^^<" ++ datatype ++ ">").toList, _
      split
      · nofun
      · have written : ("^^<" ++ datatype ++ ">").toList =
            '^' :: '^' :: '<' :: (datatype.toList ++ ['>']) := by simp
        rw [written, List.forall_mem_cons, List.forall_mem_cons]
        exact ⟨rfl, rfl, not_endOfLine_of_iri writable⟩

theorem not_endOfLine {term : Term} (writable : term.Writable) :
    ∀ c ∈ term.render.toList, isEndOfLine c = false := by
  cases term with
  | iri text =>
      rw [toList_render_iri]
      exact not_endOfLine_of_iri writable
  | blank label =>
      rw [toList_render_blank, List.forall_mem_cons, List.forall_mem_cons]
      exact ⟨rfl, rfl, not_endOfLine_of_label writable⟩
  | literal value datatype language =>
      rw [toList_render_literal, List.forall_mem_cons, List.forall_mem_append,
        List.forall_mem_cons]
      refine ⟨rfl, ?_, rfl, not_endOfLine_of_suffix writable⟩
      intro d member
      obtain ⟨c, _, inEscape⟩ := List.mem_flatMap.mp member
      exact not_endOfLine_of_escape c d inEscape

end Term

namespace Triple

theorem lines_line_of_writable {triple : Triple} (writable : triple.Writable) :
    lines triple.line = [triple.line] := by
  apply lines_of_single
  · intro none
    have last := triple.getLast?_line
    rw [none] at last
    cases last
  · unfold line
    rw [List.forall_mem_append, List.forall_mem_cons, List.forall_mem_append,
      List.forall_mem_cons, List.forall_mem_append]
    exact ⟨Term.not_endOfLine writable.subject, rfl, Term.not_endOfLine writable.predicate, rfl,
      Term.not_endOfLine writable.object, by simp [isEndOfLine]⟩

/-- A document of triples is read as these triples and no others exactly if all of them keep
to the grammar. -/
theorem document_iff {triples : List Triple} :
    (∀ read, List.Forall₂ Line (lines (document triples)) read ↔ read = triples.map normal) ↔
      ∀ triple ∈ triples, triple.Writable := by
  constructor
  · intro readBack
    exact writable_of_document ((readBack _).mpr rfl)
  · intro writable read
    rw [lines_document_of_single fun triple member =>
      lines_line_of_writable (writable triple member), List.forall₂_map_left_iff]
    constructor
    · intro given
      induction given with
      | nil => rfl
      | @cons triple other rest others first later ih =>
          obtain ⟨here, there⟩ := List.forall_mem_cons.mp writable
          rw [List.map_cons, ← ih there, Line.unique first (line_of_writable here)]
    · intro same
      rw [same, List.forall₂_map_right_iff, List.forall₂_same]
      intro triple member
      exact line_of_writable (writable triple member)

end Triple

end RdfMapping
