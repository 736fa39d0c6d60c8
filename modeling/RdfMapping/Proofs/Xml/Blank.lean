import RdfMapping.Proofs.Text.Tokens
import RdfMapping.Proofs.Xml.Tree
/-!
Texts that leave nothing in their document. Comments, processing instructions and document types
have no trace, and neither has a text of blanks. A text that ends in a quote has one: what the
quote stands in is character data, or has not been closed.
-/

namespace RdfMapping.Xml

/-! ### Traces -/

def Event.IsVisible : Event → Prop
  | .opening _ _ => True
  | .empty _ _ => True
  | .closing => False
  | .text content => content ≠ ""

namespace Document

def IsFilled (document : Document) : Prop :=
  1 < document.elements.size ∨ document.text 0 ≠ ""

theorem not_isFilled_empty : ¬ empty.IsFilled := by
  rintro (elements | characters)
  · exact absurd elements (by decide)
  · exact characters rfl

theorem isFilled_addElement (document : Document) {parent : Nat}
    (present : parent < document.elements.size) (name : String)
    (attributes : List (String × String)) :
    (document.addElement parent present name attributes).IsFilled := by
  have inhabited := document.inhabited
  left
  rw [size_addElement]
  omega

end Document

namespace Construction

theorem isFilled_addText {c : Construction} {content : String}
    (filled : c.document.IsFilled ∨ content ≠ "") : (c.addText content).document.IsFilled := by
  by_cases several : 1 < c.document.elements.size
  · left
    show 1 < (c.document.addText c.current content).elements.size
    rwa [Document.size_addText]
  · have top : c.current = 0 := by
      have present := c.current_lt
      omega
    right
    show (c.document.addText c.current content).text 0 ≠ ""
    rw [top, Document.text_addText _ c.document.inhabited, if_pos rfl, Ne,
      String.append_eq_empty_iff]
    rintro ⟨before, added⟩
    rcases filled with (elements | characters) | some
    · exact several elements
    · exact characters before
    · exact some added

theorem isFilled_step {c : Construction} {event : Event}
    (filled : c.document.IsFilled ∨ event.IsVisible) : (c.step event).document.IsFilled := by
  cases event with
  | opening name attributes => exact c.document.isFilled_addElement c.current_lt name attributes
  | empty name attributes => exact c.document.isFilled_addElement c.current_lt name attributes
  | closing => exact filled.resolve_right id
  | text content => exact isFilled_addText filled

theorem isFilled_foldl {c : Construction} {events : List Event}
    (filled : c.document.IsFilled ∨ ∃ event ∈ events, event.IsVisible) :
    (events.foldl step c).document.IsFilled := by
  induction events generalizing c with
  | nil => exact filled.resolve_right nofun
  | cons event later ih =>
      apply ih
      rcases filled with already | ⟨visible, member, isVisible⟩
      · exact Or.inl (isFilled_step (Or.inl already))
      · rcases List.mem_cons.mp member with rfl | further
        · exact Or.inl (isFilled_step (Or.inr isVisible))
        · exact Or.inr ⟨visible, further, isVisible⟩

end Construction

theorem Document.isFilled_ofEvents {events : List Event} {event : Event} (member : event ∈ events)
    (visible : event.IsVisible) : (ofEvents events).IsFilled :=
  Construction.isFilled_foldl (Or.inr ⟨event, member, visible⟩)

/-! ### The end of a text -/

def EndsQuoted (text : List Char) : Prop := text.getLast? = some '"'

theorem endsQuoted_of_append {before rest : List Char} {c : Char} (apart : c ≠ '"')
    (ends : EndsQuoted (before ++ c :: rest)) : EndsQuoted rest := by
  cases rest with
  | nil =>
      rw [EndsQuoted, List.getLast?_concat] at ends
      exact absurd (Option.some.inj ends) apart
  | cons d rest =>
      rw [EndsQuoted, List.getLast?_append, List.getLast?_cons_cons, List.getLast?_cons,
        Option.some_or] at ends
      rwa [EndsQuoted, List.getLast?_cons]

theorem endsQuoted_of_cons {rest : List Char} {c : Char} (apart : c ≠ '"')
    (ends : EndsQuoted (c :: rest)) : EndsQuoted rest :=
  @endsQuoted_of_append [] rest c apart ends

theorem endsQuoted_dropBlanks {text : List Char} (ends : EndsQuoted text) :
    EndsQuoted (dropBlanks text) := by
  induction text with
  | nil => cases ends
  | cons c rest ih =>
      by_cases blank : Text.isXmlBlank c = true
      · have apart : c ≠ '"' := by
          rintro rfl
          cases blank
        rw [dropBlanks, List.dropWhile_cons_of_pos blank]
        exact ih (endsQuoted_of_cons apart ends)
      · rwa [dropBlanks, List.dropWhile_cons_of_neg blank]

theorem eq_of_cutAtClose? {closes : List Char → Bool} {before text content rest : List Char}
    (found : cutAtClose? closes before text = some (content, rest)) :
    ∃ inner, text = inner ++ '>' :: rest := by
  induction text generalizing before with
  | nil => cases found
  | cons c tail ih =>
      unfold cutAtClose? at found
      split at found
      · next closing =>
          cases found
          exact ⟨[], by rw [beq_iff_eq.mp (Bool.and_eq_true_iff.mp closing).1]; rfl⟩
      · obtain ⟨inner, rfl⟩ := ih found
        exact ⟨c :: inner, rfl⟩

theorem endsQuoted_of_takeShaped? {closes : List Char → Bool} {shape : List Char → Option Markup}
    {before text rest : List Char} {markup : Markup} (ends : EndsQuoted text)
    (found : takeShaped? closes shape before text = some (markup, rest)) : EndsQuoted rest := by
  obtain ⟨parts, cut, shaped⟩ := Option.bind_eq_some_iff.mp found
  obtain ⟨_, _, same⟩ := Option.map_eq_some_iff.mp shaped
  cases same
  obtain ⟨inner, rfl⟩ := eq_of_cutAtClose? cut
  exact endsQuoted_of_append (by decide) ends

/-- Only a closing tag may reach up to the quote at the end of a text. -/
theorem endsQuoted_of_takeMarkup? {text rest : List Char} {markup : Markup}
    (ends : EndsQuoted text) (found : takeMarkup? text = some (markup, rest)) :
    EndsQuoted rest ∨ ∃ name, markup = .closing name := by
  unfold takeMarkup? at found
  split at found
  · next declaration =>
      have behind := endsQuoted_of_cons (by decide) ends
      unfold takeDeclaration? at found
      split at found
      · exact Or.inl (endsQuoted_of_takeShaped? behind found)
      · exact Or.inl (endsQuoted_of_takeShaped? behind found)
      · exact Or.inl (endsQuoted_of_takeShaped? behind found)
      · exact Or.inl (endsQuoted_of_takeShaped? behind found)
      · cases found
  · cases found
    exact Or.inr ⟨_, rfl⟩
  · next tail =>
      simp only [Option.ite_none_right_eq_some, Option.some.injEq, Prod.mk.injEq] at found
      obtain ⟨instruction, _, rfl⟩ := found
      unfold cutAtEnd at instruction ⊢
      cases cut : cutAtClose? (fun _ => true) [] ('?' :: tail) with
      | some parts =>
          obtain ⟨inner, whole⟩ := eq_of_cutAtClose? cut
          rw [whole] at ends
          exact Or.inl (endsQuoted_of_append (by decide) ends)
      | none =>
          rw [cut, isInstruction, Bool.and_eq_true, beq_iff_eq] at instruction
          exact absurd (ends.symm.trans instruction.2) (by decide)
  · exact Or.inl (endsQuoted_of_takeShaped? ends found)

theorem unescapeFrom_ne_nil {name : Option (List Char)} {text content : List Char}
    (read : unescapeFrom name text = some content) (some : name ≠ none ∨ text ≠ []) :
    content ≠ [] := by
  fun_induction unescapeFrom name text generalizing content with
  | case1 => exact absurd some (by simp)
  | case2 => cases read
  | case3 _ ih => exact ih read (Or.inl (Option.some_ne_none _))
  | case4 =>
      obtain ⟨_, _, rfl⟩ := Option.map_eq_some_iff.mp read
      exact List.cons_ne_nil _ _
  | case5 => cases read
  | case6 =>
      obtain ⟨_, _, read⟩ := Option.bind_eq_some_iff.mp read
      obtain ⟨_, _, same⟩ := Option.bind_eq_some_iff.mp read
      cases same
      exact List.cons_ne_nil _ _
  | case7 _ _ _ _ _ ih => exact ih read (Or.inl (Option.some_ne_none _))

/-- A run of character data is visible, as it does not begin with a blank. -/
theorem isVisible_of_unescape? {first : Char} {more content : List Char}
    (noBlank : Text.isXmlBlank first = false)
    (read : unescape? (Text.trimEnd Text.isXmlBlank (first :: more)) = some content) :
    (Event.text (String.ofList content)).IsVisible := by
  rw [Text.trimEnd_cons_of_visible noBlank] at read
  have some : content ≠ [] := unescapeFrom_ne_nil read (Or.inr (List.cons_ne_nil _ _))
  intro empty
  have none := congrArg String.toList empty
  rw [String.toList_ofList] at none
  exact some none

theorem visible_of_dropBlanks {text more : List Char} {first : Char}
    (start : dropBlanks text = first :: more) : Text.isXmlBlank first = false := by
  have stops := List.head?_dropWhile_not Text.isXmlBlank text
  rw [show text.dropWhile Text.isXmlBlank = first :: more from start] at stops
  exact stops

/-- A text that ends in a quote is read with an event that is visible, if it does not begin
inside elements. -/
theorem exists_visible_of_readFrom {names : List (List Char)} {text : List Char}
    {events : List Event} (ends : EndsQuoted text) (read : readFrom names text = some events) :
    names ≠ [] ∨ ∃ event ∈ events, event.IsVisible := by
  -- what a markup other than a closing tag leaves ends in the quote
  have behind {text inside rest : List Char} {markup : Markup} (ends : EndsQuoted text)
      (start : dropBlanks text = '<' :: inside)
      (found : takeMarkup? inside = some (markup, rest))
      (notClosing : ∀ name, markup ≠ .closing name) : EndsQuoted rest := by
    have kept := endsQuoted_dropBlanks ends
    rw [start] at kept
    have inner := endsQuoted_of_cons (by decide) kept
    exact (endsQuoted_of_takeMarkup? inner found).resolve_right
      fun ⟨name, same⟩ => notClosing name same
  fun_induction readFrom names text generalizing events with
  | case1 names text start =>
      have kept := endsQuoted_dropBlanks ends
      rw [start] at kept
      cases kept
  | case2 names text start =>
      have kept := endsQuoted_dropBlanks ends
      rw [start] at kept
      cases kept
  | case3 => cases read
  | case4 names text inside _ start rest found ih =>
      exact ih (behind ends start found nofun) read
  | case5 names text inside _ start content rest found ih =>
      obtain ⟨later, readLater, rfl⟩ := Option.map_eq_some_iff.mp read
      refine (ih (behind ends start found nofun) readLater).imp_right ?_
      exact fun ⟨event, member, visible⟩ => ⟨event, List.mem_cons_of_mem _ member, visible⟩
  | case6 => cases read
  | case7 => exact Or.inl (List.cons_ne_nil _ _)
  | case8 => cases read
  | case9 =>
      obtain ⟨later, _, rfl⟩ := Option.map_eq_some_iff.mp read
      exact Or.inr ⟨_, List.mem_cons_self, trivial⟩
  | case10 =>
      obtain ⟨later, _, rfl⟩ := Option.map_eq_some_iff.mp read
      exact Or.inr ⟨_, List.mem_cons_self, trivial⟩
  | case11 names text first more _ _ start _ =>
      obtain ⟨content, unescaped, read⟩ := Option.bind_eq_some_iff.mp read
      obtain ⟨later, _, same⟩ := Option.bind_eq_some_iff.mp read
      cases same
      exact Or.inr ⟨_, List.mem_cons_self,
        isVisible_of_unescape? (visible_of_dropBlanks start) unescaped⟩

/-- A text that ends in a quote is not read as the empty document. -/
theorem isFilled_of_read? {text : List Char} {events : List Event} (ends : EndsQuoted text)
    (read : read? text = some events) : (Document.ofEvents events).IsFilled := by
  have behind : EndsQuoted (Text.dropMark text) := by
    unfold Text.dropMark
    split
    · exact endsQuoted_of_cons (by decide) ends
    · exact ends
  obtain ⟨event, member, visible⟩ :=
    (exists_visible_of_readFrom behind read).resolve_left (fun some => some rfl)
  exact Document.isFilled_ofEvents member visible

end RdfMapping.Xml
