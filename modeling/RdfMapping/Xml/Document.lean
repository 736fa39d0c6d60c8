import RdfMapping.Error
import RdfMapping.Text.Search
import RdfMapping.Xml.Event
/-!
XML documents. A document is a list of elements, each of which knows its parent
and its children by their positions in the list. The element at position 0 stands
for the document itself. An element comes after its parent, so that following
parents, and following children, always ends.

A document is built from the events of its text. The element that is open
innermost receives the character data and the next element; where none is open, the
document itself does.
-/

namespace RdfMapping.Xml

structure Element where
  name : String
  attributes : List (String × String)
  children : List Nat
  parent : Option Nat
  /-- The character data that stands directly in the element. -/
  text : String
  deriving DecidableEq, Repr

structure Document where
  elements : Array Element
  inhabited : 0 < elements.size
  /-- Children come after their parent. -/
  later : ∀ (index : Nat) (element : Element), elements[index]? = some element →
    ∀ child ∈ element.children, index < child
  /-- Parents come before their children. -/
  earlier : ∀ (index : Nat) (element : Element), elements[index]? = some element →
    ∀ parent, element.parent = some parent → parent < index

namespace Document

/-! ### Growth -/

def empty : Document where
  elements := #[⟨"", [], [], none, ""⟩]
  inhabited := by simp
  later := by
    intro index element found child member
    obtain ⟨within, same⟩ := Array.getElem?_eq_some_iff.1 found
    simp at within
    subst within
    simp at same
    simp [← same] at member
  earlier := by
    intro index element found parent has
    obtain ⟨within, same⟩ := Array.getElem?_eq_some_iff.1 found
    simp at within
    subst within
    simp at same
    simp [← same] at has

def addText (document : Document) (index : Nat) (content : String) : Document where
  elements := document.elements.modify index fun element =>
    { element with text := element.text ++ content }
  inhabited := by simpa using document.inhabited
  later := by
    intro i element found child member
    rw [Array.getElem?_modify] at found
    split at found
    · obtain ⟨old, here, same⟩ := Option.map_eq_some_iff.1 found
      subst same
      exact document.later i old here child member
    · exact document.later i element found child member
  earlier := by
    intro i element found parent has
    rw [Array.getElem?_modify] at found
    split at found
    · obtain ⟨old, here, same⟩ := Option.map_eq_some_iff.1 found
      subst same
      exact document.earlier i old here parent has
    · exact document.earlier i element found parent has

def addElement (document : Document) (parent : Nat) (present : parent < document.elements.size)
    (name : String) (attributes : List (String × String)) : Document where
  elements :=
    (document.elements.modify parent fun element =>
      { element with children := element.children ++ [document.elements.size] }).push
      ⟨name, attributes, [], some parent, ""⟩
  inhabited := by simp
  later := by
    intro i element found child member
    rw [Array.getElem?_push, Array.getElem?_modify] at found
    split at found
    · cases found
      cases member
    · split at found
      · next same =>
          obtain ⟨old, here, grown⟩ := Option.map_eq_some_iff.1 found
          subst grown
          rcases List.mem_append.1 member with before | last
          · exact document.later i old here child before
          · rw [List.mem_singleton.1 last, ← same]
            exact present
      · exact document.later i element found child member
  earlier := by
    intro i element found above has
    rw [Array.getElem?_push, Array.getElem?_modify] at found
    split at found
    · next last =>
        cases found
        cases has
        rw [Array.size_modify] at last
        rw [last]
        exact present
    · split at found
      · obtain ⟨old, here, grown⟩ := Option.map_eq_some_iff.1 found
        subst grown
        exact document.earlier i old here above has
      · exact document.earlier i element found above has

theorem size_addText (document : Document) (index : Nat) (content : String) :
    (document.addText index content).elements.size = document.elements.size := by
  simp [addText]

theorem size_addElement (document : Document) (parent : Nat)
    (present : parent < document.elements.size) (name : String)
    (attributes : List (String × String)) :
    (document.addElement parent present name attributes).elements.size =
      document.elements.size + 1 := by
  simp [addElement]

end Document

/-! ### Construction -/

/-- A document under construction, with its open elements, the innermost one
first. -/
structure Construction where
  document : Document
  opened : List Nat
  present : ∀ index ∈ opened, index < document.elements.size

namespace Construction

def start : Construction := ⟨.empty, [], by simp⟩

def current (c : Construction) : Nat := c.opened.headD 0

theorem current_lt (c : Construction) : c.current < c.document.elements.size := by
  unfold current
  match same : c.opened with
  | [] => exact c.document.inhabited
  | index :: _ => exact c.present index (by simp [same])

def addElement (c : Construction) (name : String) (attributes : List (String × String)) :
    Construction :=
  { document := c.document.addElement c.current c.current_lt name attributes
    opened := c.opened
    present := by
      intro index member
      rw [Document.size_addElement]
      exact Nat.lt_succ_of_lt (c.present index member) }

def openLast (c : Construction) : Construction :=
  { document := c.document
    opened := (c.document.elements.size - 1) :: c.opened
    present := by
      intro index member
      rcases List.mem_cons.1 member with same | before
      · have inhabited := c.document.inhabited
        omega
      · exact c.present index before }

def close (c : Construction) : Construction :=
  { document := c.document
    opened := c.opened.tail
    present := fun index member => c.present index (List.mem_of_mem_tail member) }

def addText (c : Construction) (content : String) : Construction :=
  { document := c.document.addText c.current content
    opened := c.opened
    present := by
      intro index member
      rw [Document.size_addText]
      exact c.present index member }

def step (c : Construction) : Event → Construction
  | .opening name attributes => (c.addElement name attributes).openLast
  | .closing => c.close
  | .empty name attributes => c.addElement name attributes
  | .text content => c.addText content

end Construction

namespace Document

def ofEvents (events : List Event) : Document :=
  (events.foldl Construction.step .start).document

/-- A text without the given attributes, each with its value as it is written.
They are removed one after the other. -/
def dropDeclarations (declarations : List (String × String)) (text : List Char) : List Char :=
  declarations.foldl
    (fun text entry =>
      Text.replaceAll (entry.1.toList ++ '=' :: '"' :: entry.2.toList ++ ['"']) [] text)
    text

def parse (id content : String) (declarations : List (String × String)) : Outcome Document :=
  match read? (dropDeclarations declarations content.toList) with
  | some events => .ok (ofEvents events)
  | none => .error (.source id .malformed)

/-! ### Navigation -/

def size (document : Document) : Nat := document.elements.size - 1

def element? (document : Document) (index : Nat) : Option Element := document.elements[index]?

def children (document : Document) (index : Nat) : List Nat :=
  ((document.element? index).map Element.children).getD []

def attributes (document : Document) (index : Nat) : List (String × String) :=
  ((document.element? index).map Element.attributes).getD []

def name (document : Document) (index : Nat) : String :=
  ((document.element? index).map Element.name).getD ""

def text (document : Document) (index : Nat) : String :=
  ((document.element? index).map Element.text).getD ""

def attribute? (document : Document) (index : Nat) (name : String) : Option String :=
  ((document.attributes index).find? (·.1 = name)).map Prod.snd

def selfAndDescendants (document : Document) (index : Nat) : List Nat :=
  match _found : document.elements[index]? with
  | none => []
  | some element =>
      index :: element.children.attach.flatMap fun child =>
        document.selfAndDescendants child.1
termination_by document.elements.size - index
decreasing_by
  have after := document.later index element _found child.1 child.2
  have within := (Array.getElem?_eq_some_iff.1 _found).1
  omega

/-- All character data in an element: its own, then that of each child. -/
def stringValue (document : Document) (index : Nat) : String :=
  match _found : document.elements[index]? with
  | none => ""
  | some element =>
      element.text ++ String.join (element.children.attach.map fun child =>
        document.stringValue child.1)
termination_by document.elements.size - index
decreasing_by
  have after := document.later index element _found child.1 child.2
  have within := (Array.getElem?_eq_some_iff.1 _found).1
  omega

/-- The position of an element among the children of its parent that share its
name, counted from 1. -/
def position (document : Document) (parent index : Nat) : Nat :=
  let namesakes := (document.children parent).filter fun child =>
    document.name child = document.name index
  ((namesakes.findIdx? (· = index)).map (· + 1)).getD 1

/-- The way from the document to an element, by names and positions. -/
def path (document : Document) (index : Nat) : String :=
  match _found : document.elements[index]? with
  | none => ""
  | some element =>
      match _above : element.parent with
      | none => ""
      | some parent =>
          document.path parent ++ "/" ++ element.name ++
            "[" ++ toString (document.position parent index) ++ "]"
termination_by index
decreasing_by exact document.earlier index element _found parent _above

end Document

end RdfMapping.Xml
