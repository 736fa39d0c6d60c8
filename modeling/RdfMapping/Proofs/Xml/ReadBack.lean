import Mathlib.Data.List.Perm.Subperm
import RdfMapping.Proofs.Xml.Spelling
import RdfMapping.Proofs.Xml.Tree
/-!
Written places of elements. The place of an element is written from the document down, by the
names of the elements on the way and by their positions among the children of that name. Read
as a path, it leads to the element and to no other one, if the names are names of XML and a
machine word counts the elements.
-/

namespace RdfMapping

namespace Xml

/-! ### Positions -/

namespace Document

variable {document : Document}

theorem path_of_parent? {index parent : Nat} (above : document.parent? index = some parent) :
    document.path index =
      document.path parent ++ "/" ++ document.name index ++
        "[" ++ toString (document.position parent index) ++ "]" := by
  obtain ⟨element, found, has⟩ := Option.bind_eq_some_iff.mp above
  have named : document.name index = element.name := by
    rw [name, found]
    rfl
  rw [named, path]
  split
  · next none =>
      rw [element?, none] at found
      cases found
  · next other there =>
      rw [element?, there] at found
      cases found
      split
      · next none =>
          rw [none] at has
          cases has
      · next another here =>
          rw [here] at has
          cases has
          rfl

theorem path_of_root {index : Nat} (top : document.parent? index = none) :
    document.path index = "" := by
  rw [path]
  split
  · rfl
  · next element found =>
      split
      · rfl
      · next parent has =>
          rw [parent?, element?, found] at top
          exact absurd (has.symm.trans top) (Option.some_ne_none parent)

theorem length_children_le (tree : document.IsTree) (parent : Nat) :
    (document.children parent).length ≤ document.size := by
  have nodup : (document.children parent).Nodup :=
    (tree.increasing parent).imp fun before => Nat.ne_of_lt before
  have within : document.children parent ⊆ List.range' 1 document.size := by
    intro child member
    have bounds := tree.lt_of_mem_children member
    rw [List.mem_range'_1, size]
    omega
  have shorter := (List.subperm_of_subset nodup within).length_le
  rwa [List.length_range'] at shorter

def namesakes (document : Document) (parent index : Nat) : List Nat :=
  (document.children parent).filter fun child => document.name child = document.name index

theorem getElem?_position (tree : document.IsTree) {index parent : Nat}
    (above : document.parent? index = some parent) :
    0 < document.position parent index ∧ document.position parent index ≤ document.size ∧
      (document.namesakes parent index)[document.position parent index - 1]? = some index := by
  have child : index ∈ document.namesakes parent index :=
    List.mem_filter.mpr ⟨(tree.mem_children parent index).mpr above, decide_eq_true rfl⟩
  obtain ⟨place, found⟩ : ∃ place,
      (document.namesakes parent index).findIdx? (· = index) = some place := by
    rw [← Option.isSome_iff_exists, List.findIdx?_isSome, List.any_eq_true]
    exact ⟨index, child, decide_eq_true rfl⟩
  obtain ⟨within, here, _⟩ := List.findIdx?_eq_some_iff_getElem.mp found
  have counted : document.position parent index = place + 1 := by
    show ((document.namesakes parent index).findIdx? _ |>.map (· + 1)).getD 1 = _
    rw [found]
    rfl
  have some : (document.namesakes parent index).length ≤ document.size :=
    Nat.le_trans (List.length_filter_le _ _) (length_children_le tree parent)
  rw [counted]
  refine ⟨Nat.succ_pos place, by omega, ?_⟩
  rw [Nat.add_sub_cancel, List.getElem?_eq_getElem within]
  exact congrArg Option.some (of_decide_eq_true here)

end Document

end Xml

namespace XPath

/-! ### Links -/

/-- A link of a place: an element by its name and by its position among the children of that
name. -/
structure Link where
  name : String
  position : Nat

namespace Link

def chars (link : Link) : List Char :=
  link.name.toList ++ '[' :: ((toString link.position).toList ++ [']'])

def step (link : Link) : Step := ⟨.child, .element (some link.name), [.position link.position]⟩

structure IsReadable (link : Link) : Prop where
  named : Xml.isName link.name.toList = true
  positive : 0 < link.position
  small : link.position < Nat.pow 2 64

end Link

def placeChars (links : List Link) : List Char := links.flatMap fun link => '/' :: link.chars

theorem placeChars_cons (link : Link) (rest : List Link) :
    placeChars (link :: rest) = '/' :: (link.chars ++ placeChars rest) := List.flatMap_cons

theorem placeChars_concat (links : List Link) (link : Link) :
    placeChars (links ++ [link]) = placeChars links ++ '/' :: link.chars := by
  rw [placeChars, List.flatMap_append, List.flatMap_singleton]
  rfl

/-! ### Reading links -/

theorem unmarked_of_numeral (number : Nat) : ∀ c ∈ (toString number).toList, c ∉ marks := by
  intro c member mark
  have outside : marks.all (!Char.isDigit ·) = true := by decide
  have noDigit := List.all_eq_true.mp outside c mark
  rw [Text.isDigit_of_mem_numeral member] at noDigit
  cases noDigit

theorem readFilters_position {position : Nat} (positive : 0 < position)
    (small : position < Nat.pow 2 64) :
    readFilters ('[' :: ((toString position).toList ++ [']'])) = .ok [.position position] := by
  have closed : ']' ∉ (toString position).toList := fun member =>
    unmarked_of_numeral position _ member (by decide)
  have filter : readFilter (toString position).toList = .ok (.position position) := by
    rw [readFilter, Text.index?_numeral small]
    split
    · next zero => cases zero; cases positive
    · next found => cases found; rfl
    · next none => cases none
  rw [readFilters_append closed, Text.trim_numeral, filter, readFilters]
  rfl

namespace Link

def segment (link : Link) : Segment := (.child, link.chars)

theorem spells {link : Link} (readable : link.IsReadable) : link.segment.Spells link.step := by
  have filters := readFilters_position readable.positive readable.small
  have read := readStep_name readable.named .child
    ('[' :: ((toString link.position).toList ++ [']'])) fun c first => (Option.some.inj first).symm
  rw [filters, String.ofList_toList] at read
  exact ⟨isSegment_filter readable.named (cutStep_append (unmarked_of_numeral link.position) 1),
    read⟩

end Link

theorem placeChars_eq (links : List Link) :
    placeChars links = segmentsChars (links.map Link.segment) := by
  rw [placeChars, segmentsChars, List.flatMap_map]
  rfl

/-- A place begins with a slash and ends with a bracket, so that nothing is trimmed from it. -/
theorem trim_placeChars (links : List Link) :
    Text.trim Text.isBlank (placeChars links) = placeChars links := by
  apply Text.trim_of_visible
  · intro c first
    cases links with
    | nil => cases first
    | cons link rest =>
        rw [placeChars_cons] at first
        rw [← Option.some.inj first]
        decide
  · intro c last
    rcases List.eq_nil_or_concat links with rfl | ⟨before, link, rfl⟩
    · cases last
    · let inside := link.name.toList ++ '[' :: (toString link.position).toList
      have ends : placeChars (before.concat link) = (placeChars before ++ '/' :: inside) ++ [']'] := by
        rw [List.concat_eq_append, placeChars_concat]
        simp [inside, Link.chars]
      rw [ends, List.getLast?_concat] at last
      rw [← Option.some.inj last]
      decide

theorem parse_places {text : String} {links : List Link} (written : text.toList = placeChars links)
    (some : links ≠ []) (all : ∀ link ∈ links, link.IsReadable) :
    parse text = .ok ⟨true, links.map Link.step⟩ := by
  have pathText : PathText true (links.map Link.segment)
      (Text.trim Text.isBlank text.toList) := by
    rw [written, trim_placeChars, placeChars_eq]
    exact .absolute (by simpa using some)
  have spelled : List.Forall₂ Segment.Spells (links.map Link.segment) (links.map Link.step) := by
    rw [List.forall₂_map_left_iff, List.forall₂_map_right_iff, List.forall₂_same]
    exact fun link member => Link.spells (all link member)
  exact parse_of_spells pathText spelled

/-! ### Following links -/

variable {document : Xml.Document}

def linkTo (document : Xml.Document) (parent index : Nat) : Link :=
  ⟨document.name index, document.position parent index⟩

theorem select_linkTo (tree : document.IsTree) {index parent : Nat}
    (above : document.parent? index = some parent) :
    Step.select document [.element parent] (linkTo document parent index).step =
      [.element index] := by
  obtain ⟨_, _, there⟩ := document.getElem?_position tree above
  have selected : (linkTo document parent index).step.selectAt document parent =
      [.element index] := by
    show (((document.namesakes parent index).map Hit.element)[document.position parent index - 1]?
      ).toList = _
    rw [List.getElem?_map, there]
    rfl
  have origins : (linkTo document parent index).step.selectFrom document (.element parent) =
      [.element index] := by
    rw [Step.selectFrom, ← selected]
    exact List.flatMap_singleton _ parent
  rw [Step.select, List.flatMap_singleton, origins]
  rfl

theorem readable_linkTo (tree : document.IsTree) (small : document.size < Nat.pow 2 64)
    {index parent : Nat} (named : Xml.isName (document.name index).toList = true)
    (above : document.parent? index = some parent) :
    (linkTo document parent index).IsReadable := by
  obtain ⟨positive, counted, _⟩ := document.getElem?_position tree above
  exact ⟨named, positive, Nat.lt_of_le_of_lt counted small⟩

theorem exists_links (tree : document.IsTree) (small : document.size < Nat.pow 2 64)
    (named : ∀ index, document.Holds index → Xml.isName (document.name index).toList = true)
    {index : Nat} (within : index < document.elements.size) :
    ∃ links : List Link, (document.path index).toList = placeChars links ∧
      (∀ link ∈ links, link.IsReadable) ∧
      (links.map Link.step).foldl (Step.select document) [.element 0] = [.element index] := by
  induction index using Nat.strongRecOn with
  | ind index ih =>
      by_cases root : index = 0
      · have top : document.parent? index = none := by
          cases above : document.parent? index with
          | none => rfl
          | some parent => exact absurd (Xml.Document.lt_of_parent? above) (by omega)
        rw [Xml.Document.path_of_root top, root]
        exact ⟨[], rfl, nofun, rfl⟩
      · obtain ⟨parent, above⟩ := tree.rooted index ⟨root, within⟩
        have before := Xml.Document.lt_of_parent? above
        obtain ⟨links, written, readable, leads⟩ := ih parent before (by omega)
        have last := readable_linkTo tree small (named index ⟨root, within⟩) above
        refine ⟨links ++ [linkTo document parent index], ?_, ?_, ?_⟩
        · rw [Xml.Document.path_of_parent? above, placeChars_concat, ← written]
          simp [Link.chars, linkTo]
        · exact List.forall_mem_append.mpr ⟨readable, List.forall_mem_singleton.mpr last⟩
        · rw [List.map_append, List.foldl_append, leads]
          exact select_linkTo tree above

/-- The written place of an element is a path that selects this element and no other one,
from wherever it is taken. -/
theorem select_path (tree : document.IsTree) (small : document.size < Nat.pow 2 64)
    (named : ∀ index, document.Holds index → Xml.isName (document.name index).toList = true)
    {index : Nat} (holds : document.Holds index) :
    ∃ path, parse (document.path index) = .ok path ∧
      ∀ context, path.select document context = [.element index] := by
  obtain ⟨links, written, readable, leads⟩ := exists_links tree small named holds.2
  have some : links ≠ [] := by
    rintro rfl
    exact holds.1 (Hit.element.inj (List.cons.inj leads).1).symm
  exact ⟨⟨true, links.map Link.step⟩, parse_places written some readable, fun _ => leads⟩

/-- In a document whose elements have names of XML, the written place of every element selects
this element alone, and no two elements have the same place. -/
theorem places_readBack {id content : String} {declarations : List (String × String)}
    {document : Xml.Document} (parsed : Xml.Document.parse id content declarations = .ok document)
    (small : document.size < Nat.pow 2 64)
    (named : ∀ index, document.Holds index → Xml.isName (document.name index).toList = true) :
    (∀ index, document.Holds index → ∃ path, parse (document.path index) = .ok path ∧
      ∀ context, path.select document context = [.element index]) ∧
    ∀ one two, document.Holds one → document.Holds two →
      (Hit.element one).path document = (Hit.element two).path document → one = two := by
  have tree := Xml.Document.isTree_of_parse parsed
  refine ⟨fun index holds => select_path tree small named holds, ?_⟩
  intro one two first second same
  obtain ⟨path, read, selects⟩ := select_path tree small named first
  obtain ⟨other, alsoRead, alsoSelects⟩ := select_path tree small named second
  have written : document.path one = document.path two := same
  rw [written, alsoRead] at read
  cases read
  exact Hit.element.inj (List.cons.inj ((selects 0).symm.trans (alsoSelects 0))).1

/-- Two elements at the top, with namesakes below one of them. -/
def shelves : Xml.Document :=
  .ofEvents [.opening "shelf" [], .text "full", .empty "book" [], .empty "box" [],
    .empty "book" [], .closing, .empty "shelf" []]

theorem parse_shelves :
    Xml.Document.parse "shelves" "<shelf>full<book/><box/><book/></shelf><shelf/>" [] =
      .ok shelves := by
  have read : Xml.read? "<shelf>full<book/><box/><book/></shelf><shelf/>".toList =
      some [.opening "shelf" [], .text "full", .empty "book" [], .empty "box" [],
        .empty "book" [], .closing, .empty "shelf" []] := by decide +kernel
  exact Xml.Document.parse_of_read read

theorem places_readBack_shelves :
    shelves.path 4 = "/shelf[1]/book[2]" ∧
      ∃ path, parse "/shelf[1]/book[2]" = .ok path ∧
        ∀ context, path.select shelves context = [.element 4] := by
  have names : ∀ index < shelves.elements.size, index ≠ 0 →
      Xml.isName (shelves.name index).toList = true := by decide
  have place : shelves.path 4 = "/shelf[1]/book[2]" := by decide +kernel
  have readBack := (places_readBack parse_shelves (by decide)
    fun index holds => names index holds.2 holds.1).1 4 ⟨by decide, by decide⟩
  rw [place] at readBack
  exact ⟨place, readBack⟩

end XPath

end RdfMapping
