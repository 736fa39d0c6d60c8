import Mathlib.Data.List.Chain
import Mathlib.Data.List.Induction
import Mathlib.Logic.Relation
import RdfMapping.Proofs.Repeats
import RdfMapping.Proofs.Xml.Spelling
import RdfMapping.Proofs.Xml.Tree
/-!
Elements inside elements. The elements that are listed at and below an element are those that it
contains at any depth, and a descendant step leads from an element to all that it contains
properly. A path of descendant steps therefore selects the elements that stand in a nest of
elements with the names of the path, each of them once.
-/

namespace RdfMapping

namespace Xml.Document

variable {document : Document}

def IsParent (document : Document) (parent child : Nat) : Prop :=
  document.parent? child = some parent

def IsAncestor (document : Document) : Nat → Nat → Prop := Relation.TransGen document.IsParent

theorem IsAncestor.lt {above below : Nat} (inside : document.IsAncestor above below) :
    above < below := by
  induction inside with
  | single parent => exact lt_of_parent? parent
  | tail _ parent before => exact Nat.lt_trans before (lt_of_parent? parent)

theorem IsAncestor.lt_size {above below : Nat} (inside : document.IsAncestor above below) :
    below < document.elements.size := by
  cases inside with
  | single parent => exact lt_size_of_parent? parent
  | tail _ parent => exact lt_size_of_parent? parent

theorem IsAncestor.holds {above below : Nat} (inside : document.IsAncestor above below) :
    document.Holds below :=
  ⟨Nat.ne_zero_of_lt inside.lt, inside.lt_size⟩

theorem selfAndDescendants_eq {index : Nat} (present : index < document.elements.size) :
    document.selfAndDescendants index =
      index :: (document.children index).flatMap document.selfAndDescendants := by
  have found := Array.getElem?_eq_getElem present
  rw [selfAndDescendants]
  split
  · next none =>
      rw [found] at none
      cases none
  · next element here =>
      rw [children, element?, here, Option.map_some, Option.getD_some]
      simp only [List.flatMap_subtype, List.unattach_attach]

theorem selfAndDescendants_of_absent {index : Nat} (absent : ¬ index < document.elements.size) :
    document.selfAndDescendants index = [] := by
  rw [selfAndDescendants]
  split
  · rfl
  · next element here =>
      exact absurd (Array.getElem?_eq_some_iff.mp here).1 absent

namespace IsTree

variable (tree : document.IsTree)
include tree

theorem mem_selfAndDescendants_of_isParent {index child below : Nat}
    (parent : document.IsParent index child)
    (inside : below ∈ document.selfAndDescendants child) :
    below ∈ document.selfAndDescendants index := by
  have present := Nat.lt_trans (lt_of_parent? parent) (lt_size_of_parent? parent)
  rw [selfAndDescendants_eq present]
  refine List.mem_cons_of_mem _ (List.mem_flatMap.mpr ⟨child, ?_, inside⟩)
  exact (tree.mem_children index child).mpr parent

theorem contains_of_mem_selfAndDescendants {index below : Nat}
    (present : index < document.elements.size)
    (inside : below ∈ document.selfAndDescendants index) :
    Relation.ReflTransGen document.IsParent index below := by
  rw [selfAndDescendants_eq present] at inside
  rcases List.mem_cons.mp inside with rfl | deeper
  · exact .refl
  · obtain ⟨child, isChild, further⟩ := List.mem_flatMap.mp deeper
    have bounds := tree.lt_of_mem_children isChild
    have parent : document.IsParent index child := (tree.mem_children index child).mp isChild
    exact .head parent (contains_of_mem_selfAndDescendants bounds.2 further)
termination_by document.elements.size - index
decreasing_by omega

theorem mem_selfAndDescendants_iff {index below : Nat} :
    below ∈ document.selfAndDescendants index ↔
      index < document.elements.size ∧ Relation.ReflTransGen document.IsParent index below := by
  by_cases present : index < document.elements.size
  · rw [and_iff_right present]
    refine ⟨tree.contains_of_mem_selfAndDescendants present, ?_⟩
    intro contains
    induction contains using Relation.ReflTransGen.head_induction_on with
    | refl =>
        rw [selfAndDescendants_eq present]
        exact List.mem_cons_self
    | head parent _ ih =>
        exact tree.mem_selfAndDescendants_of_isParent parent (ih (lt_size_of_parent? parent))
  · rw [selfAndDescendants_of_absent present]
    exact ⟨nofun, fun both => absurd both.1 present⟩

/-- The children of what is listed at and below an element are what it contains properly. -/
theorem exists_parent_listed_iff {index below : Nat} :
    (∃ parent ∈ document.selfAndDescendants index, below ∈ document.children parent) ↔
      document.IsAncestor index below := by
  simp only [tree.mem_selfAndDescendants_iff, tree.mem_children]
  rw [IsAncestor, Relation.TransGen.tail'_iff]
  constructor
  · rintro ⟨parent, ⟨_, contains⟩, above⟩
    exact ⟨parent, contains, above⟩
  · rintro ⟨parent, contains, above⟩
    have inside : document.IsAncestor index below := .tail' contains above
    exact ⟨parent, ⟨Nat.lt_trans inside.lt inside.lt_size, contains⟩, above⟩

theorem isAncestor_of_holds {index : Nat} (holds : document.Holds index) :
    document.IsAncestor 0 index := by
  obtain ⟨parent, above⟩ := tree.rooted index holds
  have before := lt_of_parent? above
  by_cases top : parent = 0
  · rw [top] at above
    exact .single above
  · exact .tail (isAncestor_of_holds ⟨top, Nat.lt_trans before holds.2⟩) above
termination_by index

end IsTree

end Xml.Document

namespace XPath

open Xml.Document (IsAncestor)

variable {document : Xml.Document}

def namedInside (name : String) : Step := ⟨.descendant, .element (some name), []⟩

theorem mem_selectFrom_namedInside (tree : document.IsTree) {name : String} {start hit : Hit} :
    hit ∈ (namedInside name).selectFrom document start ↔
      ∃ above index, start = .element above ∧ hit = .element index ∧
        document.IsAncestor above index ∧ document.name index = name := by
  cases start with
  | element above =>
      show hit ∈ (document.selfAndDescendants above).flatMap (fun parent =>
        ((document.children parent).filter (admits (some name) <| document.name ·)).map
          Hit.element) ↔ _
      simp only [List.mem_flatMap, List.mem_map, List.mem_filter, admits, decide_eq_true_eq,
        Hit.element.injEq]
      constructor
      · rintro ⟨parent, listed, index, ⟨child, named⟩, rfl⟩
        exact ⟨above, index, rfl, rfl,
          tree.exists_parent_listed_iff.mp ⟨parent, listed, child⟩, named⟩
      · rintro ⟨_, index, rfl, rfl, inside, named⟩
        obtain ⟨parent, listed, child⟩ := tree.exists_parent_listed_iff.mpr inside
        exact ⟨parent, listed, index, ⟨child, named⟩, rfl⟩
  | _ => exact ⟨nofun, nofun⟩

theorem mem_select_namedInside (tree : document.IsTree) {name : String} {hits : List Hit}
    {hit : Hit} :
    hit ∈ Step.select document hits (namedInside name) ↔
      ∃ above index, Hit.element above ∈ hits ∧ hit = .element index ∧
        document.IsAncestor above index ∧ document.name index = name := by
  rw [Step.select, List.mem_eraseDups, List.mem_flatMap]
  simp only [mem_selectFrom_namedInside tree]
  constructor
  · rintro ⟨_, member, above, index, rfl, found⟩
    exact ⟨above, index, member, found⟩
  · rintro ⟨above, index, member, found⟩
    exact ⟨_, member, above, index, rfl, found⟩

theorem nodup_select (document : Xml.Document) (hits : List Hit) (step : Step) :
    (Step.select document hits step).Nodup := nodup_eraseDups _

/-! ### Nests -/

/-- Elements with the given names, from the outermost to the innermost one: each of them stands
inside the one before. -/
structure IsNest (document : Xml.Document) (names : List String) (elements : List Nat) :
    Prop where
  named : elements.map document.name = names
  held : ∀ element ∈ elements, document.Holds element
  inside : elements.IsChain document.IsAncestor

theorem isNest_nil (document : Xml.Document) : IsNest document [] [] := ⟨rfl, nofun, .nil⟩

theorem isNest_concat_iff {names : List String} {name : String} {elements : List Nat}
    {index : Nat} :
    IsNest document (names ++ [name]) (elements ++ [index]) ↔
      IsNest document names elements ∧ document.Holds index ∧ document.name index = name ∧
        ∀ above, elements.getLast? = some above → document.IsAncestor above index := by
  constructor
  · rintro ⟨named, held, inside⟩
    rw [List.map_append, List.map_singleton] at named
    obtain ⟨namesBefore, nameLast⟩ := List.append_inj' named rfl
    obtain ⟨heldBefore, heldLast⟩ := List.forall_mem_append.mp held
    obtain ⟨insideBefore, _, links⟩ := List.isChain_append.mp inside
    exact ⟨⟨namesBefore, heldBefore, insideBefore⟩, heldLast index (List.mem_singleton_self _),
      (List.cons.inj nameLast).1, fun above last => links above last index rfl⟩
  · rintro ⟨nest, holds, named, last⟩
    refine ⟨?_, ?_, List.isChain_append.mpr ⟨nest.inside, .singleton _, ?_⟩⟩
    · rw [List.map_append, nest.named, List.map_singleton, named]
    · exact List.forall_mem_append.mpr ⟨nest.held, List.forall_mem_singleton.mpr holds⟩
    · rintro above isLast _ ⟨⟩
      exact last above isLast

theorem IsNest.exists_concat {names : List String} {name : String} {elements : List Nat}
    (nest : IsNest document (names ++ [name]) elements) :
    ∃ before index, elements = before ++ [index] := by
  obtain ⟨before, last, whole, _, mapped⟩ := List.map_eq_append_iff.mp nest.named
  obtain ⟨index, rfl, _⟩ := List.map_eq_singleton_iff.mp mapped
  exact ⟨before, index, whole⟩

theorem IsNest.isAncestor {names : List String} {name : String} {elements : List Nat}
    {index : Nat} (nest : IsNest document (names ++ [name]) (elements ++ [index])) :
    ∀ element ∈ elements, document.IsAncestor element index := by
  have trans : Trans document.IsAncestor document.IsAncestor document.IsAncestor :=
    ⟨Relation.TransGen.trans⟩
  have pairs := (List.pairwise_append.mp (List.isChain_iff_pairwise.mp nest.inside)).2.2
  exact fun element member => pairs element member index (List.mem_singleton_self _)

/-- Going from the document into one name after the other leads to the innermost elements of the
nests with these names. -/
theorem mem_foldl_namedInside (tree : document.IsTree) (names : List String) {hit : Hit} :
    hit ∈ (names.map namedInside).foldl (Step.select document) [.element 0] ↔
      ∃ elements, IsNest document names elements ∧ hit = .element (elements.getLastD 0) := by
  induction names using List.reverseRecOn generalizing hit with
  | nil =>
      rw [List.map_nil, List.foldl_nil, List.mem_singleton]
      constructor
      · rintro rfl
        exact ⟨[], isNest_nil document, rfl⟩
      · rintro ⟨elements, nest, rfl⟩
        rw [List.map_eq_nil_iff.mp nest.named]
        rfl
  | append_singleton before name ih =>
      rw [List.map_append, List.foldl_append, List.map_singleton, List.foldl_cons, List.foldl_nil,
        mem_select_namedInside tree]
      constructor
      · rintro ⟨above, index, member, rfl, inside, named⟩
        obtain ⟨elements, nest, same⟩ := ih.mp member
        refine ⟨elements ++ [index], isNest_concat_iff.mpr ⟨nest, inside.holds, named, ?_⟩, ?_⟩
        · intro last isLast
          rwa [Hit.element.inj same, List.getLastD_eq_getLast?, isLast] at inside
        · rw [List.getLastD_concat]
      · rintro ⟨all, nest, rfl⟩
        obtain ⟨elements, index, rfl⟩ := nest.exists_concat
        obtain ⟨nestBefore, holds, named, last⟩ := isNest_concat_iff.mp nest
        rw [List.getLastD_concat]
        refine ⟨_, index, ih.mpr ⟨elements, nestBefore, rfl⟩, rfl, ?_, named⟩
        cases final : elements.getLast? with
        | none =>
            rw [List.getLastD_eq_getLast?, final]
            exact tree.isAncestor_of_holds holds
        | some above =>
            rw [List.getLastD_eq_getLast?, final]
            exact last above final

/-! ### Paths of names -/

/-- Names as they are written when each of them is looked for at any depth. -/
def namesText (names : List String) : String := String.join (names.map ("//" ++ ·))

def nameSegments (names : List String) : List Segment :=
  names.map fun name => (.descendant, name.toList)

theorem toList_namesText (names : List String) :
    (namesText names).toList = segmentsChars (nameSegments names) := by
  rw [namesText, String.toList_join, List.flatMap_map, segmentsChars, nameSegments,
    List.flatMap_map]
  exact congrArg (List.flatMap · names) (funext fun name => String.toList_append)

/-- Nothing is trimmed from names, unless the last one ends in a blank. -/
theorem trim_namesText {names : List String} {name : String} (proper : name.toList ≠ [])
    (visible : ∀ c, name.toList.getLast? = some c → Text.isBlank c = false) :
    Text.trim Text.isBlank (namesText (names ++ [name])).toList =
      (namesText (names ++ [name])).toList := by
  rw [toList_namesText]
  apply Text.trim_of_visible
  · intro c first
    rw [head?_segmentsChars first]
    decide
  · intro c last
    have whole : segmentsChars (nameSegments (names ++ [name])) =
        segmentsChars (nameSegments names) ++ ['/', '/'] ++ name.toList := by
      rw [segmentsChars, nameSegments, List.map_append, List.flatMap_append, List.append_assoc]
      exact congrArg (_ ++ ·) (List.append_nil _)
    obtain ⟨final, ends⟩ := Option.ne_none_iff_exists'.mp (mt List.getLast?_eq_none_iff.mp proper)
    rw [whole, List.getLast?_append, ends, Option.some_or] at last
    exact visible c (ends.trans last)

theorem spells_name {name : String} (named : Xml.isName name.toList = true) :
    Segment.Spells (.descendant, name.toList) (namedInside name) := by
  have read := readStep_name named .descendant [] nofun
  rw [List.append_nil, readFilters, String.ofList_toList] at read
  exact ⟨isSegment_name named, read⟩

theorem parse_namesText {names : List String} {name : String}
    (named : ∀ part ∈ names ++ [name], Xml.isName part.toList = true)
    (visible : ∀ c, name.toList.getLast? = some c → Text.isBlank c = false) :
    parse (namesText (names ++ [name])) = .ok ⟨true, (names ++ [name]).map namedInside⟩ := by
  obtain ⟨first, rest, whole, _⟩ := Xml.exists_cons_of_isName
    (named name (List.mem_append_right _ (List.mem_singleton_self _)))
  have proper : name.toList ≠ [] := whole ▸ List.cons_ne_nil first rest
  have written : PathText true (nameSegments (names ++ [name]))
      (Text.trim Text.isBlank (namesText (names ++ [name])).toList) := by
    rw [trim_namesText proper visible, toList_namesText]
    exact .absolute (by simp [nameSegments])
  have spelled : List.Forall₂ Segment.Spells (nameSegments (names ++ [name]))
      ((names ++ [name]).map namedInside) := by
    rw [nameSegments, List.forall₂_map_left_iff, List.forall₂_map_right_iff, List.forall₂_same]
    exact fun part member => spells_name (named part member)
  exact parse_of_spells written spelled

/-- Names that are looked for at any depth, one inside the other, select each element of the last
name that stands inside elements of the names before it, these inside each other in this order:
every such element once, and nothing else. The last name must not end in a blank, as the ogham
space mark is one and may stand in a name. -/
theorem select_namesText {id content : String} {declarations : List (String × String)}
    {document : Xml.Document} (parsed : Xml.Document.parse id content declarations = .ok document)
    {names : List String} {name : String}
    (named : ∀ part ∈ names ++ [name], Xml.isName part.toList = true)
    (visible : ∀ c, name.toList.getLast? = some c → Text.isBlank c = false) :
    ∃ path, parse (namesText (names ++ [name])) = .ok path ∧
      ∀ context, (path.select document context).Nodup ∧
        ∀ hit, hit ∈ path.select document context ↔
          ∃ index ancestors, hit = .element index ∧ document.Holds index ∧
            document.name index = name ∧ IsNest document names ancestors ∧
            ∀ ancestor ∈ ancestors, document.IsAncestor ancestor index := by
  have tree := Xml.Document.isTree_of_parse parsed
  refine ⟨_, parse_namesText named visible, fun context => ⟨?_, fun hit => ?_⟩⟩
  · rw [select, List.map_append, List.foldl_append]
    exact nodup_select document _ (namedInside name)
  · show hit ∈ ((names ++ [name]).map namedInside).foldl (Step.select document) [.element 0] ↔ _
    rw [mem_foldl_namedInside tree]
    constructor
    · rintro ⟨all, nest, rfl⟩
      obtain ⟨ancestors, index, rfl⟩ := nest.exists_concat
      obtain ⟨before, holds, here, _⟩ := isNest_concat_iff.mp nest
      rw [List.getLastD_concat]
      exact ⟨index, ancestors, rfl, holds, here, before, nest.isAncestor⟩
    · rintro ⟨index, ancestors, rfl, holds, here, before, inside⟩
      refine ⟨ancestors ++ [index], isNest_concat_iff.mpr ⟨before, holds, here, ?_⟩, ?_⟩
      · exact fun above last => inside above (List.mem_of_getLast? last)
      · rw [List.getLastD_concat]

/-- A sequence in a sequence, with items in both of them and one outside. -/
def sequences : Xml.Document :=
  .ofEvents [.opening "root" [], .opening "s" [], .opening "s" [], .empty "i" [], .closing,
    .empty "i" [], .closing, .empty "i" [], .closing]

theorem parse_sequences :
    Xml.Document.parse "sequences" "<root><s><s><i/></s><i/></s><i/></root>" [] =
      .ok sequences := by
  have read : Xml.read? "<root><s><s><i/></s><i/></s><i/></root>".toList =
      some [.opening "root" [], .opening "s" [], .opening "s" [], .empty "i" [], .closing,
        .empty "i" [], .closing, .empty "i" [], .closing] := by decide +kernel
  exact Xml.Document.parse_of_read read

/-- The item in both sequences is reached from each of them, and selected once. -/
theorem select_namesText_sequences :
    ∃ path, parse "//s//i" = .ok path ∧ (path.select sequences 0).Nodup ∧
      Hit.element 4 ∈ path.select sequences 0 := by
  have named : ∀ part ∈ ["s"] ++ ["i"], Xml.isName part.toList = true := by decide
  have visible : ∀ c, "i".toList.getLast? = some c → Text.isBlank c = false := by
    rintro _ ⟨⟩
    decide
  have text : namesText (["s"] ++ ["i"]) = "//s//i" := by decide
  obtain ⟨path, parsed, selects⟩ := select_namesText parse_sequences named visible
  obtain ⟨distinct, mem_iff⟩ := selects 0
  have outer : sequences.IsParent 2 3 := rfl
  have inner : sequences.IsParent 3 4 := rfl
  have inside : sequences.IsAncestor 2 4 := .head outer (.single inner)
  have holds : sequences.Holds 2 := ⟨by decide, by decide⟩
  have nest : IsNest sequences ["s"] [2] :=
    ⟨rfl, List.forall_mem_singleton.mpr holds, .singleton 2⟩
  refine ⟨path, text ▸ parsed, distinct, (mem_iff _).mpr ?_⟩
  exact ⟨4, [2], rfl, inside.holds, rfl, nest, List.forall_mem_singleton.mpr inside⟩

/-- Elements of two names, one of which ends in an ogham space mark. -/
def marked : Xml.Document :=
  .ofEvents [.opening "r" [], .empty "a\u1680" [], .empty "a" [], .closing]

/-- The mark at the end of a path is trimmed from it like any other blank, so that another name is
looked for. -/
theorem select_namesText_marked :
    Xml.isName "a\u1680".toList = true ∧
      Xml.Document.parse "marked" "<r><a\u1680/><a/></r>" [] = .ok marked ∧
      marked.Holds 2 ∧ marked.name 2 = "a\u1680" ∧
      ∃ path, parse (namesText ["a\u1680"]) = .ok path ∧
        path.select marked 0 = [.element 3] := by
  have read : Xml.read? "<r><a\u1680/><a/></r>".toList =
      some [.opening "r" [], .empty "a\u1680" [], .empty "a" [], .closing] := by decide +kernel
  refine ⟨by decide, Xml.Document.parse_of_read read, ⟨by decide, by decide⟩, rfl,
    ⟨true, [namedInside "a"]⟩, ?_, ?_⟩
  · decide +kernel
  · decide +kernel

end XPath

end RdfMapping
