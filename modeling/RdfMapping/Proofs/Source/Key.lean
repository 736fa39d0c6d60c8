import Mathlib.Data.List.Nodup
import Mathlib.Data.Set.Function
import RdfMapping.Proofs.Source.Cache
import RdfMapping.Proofs.Xml.Blank
/-!
What the key of a document tells. The declarations to drop from an XML text are kept in the key
as `attribute=value`, so that an attribute with an equals sign in its name can be taken for
another one. Sources with one key are read alike, and a cache answers every request as its own
options would have it, exactly where no two declarations in use are kept alike.
-/

namespace RdfMapping

/-! ### Declarations -/

namespace Xml.Document

def declarationChars (entry : String × String) : List Char :=
  entry.1.toList ++ '=' :: '"' :: entry.2.toList ++ ['"']

theorem declarationChars_ne_nil (entry : String × String) : declarationChars entry ≠ [] := by
  simp [declarationChars]

theorem endsQuoted_declarationChars (entry : String × String) :
    EndsQuoted (declarationChars entry) := List.getLast?_concat

theorem dropDeclarations_singleton (entry : String × String) (text : List Char) :
    dropDeclarations [entry] text = Text.replaceAll (declarationChars entry) [] text := rfl

theorem dropDeclarations_self (entry : String × String) :
    dropDeclarations [entry] (declarationChars entry) = [] := by
  have proper := declarationChars_ne_nil entry
  have cut : Text.cutAt? (declarationChars entry) (declarationChars entry) = some ([], []) := by
    obtain ⟨c, rest, whole⟩ := List.exists_cons_of_ne_nil proper
    have start : Text.dropStart? (c :: rest) (c :: rest) = some [] :=
      Text.dropStart?_eq_some_iff.mpr (List.append_nil _).symm
    rw [whole, Text.cutAt?, start]
  have absent : Text.cutAt? (declarationChars entry) [] = none := by
    rw [Text.cutAt?, if_neg (by simpa using proper)]
  rw [dropDeclarations_singleton, Text.replaceAll_of_some proper cut,
    Text.replaceAll_of_none proper absent]
  rfl

theorem dropDeclarations_of_length {entry : String × String} {text : List Char}
    (short : text.length = (declarationChars entry).length)
    (apart : text ≠ declarationChars entry) : dropDeclarations [entry] text = text := by
  have absent : Text.cutAt? (declarationChars entry) text = none := by
    cases cut : Text.cutAt? (declarationChars entry) text with
    | none => rfl
    | some parts =>
        have whole := Text.eq_of_cutAt? cut
        have lengths := congrArg List.length whole
        simp only [List.length_append] at lengths
        have before : parts.1 = [] := List.length_eq_zero_iff.mp (by omega)
        have after : parts.2 = [] := List.length_eq_zero_iff.mp (by omega)
        rw [before, after, List.append_nil, List.nil_append] at whole
        exact absurd whole apart
  rw [dropDeclarations_singleton, Text.replaceAll_of_none (declarationChars_ne_nil entry) absent]

/-- The text that is a declaration is read as the empty document where the declaration is
dropped. -/
theorem parse_declaration (id : String) (entry : String × String) :
    parse id (String.ofList (declarationChars entry)) [entry] = .ok empty := by
  have nothing : read? [] = some [] := by decide +kernel
  rw [parse, String.toList_ofList, dropDeclarations_self, nothing]
  rfl

/-- Another declaration of the same length leaves the text, and the quote at its end. -/
theorem parse_declaration_ne (id : String) {one two : String × String}
    (lengths : (declarationChars one).length = (declarationChars two).length)
    (apart : declarationChars one ≠ declarationChars two) :
    parse id (String.ofList (declarationChars one)) [two] ≠ .ok empty := by
  rw [parse, String.toList_ofList, dropDeclarations_of_length lengths apart]
  cases read : read? (declarationChars one) with
  | none =>
      intro same
      cases same
  | some events =>
      intro same
      have filled := isFilled_of_read? (endsQuoted_declarationChars one) read
      rw [Except.ok.inj same] at filled
      exact not_isFilled_empty filled

end Xml.Document

namespace DocumentKey

open Xml.Document (declarationChars)

def setting (entry : String × String) : String := entry.1 ++ "=" ++ entry.2

theorem toList_setting (entry : String × String) :
    (setting entry).toList = entry.1.toList ++ '=' :: entry.2.toList := by
  simp [setting]

theorem length_declarationChars {one two : String × String} (alike : setting one = setting two) :
    (declarationChars one).length = (declarationChars two).length := by
  have lengths := congrArg (List.length ∘ String.toList) alike
  simp only [Function.comp, toList_setting, List.length_append, List.length_cons] at lengths
  simp only [declarationChars, List.length_append, List.length_cons]
  omega

/-- Of two declarations that are kept alike, the longer attribute begins with the shorter one
and the equals sign. -/
theorem setting_cases {one two : String × String} (alike : setting one = setting two) :
    one = two ∨
      (∃ middle, two.1.toList = one.1.toList ++ '=' :: middle ∧
        one.2.toList = middle ++ '=' :: two.2.toList) ∨
      ∃ middle, one.1.toList = two.1.toList ++ '=' :: middle ∧
        two.2.toList = middle ++ '=' :: one.2.toList := by
  have same := congrArg String.toList alike
  rw [toList_setting, toList_setting] at same
  rcases List.append_eq_append_iff.mp same with ⟨middle, first, later⟩ | ⟨middle, first, later⟩
  · cases middle with
    | nil =>
        rw [List.append_nil] at first
        exact Or.inl (Prod.ext (String.toList_inj.mp first.symm)
          (String.toList_inj.mp (List.cons.inj later).2))
    | cons c middle =>
        obtain ⟨rfl, values⟩ := List.cons.inj later
        exact Or.inr (Or.inl ⟨middle, first, values⟩)
  · cases middle with
    | nil =>
        rw [List.append_nil] at first
        exact Or.inl (Prod.ext (String.toList_inj.mp first)
          (String.toList_inj.mp (List.cons.inj later).2.symm))
    | cons c middle =>
        obtain ⟨rfl, values⟩ := List.cons.inj later
        exact Or.inr (Or.inr ⟨middle, first, values⟩)

/-- The opening quotes stand at different places: what is between them would be one equals sign
longer than itself. -/
theorem declarationChars_ne_of_longer {one two : String × String} {middle : List Char}
    (attributes : two.1.toList = one.1.toList ++ '=' :: middle)
    (values : one.2.toList = middle ++ '=' :: two.2.toList) :
    declarationChars one ≠ declarationChars two := by
  intro same
  rw [declarationChars, declarationChars, attributes, values] at same
  have behind : ('"' :: middle) ++ ('=' :: two.2.toList ++ ['"']) =
      (middle ++ ['=']) ++ ('"' :: two.2.toList ++ ['"']) := by
    simpa using same
  have shifted := (List.append_inj behind (by simp)).1
  have counts := congrArg (List.count '=') shifted
  rw [List.count_append, List.count_cons_of_ne (by decide), List.count_singleton_self] at counts
  omega

theorem declarationChars_ne {one two : String × String} (apart : one ≠ two)
    (alike : setting one = setting two) : declarationChars one ≠ declarationChars two := by
  rcases setting_cases alike with
    same | ⟨middle, attributes, values⟩ | ⟨middle, attributes, values⟩
  · exact absurd same apart
  · exact declarationChars_ne_of_longer attributes values
  · exact (declarationChars_ne_of_longer attributes values).symm

end DocumentKey

/-! ### Options with one key -/

/-- The options drop declarations that are in use, in the order of their attributes. -/
structure Options.DropsWithin (options : Options) (inUse : Set (String × String)) : Prop where
  sorted : Table.Sorted options.droppedNamespaces
  within : ∀ entry ∈ options.droppedNamespaces, entry ∈ inUse

def Options.dropping (entry : String × String) : Options := { droppedNamespaces := [entry] }

theorem Options.dropsWithin_dropping {entry : String × String} {inUse : Set (String × String)}
    (member : entry ∈ inUse) : (dropping entry).DropsWithin inUse :=
  ⟨List.pairwise_singleton _ _, List.forall_mem_singleton.mpr member⟩

theorem Options.DropsWithin.nodup {options : Options} {inUse : Set (String × String)}
    (drops : options.DropsWithin inUse) : options.droppedNamespaces.Nodup :=
  (Table.nodup_keys drops.sorted).of_map Prod.fst

namespace DocumentKey

variable {inUse : Set (String × String)}

/-- A key tells what its source is read as, as long as only declarations in use are dropped. -/
def Covers (inUse : Set (String × String)) : Prop :=
  ∀ (source other : LogicalSource) (options others : Options),
    options.DropsWithin inUse → others.DropsWithin inUse → of source options = of other others →
      ∀ content, Document.parse source.id content source.formulation options =
        Document.parse other.id content other.formulation others

theorem mem_of_settings (injective : inUse.InjOn setting) {options others : Options}
    (drops : options.DropsWithin inUse) (alsoDrops : others.DropsWithin inUse)
    (same : settingsOf options .xPath = settingsOf others .xPath) {entry : String × String}
    (member : entry ∈ options.droppedNamespaces) : entry ∈ others.droppedNamespaces := by
  have kept : setting entry ∈ settingsOf options .xPath :=
    List.mem_mergeSort.mpr (List.mem_map_of_mem member)
  rw [same] at kept
  obtain ⟨other, otherMember, alike⟩ := List.mem_map.mp (List.mem_mergeSort.mp kept)
  rwa [injective (alsoDrops.within other otherMember) (drops.within entry member) alike]
    at otherMember

theorem droppedNamespaces_eq (injective : inUse.InjOn setting) {options others : Options}
    (drops : options.DropsWithin inUse) (alsoDrops : others.DropsWithin inUse)
    (same : settingsOf options .xPath = settingsOf others .xPath) :
    options.droppedNamespaces = others.droppedNamespaces := by
  have permuted : options.droppedNamespaces.Perm others.droppedNamespaces :=
    (List.perm_ext_iff_of_nodup drops.nodup alsoDrops.nodup).mpr fun _ =>
      ⟨mem_of_settings injective drops alsoDrops same,
        mem_of_settings injective alsoDrops drops same.symm⟩
  refine permuted.eq_of_pairwise ?_ drops.sorted alsoDrops.sorted
  intro one two _ _ before after
  exact absurd before (String.lt_asymm after)

theorem covers_of_injOn (injective : inUse.InjOn setting) : Covers inUse := by
  intro source other options others drops alsoDrops same content
  have ids : source.id = other.id := congrArg DocumentKey.source same
  have formulations : source.formulation = other.formulation :=
    congrArg DocumentKey.formulation same
  have settings : settingsOf options source.formulation =
      settingsOf others other.formulation := congrArg DocumentKey.settings same
  rw [formulations] at settings
  rw [ids, formulations]
  cases known : other.formulation with
  | csv =>
      rw [known] at settings
      have delimiter : options.delimiter = others.delimiter :=
        String.singleton_inj.mp (List.cons.inj settings).1
      rw [Document.parse, Document.parse, delimiter]
  | jsonPath => rfl
  | xPath =>
      rw [known] at settings
      rw [Document.parse, Document.parse,
        droppedNamespaces_eq injective drops alsoDrops settings]

/-- Attributes without an equals sign in their names are told apart by the key. -/
theorem covers_of_no_equals (proper : ∀ entry ∈ inUse, '=' ∉ entry.1.toList) : Covers inUse := by
  apply covers_of_injOn
  intro one first two second alike
  rcases setting_cases alike with same | ⟨middle, attributes, _⟩ | ⟨middle, attributes, _⟩
  · exact same
  · refine absurd ?_ (proper two second)
    rw [attributes]
    exact List.mem_append_right _ List.mem_cons_self
  · refine absurd ?_ (proper one first)
    rw [attributes]
    exact List.mem_append_right _ List.mem_cons_self

theorem of_dropping_eq {one two : String × String} (alike : setting one = setting two)
    (id : String) (iterator : Option String) :
    of ⟨id, iterator, .xPath⟩ (.dropping one) = of ⟨id, iterator, .xPath⟩ (.dropping two) := by
  show DocumentKey.mk id .xPath ([setting one].mergeSort _) =
    .mk id .xPath ([setting two].mergeSort _)
  rw [alike]

end DocumentKey

/-! ### Requests to a cache -/

namespace Cache

variable {inUse : Set (String × String)} {contents : String → Option String}

def serve (contents : String → Option String) (cache : Cache)
    (request : LogicalSource × Options) : Cache :=
  (cache.read request.1 (contents request.1.id) request.2).2

def serveAll (contents : String → Option String) (requests : List (LogicalSource × Options)) :
    Cache := requests.foldl (serve contents) []

/-- After any requests, every source is read as its own options have it. -/
def ServesOwn (inUse : Set (String × String)) : Prop :=
  ∀ (contents : String → Option String) (requests : List (LogicalSource × Options)),
    (∀ request ∈ requests, request.2.DropsWithin inUse) →
      ∀ (source : LogicalSource) (options : Options), options.DropsWithin inUse →
        ∀ content, contents source.id = some content →
          ((serveAll contents requests).read source (some content) options).1 =
            Document.parse source.id content source.formulation options

/-- Every document that is kept was read for a source with its key. -/
def IsOwn (inUse : Set (String × String)) (contents : String → Option String) (cache : Cache) :
    Prop :=
  ∀ key document, cache.find? key = some document →
    ∃ (source : LogicalSource) (options : Options) (content : String),
      options.DropsWithin inUse ∧ DocumentKey.of source options = key ∧
        contents source.id = some content ∧
        Document.parse source.id content source.formulation options = .ok document

theorem IsOwn.serve {cache : Cache} (own : cache.IsOwn inUse contents)
    {request : LogicalSource × Options} (drops : request.2.DropsWithin inUse) :
    (cache.serve contents request).IsOwn inUse contents := by
  intro key document kept
  cases before : cache.find? key with
  | some earlier =>
      rw [Cache.serve, find?_read before] at kept
      cases kept
      exact own key document before
  | none =>
      obtain ⟨same, content, given, parsed⟩ := find?_read_new before kept
      exact ⟨request.1, request.2, content, drops, same, given, parsed⟩

theorem IsOwn.foldl {cache : Cache} (own : cache.IsOwn inUse contents)
    {requests : List (LogicalSource × Options)}
    (drops : ∀ request ∈ requests, request.2.DropsWithin inUse) :
    (requests.foldl (Cache.serve contents) cache).IsOwn inUse contents := by
  induction requests generalizing cache with
  | nil => exact own
  | cons request later ih =>
      obtain ⟨here, further⟩ := List.forall_mem_cons.mp drops
      exact ih (own.serve here) further

theorem isOwn_serveAll (contents : String → Option String)
    {requests : List (LogicalSource × Options)}
    (drops : ∀ request ∈ requests, request.2.DropsWithin inUse) :
    (serveAll contents requests).IsOwn inUse contents := by
  refine IsOwn.foldl ?_ drops
  intro key document kept
  cases kept

theorem servesOwn_of_covers (covers : DocumentKey.Covers inUse) : ServesOwn inUse := by
  intro contents requests drops source options alsoDrops content given
  have own := isOwn_serveAll contents drops
  cases found : (serveAll contents requests).find? (.of source options) with
  | some document =>
      obtain ⟨other, others, text, otherDrops, same, otherGiven, parsed⟩ := own _ _ found
      have ids : other.id = source.id := congrArg DocumentKey.source same
      rw [ids, given] at otherGiven
      cases otherGiven
      rw [read_of_find? found, ← parsed]
      exact covers other source others options otherDrops alsoDrops same content
  | none => exact read_of_unknown found

theorem xml_of_parse {id content : String} {options : Options} {document : Xml.Document}
    (parsed : Document.parse id content .xPath options = .ok (.xml document)) :
    Xml.Document.parse id content options.droppedNamespaces = .ok document := by
  rw [Document.parse] at parsed
  cases read : Xml.Document.parse id content options.droppedNamespaces with
  | error e =>
      rw [read] at parsed
      cases parsed
  | ok found =>
      rw [read] at parsed
      cases parsed
      rfl

/-- Where two declarations are kept alike, the text of one of them is read without it, and then
served to a request that does not drop it. -/
theorem injOn_of_servesOwn (serves : ServesOwn inUse) : inUse.InjOn DocumentKey.setting := by
  intro one first two second alike
  by_contra apart
  let source : LogicalSource := ⟨"", none, .xPath⟩
  let content := String.ofList (Xml.Document.declarationChars one)
  have parsed : Document.parse "" content .xPath (.dropping one) = .ok (.xml .empty) :=
    congrArg (Except.map Document.xml) (Xml.Document.parse_declaration "" one)
  have answer := serves (fun _ => content) [] nofun source (.dropping one)
    (Options.dropsWithin_dropping first) content rfl
  have kept := find?_of_read (answer.trans parsed)
  rw [DocumentKey.of_dropping_eq alike] at kept
  have served := serves (fun _ => content) [(source, .dropping one)]
    (List.forall_mem_singleton.mpr (Options.dropsWithin_dropping first)) source (.dropping two)
    (Options.dropsWithin_dropping second) content rfl
  have alsoParsed : Document.parse "" content .xPath (.dropping two) = .ok (.xml .empty) :=
    served.symm.trans (congrArg Prod.fst (read_of_find? kept))
  apply Xml.Document.parse_declaration_ne "" (DocumentKey.length_declarationChars alike)
    (DocumentKey.declarationChars_ne apart alike)
  exact xml_of_parse alsoParsed

/-- A key tells what its source is read as, and a cache answers every request as its own options
have it, exactly where no two declarations in use are kept alike. -/
theorem covers_and_servesOwn_iff (inUse : Set (String × String)) :
    (DocumentKey.Covers inUse ↔ inUse.InjOn DocumentKey.setting) ∧
      (ServesOwn inUse ↔ inUse.InjOn DocumentKey.setting) := by
  refine ⟨⟨fun covers => ?_, DocumentKey.covers_of_injOn⟩,
    ⟨injOn_of_servesOwn, fun injective => ?_⟩⟩
  · exact injOn_of_servesOwn (servesOwn_of_covers covers)
  · exact servesOwn_of_covers (DocumentKey.covers_of_injOn injective)

/-- An equals sign in a value, or in the name of another attribute: the sources have one key,
and are read differently. -/
theorem parse_ne_of_equal_keys :
    DocumentKey.of ⟨"rows", none, .xPath⟩ (.dropping ("a", "b=c")) =
        DocumentKey.of ⟨"rows", none, .xPath⟩ (.dropping ("a=b", "c")) ∧
      Document.parse "rows" "<r a=\"b=c\"/>" .xPath (.dropping ("a", "b=c")) ≠
        Document.parse "rows" "<r a=\"b=c\"/>" .xPath (.dropping ("a=b", "c")) := by
  refine ⟨DocumentKey.of_dropping_eq (by decide) _ _, ?_⟩
  have without : Document.parse "rows" "<r a=\"b=c\"/>" .xPath (.dropping ("a", "b=c")) =
      .ok (.xml (.ofEvents [.empty "r" []])) := by
    have read : Xml.read? (Xml.Document.dropDeclarations [("a", "b=c")]
        "<r a=\"b=c\"/>".toList) = some [.empty "r" []] := by decide +kernel
    rw [Document.parse, Options.dropping, Xml.Document.parse, read]
    rfl
  have unchanged : Document.parse "rows" "<r a=\"b=c\"/>" .xPath (.dropping ("a=b", "c")) =
      .ok (.xml (.ofEvents [.empty "r" [("a", "b=c")]])) := by
    have read : Xml.read? (Xml.Document.dropDeclarations [("a=b", "c")]
        "<r a=\"b=c\"/>".toList) = some [.empty "r" [("a", "b=c")]] := by decide +kernel
    rw [Document.parse, Options.dropping, Xml.Document.parse, read]
    rfl
  rw [without, unchanged]
  intro same
  have attributes := congrArg (Xml.Document.attributes · 1)
    (Document.xml.inj (Except.ok.inj same))
  exact absurd attributes (by decide)

end Cache

end RdfMapping
