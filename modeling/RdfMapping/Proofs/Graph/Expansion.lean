import Mathlib.Algebra.Order.BigOperators.Group.List
import Mathlib.Algebra.Order.Group.Nat
import RdfMapping.Graph.JsonLd
import RdfMapping.Proofs.Outcome
import RdfMapping.Proofs.Text.Tokens
/-!
Terms and prefixes of a context. An identifier is looked up once, and the IRI of a definition is
taken as it is written, so that it may itself be a term or a compact IRI of the same context.
Expansion is complete exactly if no definition of the context leaves anything to expand; whether
it does is decided by comparing the definitions with one another.
-/

namespace RdfMapping.JsonLd

/-! ### Complete expansion -/

/-- A name of a blank node, which no context expands. -/
def IsBlankId (id : String) : Prop := Term.blankMark.toList <+: id.toList

instance (id : String) : Decidable (IsBlankId id) :=
  inferInstanceAs (Decidable (Term.blankMark.toList <+: id.toList))

/-- To expand an identifier that was expanded changes nothing, and it is no compact IRI whose
prefix the context defines. -/
def Complete (context : Context) : Prop :=
  ∀ term, expand context (expand context term) = expand context term ∧
    (IsBlankId (expand context term) ∨ compact? context (expand context term) = none)

/-- Nothing is left to expand in an identifier. -/
def Final (context : Context) (id : String) : Prop :=
  IsBlankId id ∨ compact? context id = none ∧ ∀ iri ∈ Table.get? id context, iri = id

instance (context : Context) (id : String) : Decidable (Final context id) :=
  inferInstanceAs (Decidable (_ ∨ _ ∧ _))

/-- What follows the colon of an IRI with an authority. Such an IRI is not taken for a compact
one. -/
def StartsAuthority (rest : List Char) : Prop := ['/', '/'] <+: rest

instance (rest : List Char) : Decidable (StartsAuthority rest) :=
  inferInstanceAs (Decidable (['/', '/'] <+: rest))

/-- What can stand before the colon of a compact IRI. -/
def IsPrefixName (name : String) : Prop := ':' ∉ name.toList ∧ name ≠ "_"

instance (name : String) : Decidable (IsPrefixName name) :=
  inferInstanceAs (Decidable (_ ∧ _))

def compactIri (name rest : String) : String := name ++ ":" ++ rest

/-- No definition of a context leaves anything to expand. -/
structure Settled (context : Context) : Prop where
  /-- The IRI of a term is final. -/
  terms : ∀ entry ∈ context, ¬ IsBlankId entry.1 → Final context entry.2
  /-- A term that continues the namespace of a prefix stands for itself, unless the compact IRI is
  a term as well. -/
  continued : ∀ entry ∈ context, IsPrefixName entry.1 → ∀ other ∈ context, ¬ IsBlankId other.1 →
    ∀ rest ∈ Text.dropStart? entry.2.toList other.1.toList, ¬ StartsAuthority rest →
      Table.get? (compactIri entry.1 (String.ofList rest)) context = none → other.2 = other.1
  /-- The namespace of a prefix does not begin with a prefix and its colon. -/
  compacted : ∀ entry ∈ context, IsPrefixName entry.1 → ∀ other ∈ context, IsPrefixName other.1 →
    ∀ rest ∈ Text.dropStart? (other.1.toList ++ [':']) entry.2.toList, StartsAuthority rest
  /-- No prefix begins with the namespace of a prefix. -/
  begun : ∀ entry ∈ context, IsPrefixName entry.1 → ∀ other ∈ context, IsPrefixName other.1 →
    ∀ rest ∈ Text.dropStart? entry.2.toList other.1.toList, StartsAuthority rest

/-! ### Compact IRIs -/

section Compact

variable {context : Context} {term name rest iri : String}

theorem toList_compactIri (name rest : String) :
    (compactIri name rest).toList = name.toList ++ ':' :: rest.toList := by
  simp [compactIri]

theorem splitPrefix?_eq_some_iff : splitPrefix? term = some (name, rest) ↔
    ':' ∉ name.toList ∧ term = compactIri name rest := by
  unfold splitPrefix?
  rw [List.span_eq_takeWhile_dropWhile]
  constructor
  · intro found
    split at found
    · next start further parts =>
        obtain ⟨taken, dropped⟩ := Prod.mk.inj parts
        obtain ⟨rfl, rfl⟩ := Prod.mk.inj (Option.some.inj found)
        constructor
        · intro member
          rw [String.toList_ofList, ← taken] at member
          simpa using List.mem_takeWhile_imp member
        · apply String.toList_inj.mp
          rw [toList_compactIri, String.toList_ofList, String.toList_ofList, ← taken, ← dropped]
          exact List.takeWhile_append_dropWhile.symm
    · cases found
  · rintro ⟨colonless, rfl⟩
    have inside : ∀ c ∈ name.toList, (c != ':') = true := by
      intro c member
      rw [bne_iff_ne]
      rintro rfl
      exact colonless member
    have stops : ∀ c, (':' :: rest.toList).head? = some c → (c != ':') = false := by
      rintro _ ⟨⟩
      rfl
    obtain ⟨taken, dropped⟩ := Text.span_of_stop inside stops
    rw [toList_compactIri, taken, dropped]
    simp

theorem compact?_eq_some_iff : compact? context term = some (iri, rest) ↔
    ∃ name, ':' ∉ name.toList ∧ term = compactIri name rest ∧ ¬ StartsAuthority rest.toList ∧
      Table.get? name context = some iri := by
  unfold compact?
  rw [Option.bind_eq_bind, Option.bind_eq_some_iff]
  constructor
  · rintro ⟨⟨name, further⟩, parts, found⟩
    obtain ⟨colonless, same⟩ := splitPrefix?_eq_some_iff.mp parts
    dsimp only at found
    split at found
    · cases found
    · next proper =>
        obtain ⟨_, known, joined⟩ := Option.map_eq_some_iff.mp found
        obtain ⟨rfl, rfl⟩ := Prod.mk.inj joined
        exact ⟨name, colonless, same, fun starts => proper (List.isPrefixOf_iff_prefix.mpr starts),
          known⟩
  · rintro ⟨name, colonless, same, proper, known⟩
    refine ⟨(name, rest), splitPrefix?_eq_some_iff.mpr ⟨colonless, same⟩, ?_⟩
    dsimp only
    rw [if_neg fun starts => proper (List.isPrefixOf_iff_prefix.mp starts), known]
    rfl

theorem isBlankId_compactIri (colonless : ':' ∉ name.toList) :
    IsBlankId (compactIri name rest) ↔ name = "_" := by
  constructor
  · rintro ⟨label, whole⟩
    rw [toList_compactIri] at whole
    have split : ['_'] ++ ':' :: label = name.toList ++ ':' :: rest.toList := whole
    have start := (Text.mark_unique (by decide) colonless split).1
    exact String.toList_inj.mp start.symm
  · rintro rfl
    exact ⟨rest.toList, (toList_compactIri "_" rest).symm⟩

theorem isPrefixName_of_compactIri (colonless : ':' ∉ name.toList)
    (named : ¬ IsBlankId (compactIri name rest)) : IsPrefixName name :=
  ⟨colonless, mt (isBlankId_compactIri colonless).mpr named⟩

theorem IsPrefixName.not_isBlankId (proper : IsPrefixName name) (rest : String) :
    ¬ IsBlankId (compactIri name rest) :=
  mt (isBlankId_compactIri proper.1).mp proper.2

/-! ### One expansion -/

theorem expand_of_isBlankId (blank : IsBlankId term) : expand context term = term := by
  rw [expand, if_pos (List.isPrefixOf_iff_prefix.mpr blank)]

theorem expand_of_get? (named : ¬ IsBlankId term) (known : Table.get? term context = some iri) :
    expand context term = iri := by
  rw [expand, if_neg fun blank => named (List.isPrefixOf_iff_prefix.mp blank), known]

theorem expand_of_compact? (named : ¬ IsBlankId term) (unknown : Table.get? term context = none)
    (compact : compact? context term = some (iri, rest)) : expand context term = iri ++ rest := by
  rw [expand, if_neg fun blank => named (List.isPrefixOf_iff_prefix.mp blank), unknown, compact]

theorem expand_of_none (unknown : Table.get? term context = none)
    (simple : compact? context term = none) : expand context term = term := by
  unfold expand
  rw [unknown, simple]
  split <;> rfl

theorem final_iff : Final context term ↔ expand context term = term ∧
    (IsBlankId term ∨ compact? context term = none) := by
  by_cases blank : IsBlankId term
  · simp [Final, blank, expand_of_isBlankId]
  · rw [Final, or_iff_right blank, or_iff_right blank, and_comm]
    apply and_congr_left
    intro simple
    cases known : Table.get? term context with
    | none => simp [expand_of_none known simple]
    | some iri => simp [expand_of_get? blank known]

theorem complete_iff_final : Complete context ↔ ∀ term, Final context (expand context term) :=
  forall_congr' fun _ => final_iff.symm

/-- Expansion is complete if it is for terms, and for compact IRIs that are no terms. -/
theorem complete_iff : Complete context ↔
    (∀ term iri, ¬ IsBlankId term → Table.get? term context = some iri → Final context iri) ∧
      ∀ name iri rest, IsPrefixName name → Table.get? name context = some iri →
        ¬ StartsAuthority rest.toList → Table.get? (compactIri name rest) context = none →
        Final context (iri ++ rest) := by
  rw [complete_iff_final]
  constructor
  · intro final
    constructor
    · intro term iri named known
      have reached := final term
      rwa [expand_of_get? named known] at reached
    · intro name iri rest proper known simple unknown
      have reached := final (compactIri name rest)
      rwa [expand_of_compact? (proper.not_isBlankId rest) unknown
        (compact?_eq_some_iff.mpr ⟨name, proper.1, rfl, simple, known⟩)] at reached
  · rintro ⟨terms, compacts⟩ term
    by_cases blank : IsBlankId term
    · rw [expand_of_isBlankId blank]
      exact .inl blank
    · cases known : Table.get? term context with
      | some iri =>
          rw [expand_of_get? blank known]
          exact terms term iri blank known
      | none =>
          cases compact : compact? context term with
          | none =>
              rw [expand_of_none known compact]
              exact .inr ⟨compact, by simp [known]⟩
          | some parts =>
              obtain ⟨name, colonless, rfl, simple, found⟩ := compact?_eq_some_iff.mp compact
              rw [expand_of_compact? blank known compact]
              exact compacts name parts.1 parts.2 (isPrefixName_of_compactIri colonless blank)
                found simple known

theorem not_final_compactIri (proper : IsPrefixName name)
    (known : Table.get? name context = some iri) (simple : ¬ StartsAuthority rest.toList) :
    ¬ Final context (compactIri name rest) := by
  rintro (blank | ⟨whole, _⟩)
  · exact proper.not_isBlankId rest blank
  · rw [compact?_eq_some_iff.mpr ⟨name, proper.1, rfl, simple, known⟩] at whole
    cases whole

end Compact

/-! ### Comparing the definitions -/

section Definitions

variable {context : Context}

theorem StartsAuthority.append {rest : List Char} (starts : StartsAuthority rest)
    (further : List Char) : StartsAuthority (rest ++ further) :=
  starts.trans (List.prefix_append rest further)

theorem startsAuthority_of_append {rest further : List Char} (other : further.head? ≠ some '/')
    (starts : StartsAuthority (rest ++ further)) : StartsAuthority rest := by
  obtain ⟨tail, whole⟩ := starts
  match rest with
  | [] =>
      have first := congrArg List.head? whole
      exact absurd first.symm other
  | [_] =>
      have second := congrArg (List.head? ∘ List.tail) whole
      exact absurd second.symm other
  | c :: d :: rest =>
      obtain ⟨rfl, same⟩ := List.cons.inj whole
      obtain ⟨rfl, _⟩ := List.cons.inj same
      exact List.prefix_append ['/', '/'] rest

theorem exists_fresh (sorted : Table.Sorted context) (start : String) :
    ∃ fresh : String, (∀ rest, StartsAuthority (rest ++ fresh.toList) → StartsAuthority rest) ∧
      Table.get? (start ++ fresh) context = none := by
  let bound := (context.map fun entry => entry.1.length).sum
  refine ⟨String.ofList (List.replicate (bound + 1) 'a'), ?_, ?_⟩
  · intro rest
    apply startsAuthority_of_append
    rw [String.toList_ofList, List.replicate_succ, List.head?_cons]
    decide
  · rw [Option.eq_none_iff_forall_ne_some]
    intro iri known
    have member := (Table.get?_eq_some_iff sorted).mp known
    have within : (start ++ String.ofList (List.replicate (bound + 1) 'a')).length ≤ bound :=
      List.le_sum_of_mem (List.mem_map.mpr ⟨_, member, rfl⟩)
    rw [String.length_append, String.length_ofList, List.length_replicate] at within
    omega

section Settled

variable {name iri rest : String} (settled : Settled context) (sorted : Table.Sorted context)
  (proper : IsPrefixName name) (known : Table.get? name context = some iri)
  (simple : ¬ StartsAuthority rest.toList)
include settled sorted proper known simple

theorem Settled.compact?_append (named : ¬ IsBlankId (iri ++ rest)) :
    compact? context (iri ++ rest) = none := by
  rw [Option.eq_none_iff_forall_ne_some]
  rintro ⟨other, further⟩ found
  obtain ⟨start, colonless, whole, furtherSimple, otherKnown⟩ := compact?_eq_some_iff.mp found
  have member := (Table.get?_eq_some_iff sorted).mp known
  have otherMember := (Table.get?_eq_some_iff sorted).mp otherKnown
  have otherProper : IsPrefixName start := isPrefixName_of_compactIri colonless (whole ▸ named)
  have chars : iri.toList ++ rest.toList = start.toList ++ ':' :: further.toList := by
    rw [← toList_compactIri, ← whole, String.toList_append]
  -- The prefix ends before the namespace does, or not.
  rcases List.append_eq_append_iff.mp chars with ⟨more, longer, joined⟩ | ⟨more, longer, joined⟩
  · have authority := settled.begun _ member proper _ otherMember otherProper more
      (Text.dropStart?_eq_some_iff.mpr longer)
    rw [joined] at simple
    exact simple (authority.append _)
  · cases more with
    | nil =>
        have authority := settled.begun _ member proper _ otherMember otherProper []
          (Text.dropStart?_eq_some_iff.mpr (by rw [longer, List.append_nil, List.append_nil]))
        exact absurd authority (by decide)
    | cons c more =>
        obtain ⟨rfl, same⟩ := List.cons.inj joined
        have authority := settled.compacted _ member proper _ otherMember otherProper more
          (Text.dropStart?_eq_some_iff.mpr (by rw [longer]; simp))
        rw [same] at furtherSimple
        exact furtherSimple (authority.append _)

theorem Settled.final_append (unknown : Table.get? (compactIri name rest) context = none) :
    Final context (iri ++ rest) := by
  by_cases blank : IsBlankId (iri ++ rest)
  · exact .inl blank
  refine .inr ⟨settled.compact?_append sorted proper known simple blank, ?_⟩
  intro other found
  have member := (Table.get?_eq_some_iff sorted).mp known
  have otherMember := (Table.get?_eq_some_iff sorted).mp found
  exact settled.continued _ member proper _ otherMember blank rest.toList
    (Text.dropStart?_eq_some_iff.mpr String.toList_append) simple (by rwa [String.ofList_toList])

end Settled

section Complete

variable {name iri start other : String} (sorted : Table.Sorted context)
  (complete : Complete context) (proper : IsPrefixName name)
  (known : Table.get? name context = some iri)
include complete proper known

theorem Complete.eq_of_continued {rest : List Char} (named : ¬ IsBlankId start)
    (otherKnown : Table.get? start context = some other)
    (dropped : Text.dropStart? iri.toList start.toList = some rest)
    (simple : ¬ StartsAuthority rest)
    (unknown : Table.get? (compactIri name (String.ofList rest)) context = none) :
    other = start := by
  have longer : iri ++ String.ofList rest = start := by
    apply String.toList_inj.mp
    rw [String.toList_append, String.toList_ofList]
    exact (Text.dropStart?_eq_some_iff.mp dropped).symm
  have final := (complete_iff.mp complete).2 name iri (String.ofList rest) proper known
    (by rwa [String.toList_ofList]) unknown
  rw [longer] at final
  exact (final.resolve_left named).2 _ otherKnown

theorem Complete.startsAuthority_of_append_eq {rest further : String}
    (otherProper : IsPrefixName start) (otherKnown : Table.get? start context = some other)
    (simple : ¬ StartsAuthority rest.toList)
    (unknown : Table.get? (compactIri name rest) context = none)
    (same : iri ++ rest = compactIri start further) : StartsAuthority further.toList := by
  by_contra otherSimple
  have final := (complete_iff.mp complete).2 name iri rest proper known simple unknown
  rw [same] at final
  exact not_final_compactIri otherProper otherKnown otherSimple final

include sorted

theorem Complete.startsAuthority_of_compacted {rest : List Char}
    (otherProper : IsPrefixName start) (otherKnown : Table.get? start context = some other)
    (dropped : Text.dropStart? (start.toList ++ [':']) iri.toList = some rest) :
    StartsAuthority rest := by
  obtain ⟨fresh, harmless, unknown⟩ := exists_fresh sorted (name ++ ":")
  have same : iri ++ fresh = compactIri start (String.ofList rest ++ fresh) := by
    apply String.toList_inj.mp
    rw [String.toList_append, Text.dropStart?_eq_some_iff.mp dropped, toList_compactIri]
    simp
  have starts := complete.startsAuthority_of_append_eq proper known otherProper otherKnown
    (fun starts => absurd (harmless [] starts) (by decide)) unknown same
  rw [String.toList_append, String.toList_ofList] at starts
  exact harmless rest starts

theorem Complete.startsAuthority_of_begun {rest : List Char}
    (otherProper : IsPrefixName start) (otherKnown : Table.get? start context = some other)
    (dropped : Text.dropStart? iri.toList start.toList = some rest) : StartsAuthority rest := by
  by_contra simple
  obtain ⟨fresh, harmless, unknown⟩ := exists_fresh sorted
    (compactIri name (String.ofList rest ++ ":"))
  have same : iri ++ compactIri (String.ofList rest) fresh = compactIri start fresh := by
    apply String.toList_inj.mp
    rw [String.toList_append, toList_compactIri, toList_compactIri,
      Text.dropStart?_eq_some_iff.mp dropped]
    simp
  have restSimple : ¬ StartsAuthority (compactIri (String.ofList rest) fresh).toList := by
    rw [toList_compactIri, String.toList_ofList]
    exact fun starts => simple (startsAuthority_of_append (by simp) starts)
  have regrouped : compactIri name (String.ofList rest ++ ":") ++ fresh =
      compactIri name (compactIri (String.ofList rest) fresh) := by
    simp only [compactIri, String.append_assoc]
  have starts := complete.startsAuthority_of_append_eq proper known otherProper otherKnown
    restSimple (regrouped ▸ unknown) same
  exact absurd (harmless [] starts) (by decide)

end Complete

theorem settled_of_complete (sorted : Table.Sorted context) (complete : Complete context) :
    Settled context := by
  have known {entry : String × String} (member : entry ∈ context) :
      Table.get? entry.1 context = some entry.2 := (Table.get?_eq_some_iff sorted).mpr member
  constructor
  · intro entry member named
    exact (complete_iff.mp complete).1 entry.1 entry.2 named (known member)
  · intro entry member proper other otherMember named rest dropped simple unknown
    exact complete.eq_of_continued proper (known member) named (known otherMember) dropped simple
      unknown
  · intro entry member proper other otherMember otherProper rest dropped
    exact complete.startsAuthority_of_compacted sorted proper (known member) otherProper
      (known otherMember) dropped
  · intro entry member proper other otherMember otherProper rest dropped
    exact complete.startsAuthority_of_begun sorted proper (known member) otherProper
      (known otherMember) dropped

end Definitions

/-! ### The definitions of a document -/

mutual

def definitions : Json → List (String × String)
  | .array elements => definitionsOfAll elements
  | .object members =>
      members.filterMap fun entry => (definition? entry.2).map fun iri => (entry.1, iri)
  | _ => []

def definitionsOfAll : List Json → List (String × String)
  | [] => []
  | element :: rest => definitions element ++ definitionsOfAll rest

end

def defineAll (context : Context) (entries : List (String × String)) : Context :=
  entries.foldl (fun table entry => Table.insert entry.1 entry.2 table) context

theorem define_eq (context : Context) (members : List (String × Json)) :
    define context members = defineAll context (definitions (.object members)) := by
  induction members generalizing context with
  | nil => rfl
  | cons entry rest ih =>
      rw [define, List.foldl_cons, ← define, ih]
      cases known : definition? entry.2 with
      | none => simp [definitions, known]
      | some iri => simp [definitions, known, defineAll]

mutual

theorem defineAll_of_readContext : ∀ {document : Json} {context result : Context},
    readContext context document = .ok result → result = defineAll context (definitions document)
  | .array elements, context, result, read => by
      rw [readContext] at read
      rw [definitions]
      exact defineAll_of_readContexts read
  | .object members, context, result, read => by
      rw [readContext, Except.ok.injEq] at read
      rw [← read, define_eq]
  | .null, context, result, read => by
      rw [readContext, Except.ok.injEq] at read
      exact read.symm
  | .bool _, _, _, read => by cases read
  | .number _, _, _, read => by cases read
  | .string _, _, _, read => by cases read

theorem defineAll_of_readContexts : ∀ {elements : List Json} {context result : Context},
    readContexts context elements = .ok result →
      result = defineAll context (definitionsOfAll elements)
  | [], context, result, read => by
      rw [readContexts, Except.ok.injEq] at read
      exact read.symm
  | element :: rest, context, result, read => by
      rw [readContexts] at read
      obtain ⟨between, first, later⟩ := Outcome.bind_eq_ok.mp read
      rw [defineAll_of_readContexts later, defineAll_of_readContext first, definitionsOfAll,
        defineAll, defineAll, defineAll, List.foldl_append]

end

/-- A context that is read holds the last definition of each term, wherever it stands. Expansion
by it is complete exactly if none of these definitions leaves anything to expand. -/
theorem complete_iff_settled {document : Json} {context : Context}
    (accepted : readContext [] document = .ok context) :
    context = Table.ofList (definitions document) ∧ (Complete context ↔ Settled context) := by
  have held : context = Table.ofList (definitions document) := defineAll_of_readContext accepted
  have sorted : Table.Sorted context := held ▸ Table.sorted_ofList _
  refine ⟨held, settled_of_complete sorted, ?_⟩
  intro settled
  rw [complete_iff]
  constructor
  · intro term iri named known
    exact settled.terms _ ((Table.get?_eq_some_iff sorted).mp known) named
  · intro name iri rest proper known simple unknown
    exact settled.final_append sorted proper known simple unknown

def nestedContext : Json :=
  .array
    [.object [("rr", .string "http://www.w3.org/ns/r2rml#"), ("template", .string "rr:template")],
      .null,
      .array [.object [("template", .object
        [("@id", .string "http://www.w3.org/ns/r2rml#template")])]]]

theorem complete_nestedContext : ∃ context, readContext [] nestedContext = .ok context ∧
    Complete context ∧ expand context "rr:template" = expand context "template" := by
  obtain ⟨context, accepted⟩ : ∃ context, readContext [] nestedContext = .ok context := ⟨_, rfl⟩
  obtain ⟨held, complete⟩ := complete_iff_settled accepted
  have settled : Settled context := by
    rw [held]
    exact ⟨by decide, by decide, by decide, by decide⟩
  exact ⟨context, accepted, complete.mpr settled, by rw [held]; decide⟩

def templateContext : Json :=
  .object [("rr", .string "http://www.w3.org/ns/r2rml#"), ("template", .string "rr:template")]

/-- A term that is defined by a compact IRI is expanded to the compact IRI. -/
theorem not_complete_templateContext : ∃ context, readContext [] templateContext = .ok context ∧
    expand context "template" = "rr:template" ∧
    expand context "rr:template" = "http://www.w3.org/ns/r2rml#template" ∧ ¬ Complete context := by
  refine ⟨_, rfl, by decide, by decide, fun complete => ?_⟩
  have again := (complete "template").1
  exact absurd again (by decide)

end RdfMapping.JsonLd
