import Mathlib.Data.Finset.Card
import Mathlib.Data.List.DropRight
import RdfMapping.Proofs.Evaluation.Failure
import RdfMapping.Proofs.Source.Cache
/-!
The life of one cache. Documents and rows are asked for in any order, each time with its own
content, options and iterator, and from time to time the cache is cleared. Under every key the
first content that could be read since the last clearing is the one that is served; nothing but
a clearing takes it away.
-/

namespace RdfMapping

/-- A source is missing, or its content cannot be read. -/
def MappingError.IsUnread : MappingError → Prop
  | .missingSource _ | .source .. => True
  | _ => False

open MappingError Outcome

namespace Cache

/-! ### Operations -/

/-- What a cache is given to find a document by. -/
structure Access where
  source : LogicalSource
  content : Option String
  options : Options

inductive Operation where
  /-- The document of a source. -/
  | document (access : Access)
  /-- The rows into which its iterator divides the document of a source. -/
  | rows (access : Access)
  | clear

inductive Answer where
  | document (result : Outcome Document)
  | rows (result : Outcome Rows)
  | cleared

def Answer.Fails : Answer → MappingError → Prop
  | .document result, e => result = .error e
  | .rows result, e => result = .error e
  | .cleared, _ => False

def perform (cache : Cache) : Operation → Answer × Cache
  | .document access =>
      let (result, cache) := cache.read access.source access.content access.options
      (.document result, cache)
  | .rows access =>
      let (result, cache) := cache.openRows access.source access.content access.options
      (.rows result, cache)
  | .clear => (.cleared, [])

def after (history : List Operation) : Cache :=
  history.foldl (fun cache operation => (cache.perform operation).2) []

theorem after_concat (history : List Operation) (operation : Operation) :
    after (history ++ [operation]) = ((after history).perform operation).2 :=
  List.foldl_concat _ _ _ _

/-! ### What the operations tell of themselves -/

namespace Access

def key (access : Access) : DocumentKey := .of access.source access.options

def parsed (access : Access) : Outcome Document :=
  match access.content with
  | none => .error (.missingSource access.source.id)
  | some text =>
      Document.parse access.source.id text access.source.formulation access.options

/-- The document that the own content gives for a key. -/
def offer? (access : Access) (key : DocumentKey) : Option Document :=
  if access.key = key then access.parsed.toOption else none

theorem parsed_failsWithin (access : Access) : FailsWithin IsUnread access.parsed := by
  unfold parsed
  split
  · exact failsWithin_error trivial
  · exact Document.parse_failsWithin (fun _ _ => trivial) _ _ _ _

theorem offer?_isSome_iff {access : Access} {key : DocumentKey} :
    (access.offer? key).isSome = true ↔ access.key = key ∧ access.parsed.isOk = true := by
  unfold offer?
  split
  · next same => cases access.parsed <;> simp [same, Except.toOption, Except.isOk, Except.toBool]
  · next apart => simp [apart]

end Access

def Operation.access? : Operation → Option Access
  | .document access => some access
  | .rows access => some access
  | .clear => none

def accesses (history : List Operation) : List Access :=
  (history.rtakeWhile fun operation => operation.access?.isSome).filterMap Operation.access?

theorem accesses_concat_of_access {history : List Operation} {operation : Operation}
    {access : Access} (asks : operation.access? = some access) :
    accesses (history ++ [operation]) = accesses history ++ [access] := by
  have isAccess : operation.access?.isSome = true := by
    rw [asks]
    rfl
  unfold accesses
  rw [List.rtakeWhile_concat, if_pos isAccess, List.filterMap_append]
  simp [asks]

theorem accesses_concat_clear (history : List Operation) : accesses (history ++ [.clear]) = [] := by
  unfold accesses
  rw [List.rtakeWhile_concat]
  rfl

/-- The document of the first content that could be read under a key. -/
def firstParsed (accesses : List Access) (key : DocumentKey) : Option Document :=
  accesses.findSome? (·.offer? key)

/-- The keys under which a content could be read. -/
def parsedKeys (accesses : List Access) : Finset DocumentKey :=
  ((accesses.filter (·.parsed.isOk)).map Access.key).toFinset

/-- What an access is to be served after earlier ones: what its own content is read as counts
only where none of them could be read. -/
def served (earlier : List Access) (access : Access) : Outcome Document :=
  match firstParsed earlier access.key with
  | some document => .ok document
  | none => access.parsed

def expected (earlier : List Access) : Operation → Answer
  | .document access => .document (served earlier access)
  | .rows access =>
      .rows ((served earlier access).bind (Rows.ofDocument access.source.iterator))
  | .clear => .cleared

theorem firstParsed_isSome_iff {accesses : List Access} {key : DocumentKey} :
    (firstParsed accesses key).isSome = true ↔ key ∈ parsedKeys accesses := by
  unfold firstParsed parsedKeys
  rw [List.findSome?_isSome_iff, List.mem_toFinset, List.mem_map]
  constructor
  · rintro ⟨access, member, offered⟩
    obtain ⟨same, parsed⟩ := Access.offer?_isSome_iff.mp offered
    exact ⟨access, List.mem_filter.mpr ⟨member, parsed⟩, same⟩
  · rintro ⟨access, member, same⟩
    obtain ⟨given, parsed⟩ := List.mem_filter.mp member
    exact ⟨access, given, Access.offer?_isSome_iff.mpr ⟨same, parsed⟩⟩

/-! ### One access -/

section

variable {cache : Cache} {access : Access}

theorem read_of_parsed {document : Document} (unknown : cache.find? access.key = none)
    (parsed : access.parsed = .ok document) :
    cache.read access.source access.content access.options =
      (.ok document, (access.key, document) :: cache) := by
  unfold Access.parsed at parsed
  unfold Access.key at unknown ⊢
  unfold read
  rw [unknown]
  cases given : access.content with
  | none =>
      rw [given] at parsed
      cases parsed
  | some text =>
      rw [given] at parsed
      simp only [parsed]

theorem read_of_unread {e : MappingError} (unknown : cache.find? access.key = none)
    (failed : access.parsed = .error e) :
    cache.read access.source access.content access.options = (.error e, cache) := by
  unfold Access.parsed at failed
  unfold Access.key at unknown
  unfold read
  rw [unknown]
  cases given : access.content with
  | none =>
      rw [given] at failed
      cases failed
      rfl
  | some text =>
      rw [given] at failed
      simp only [failed]

theorem find?_read_access (key : DocumentKey) :
    (cache.read access.source access.content access.options).2.find? key =
      (cache.find? key).or (access.offer? key) := by
  cases known : cache.find? access.key with
  | some document =>
      rw [read_of_find? known]
      by_cases same : access.key = key
      · rw [← same, known]
        rfl
      · simp [Access.offer?, same]
  | none =>
      cases parsed : access.parsed with
      | error e =>
          rw [read_of_unread known parsed]
          simp [Access.offer?, parsed, Except.toOption]
      | ok document =>
          rw [read_of_parsed known parsed, find?_cons]
          by_cases same : access.key = key
          · rw [← same, known]
            simp [Access.offer?, parsed, Except.toOption]
          · simp [Access.offer?, same]

theorem fst_read_access {earlier : List Access}
    (found : cache.find? access.key = firstParsed earlier access.key) :
    (cache.read access.source access.content access.options).1 = served earlier access := by
  unfold served
  rw [← found]
  cases known : cache.find? access.key with
  | some document => rw [read_of_find? known]
  | none =>
      cases parsed : access.parsed with
      | error e => rw [read_of_unread known parsed]
      | ok document => rw [read_of_parsed known parsed]

theorem not_mem_keys {key : DocumentKey} (unknown : cache.find? key = none) :
    key ∉ cache.map Prod.fst := by
  intro member
  obtain ⟨entry, entryMember, same⟩ := List.mem_map.mp member
  have absent := List.find?_eq_none.mp (Option.map_eq_none_iff.mp unknown) entry entryMember
  simp [same] at absent

theorem nodup_read_access (distinct : (cache.map Prod.fst).Nodup) :
    ((cache.read access.source access.content access.options).2.map Prod.fst).Nodup := by
  cases known : cache.find? access.key with
  | some document =>
      rw [read_of_find? known]
      exact distinct
  | none =>
      cases parsed : access.parsed with
      | error e =>
          rw [read_of_unread known parsed]
          exact distinct
      | ok document =>
          rw [read_of_parsed known parsed]
          exact List.nodup_cons.mpr ⟨not_mem_keys known, distinct⟩

theorem snd_read_of_error {e : MappingError}
    (failed : (cache.read access.source access.content access.options).1 = .error e) :
    (cache.read access.source access.content access.options).2 = cache ∧ e.IsUnread := by
  cases known : cache.find? access.key with
  | some document =>
      rw [read_of_find? known] at failed
      cases failed
  | none =>
      cases parsed : access.parsed with
      | ok document =>
          rw [read_of_parsed known parsed] at failed
          cases failed
      | error other =>
          rw [read_of_unread known parsed] at failed ⊢
          cases failed
          exact ⟨rfl, access.parsed_failsWithin _ parsed⟩

end

/-! ### Any history -/

/-- A cache holds, under each key, the first document that the accesses could read, and nothing
else. -/
structure Holds (accesses : List Access) (cache : Cache) : Prop where
  found : ∀ key, cache.find? key = firstParsed accesses key
  distinct : (cache.map Prod.fst).Nodup

theorem holds_empty : Holds [] [] := ⟨fun _ => rfl, List.nodup_nil⟩

theorem Holds.read {earlier : List Access} {cache : Cache} (holds : Holds earlier cache)
    (access : Access) :
    Holds (earlier ++ [access])
      (cache.read access.source access.content access.options).2 where
  found := by
    intro key
    rw [find?_read_access, holds.found]
    simp [firstParsed, List.findSome?_append]
  distinct := nodup_read_access holds.distinct

theorem Holds.perform {history : List Operation} {cache : Cache}
    (holds : Holds (accesses history) cache) (operation : Operation) :
    Holds (accesses (history ++ [operation])) (cache.perform operation).2 := by
  cases operation with
  | document access =>
      rw [accesses_concat_of_access rfl]
      exact holds.read access
  | rows access =>
      rw [accesses_concat_of_access rfl]
      exact holds.read access
  | clear =>
      rw [accesses_concat_clear]
      exact holds_empty

theorem holds_after (history : List Operation) : Holds (accesses history) (after history) := by
  induction history using List.reverseRecOn with
  | nil => exact holds_empty
  | append_singleton history operation ih =>
      rw [after_concat]
      exact ih.perform operation

theorem Holds.length_eq {accesses : List Access} {cache : Cache} (holds : Holds accesses cache) :
    cache.length = (parsedKeys accesses).card := by
  have keys : (cache.map Prod.fst).toFinset = parsedKeys accesses := by
    ext key
    rw [← firstParsed_isSome_iff, ← holds.found, List.mem_toFinset]
    constructor
    · intro member
      by_contra unknown
      exact not_mem_keys (Option.not_isSome_iff_eq_none.mp unknown) member
    · intro known
      obtain ⟨entry, found, same⟩ := Option.map_eq_some_iff.mp (Option.get_mem known)
      have keyed : entry.1 = key := by simpa using List.find?_some found
      exact List.mem_map.mpr ⟨entry, List.mem_of_find?_eq_some found, keyed⟩
  rw [← keys, List.toFinset_card_of_nodup holds.distinct, List.length_map]

/-- What an operation meets after a history, and what it leaves. -/
structure ServesFirst (history : List Operation) (operation : Operation) : Prop where
  /-- Under each key the cache holds the first document that could be read. -/
  holds : ∀ key, (after history).find? key = firstParsed (accesses history) key
  size : (after history).length = (parsedKeys (accesses history)).card
  answer : ((after history).perform operation).1 = expected (accesses history) operation
  /-- Nothing but a clearing takes a document away. -/
  keeps : operation ≠ .clear → ∀ key document, (after history).find? key = some document →
    (after (history ++ [operation])).find? key = some document
  unchanged : ∀ e, e.IsUnread → ((after history).perform operation).1.Fails e →
    after (history ++ [operation]) = after history
  /-- What else can fail is the iterator, and the document is kept all the same. -/
  invalid : ∀ e, ¬ e.IsUnread → ((after history).perform operation).1.Fails e →
    ∃ access document, operation = .rows access ∧
      Rows.ofDocument access.source.iterator document = .error e ∧
      (after (history ++ [operation])).find? access.key = some document

theorem rows_cases {cache : Cache} {access : Access} {e : MappingError}
    (fails : (cache.perform (.rows access)).1.Fails e) :
    (cache.read access.source access.content access.options).1 = .error e ∨
      ∃ document, (cache.read access.source access.content access.options).1 = .ok document ∧
        Rows.ofDocument access.source.iterator document = .error e := by
  change (cache.read access.source access.content access.options).1.bind
    (Rows.ofDocument access.source.iterator) = .error e at fails
  cases read : (cache.read access.source access.content access.options).1 with
  | error other =>
      rw [read] at fails
      cases fails
      exact Or.inl rfl
  | ok document =>
      rw [read] at fails
      exact Or.inr ⟨document, rfl, fails⟩

theorem snd_perform_of_unread {cache : Cache} {operation : Operation} {e : MappingError}
    (unread : e.IsUnread) (fails : (cache.perform operation).1.Fails e) :
    (cache.perform operation).2 = cache := by
  cases operation with
  | document access => exact (snd_read_of_error fails).1
  | rows access =>
      rcases rows_cases fails with failed | ⟨document, _, failed⟩
      · exact (snd_read_of_error failed).1
      · have fails : FailsWithin (fun e => ¬ e.IsUnread)
            (Rows.ofDocument access.source.iterator document) :=
          Rows.ofDocument_failsWithin (fun _ _ => id) _ _
        exact absurd unread (fails e failed)
  | clear => exact fails.elim

theorem kept_of_invalid {cache : Cache} {operation : Operation} {e : MappingError}
    (other : ¬ e.IsUnread) (fails : (cache.perform operation).1.Fails e) :
    ∃ access document, operation = .rows access ∧
      Rows.ofDocument access.source.iterator document = .error e ∧
      (cache.perform operation).2.find? access.key = some document := by
  cases operation with
  | document access => exact absurd (snd_read_of_error fails).2 other
  | rows access =>
      rcases rows_cases fails with failed | ⟨document, read, failed⟩
      · exact absurd (snd_read_of_error failed).2 other
      · exact ⟨access, document, rfl, failed, find?_of_read read⟩
  | clear => exact fails.elim

theorem servesFirst (history : List Operation) (operation : Operation) :
    ServesFirst history operation where
  holds := (holds_after history).found
  size := (holds_after history).length_eq
  answer := by
    cases operation with
    | document access =>
        exact congrArg Answer.document (fst_read_access ((holds_after history).found _))
    | rows access =>
        exact congrArg
          (fun result => Answer.rows (result.bind (Rows.ofDocument access.source.iterator)))
          (fst_read_access ((holds_after history).found access.key))
    | clear => rfl
  keeps := by
    intro other key document known
    rw [after_concat]
    cases operation with
    | document access => exact find?_read known
    | rows access => exact find?_read known
    | clear => exact absurd rfl other
  unchanged := by
    intro e unread fails
    rw [after_concat]
    exact snd_perform_of_unread unread fails
  invalid := by
    intro e other fails
    rw [after_concat]
    exact kept_of_invalid other fails

def Access.numbers (iterator : String) (content : Option String) : Access :=
  ⟨⟨"numbers", some iterator, .jsonPath⟩, content, {}⟩

/-- The first content is missing, the second one has an iterator that is none, and the third one
comes too late. -/
theorem servesFirst_numbers :
    let early : List Operation := [.document (.numbers "$" none)]
    let later : List Operation := early ++ [.rows (.numbers "a[" (some "[1,2]"))]
    after early = [] ∧
      (∃ document, (after later).find? (Access.numbers "$" none).key = some document) ∧
      ((after later).perform (.document (.numbers "$" (some "[3]")))).1 =
        .document (.ok (.json (.array [.integer 1, .integer 2]))) ∧
      (after later).length = 1 := by
  intro early later
  have unclosed : JsonPath.parse "a[" = .error (.invalidSelector "a[" "unclosed '['") := by
    decide +kernel
  have invalid : ((after early).perform (.rows (.numbers "a[" (some "[1,2]")))).1.Fails
      (.invalidSelector "a[" "unclosed '['") := by
    change JsonPath.parse "a[" >>= _ = _
    rw [unclosed]
    rfl
  obtain ⟨access, document, same, _, kept⟩ := (servesFirst early _).invalid _ id invalid
  cases same
  refine ⟨?_, ⟨document, kept⟩, ?_, (servesFirst later .clear).size⟩
  · exact (servesFirst [] (.document (.numbers "$" none))).unchanged (.missingSource "numbers")
      trivial rfl
  · exact (servesFirst later (.document (.numbers "$" (some "[3]")))).answer

end Cache

end RdfMapping
