import RdfMapping.Source.Rows
/-!
Documents that have been read already. Reading depends on the source, the
formulation and some of the options, but not on the iterator; rules that agree in
these share one document. The first content that can be read under a key stays
until the cache is cleared.
-/

namespace RdfMapping

structure DocumentKey where
  source : String
  formulation : Formulation
  settings : List String
  deriving DecidableEq, Repr

namespace DocumentKey

/-- The options that matter to a formulation, as texts. -/
def settingsOf (options : Options) : Formulation → List String
  | .csv => [String.singleton options.delimiter]
  | .jsonPath => []
  | .xPath =>
      (options.droppedNamespaces.map fun entry => entry.1 ++ "=" ++ entry.2).mergeSort
        fun left right => left ≤ right

def of (source : LogicalSource) (options : Options) : DocumentKey :=
  { source := source.id
    formulation := source.formulation
    settings := settingsOf options source.formulation }

end DocumentKey

/-- The documents read so far, the latest one first. -/
abbrev Cache := List (DocumentKey × Document)

namespace Cache

def find? (cache : Cache) (key : DocumentKey) : Option Document :=
  (List.find? (·.1 = key) cache).map Prod.snd

/-- The document of a source, taken from the cache or read from `content` and kept
there. A failure leaves the cache as it is. -/
def read (cache : Cache) (source : LogicalSource) (content : Option String)
    (options : Options) : Outcome Document × Cache :=
  match cache.find? (.of source options) with
  | some document => (.ok document, cache)
  | none =>
      match content with
      | none => (.error (.missingSource source.id), cache)
      | some text =>
          match Document.parse source.id text source.formulation options with
          | .ok document => (.ok document, (.of source options, document) :: cache)
          | .error e => (.error e, cache)

/-- The rows of a source. A document that can be read is kept even if the iterator
turns out to be invalid. -/
def openRows (cache : Cache) (source : LogicalSource) (content : Option String)
    (options : Options) : Outcome Rows × Cache :=
  let (document, cache) := cache.read source content options
  (document.bind (Rows.ofDocument source.iterator), cache)

/-! ### What a cache keeps -/

theorem find?_cons (entry : DocumentKey × Document) (cache : Cache) (key : DocumentKey) :
    find? (entry :: cache) key = if entry.1 = key then some entry.2 else cache.find? key := by
  unfold find?
  by_cases same : entry.1 = key
  · simp [same]
  · simp [same]

theorem read_of_find? {cache : Cache} {source : LogicalSource} {content : Option String}
    {options : Options} {document : Document}
    (known : cache.find? (.of source options) = some document) :
    cache.read source content options = (.ok document, cache) := by
  unfold read
  rw [known]

theorem find?_read {cache : Cache} {source : LogicalSource} {content : Option String}
    {options : Options} {key : DocumentKey} {document : Document}
    (known : cache.find? key = some document) :
    (cache.read source content options).2.find? key = some document := by
  unfold read
  cases found : cache.find? (.of source options) with
  | some kept => exact known
  | none =>
      cases content with
      | none => exact known
      | some text =>
          cases parsed : Document.parse source.id text source.formulation options with
          | error e => simpa [parsed] using known
          | ok fresh =>
              have apart : DocumentKey.of source options ≠ key := by
                intro same
                rw [same, known] at found
                cases found
              simpa [parsed, find?_cons, apart] using known

end Cache

end RdfMapping
