import RdfMapping.Source.Cache
/-!
A cache that has served one table of contents. Reading a source adds nothing to it that
the next reading would not find by itself, so that every source is read from it as it
was from the cache at the beginning.
-/

namespace RdfMapping.Cache

variable (contents : String → Option String) (options : Options)

/-- Every source is read from a cache as it would be from an earlier one. -/
def Agrees (earlier cache : Cache) : Prop :=
  ∀ source, (cache.read source (contents source.id) options).1 =
    (earlier.read source (contents source.id) options).1

theorem Agrees.refl (cache : Cache) : Agrees contents options cache cache := fun _ => rfl

variable {contents options}

theorem read_of_unknown {cache : Cache} {source : LogicalSource} {content : Option String}
    (unknown : cache.find? (.of source options) = none) :
    (cache.read source content options).1 =
      match content with
      | none => .error (.missingSource source.id)
      | some text => Document.parse source.id text source.formulation options := by
  unfold read
  rw [unknown]
  cases content with
  | none => rfl
  | some text =>
      cases parsed : Document.parse source.id text source.formulation options with
      | error e => simp only [parsed]
      | ok document => simp only [parsed]

/-- What is found after a source has been read, and was not found before, is what the
content of the source was read as. -/
theorem find?_read_new {cache : Cache} {source : LogicalSource} {content : Option String}
    {key : DocumentKey} {document : Document} (unknown : cache.find? key = none)
    (known : (cache.read source content options).2.find? key = some document) :
    DocumentKey.of source options = key ∧
      ∃ text, content = some text ∧
        Document.parse source.id text source.formulation options = .ok document := by
  unfold read at known
  cases found : cache.find? (.of source options) with
  | some kept =>
      simp only [found, unknown] at known
      cases known
  | none =>
      cases content with
      | none =>
          simp only [found, unknown] at known
          cases known
      | some text =>
          cases parsed : Document.parse source.id text source.formulation options with
          | error e =>
              simp only [found, parsed, unknown] at known
              cases known
          | ok fresh =>
              simp only [found, parsed, find?_cons] at known
              split at known
              · next same =>
                  cases known
                  exact ⟨same, text, rfl, parsed⟩
              · rw [unknown] at known
                cases known

theorem find?_of_read {cache : Cache} {source : LogicalSource} {content : Option String}
    {document : Document} (success : (cache.read source content options).1 = .ok document) :
    (cache.read source content options).2.find? (.of source options) = some document := by
  unfold read at success ⊢
  cases found : cache.find? (.of source options) with
  | some kept =>
      simp only [found] at success ⊢
      cases success
      rfl
  | none =>
      cases content with
      | none =>
          simp only [found] at success
          cases success
      | some text =>
          cases parsed : Document.parse source.id text source.formulation options with
          | error e =>
              simp only [found, parsed] at success
              cases success
          | ok fresh =>
              simp only [found, parsed] at success ⊢
              cases success
              rw [find?_cons, if_pos rfl]

variable (contents options) in
def Gives (source : LogicalSource) (document : Document) : Prop :=
  ∃ text, contents source.id = some text ∧
    Document.parse source.id text source.formulation options = .ok document

/-- The key holds all of a source that reading it looks at. -/
theorem Gives.of_key {source other : LogicalSource} {document : Document}
    (gives : Gives contents options source document)
    (same : DocumentKey.of source options = .of other options) :
    Gives contents options other document := by
  obtain ⟨text, content, parsed⟩ := gives
  have sameId : source.id = other.id := congrArg DocumentKey.source same
  have sameFormulation : source.formulation = other.formulation :=
    congrArg DocumentKey.formulation same
  rw [sameId] at content parsed
  rw [sameFormulation] at parsed
  exact ⟨text, content, parsed⟩

theorem read_of_gives {cache : Cache} {source : LogicalSource} {document : Document}
    (unknown : cache.find? (.of source options) = none)
    (gives : Gives contents options source document) :
    (cache.read source (contents source.id) options).1 = .ok document := by
  obtain ⟨text, content, parsed⟩ := gives
  rw [read_of_unknown unknown, content]
  exact parsed

theorem read_read (cache : Cache) (source other : LogicalSource) :
    ((cache.read source (contents source.id) options).2.read other (contents other.id)
      options).1 = (cache.read other (contents other.id) options).1 := by
  cases before : cache.find? (.of other options) with
  | some document => rw [read_of_find? before, read_of_find? (find?_read before)]
  | none =>
      cases after : (cache.read source (contents source.id) options).2.find?
          (.of other options) with
      | none => rw [read_of_unknown before, read_of_unknown after]
      | some document =>
          obtain ⟨same, gives⟩ := find?_read_new before after
          rw [read_of_find? after]
          exact (read_of_gives before (Gives.of_key gives same)).symm

theorem Agrees.openRows {earlier cache : Cache} (agrees : Agrees contents options earlier cache)
    (source : LogicalSource) :
    (cache.openRows source (contents source.id) options).1 =
        (earlier.openRows source (contents source.id) options).1 ∧
      Agrees contents options earlier (cache.openRows source (contents source.id) options).2 := by
  constructor
  · exact congrArg (·.bind (Rows.ofDocument source.iterator)) (agrees source)
  · intro other
    exact (read_read cache source other).trans (agrees other)

end RdfMapping.Cache
