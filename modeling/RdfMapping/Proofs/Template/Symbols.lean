import RdfMapping.Proofs.Template.ReadBack
/-!
The symbols of a template: characters of content, and braces that open and close placeholders.
Whatever is read says what its text spells, and the texts that can be read are those whose
symbols are faultless: placeholders stand apart, are not empty, and are closed.
-/

namespace RdfMapping.Template

/-! ### Symbols -/

/-- What a text consists of once its escapes are resolved. -/
inductive Symbol where
  | content (c : Char)
  | opening
  | closing
  deriving DecidableEq

/-- The spelling of symbols. Any character of content can be escaped, and the special ones must
be. -/
inductive Spells : List Symbol → List Char → Prop
  | nil : Spells [] []
  | plain {c : Char} {symbols : List Symbol} {text : List Char} :
      c ≠ '\\' → c ≠ '\x7b' → c ≠ '\x7d' → Spells symbols text →
        Spells (.content c :: symbols) (c :: text)
  | escaped {c : Char} {symbols : List Symbol} {text : List Char} :
      Spells symbols text → Spells (.content c :: symbols) ('\\' :: c :: text)
  | opening {symbols : List Symbol} {text : List Char} :
      Spells symbols text → Spells (.opening :: symbols) ('\x7b' :: text)
  | closing {symbols : List Symbol} {text : List Char} :
      Spells symbols text → Spells (.closing :: symbols) ('\x7d' :: text)

/-- Reading goes by the symbols of a text. -/
def readSymbols : Place → List Symbol → Except Fault (List Segment)
  | .outside text, [] => .ok (literalSegment text)
  | .inside _, [] => .error .unclosedBrace
  | place, .content c :: rest => readSymbols (place.push c) rest
  | .outside text, .opening :: rest =>
      (readSymbols (.inside []) rest).map (literalSegment text ++ ·)
  | .inside _, .opening :: _ => .error .nestedBrace
  | .outside text, .closing :: rest => readSymbols (.outside ('\x7d' :: text)) rest
  | .inside selector, .closing :: rest =>
      if selector = [] then .error .emptyPlaceholder
      else
        (readSymbols (.outside []) rest).map
          (.reference (String.ofList selector.reverse) :: ·)

theorem readFrom_of_spells {symbols : List Symbol} {text : List Char}
    (spelled : Spells symbols text) (place : Place) :
    readFrom place text = readSymbols place symbols := by
  induction spelled generalizing place with
  | nil => cases place <;> simp [readFrom, readSymbols]
  | plain noEscape noOpening noClosing _ ih =>
      rw [readFrom_plain place _ noEscape noOpening noClosing, ih, readSymbols]
  | escaped _ ih => rw [readFrom_escaped, ih, readSymbols]
  | opening _ ih =>
      cases place with
      | outside gathered => rw [readFrom_opening, ih, readSymbols]
      | inside selector => rw [readFrom_nested, readSymbols]
  | closing _ ih =>
      cases place with
      | outside gathered => rw [readFrom_brace, ih, readSymbols]
      | inside selector =>
          rw [readSymbols]
          split
          · next empty => rw [empty, readFrom_empty]
          · next filled => rw [readFrom_closing _ filled, ih]

theorem Spells.exists_cons {c : Char} {symbols : List Symbol} {rest : List Char}
    (spelled : Spells symbols rest) (noEscape : c ≠ '\\') :
    ∃ symbol, Spells (symbol :: symbols) (c :: rest) := by
  by_cases opening : c = '\x7b'
  · rw [opening]
    exact ⟨_, .opening spelled⟩
  · by_cases closing : c = '\x7d'
    · rw [closing]
      exact ⟨_, .closing spelled⟩
    · exact ⟨_, .plain noEscape opening closing spelled⟩

theorem exists_readFrom_rest {place : Place} {c : Char} {rest : List Char}
    {segments : List Segment} (noEscape : c ≠ '\\')
    (read : readFrom place (c :: rest) = .ok segments) :
    ∃ next later, readFrom next rest = .ok later := by
  by_cases opening : c = '\x7b'
  · subst opening
    cases place with
    | outside gathered =>
        rw [readFrom_opening, Outcome.map_eq_ok] at read
        obtain ⟨later, success, _⟩ := read
        exact ⟨_, later, success⟩
    | inside selector =>
        rw [readFrom_nested] at read
        cases read
  · by_cases closing : c = '\x7d'
    · subst closing
      cases place with
      | outside gathered => exact ⟨_, _, (readFrom_brace gathered rest).symm.trans read⟩
      | inside selector =>
          by_cases empty : selector = []
          · rw [empty, readFrom_empty] at read
            cases read
          · rw [readFrom_closing _ empty, Outcome.map_eq_ok] at read
            obtain ⟨later, success, _⟩ := read
            exact ⟨_, later, success⟩
    · exact ⟨_, _, (readFrom_plain place rest noEscape opening closing).symm.trans read⟩

/-- A text without symbols ends in an escape of nothing, and is not read. -/
theorem exists_spells_of_readFrom {place : Place} {text : List Char} {segments : List Segment}
    (read : readFrom place text = .ok segments) : ∃ symbols, Spells symbols text := by
  match text with
  | [] => exact ⟨[], .nil⟩
  | c :: rest =>
      by_cases escape : c = '\\'
      · subst escape
        cases rest with
        | nil => cases place <;> simp [readFrom] at read
        | cons c rest =>
            rw [readFrom_escaped] at read
            obtain ⟨symbols, spelled⟩ := exists_spells_of_readFrom read
            exact ⟨_, .escaped spelled⟩
      · obtain ⟨_, _, later⟩ := exists_readFrom_rest escape read
        obtain ⟨symbols, spelled⟩ := exists_spells_of_readFrom later
        obtain ⟨symbol, whole⟩ := spelled.exists_cons escape
        exact ⟨_, whole⟩

/-! ### What is read is proper -/

theorem proper_of_readSymbols {place : Place} {symbols : List Symbol} {segments : List Segment}
    (read : readSymbols place symbols = .ok segments) :
    Proper segments ∧ ∀ selector, place = .inside selector → StartsApart segments := by
  induction symbols generalizing place segments with
  | nil =>
      cases place with
      | outside gathered =>
          rw [readSymbols, Except.ok.injEq] at read
          rw [← read, ← List.append_nil (literalSegment gathered)]
          exact ⟨proper_literalSegment startsApart_nil proper_nil, nofun⟩
      | inside selector => cases read
  | cons symbol rest ih =>
      cases symbol with
      | content c =>
          rw [readSymbols] at read
          obtain ⟨proper, apart⟩ := ih read
          refine ⟨proper, ?_⟩
          rintro selector rfl
          exact apart _ rfl
      | opening =>
          cases place with
          | outside gathered =>
              rw [readSymbols, Outcome.map_eq_ok] at read
              obtain ⟨later, laterRead, rfl⟩ := read
              obtain ⟨proper, apart⟩ := ih laterRead
              exact ⟨proper_literalSegment (apart [] rfl) proper, nofun⟩
          | inside selector => cases read
      | closing =>
          cases place with
          | outside gathered =>
              rw [readSymbols] at read
              exact ⟨(ih read).1, nofun⟩
          | inside selector =>
              rw [readSymbols] at read
              split at read
              · cases read
              · next filled =>
                  obtain ⟨later, laterRead, rfl⟩ := Outcome.map_eq_ok.mp read
                  refine ⟨proper_reference_cons.mpr ⟨?_, (ih laterRead).1⟩, ?_⟩
                  · simpa using filled
                  · exact fun _ _ => startsApart_reference _ _

/-! ### What is read is what is spelled -/

/-- The symbols with a closing brace taken as a character where no placeholder is open. -/
def settle : Bool → List Symbol → List Symbol
  | _, [] => []
  | inside, .content c :: rest => .content c :: settle inside rest
  | _, .opening :: rest => .opening :: settle true rest
  | true, .closing :: rest => .closing :: settle false rest
  | false, .closing :: rest => .content '\x7d' :: settle false rest

def symbolsOf : Segment → List Symbol
  | .literal text => text.toList.map .content
  | .reference selector => .opening :: selector.toList.map .content ++ [.closing]

def Place.isInside : Place → Bool
  | .outside _ => false
  | .inside _ => true

def Place.symbols : Place → List Symbol
  | .outside text => text.reverse.map .content
  | .inside selector => .opening :: selector.reverse.map .content

theorem flatMap_symbolsOf_literalSegment (text : List Char) :
    (literalSegment text).flatMap symbolsOf = text.reverse.map .content := by
  unfold literalSegment
  split
  · next empty => simp [List.isEmpty_iff.mp empty]
  · simp [symbolsOf]

theorem Place.symbols_push (place : Place) (c : Char) :
    (place.push c).symbols = place.symbols ++ [.content c] := by
  cases place <;> simp [push, symbols]

theorem Place.isInside_push (place : Place) (c : Char) :
    (place.push c).isInside = place.isInside := by
  cases place <;> rfl

theorem symbolsOf_of_readSymbols {place : Place} {symbols : List Symbol} {segments : List Segment}
    (read : readSymbols place symbols = .ok segments) :
    segments.flatMap symbolsOf = place.symbols ++ settle place.isInside symbols := by
  induction symbols generalizing place segments with
  | nil =>
      cases place with
      | outside gathered =>
          rw [readSymbols, Except.ok.injEq] at read
          rw [← read, flatMap_symbolsOf_literalSegment]
          simp [Place.symbols, settle]
      | inside selector => cases read
  | cons symbol rest ih =>
      cases symbol with
      | content c =>
          rw [readSymbols] at read
          rw [ih read, Place.symbols_push, Place.isInside_push, settle]
          simp
      | opening =>
          cases place with
          | outside gathered =>
              rw [readSymbols, Outcome.map_eq_ok] at read
              obtain ⟨later, laterRead, rfl⟩ := read
              rw [List.flatMap_append, flatMap_symbolsOf_literalSegment, ih laterRead]
              rfl
          | inside selector => cases read
      | closing =>
          cases place with
          | outside gathered =>
              rw [readSymbols] at read
              rw [ih read]
              simp [Place.symbols, Place.isInside, settle]
          | inside selector =>
              rw [readSymbols] at read
              split at read
              · cases read
              · obtain ⟨later, laterRead, rfl⟩ := Outcome.map_eq_ok.mp read
                rw [List.flatMap_cons, ih laterRead]
                simp [Place.symbols, Place.isInside, settle, symbolsOf]

/-! ### What can be read -/

def IsOpen (symbols : List Symbol) : Prop :=
  ∃ inner, .opening :: inner <:+ symbols ∧ .closing ∉ inner

/-- No placeholder is opened inside another one, none is empty, and none is left open. -/
structure Faultless (symbols : List Symbol) : Prop where
  apart : ∀ before after, symbols = before ++ .opening :: after → ¬ IsOpen before
  filled : ∀ before after, symbols ≠ before ++ .opening :: .closing :: after
  closed : ¬ IsOpen symbols

theorem not_isOpen_nil : ¬ IsOpen [] := by
  rintro ⟨inner, suffix, _⟩
  cases List.suffix_nil.mp suffix

theorem isOpen_concat {passed : List Symbol} {symbol : Symbol} :
    IsOpen (passed ++ [symbol]) ↔ symbol = .opening ∨ symbol ≠ .closing ∧ IsOpen passed := by
  unfold IsOpen
  constructor
  · rintro ⟨inner, suffix, unclosed⟩
    rcases List.suffix_concat_iff.mp suffix with empty | ⟨start, same, ofPassed⟩
    · cases empty
    · cases start with
      | nil =>
          left
          exact (List.cons.inj same).1.symm
      | cons first rest =>
          rw [List.cons_append, List.cons.injEq] at same
          obtain ⟨rfl, rfl⟩ := same
          rw [List.mem_append, not_or, List.mem_singleton] at unclosed
          exact Or.inr ⟨Ne.symm unclosed.2, rest, ofPassed, unclosed.1⟩
  · rintro (rfl | ⟨other, inner, suffix, unclosed⟩)
    · exact ⟨[], List.suffix_append _ _, List.not_mem_nil⟩
    · refine ⟨inner ++ [symbol], ?_, ?_⟩
      · exact List.suffix_concat_iff.mpr (Or.inr ⟨.opening :: inner, rfl, suffix⟩)
      · rw [List.mem_append, not_or, List.mem_singleton]
        exact ⟨unclosed, Ne.symm other⟩

/-- The symbols behind those that have been passed have no fault. -/
structure FaultlessAfter (passed rest : List Symbol) : Prop where
  apart : ∀ before after, rest = before ++ .opening :: after → ¬ IsOpen (passed ++ before)
  filled : ∀ before after, rest = before ++ .closing :: after →
    (passed ++ before).getLast? ≠ some .opening
  closed : ¬ IsOpen (passed ++ rest)

theorem faultlessAfter_nil_iff {symbols : List Symbol} :
    FaultlessAfter [] symbols ↔ Faultless symbols := by
  constructor
  · rintro ⟨apart, filled, closed⟩
    refine ⟨apart, ?_, closed⟩
    intro before after same
    refine filled (before ++ [.opening]) after (by simpa using same) ?_
    rw [List.nil_append, List.getLast?_concat]
  · rintro ⟨apart, filled, closed⟩
    refine ⟨apart, ?_, closed⟩
    intro before after same last
    obtain ⟨start, ends⟩ := List.getLast?_eq_some_iff.mp last
    rw [List.nil_append] at ends
    exact filled start after (by simpa [ends] using same)

theorem faultlessAfter_nil {passed : List Symbol} : FaultlessAfter passed [] ↔ ¬ IsOpen passed := by
  constructor
  · intro faultless
    simpa using faultless.closed
  · intro closed
    refine ⟨?_, ?_, by simpa using closed⟩
    · intro before after same
      simp at same
    · intro before after same
      simp at same

theorem forall_splits_cons {first mark : Symbol} {rest : List Symbol}
    {holds : List Symbol → Prop} :
    (∀ before after, first :: rest = before ++ mark :: after → holds before) ↔
      (first = mark → holds []) ∧
        ∀ before after, rest = before ++ mark :: after → holds (first :: before) := by
  constructor
  · intro each
    refine ⟨?_, ?_⟩
    · rintro rfl
      exact each [] rest rfl
    · rintro before after rfl
      exact each (first :: before) after rfl
  · rintro ⟨here, later⟩ before after same
    cases before with
    | nil => exact here (List.cons.inj same).1
    | cons symbol before =>
        obtain ⟨rfl, others⟩ := List.cons.inj same
        exact later before after others

theorem faultlessAfter_cons {passed rest : List Symbol} {symbol : Symbol} :
    FaultlessAfter passed (symbol :: rest) ↔
      (symbol = .opening → ¬ IsOpen passed) ∧
        (symbol = .closing → passed.getLast? ≠ some .opening) ∧
          FaultlessAfter (passed ++ [symbol]) rest := by
  constructor
  · rintro ⟨apart, filled, closed⟩
    rw [forall_splits_cons, List.append_nil] at apart filled
    refine ⟨apart.1, filled.1, ?_, ?_, ?_⟩
    · intro before after same
      rw [← List.append_cons]
      exact apart.2 before after same
    · intro before after same
      rw [← List.append_cons]
      exact filled.2 before after same
    · rw [← List.append_cons]
      exact closed
  · rintro ⟨opens, closes, apart, filled, closed⟩
    refine ⟨forall_splits_cons.mpr ⟨?_, ?_⟩, forall_splits_cons.mpr ⟨?_, ?_⟩, ?_⟩
    · rwa [List.append_nil]
    · intro before after same
      rw [List.append_cons]
      exact apart before after same
    · rwa [List.append_nil]
    · intro before after same
      rw [List.append_cons]
      exact filled before after same
    · rw [List.append_cons]
      exact closed

theorem isOpen_of_getLast? {passed : List Symbol} (last : passed.getLast? = some .opening) :
    IsOpen passed := by
  obtain ⟨start, rfl⟩ := List.getLast?_eq_some_iff.mp last
  exact isOpen_concat.mpr (Or.inl rfl)

/-- The place of the reader behind the symbols that have been passed. -/
def Place.StandsBehind (passed : List Symbol) : Place → Prop
  | .outside _ => ¬ IsOpen passed
  | .inside selector =>
      IsOpen passed ∧ (selector = [] ↔ passed.getLast? = some .opening)

theorem Place.StandsBehind.push {passed : List Symbol} {place : Place}
    (stands : place.StandsBehind passed) (c : Char) :
    (place.push c).StandsBehind (passed ++ [.content c]) := by
  cases place with
  | outside gathered =>
      intro opened
      rcases isOpen_concat.mp opened with here | ⟨_, earlier⟩
      · cases here
      · exact stands earlier
  | inside selector =>
      refine ⟨isOpen_concat.mpr (Or.inr ⟨nofun, stands.1⟩), ?_⟩
      rw [List.getLast?_concat]
      exact ⟨nofun, nofun⟩

theorem exists_readSymbols_iff {passed symbols : List Symbol} {place : Place}
    (stands : place.StandsBehind passed) :
    (∃ segments, readSymbols place symbols = .ok segments) ↔ FaultlessAfter passed symbols := by
  induction symbols generalizing place passed with
  | nil =>
      rw [faultlessAfter_nil]
      cases place with
      | outside gathered => exact iff_of_true ⟨_, rfl⟩ stands
      | inside selector =>
          refine iff_of_false ?_ (not_not.mpr stands.1)
          rintro ⟨segments, read⟩
          cases read
  | cons symbol rest ih =>
      rw [faultlessAfter_cons]
      cases symbol with
      | content c =>
          rw [readSymbols, ih (stands.push c)]
          simp
      | opening =>
          cases place with
          | outside gathered =>
              have next : (Place.inside []).StandsBehind (passed ++ [.opening]) :=
                ⟨isOpen_concat.mpr (Or.inl rfl), by simp⟩
              rw [readSymbols, exists_map_eq_ok_iff, ih next]
              simp [show ¬ IsOpen passed from stands]
          | inside selector =>
              refine iff_of_false ?_ fun faultless => faultless.1 rfl stands.1
              rintro ⟨segments, read⟩
              cases read
      | closing =>
          have closed : ¬ IsOpen (passed ++ [.closing]) := by simp [isOpen_concat]
          cases place with
          | outside gathered =>
              have unopened : passed.getLast? ≠ some .opening := fun last =>
                stands (isOpen_of_getLast? last)
              have next : (Place.outside ('\x7d' :: gathered)).StandsBehind
                  (passed ++ [.closing]) := closed
              rw [readSymbols, ih next]
              simp [unopened]
          | inside selector =>
              have next : (Place.outside []).StandsBehind (passed ++ [.closing]) := closed
              rw [readSymbols]
              split
              · next empty =>
                  refine iff_of_false nofun fun faultless => ?_
                  exact faultless.2.1 rfl (stands.2.mp empty)
              · next filled =>
                  rw [exists_map_eq_ok_iff, ih next]
                  simp [← stands.2, filled]

theorem read_eq_ok {text : List Char} {segments : List Segment}
    (success : read text = .ok segments) :
    Proper segments ∧
      ∃ symbols, Spells symbols text ∧ segments.flatMap symbolsOf = settle false symbols := by
  obtain ⟨symbols, spelled⟩ := exists_spells_of_readFrom success
  rw [read, readFrom_of_spells spelled] at success
  exact ⟨(proper_of_readSymbols success).1, symbols, spelled, symbolsOf_of_readSymbols success⟩

theorem exists_read_iff {text : List Char} :
    (∃ segments, read text = .ok segments) ↔
      ∃ symbols, Spells symbols text ∧ Faultless symbols := by
  have start : (Place.outside []).StandsBehind [] := not_isOpen_nil
  constructor
  · rintro ⟨segments, success⟩
    obtain ⟨symbols, spelled⟩ := exists_spells_of_readFrom success
    rw [read, readFrom_of_spells spelled] at success
    exact ⟨symbols, spelled,
      faultlessAfter_nil_iff.mp ((exists_readSymbols_iff start).mp ⟨segments, success⟩)⟩
  · rintro ⟨symbols, spelled, faultless⟩
    rw [read, readFrom_of_spells spelled]
    exact (exists_readSymbols_iff start).mpr (faultlessAfter_nil_iff.mpr faultless)

/-- Reading undoes writing; what is read is proper and says what its text spells, where a closing
brace outside a placeholder is a character; and a text is accepted exactly if it spells symbols
without a fault. -/
theorem parse_undoes_write_and_accepts_faultless :
    (∀ segments, Proper segments →
      parse (String.ofList (write segments)) = .ok ⟨String.ofList (write segments), segments⟩) ∧
    (∀ source template, parse source = .ok template →
      template.source = source ∧ Proper template.segments ∧
        ∃ symbols, Spells symbols source.toList ∧
          template.segments.flatMap symbolsOf = settle false symbols) ∧
    ∀ source, (∃ template, parse source = .ok template) ↔
      ∃ symbols, Spells symbols source.toList ∧ Faultless symbols := by
  refine ⟨fun _ => parse_write, ?_, ?_⟩
  · intro source template accepted
    obtain ⟨sameSource, success⟩ := parse_eq_ok_iff.mp accepted
    exact ⟨sameSource, read_eq_ok success⟩
  · intro source
    rw [← exists_read_iff]
    constructor
    · rintro ⟨template, accepted⟩
      exact ⟨_, (parse_eq_ok_iff.mp accepted).2⟩
    · rintro ⟨segments, success⟩
      exact ⟨⟨source, segments⟩, parse_eq_ok_iff.mpr ⟨rfl, success⟩⟩

def braces : List Segment :=
  [.literal "\x7ba\\", .reference "b\x7d", .reference "c", .literal "\x7d"]

theorem proper_braces : Proper braces := ⟨by decide, by simp [braces, Segment.isLiteral]⟩

/-- The segments are read back; a placeholder that is opened inside another one is a fault. -/
theorem parse_braces :
    Proper braces ∧
      parse (String.ofList (write braces)) = .ok ⟨String.ofList (write braces), braces⟩ ∧
      (∃ symbols, Spells symbols (write braces) ∧
        braces.flatMap symbolsOf = settle false symbols) ∧
      ¬ ∃ symbols, Spells symbols "\x7ba\x7bb\x7d\x7d".toList ∧ Faultless symbols := by
  obtain ⟨written, proper, accepted⟩ := parse_undoes_write_and_accepts_faultless
  have read := written braces proper_braces
  have spelled := (proper _ _ read).2.2
  rw [String.toList_ofList] at spelled
  refine ⟨proper_braces, read, spelled, ?_⟩
  rw [← accepted]
  rintro ⟨template, nested⟩
  have refused : Template.read "\x7ba\x7bb\x7d\x7d".toList = .error .nestedBrace := by decide
  rw [parse, refused] at nested
  cases nested

end RdfMapping.Template
