import RdfMapping.Csv
/-!
Delimited text reads back. A text of records is written field by field: a field stands in
quotes, with its own quotes doubled, or bare. Every record may be closed in its own way, and
the last one need not be closed at all. However a list of records is written, the reader
gives back that list.
-/

namespace RdfMapping.Csv

/-! ### Written records -/

/-- Any character separates fields that neither quotes a field nor ends a line. -/
structure Separates (delimiter : Char) : Prop where
  noQuote : delimiter ≠ '"'
  noReturn : delimiter ≠ '\r'
  noFeed : delimiter ≠ '\n'

def doubleQuotes (value : List Char) : List Char :=
  value.flatMap fun c => if c = '"' then ['"', '"'] else [c]

/-- A character that a field outside quotes may contain. -/
def IsBare (delimiter c : Char) : Prop := c ≠ delimiter ∧ c ≠ '\r' ∧ c ≠ '\n'

instance (delimiter c : Char) : Decidable (IsBare delimiter c) :=
  inferInstanceAs (Decidable (c ≠ delimiter ∧ c ≠ '\r' ∧ c ≠ '\n'))

/-- A text that stands for a field. A bare field may contain quotes, but not begin with one. -/
inductive FieldText (delimiter : Char) : List Char → String → Prop
  | quoted (value : String) :
      FieldText delimiter ('"' :: (doubleQuotes value.toList ++ ['"'])) value
  | bare {value : String} (inside : ∀ c ∈ value.toList, IsBare delimiter c)
      (unquoted : value.toList.head? ≠ some '"') : FieldText delimiter value.toList value

/-- A text that stands for the fields of a record, with delimiters between them. -/
inductive RecordText (delimiter : Char) : List Char → List String → Prop
  | last {text : List Char} {value : String} (field : FieldText delimiter text value) :
      RecordText delimiter text [value]
  | cons {text rest : List Char} {value : String} {values : List String}
      (field : FieldText delimiter text value) (later : RecordText delimiter rest values) :
      RecordText delimiter (text ++ delimiter :: rest) (value :: values)

def lineEnds : List (List Char) := [['\n'], ['\r', '\n'], ['\r']]

/-- A text that stands for records, a line end after each of them but perhaps the last. -/
inductive RecordsText (delimiter : Char) : List Char → List (List String) → Prop
  | nil : RecordsText delimiter [] []
  | last {text : List Char} {record : List String} (given : RecordText delimiter text record) :
      RecordsText delimiter text [record]
  | cons {text ending rest : List Char} {record : List String} {later : List (List String)}
      (given : RecordText delimiter text record) (ends : ending ∈ lineEnds)
      (further : RecordsText delimiter rest later) :
      RecordsText delimiter (text ++ (ending ++ rest)) (record :: later)

/-- A whole text of records. A byte order mark may stand before it; without one, it does not
begin as if there were one. -/
inductive Written (delimiter : Char) : List Char → List (List String) → Prop
  | marked {text : List Char} {given : List (List String)}
      (body : RecordsText delimiter text given) : Written delimiter ('\ufeff' :: text) given
  | unmarked {text : List Char} {given : List (List String)}
      (body : RecordsText delimiter text given) (noMark : text.head? ≠ some '\ufeff') :
      Written delimiter text given

/-! ### Fields -/

/-- What can follow a field. -/
def Closes (delimiter : Char) (text : List Char) : Prop :=
  ∀ c, text.head? = some c → ¬ IsBare delimiter c

theorem Closes.not_quote {delimiter : Char} (separates : Separates delimiter)
    {text : List Char} (closes : Closes delimiter text) : text.head? ≠ some '"' := by
  intro begins
  exact closes '"' begins ⟨Ne.symm separates.noQuote, by decide, by decide⟩

theorem doubleQuotes_quote (value : List Char) :
    doubleQuotes ('"' :: value) = '"' :: '"' :: doubleQuotes value := rfl

theorem doubleQuotes_cons {c : Char} (noQuote : c ≠ '"') (value : List Char) :
    doubleQuotes (c :: value) = c :: doubleQuotes value := by
  unfold doubleQuotes
  rw [List.flatMap_cons, if_neg noQuote]
  rfl

theorem readFrom_bare {delimiter : Char} {value : List Char} (line : Nat) (p : Partial)
    (rest : List Char) (inside : ∀ c ∈ value, IsBare delimiter c)
    (unquoted : p.field = [] → value.head? ≠ some '"') :
    readFrom delimiter false line p (value ++ rest) =
      readFrom delimiter false line { p with field := value.reverse ++ p.field } rest := by
  induction value generalizing p with
  | nil => rfl
  | cons c value ih =>
      obtain ⟨⟨noDelimiter, noReturn, noFeed⟩, later⟩ := List.forall_mem_cons.mp inside
      have noOpening : ¬ (c = '"' ∧ p.field = []) := fun both =>
        unquoted both.2 (congrArg some both.1)
      have pushed := ih (p.push c) later nofun
      rw [List.cons_append, readFrom, if_neg noOpening, if_neg noDelimiter,
        if_neg (fun both => noReturn both.1), if_neg (not_or.mpr ⟨noFeed, noReturn⟩), pushed]
      simp [Partial.push]

/-- Inside quotes, the lines of the field are counted as well. -/
theorem readFrom_quoted {delimiter : Char} (value : List Char) (line : Nat) (p : Partial)
    {rest : List Char} (noQuote : rest.head? ≠ some '"') :
    ∃ next, readFrom delimiter true line p (doubleQuotes value ++ '"' :: rest) =
      readFrom delimiter false next { p with field := value.reverse ++ p.field } rest := by
  induction value generalizing line p with
  | nil =>
      refine ⟨line, ?_⟩
      show readFrom delimiter true line p ('"' :: rest) = readFrom delimiter false line p rest
      rw [readFrom]
      intro other same
      exact noQuote (congrArg List.head? same)
  | cons c value ih =>
      by_cases same : c = '"'
      · subst same
        obtain ⟨next, reads⟩ := ih line (p.push '"')
        refine ⟨next, ?_⟩
        rw [doubleQuotes_quote, List.cons_append, List.cons_append, readFrom, reads]
        simp [Partial.push]
      · obtain ⟨next, reads⟩ := ih (if c = '\n' then line + 1 else line) (p.push c)
        refine ⟨next, ?_⟩
        rw [doubleQuotes_cons same, List.cons_append, readFrom, reads]
        · simp [Partial.push]
        · exact fun _ here => absurd here same
        · exact same

theorem readFrom_field {delimiter : Char} (separates : Separates delimiter)
    {text : List Char} {value : String} (field : FieldText delimiter text value) (line : Nat)
    (fields : List String) {rest : List Char} (closes : Closes delimiter rest) :
    ∃ next, readFrom delimiter false line ⟨fields, []⟩ (text ++ rest) =
      readFrom delimiter false next ⟨fields, value.toList.reverse⟩ rest := by
  cases field with
  | quoted value =>
      obtain ⟨next, reads⟩ := @readFrom_quoted delimiter value.toList line
        ⟨fields, []⟩ rest (closes.not_quote separates)
      refine ⟨next, ?_⟩
      rw [List.cons_append, readFrom, if_pos ⟨rfl, rfl⟩, List.append_assoc, List.singleton_append,
        reads, List.append_nil]
  | bare inside unquoted =>
      refine ⟨line, ?_⟩
      rw [readFrom_bare line ⟨fields, []⟩ rest inside (fun _ => unquoted), List.append_nil]

/-! ### Records -/

theorem Partial.toRecord_of_field (fields : List String) (value : String) :
    Partial.toRecord ⟨fields, value.toList.reverse⟩ = fields.reverse ++ [value] := by
  simp [Partial.toRecord, Partial.endField]

/-- A reader that has gathered nothing would complete the record of a blank line. -/
theorem Partial.toRecord_of_isEmpty {p : Partial} (nothing : p.isEmpty = true) :
    p.toRecord = [""] := by
  obtain ⟨noFields, noField⟩ := Bool.and_eq_true_iff.mp nothing
  rw [List.isEmpty_iff] at noFields noField
  rw [Partial.toRecord, Partial.endField, noFields, noField]
  rfl

theorem readFrom_record {delimiter : Char} (separates : Separates delimiter)
    {text : List Char} {record : List String} (given : RecordText delimiter text record)
    (line : Nat) (fields : List String) {rest : List Char} (closes : Closes delimiter rest) :
    ∃ next p, readFrom delimiter false line ⟨fields, []⟩ (text ++ rest) =
        readFrom delimiter false next p rest ∧ p.toRecord = fields.reverse ++ record := by
  induction given generalizing line fields with
  | @last text value field =>
      obtain ⟨next, reads⟩ := readFrom_field separates field line fields closes
      exact ⟨next, _, reads, Partial.toRecord_of_field fields value⟩
  | @cons text later value values field _ ih =>
      have atDelimiter : Closes delimiter (delimiter :: (later ++ rest)) := by
        intro c begins bare
        exact bare.1 (Option.some.inj begins).symm
      obtain ⟨middle, readsFirst⟩ := readFrom_field separates field line fields atDelimiter
      obtain ⟨next, p, readsLater, complete⟩ := ih middle (value :: fields)
      refine ⟨next, p, ?_, ?_⟩
      · have noOpening : ¬ (delimiter = '"' ∧ value.toList.reverse = []) := fun both =>
          separates.noQuote both.1
        rw [List.append_assoc, List.cons_append, readsFirst, readFrom, if_neg noOpening,
          if_pos rfl, ← readsLater]
        simp [Partial.endField]
      · rw [complete, List.reverse_cons, List.append_assoc, List.singleton_append]

theorem readFrom_ending {delimiter : Char} (separates : Separates delimiter)
    {ending : List Char} (ends : ending ∈ lineEnds) (line : Nat) (p : Partial)
    {rest : List Char} (noFeed : rest.head? ≠ some '\n') :
    readFrom delimiter false line p (ending ++ rest) =
      (readFrom delimiter false (line + 1) .empty rest).map (cons p.toRecord) := by
  have atFeed : readFrom delimiter false line p ('\n' :: rest) =
      (readFrom delimiter false (line + 1) .empty rest).map (cons p.toRecord) := by
    rw [readFrom, if_neg (by simp), if_neg separates.noFeed.symm, if_neg (by simp),
      if_pos (Or.inl rfl)]
    rfl
  have atReturn : readFrom delimiter false line p ('\r' :: rest) =
      (readFrom delimiter false (line + 1) .empty rest).map (cons p.toRecord) := by
    rw [readFrom, if_neg (by simp), if_neg separates.noReturn.symm,
      if_neg (fun both => noFeed both.2), if_pos (Or.inr rfl)]
    rfl
  have atBoth : readFrom delimiter false line p ('\r' :: '\n' :: rest) =
      readFrom delimiter false line p ('\n' :: rest) := by
    rw [readFrom, if_neg (by simp), if_neg separates.noReturn.symm, if_pos ⟨rfl, rfl⟩]
  rcases List.mem_cons.mp ends with feed | others
  · rw [feed]
    exact atFeed
  · rcases List.mem_cons.mp others with both | last
    · rw [both]
      exact atBoth.trans atFeed
    · rw [List.mem_singleton.mp last]
      exact atReturn

/-! ### Texts -/

theorem FieldText.nil_or_cons {delimiter : Char} {text : List Char} {value : String}
    (field : FieldText delimiter text value) :
    text = [] ∧ value = "" ∨ ∃ c rest, text = c :: rest ∧ c ≠ '\n' := by
  cases field with
  | quoted value => exact Or.inr ⟨'"', _, rfl, by decide⟩
  | bare inside unquoted =>
      cases chars : value.toList with
      | nil => exact Or.inl ⟨rfl, String.toList_eq_nil_iff.mp chars⟩
      | cons c rest =>
          rw [chars] at inside
          exact Or.inr ⟨c, rest, rfl, (inside c List.mem_cons_self).2.2⟩

/-- After a carriage return, no record is taken for the second half of the line end. -/
theorem RecordText.not_feed {delimiter : Char} (separates : Separates delimiter)
    {text : List Char} {record : List String} (given : RecordText delimiter text record)
    (proper : record ≠ [""]) (rest : List Char) : (text ++ rest).head? ≠ some '\n' := by
  intro begins
  cases given with
  | last field =>
      rcases field.nil_or_cons with ⟨_, noValue⟩ | ⟨c, further, rfl, noFeed⟩
      · rw [noValue] at proper
        exact proper rfl
      · exact noFeed (Option.some.inj begins)
  | cons field later =>
      rcases field.nil_or_cons with ⟨rfl, _⟩ | ⟨c, further, rfl, noFeed⟩
      · exact separates.noFeed (Option.some.inj begins)
      · exact noFeed (Option.some.inj begins)

theorem RecordsText.not_feed {delimiter : Char} (separates : Separates delimiter)
    {text : List Char} {given : List (List String)} (body : RecordsText delimiter text given)
    (proper : ∀ record ∈ given, record ≠ [""]) : text.head? ≠ some '\n' := by
  cases body with
  | nil => exact nofun
  | last record =>
      have begins := record.not_feed separates (proper _ List.mem_cons_self) []
      rwa [List.append_nil] at begins
  | cons record ends further => exact record.not_feed separates (proper _ List.mem_cons_self) _

theorem closes_ending {delimiter : Char} {ending : List Char} (ends : ending ∈ lineEnds)
    (rest : List Char) : Closes delimiter (ending ++ rest) := by
  intro c begins bare
  have lineEnd : c = '\n' ∨ c = '\r' := by
    simp only [lineEnds, List.mem_cons, List.not_mem_nil, or_false] at ends
    rcases ends with rfl | rfl | rfl
    · exact Or.inl (Option.some.inj begins).symm
    · exact Or.inr (Option.some.inj begins).symm
    · exact Or.inr (Option.some.inj begins).symm
  rcases lineEnd with feed | back
  · exact bare.2.2 feed
  · exact bare.2.1 back

theorem readFrom_records {delimiter : Char} (separates : Separates delimiter)
    {text : List Char} {given : List (List String)} (body : RecordsText delimiter text given)
    (proper : ∀ record ∈ given, record ≠ [""]) (line : Nat) :
    readFrom delimiter false line .empty text = .ok given := by
  induction body generalizing line with
  | nil => rfl
  | @last text record written =>
      have atEnd : Closes delimiter [] := nofun
      obtain ⟨next, p, reads, complete⟩ := readFrom_record separates written line [] atEnd
      have notBlank := proper record List.mem_cons_self
      have some : ¬ p.isEmpty = true := by
        intro nothing
        rw [Partial.toRecord_of_isEmpty nothing] at complete
        exact notBlank complete.symm
      rw [List.append_nil] at reads
      rw [Partial.empty, reads, readFrom, if_neg some, complete, cons]
      exact congrArg Except.ok (if_neg notBlank)
  | @cons text ending rest record later written ends further ih =>
      obtain ⟨notBlank, properLater⟩ := List.forall_mem_cons.mp proper
      obtain ⟨next, p, reads, complete⟩ :=
        readFrom_record separates written line [] (closes_ending ends rest)
      rw [Partial.empty, reads,
        readFrom_ending separates ends next p (further.not_feed separates properLater),
        ih properLater, complete]
      exact congrArg Except.ok (if_neg notBlank)

theorem records_of_written {delimiter : Char} (separates : Separates delimiter)
    {text : List Char} {given : List (List String)} (written : Written delimiter text given)
    (proper : ∀ record ∈ given, record ≠ [""]) : records delimiter text = .ok given := by
  cases written with
  | marked body => exact readFrom_records separates body proper 1
  | unmarked body noMark =>
      have kept : Text.dropMark text = text := by
        unfold Text.dropMark
        split
        · exact absurd rfl noMark
        · rfl
      rw [records, kept]
      exact readFrom_records separates body proper 1

/-- Every list of records can be written, as long as none of them is without fields. -/
theorem exists_written (delimiter : Char) {given : List (List String)}
    (filled : ∀ record ∈ given, record ≠ []) : ∃ text, Written delimiter text given := by
  have recordText : ∀ record : List String, record ≠ [] →
      ∃ text, RecordText delimiter text record := by
    intro record some
    induction record with
    | nil => exact absurd rfl some
    | cons value values ih =>
        cases values with
        | nil => exact ⟨_, .last (.quoted value)⟩
        | cons next further =>
            obtain ⟨rest, later⟩ := ih nofun
            exact ⟨_, .cons (.quoted value) later⟩
  suffices body : ∃ text, RecordsText delimiter text given by
    obtain ⟨text, written⟩ := body
    exact ⟨_, .marked written⟩
  induction given with
  | nil => exact ⟨[], .nil⟩
  | cons record later ih =>
      obtain ⟨some, filledLater⟩ := List.forall_mem_cons.mp filled
      obtain ⟨text, written⟩ := recordText record some
      obtain ⟨rest, further⟩ := ih filledLater
      have feed : ['\n'] ∈ lineEnds := List.mem_cons_self
      exact ⟨_, .cons written feed further⟩

/-! ### Columns -/

theorem lastIndexOf?_eq_none {text : String} {headers : List String} (absent : text ∉ headers) :
    lastIndexOf? text headers = none := by
  induction headers with
  | nil => rfl
  | cons first rest ih =>
      obtain ⟨apart, absentRest⟩ := not_or.mp (mt List.mem_cons.mpr absent)
      rw [lastIndexOf?, ih absentRest]
      exact if_neg (Ne.symm apart)

theorem lastIndexOf?_of_nodup {headers : List String} (distinct : headers.Nodup)
    {column : Nat} {header : String} (named : headers[column]? = some header) :
    lastIndexOf? header headers = some column := by
  induction headers generalizing column with
  | nil => cases named
  | cons first rest ih =>
      obtain ⟨fresh, distinctRest⟩ := List.nodup_cons.mp distinct
      cases column with
      | zero =>
          have same : first = header := Option.some.inj named
          rw [lastIndexOf?, lastIndexOf?_eq_none (same ▸ fresh)]
          exact if_pos same
      | succ column => rw [lastIndexOf?, ih distinctRest named]

theorem Table.cell_of_nodup {table : Table} (distinct : table.headers.Nodup) {column : Nat}
    {header : String} (named : table.headers[column]? = some header) (row : Nat) :
    table.cell row header = table.rows[row]?.bind (·[column]?) := by
  rw [cell, lastIndexOf?_of_nodup distinct named]
  rfl

/-- Whatever way records are written in, they are read back: the first one as the headers,
and the others as the rows, whose fields stand under distinct headers. -/
theorem parse_of_written {delimiter : Char} (separates : Separates delimiter) {text : String}
    {given : List (List String)} (written : Written delimiter text.toList given)
    (proper : ∀ record ∈ given, record ≠ [""]) :
    records delimiter text.toList = .ok given ∧
      ∀ id, ∃ table, Table.parse id text delimiter = .ok table ∧
        table.headers = given.headD [] ∧ table.rows = given.tail ∧
        (table.headers.Nodup → ∀ (row column : Nat) header,
          table.headers[column]? = some header →
            table.cell row header = given.tail[row]?.bind (·[column]?)) := by
  have read := records_of_written separates written proper
  refine ⟨read, ?_⟩
  intro id
  have parsed : Table.parse id text delimiter = .ok (.ofRecords given) := by
    rw [Table.parse, read]
  have headers : (Table.ofRecords given).headers = given.headD [] := by
    cases given with
    | nil => rfl
    | cons first rest => rfl
  have rows : (Table.ofRecords given).rows = given.tail := by
    cases given with
    | nil => rfl
    | cons first rest => rfl
  refine ⟨_, parsed, headers, rows, ?_⟩
  intro distinct row column header named
  rw [Table.cell_of_nodup distinct named, rows]

/-- Records with a field of several lines, a quote inside a bare field, an empty field at an
end, and a row that is too short. -/
def remarks : List (List String) :=
  [["id", "remark"], ["1", "a;\"b\"\n"], ["2", "5\" wide"], ["3", ""], ["4"]]

def remarksText : String :=
  "\ufeffid;remark\r\n1;\"a;\"\"b\"\"\n\"\r2;5\" wide\n3;\r\n\"4\""

theorem written_remarks : Written ';' remarksText.toList remarks := by
  have bare (value : String)
      (fits : value.toList.all (fun c => decide (IsBare ';' c)) = true ∧
        value.toList.head? ≠ some '"') : FieldText ';' value.toList value := by
    have inside : ∀ c ∈ value.toList, IsBare ';' c := by
      simpa only [List.all_eq_true, decide_eq_true_eq] using fits.1
    exact .bare inside fits.2
  have quoted (value : String) :
      FieldText ';' ('"' :: (doubleQuotes value.toList ++ ['"'])) value := .quoted value
  have feed : ['\n'] ∈ lineEnds := by decide
  have back : ['\r'] ∈ lineEnds := by decide
  have both : ['\r', '\n'] ∈ lineEnds := by decide
  have headers := RecordText.cons (bare "id" (by decide)) (.last (bare "remark" (by decide)))
  have first := RecordText.cons (bare "1" (by decide)) (.last (quoted "a;\"b\"\n"))
  have second := RecordText.cons (bare "2" (by decide)) (.last (bare "5\" wide" (by decide)))
  have third := RecordText.cons (bare "3" (by decide)) (.last (bare "" (by decide)))
  exact .marked (.cons headers both (.cons first back (.cons second feed
    (.cons third both (.last (.last (quoted "4")))))))

/-- The records are read back, and the row that is too short has no remark. -/
theorem parse_remarks : ∃ table, Table.parse "remarks.csv" remarksText ';' = .ok table ∧
    table.headers = ["id", "remark"] ∧ table.rows = remarks.tail ∧
      table.cell 0 "remark" = some "a;\"b\"\n" ∧ table.cell 3 "remark" = none := by
  have separates : Separates ';' := ⟨by decide, by decide, by decide⟩
  obtain ⟨_, parses⟩ := parse_of_written separates written_remarks (by decide)
  obtain ⟨table, parsed, headers, rows, cells⟩ := parses "remarks.csv"
  have cell := cells (by rw [headers]; decide)
  refine ⟨table, parsed, headers, rows, ?_, ?_⟩
  · exact cell 0 1 "remark" (by rw [headers]; rfl)
  · exact cell 3 1 "remark" (by rw [headers]; rfl)

end RdfMapping.Csv
