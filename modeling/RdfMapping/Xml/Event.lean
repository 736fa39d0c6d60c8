import RdfMapping.Text.Blank
/-!
The events of an XML text: tags that open and close elements, and runs of
character data, in document order. Comments, processing instructions and the
document type make no events. Reading is forgiving in three ways: character data
and several elements may stand at the top, elements may stay open at the end, and
a faulty attribute is passed over. A closing tag must name the element that it
closes.
-/

namespace RdfMapping.Xml

inductive Event where
  | opening (name : String) (attributes : List (String × String))
  | closing
  /-- A tag that opens an element and closes it at once. -/
  | empty (name : String) (attributes : List (String × String))
  | text (content : String)
  deriving DecidableEq, Repr

/-! ### Character references -/

def digit? (base : Nat) (c : Char) : Option Nat :=
  let value? :=
    if '0' ≤ c ∧ c ≤ '9' then some (c.toNat - '0'.toNat)
    else if 'a' ≤ c ∧ c ≤ 'f' then some (c.toNat - 'a'.toNat + 10)
    else if 'A' ≤ c ∧ c ≤ 'F' then some (c.toNat - 'A'.toNat + 10)
    else none
  value?.filter (· < base)

/-- The number that at most `most` digits denote; no digits denote zero. -/
def number? (base most : Nat) (digits : List Char) : Option Nat :=
  if most < digits.length then none
  else digits.foldlM (fun value c => (digit? base c).map (base * value + ·)) 0

/-- The character with a code, zero and surrogates excepted. -/
def scalar? (code : Nat) : Option Char :=
  if code ≠ 0 ∧ code.isValidChar then some (Char.ofNat code) else none

def entity? : List Char → Option Char
  | ['l', 't'] => some '<'
  | ['g', 't'] => some '>'
  | ['a', 'm', 'p'] => some '&'
  | ['a', 'p', 'o', 's'] => some '\''
  | ['q', 'u', 'o', 't'] => some '"'
  | '#' :: 'x' :: digits => (number? 16 6 digits).bind scalar?
  | '#' :: digits => (number? 10 7 digits).bind scalar?
  | _ => none

/-- The rest of a text with its entities replaced. Inside an entity, `name` holds
the characters since the ampersand, the last one first. -/
def unescapeFrom : (name : Option (List Char)) → List Char → Option (List Char)
  | none, [] => some []
  | some _, [] => none
  | none, '&' :: rest => unescapeFrom (some []) rest
  | none, c :: rest => (unescapeFrom none rest).map (c :: ·)
  | some _, '&' :: _ => none
  | some name, ';' :: rest => do
      let c ← entity? name.reverse
      let chars ← unescapeFrom none rest
      some (c :: chars)
  | some name, c :: rest => unescapeFrom (some (c :: name)) rest

def unescape? (text : List Char) : Option (List Char) := unescapeFrom none text

/-! ### Attributes -/

def isQuote (c : Char) : Bool := c == '"' || c == '\''

def isKeyChar (c : Char) : Bool := c != '=' && !Text.isXmlBlank c

def dropBlanks (text : List Char) : List Char := text.dropWhile Text.isXmlBlank

theorem length_dropWhile_le (p : Char → Bool) (text : List Char) :
    (text.dropWhile p).length ≤ text.length :=
  (List.dropWhile_suffix p).length_le

theorem length_dropBlanks_le (text : List Char) : (dropBlanks text).length ≤ text.length :=
  length_dropWhile_le Text.isXmlBlank text

def dropWord (text : List Char) : List Char := text.dropWhile fun c => !Text.isXmlBlank c

theorem length_dropWord_le (text : List Char) : (dropWord text).length ≤ text.length :=
  length_dropWhile_le (fun c => !Text.isXmlBlank c) text

/-- The attributes in the rest of a tag, each key with its value. A key without an
equals sign, an unquoted value and a repeated key are passed over; the reader goes on
at the next word after the first, and at the next blank after the others, even if
that stands inside quotes. A value that is missing or not closed ends the
attributes. -/
def readAttributes (seen : List (List Char)) (text : List Char) : List (String × String) :=
  match _start : dropBlanks text with
  | [] => []
  | first :: rest =>
      let key := first :: rest.takeWhile isKeyChar
      match _equals : dropBlanks (rest.dropWhile isKeyChar) with
      | [] => []
      | '=' :: after =>
          if key ∈ seen then readAttributes seen (dropWord after)
          else
            match _value : dropBlanks after with
            | [] => []
            | mark :: quoted =>
                if isQuote mark then
                  match _close : quoted.dropWhile (· != mark) with
                  | [] => []
                  | _ :: beyond =>
                      let value := quoted.takeWhile (· != mark)
                      (String.ofList key, String.ofList ((unescape? value).getD value)) ::
                        readAttributes (key :: seen) beyond
                else readAttributes (key :: seen) (dropWord quoted)
      | word => readAttributes seen word
termination_by text.length
decreasing_by
  all_goals
    have shorter := _start ▸ length_dropBlanks_le text
    have afterKey := _equals ▸ length_dropBlanks_le (rest.dropWhile isKeyChar)
    have keyLength := length_dropWhile_le isKeyChar rest
  · have skipped := length_dropWord_le after
    simp only [List.length_cons] at *
    omega
  · have inValue := _value ▸ length_dropBlanks_le after
    have inQuotes := _close ▸ length_dropWhile_le (· != mark) quoted
    simp only [List.length_cons] at *
    omega
  · have inValue := _value ▸ length_dropBlanks_le after
    have unquoted := length_dropWord_le quoted
    simp only [List.length_cons] at *
    omega
  · simp only [List.length_cons] at *
    omega

/-! ### Markup -/

/-- The text up to the first `>` at which `closes` holds of what precedes it, the
last character first; and what follows that `>`. -/
def cutAtClose? (closes : List Char → Bool) :
    (before : List Char) → List Char → Option (List Char × List Char)
  | _, [] => none
  | before, c :: rest =>
      if c == '>' && closes before then some (before.reverse, rest)
      else cutAtClose? closes (c :: before) rest

theorem length_of_cutAtClose? {closes : List Char → Bool}
    {before text content rest : List Char}
    (found : cutAtClose? closes before text = some (content, rest)) :
    rest.length < text.length := by
  induction text generalizing before with
  | nil => cases found
  | cons c tail ih =>
      unfold cutAtClose? at found
      split at found
      · cases found
        simp
      · have shorter := ih found
        simp only [List.length_cons]
        omega

def cutAtEnd (text : List Char) : List Char × List Char :=
  (cutAtClose? (fun _ => true) [] text).getD (text, [])

theorem length_cutAtEnd (c : Char) (text : List Char) :
    (cutAtEnd (c :: text)).2.length < (c :: text).length := by
  unfold cutAtEnd
  match cut : cutAtClose? (fun _ => true) [] (c :: text) with
  | some parts => exact length_of_cutAtClose? cut
  | none => simp

/-- A comment ends after two hyphens that are not those of its beginning. -/
def closesComment (before : List Char) : Bool :=
  4 < before.length && ['-', '-'].isPrefixOf before

def closesData (before : List Char) : Bool := [']', ']'].isPrefixOf before

/-- A document type ends where its angle brackets are balanced. -/
def closesDoctype (before : List Char) : Bool := before.count '<' == before.count '>'

def openQuote? : (open? : Option Char) → List Char → Option Char
  | open?, [] => open?
  | some mark, c :: rest => openQuote? (if c = mark then none else some mark) rest
  | none, c :: rest => openQuote? (if isQuote c then some c else none) rest

def closesTag (before : List Char) : Bool := (openQuote? none before.reverse).isNone

inductive Markup where
  | opening (tag : List Char)
  | closing (name : List Char)
  | data (content : List Char)
  /-- Comments, document types and processing instructions. -/
  | silent
  deriving DecidableEq, Repr

/-- Whether a text begins with a keyword in upper case, its own case apart. -/
def beginsWith (keyword text : List Char) : Bool :=
  keyword.isPrefixOf (text.map Char.toUpper)

def comment? (content : List Char) : Option Markup :=
  if ['!', '-', '-'].isPrefixOf content then some .silent else none

def data? (content : List Char) : Option Markup :=
  if beginsWith "![CDATA[".toList content then
    some (.data (content.drop 8).dropLast.dropLast)
  else none

def doctype? (content : List Char) : Option Markup :=
  if beginsWith "!DOCTYPE".toList content && (content.drop 8).any (!Text.isXmlBlank ·) then
    some .silent
  else none

/-- The markup up to a `>` at which it closes, given the shape that its content
must have. -/
def takeShaped? (closes : List Char → Bool) (shape : List Char → Option Markup)
    (before text : List Char) : Option (Markup × List Char) :=
  (cutAtClose? closes before text).bind fun parts =>
    (shape parts.1).map fun markup => (markup, parts.2)

def takeDeclaration? (text : List Char) : Option (Markup × List Char) :=
  match text with
  | '-' :: _ => takeShaped? closesComment comment? ['!'] text
  | '[' :: _ => takeShaped? closesData data? ['!'] text
  | 'D' :: _ | 'd' :: _ => takeShaped? closesDoctype doctype? ['!'] text
  | _ => none

/-- The name in a closing tag. Blanks may follow it, but do not make an empty name. -/
def closingName (text : List Char) : List Char :=
  if text.all Text.isXmlBlank then text else Text.trimEnd Text.isXmlBlank text

/-- A processing instruction stands between two question marks, and is not empty. -/
def isInstruction (content : List Char) : Bool :=
  2 < content.length && content.getLast? == some '?'

/-- The markup that follows a `<`. A closing tag and a processing instruction need
no `>` at the end of the text. -/
def takeMarkup? (text : List Char) : Option (Markup × List Char) :=
  match text with
  | '!' :: rest => takeDeclaration? rest
  | '/' :: _ =>
      let (content, rest) := cutAtEnd text
      some (.closing (closingName content.tail), rest)
  | '?' :: _ =>
      let (content, rest) := cutAtEnd text
      if isInstruction content then some (.silent, rest) else none
  | _ => takeShaped? closesTag (some ∘ .opening) [] text

theorem length_of_takeShaped? {closes : List Char → Bool} {before text rest : List Char}
    {shape : List Char → Option Markup} {markup : Markup}
    (found : takeShaped? closes shape before text = some (markup, rest)) :
    rest.length < text.length := by
  obtain ⟨parts, cut, shaped⟩ := Option.bind_eq_some_iff.1 found
  obtain ⟨m, _, same⟩ := Option.map_eq_some_iff.1 shaped
  cases same
  exact length_of_cutAtClose? cut

theorem length_of_takeDeclaration? {text rest : List Char} {markup : Markup}
    (found : takeDeclaration? text = some (markup, rest)) : rest.length < text.length := by
  unfold takeDeclaration? at found
  split at found
  · exact length_of_takeShaped? found
  · exact length_of_takeShaped? found
  · exact length_of_takeShaped? found
  · exact length_of_takeShaped? found
  · cases found

theorem length_of_takeMarkup? {text rest : List Char} {markup : Markup}
    (found : takeMarkup? text = some (markup, rest)) : rest.length ≤ text.length := by
  unfold takeMarkup? at found
  split at found
  · have shorter := length_of_takeDeclaration? found
    simp only [List.length_cons]
    omega
  · next tail =>
      simp only [Option.some.injEq, Prod.mk.injEq] at found
      have shorter := length_cutAtEnd '/' tail
      rw [← found.2]
      exact Nat.le_of_lt shorter
  · next tail =>
      simp only [Option.ite_none_right_eq_some, Option.some.injEq, Prod.mk.injEq] at found
      have shorter := length_cutAtEnd '?' tail
      rw [← found.2.2]
      exact Nat.le_of_lt shorter
  · exact Nat.le_of_lt (length_of_takeShaped? found)

/-! ### Events -/

def takeName (tag : List Char) : List Char × List Char :=
  (tag.takeWhile fun c => !Text.isXmlBlank c, dropWord tag)

def readTag (event : String → List (String × String) → Event) (tag : List Char) : Event :=
  let (name, rest) := takeName tag
  event (String.ofList name) (readAttributes [] rest)

def readFrom (names : List (List Char)) (text : List Char) : Option (List Event) :=
  match _start : dropBlanks text with
  | [] => some []
  | ['<'] => some []
  | '<' :: inside =>
      match _found : takeMarkup? inside with
      | none => none
      | some (.silent, rest) => readFrom names rest
      | some (.data content, rest) =>
          (readFrom names rest).map (.text (String.ofList content) :: ·)
      | some (.closing name, rest) =>
          match names with
          | [] => none
          | innermost :: outer =>
              if name = innermost then (readFrom outer rest).map (.closing :: ·) else none
      | some (.opening tag, rest) =>
          if tag.getLast? = some '/' then
            (readFrom names rest).map (readTag .empty tag.dropLast :: ·)
          else
            (readFrom ((takeName tag).1 :: names) rest).map (readTag .opening tag :: ·)
  | first :: more => do
      let run := first :: more.takeWhile (· != '<')
      let content ← unescape? (Text.trimEnd Text.isXmlBlank run)
      let events ← readFrom names (more.dropWhile (· != '<'))
      some (.text (String.ofList content) :: events)
termination_by text.length
decreasing_by
  all_goals have shorter := _start ▸ length_dropBlanks_le text
  all_goals simp only [List.length_cons] at *
  case _ => have inside := length_of_takeMarkup? _found; omega
  case _ => have inside := length_of_takeMarkup? _found; omega
  case _ => have inside := length_of_takeMarkup? _found; omega
  case _ => have inside := length_of_takeMarkup? _found; omega
  case _ => have inside := length_of_takeMarkup? _found; omega
  case _ => have inside := length_dropWhile_le (· != '<') more; omega

/-- The events of a text, a byte order mark at its start apart. -/
def read? (text : List Char) : Option (List Event) := readFrom [] (Text.dropMark text)

end RdfMapping.Xml
