import RdfMapping.Text.CaseTable
/-!
Texts in upper and in lower case. A character may map to several. In lower case
a capital sigma at the end of a word has a form of its own: it ends a word if a
cased character comes before it and none after it, case-ignorable characters not
counted.
-/

namespace RdfMapping.Text

def CaseRun.map? (run : CaseRun) (code : Nat) : Option Nat :=
  if run.first ≤ code ∧ code ≤ run.last ∧ (code - run.first) % run.stride = 0 then
    some (code + run.offset).toNat
  else none

def mapCase (runs : List CaseRun) (expansions : List (Nat × List Nat)) (c : Char) : List Char :=
  match expansions.find? (·.1 = c.toNat) with
  | some entry => entry.2.map Char.ofNat
  | none =>
      match runs.findSome? (CaseRun.map? · c.toNat) with
      | some code => [Char.ofNat code]
      | none => [c]

def upperChar (c : Char) : List Char :=
  mapCase CaseTable.upperRuns CaseTable.upperExpansions c

def lowerChar (c : Char) : List Char :=
  mapCase CaseTable.lowerRuns CaseTable.lowerExpansions c

def inRanges (ranges : List (Nat × Nat)) (c : Char) : Bool :=
  ranges.any fun range => range.1 ≤ c.toNat && c.toNat ≤ range.2

def meetsCased (text : List Char) : Bool :=
  match text.dropWhile (inRanges CaseTable.ignorableRanges) with
  | c :: _ => inRanges CaseTable.casedRanges c
  | [] => false

/-- The rest of a text in lower case; `before` is what precedes it, the last
character first. -/
def lowerFrom : (before : List Char) → List Char → List Char
  | _, [] => []
  | before, c :: rest =>
      (if c = 'Σ' then [if meetsCased before && !meetsCased rest then 'ς' else 'σ']
        else lowerChar c) ++ lowerFrom (c :: before) rest

def upper (text : String) : String := String.ofList (text.toList.flatMap upperChar)

def lower (text : String) : String := String.ofList (lowerFrom [] text.toList)

end RdfMapping.Text
