import RdfMapping.Json.Basic
/-!
The arguments of a function call. Every value is kept twice, under the key that it
was given with and at its position in the call. A key given repeatedly shows the
array of its values. Since a value may be an array itself, it is counted how often
each key was given.
-/

namespace RdfMapping

structure Arguments where
  /-- What the keys show, as a table. -/
  named : List (String × Json)
  /-- How often the keys were given, as a table. -/
  counts : List (String × Nat)
  positional : List Json

namespace Arguments

def empty : Arguments := ⟨[], [], []⟩

/-- What a key shows when it is given for the `count`-th time. -/
def accumulate (count : Nat) (value : Json) (shown : Option Json) : Json :=
  match count, shown with
  | 1, _ | _, none => value
  | 2, some first => .array [first, value]
  | _, some (.array values) => .array (values ++ [value])
  | _, some other => other

def push (arguments : Arguments) (key : String) (value : Json) : Arguments :=
  let count := (Table.get? key arguments.counts).getD 0 + 1
  { named := Table.alter key (accumulate count value) arguments.named
    counts := Table.insert key count arguments.counts
    positional := arguments.positional ++ [value] }

def ofList (entries : List (String × Json)) : Arguments :=
  entries.foldl (fun arguments entry => arguments.push entry.1 entry.2) empty

def get? (arguments : Arguments) (key : String) : Option Json := Table.get? key arguments.named

def valueAt? (arguments : Arguments) (position : Nat) : Option Json :=
  arguments.positional[position]?

def value (arguments : Arguments) (key : String) : Json := (arguments.get? key).getD .null

def valueAt (arguments : Arguments) (position : Nat) : Json :=
  (arguments.valueAt? position).getD .null

def text? (arguments : Arguments) (key : String) : Option String :=
  (arguments.get? key).bind Json.string?

def length (arguments : Arguments) : Nat := arguments.positional.length

def toJson (arguments : Arguments) : Json := .object arguments.named

/-! ### One more value -/

theorem positional_push (arguments : Arguments) (key : String) (value : Json) :
    (arguments.push key value).positional = arguments.positional ++ [value] := rfl

end Arguments

end RdfMapping
