import Mailroom.Data.Writing

/-! Shapes: what data is expected to be. Where it is something else, an issue names the place, the
sort that was expected and the sort that was found. -/

namespace Mailroom

/-- Something that data is and should not be. -/
structure Issue where
  expected : String
  found : String
  path : List String
  /-- The number that was found, if it is none that data may hold. -/
  number : Option String := none
deriving DecidableEq, Repr

namespace Issue

def message (i : Issue) : String :=
  "Invalid input: expected " ++ i.expected ++ ", received " ++ i.found

def toValue (i : Issue) : Value :=
  .recordOf [("expected", some (.str i.expected)), ("code", some (.str "invalid_type")),
    ("received", i.number.map .str), ("path", some (.ofTexts i.path)),
    ("message", some (.str i.message))]

def report (issues : List Issue) : String := (Value.arr (issues.map toValue)).indented ""

end Issue

namespace Shape

/-- The word for the sort of a value, or for a missing one. -/
def sortWord : Option Value → String
  | none => "undefined"
  | some .null => "null"
  | some (.bool _) => "boolean"
  | some (.num _) => "number"
  | some (.str _) => "string"
  | some (.arr _) => "array"
  | some (.obj _) => "object"

/-- Whether a value may be missing, and whether it may be null. -/
structure Leniency where
  mayBeMissing : Bool := false
  mayBeNull : Bool := false

/-- Whether a value is let through without a look at its sort. -/
def Leniency.allows (l : Leniency) : Option Value → Bool
  | none => l.mayBeMissing
  | some .null => l.mayBeNull
  | some _ => false

/-- A value that may be missing or null. -/
def nullish : Leniency := ⟨true, true⟩

/-- A value that may be missing. -/
def optional : Leniency := ⟨true, false⟩

/-- A value that must be there. -/
def required : Leniency := {}

def text (l : Leniency) (path : List String) (v : Option Value) : List Issue :=
  match v with
  | some (.str _) => []
  | v => if l.allows v then [] else [⟨"string", sortWord v, path, none⟩]

def number (l : Leniency) (path : List String) (v : Option Value) : List Issue :=
  match v with
  | some (.num .nan) => [⟨"number", "NaN", path, some "NaN"⟩]
  | some (.num (.infinite _)) => [⟨"number", "Infinity", path, some "Infinity"⟩]
  | some (.num _) => []
  | v => if l.allows v then [] else [⟨"number", sortWord v, path, none⟩]

/-- The issues of a record, given those of its fields. -/
def record (path : List String) (v : Option Value) (inside : Value → List Issue) : List Issue :=
  match v with
  | some (.obj fields) => inside (.obj fields)
  | v => [⟨"object", sortWord v, path, none⟩]

end Shape

end Mailroom
