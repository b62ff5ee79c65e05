import Mailroom.Calendar.Instant
import Mailroom.Failure

/-! Attributes of a message that a filter can test. An attribute is equatable, comparable, a flag,
or the owner of a family of flags; its kind fixes the operators it supports. Some attributes also
name a field that messages can be ordered by. -/

namespace Mailroom.Filter

/-- Fields of a message that messages can be ordered by. -/
inductive Field
  | sender
  | recipients
  | copies
  | blindCopies
  | subject
  | date
  | size
deriving DecidableEq, Repr

def Field.name : Field → String
  | sender => "from"
  | recipients => "to"
  | copies => "cc"
  | blindCopies => "bcc"
  | subject => "subject"
  | date => "date"
  | size => "size"

def Field.all : List Field :=
  [.sender, .recipients, .copies, .blindCopies, .subject, .date, .size]

def Field.ofName? (name : String) : Option Field :=
  Field.all.find? (·.name == name)

/-- The direction of an ordering. -/
inductive Direction
  | ascending
  | descending
deriving DecidableEq, Repr

def Direction.name : Direction → String
  | ascending => "asc"
  | descending => "desc"

def Direction.ofName? (name : String) : Option Direction :=
  [Direction.ascending, .descending].find? (·.name == name)

/-- A key to order messages by. -/
structure Ordering where
  field : Field
  direction : Direction
deriving DecidableEq, Repr

/-- Operators between an attribute and an operand. -/
inductive Operator
  | equal
  | notEqual
  | greater
  | less
  | contains
deriving DecidableEq, Repr

def Operator.name : Operator → String
  | equal => "equal"
  | notEqual => "not_equal"
  | greater => "greater"
  | less => "less"
  | contains => "contains"

def Operator.ofName? (name : String) : Option Operator :=
  [Operator.equal, .notEqual, .greater, .less, .contains].find? (·.name == name)

/-- The four kinds of attribute. -/
inductive AttributeKind
  | equatable
  | comparable
  | flag
  | enumerative
deriving DecidableEq, Repr

def AttributeKind.name : AttributeKind → String
  | equatable => "equatable"
  | comparable => "comparable"
  | flag => "flag"
  | enumerative => "enumerative"

def AttributeKind.operators : AttributeKind → List Operator
  | equatable => [.equal, .notEqual, .contains]
  | comparable => [.greater, .less]
  | flag => [.equal, .notEqual]
  | enumerative => []

/-- What an attribute is tested against. A moment may fail to be an instant. -/
inductive Operand
  | text (text : String)
  | number (number : Number)
  | truth (truth : Bool)
  | moment (instant : Option Instant)
deriving Repr

/-- Whether an operand counts as true. -/
def Operand.isTruthy : Operand → Bool
  | text s => !s.isEmpty
  | number n => n.isTruthy
  | truth b => b
  | moment _ => true

def Operand.truthText (truth : Bool) : String := if truth then "true" else "false"

/-- The operand as a plain text; of a moment, what local clocks show. -/
def Operand.plain (zone : Zone) : Operand → String
  | text s => s
  | number n => n.text
  | truth b => truthText b
  | moment (some t) => t.localText zone
  | moment none => "Invalid Date"

/-- The names of a comparable attribute: its own and those of its two tests. -/
structure ComparableName where
  name : String
  less : String
  greater : String
deriving DecidableEq, Repr

/-- An attribute of a message. A flag knows the name of the family it was declared in, if any; a
comparable attribute has its own way to write operands. -/
inductive Attribute
  | equatable (name : String) (orderBy : Option Field)
  | comparable (name : ComparableName) (orderBy : Option Field) (coerce : Operand → String)
  | flag (name : String) (owner : Option String)
  | enumerative (name : String) (flags : List String)

namespace Attribute

def kind : Attribute → AttributeKind
  | equatable .. => .equatable
  | comparable .. => .comparable
  | flag .. => .flag
  | enumerative .. => .enumerative

def label : Attribute → String
  | equatable name _ => name
  | comparable name _ _ => name.name
  | flag name _ => name
  | enumerative name _ => name

def orderBy? : Attribute → Option Field
  | equatable _ field => field
  | comparable _ field _ => field
  | flag .. => none
  | enumerative .. => none

def ordering (a : Attribute) (direction : Direction) : Except Failure Ordering :=
  match a.orderBy? with
  | some field => .ok ⟨field, direction⟩
  | none => .error (.invalidOperator ("order " ++ direction.name) a.kind.name a.label)

end Attribute

end Mailroom.Filter
