import Mailroom.Filter.Catalogue
import Mailroom.Filter.Clause
import Mailroom.Filter.Flags

/-! Filters described by data: operands, attributes by the names callers know them by or made
anew, clauses, orderings and flags. A description may fail as the operations it names do; one that
describes nothing fails as unreadable. Local times are those of a zone. -/

namespace Mailroom.Filter

/-- The failure of data that describes nothing. -/
def unreadable (what : String) : Failure := .escaped (.error "BadInput" what [])

def wholeAt (items : List Value) (i : Nat) (default : Int) : Int :=
  ((items[i]?).bind fun v => v.asNumber?.bind Number.truncate?).getD default

/-- The operand that data describes: a text, a number, a truth value, an instant by milliseconds
or by local parts, or a number by its text. Any other data is no operand. -/
def Operand.ofValue? (zone : Zone) : Value → Option Operand
  | .str s => some (.text s)
  | .num n => some (.number n)
  | .bool b => some (.truth b)
  | .obj [("date", d)] => some (.moment ((d.asNumber?.bind Number.truncate?).bind Instant.ofMs?))
  | .obj [("local", .arr parts)] =>
    some (.moment (Instant.ofLocal? zone (wholeAt parts 0 0) (wholeAt parts 1 0 + 1)
      (wholeAt parts 2 1) (wholeAt parts 3 0) (wholeAt parts 4 0)))
  | .obj [("number", .str s)] => some (.number (Number.read s))
  | _ => none

/-- The attribute with a name, or the flag of a family behind the family's name and a dot. -/
def Attribute.ofName? (zone : Zone) (name : String) : Option Attribute :=
  match Text.split '.' name with
  | [name] => (Catalogue.named zone).lookup name
  | ["Has", name] => Catalogue.has? name
  | ["Is", name] => Catalogue.is? name
  | _ => none

def Attribute.ofRecord (zone : Zone) (v : Value) : Attribute :=
  let orderBy := (v.textAt? "orderBy").bind Field.ofName?
  let family := (v.textAt? "enumerative").getD ""
  match v.textAt? "equatable", v.field? "comparable", v.textAt? "orphan", v.textAt? "pick" with
  | some name, _, _, _ => .equatable name orderBy
  | _, some names, _, _ =>
    .comparable ⟨(names.textAt? "name").getD "", (names.textAt? "less").getD "",
        (names.textAt? "greater").getD ""⟩ orderBy
      (if v.textAt? "coerce" = some "iso" then dayOf zone else Operand.plain zone)
  | _, _, some name, _ => .flag name none
  | _, _, _, some name => .flag name (some family)
  | _, _, _, _ => .enumerative family (v.get "flags").texts

/-- The attribute that data describes. -/
def Attribute.ofValue (zone : Zone) : Value → Except Failure Attribute
  | .str s => (ofName? zone s).elim (.error (unreadable s)) .ok
  | .obj fields => .ok (ofRecord zone (.obj fields))
  | _ => .error (unreadable "attribute")

def testNames : List (String × Operator) :=
  [("eq", .equal), ("ne", .notEqual), ("contains", .contains), ("gt", .greater), ("lt", .less)]

/-- The operand of a test of an attribute: to a flag, null is a value that counts as false. -/
def Attribute.operand? (zone : Zone) (a : Attribute) (v : Value) : Option Operand :=
  match a, v with
  | .flag _ _, .null => some (.truth false)
  | _, v => Operand.ofValue? zone v

namespace Clause

/-- The clause of a test named like an operation of the attribute. -/
def ofTest (zone : Zone) (a : Attribute) (name : String) (operands : List Value) :
    Except Failure Clause := do
  if name = "resolve" then return .term (← (bare a).resolve)
  match testNames.lookup name with
  | some op => return .term (.leaf (← a.test op (operands.head?.bind (a.operand? zone))))
  | none => throw (unreadable name)

/-- The clause of an attribute, the name of an operator, an operand, and maybe a negation. -/
def ofPredicate (zone : Zone) : List Value → Except Failure Clause
  | a :: op :: rest => do
    let a ← Attribute.ofValue zone a
    let operand := rest.head?.bind (Operand.ofValue? zone)
    let isNegated := ((rest[1]?).getD Value.null).isTruthy
    return .term (.leaf (← Predicate.of a op.asText? operand isNegated))
  | _ => throw (unreadable "predicate")

/-- Two clauses joined; the left one fails first. -/
def joined (j : Junction) (isNegated : Bool) (left right : Except Failure Clause) :
    Except Failure Clause := do
  let left ← left
  let right ← right
  return .term (← left.join j right isNegated)

/-- The clause that data describes. -/
def ofValue (zone : Zone) : Value → Except Failure Clause
  | .obj [("attr", a)] => return .bare (← Attribute.ofValue zone a)
  | .obj [("call", .arr (a :: .str name :: operands))] => do
    ofTest zone (← Attribute.ofValue zone a) name operands
  | .obj [("predicate", .arr parts)] => ofPredicate zone parts
  | .obj [("new", .arr parts)] => ofPredicate zone parts
  | .obj [("not", c)] => do (← ofValue zone c).not
  | .obj [("and", .arr [l, r])] => joined .and false (ofValue zone l) (ofValue zone r)
  | .obj [("andFn", .arr [l, r])] => joined .and false (ofValue zone l) (ofValue zone r)
  | .obj [("or", .arr [l, r])] => joined .or false (ofValue zone l) (ofValue zone r)
  | .obj [("orFn", .arr [l, r])] => joined .or false (ofValue zone l) (ofValue zone r)
  | .obj [("expr", .arr (l :: .str j :: r :: rest))] =>
    joined (if j = "and" then .and else .or) ((rest.head?.getD Value.null).isTruthy)
      (ofValue zone l) (ofValue zone r)
  | _ => throw (unreadable "clause")

end Clause

namespace Ordering

def ofParts (zone : Zone) (a direction : Value) : Except Failure Ordering := do
  (← Attribute.ofValue zone a).ordering
    (if direction == .str "desc" then .descending else .ascending)

/-- The ordering that data describes, a pair of attribute and direction. -/
def ofValue (zone : Zone) (v : Value) : Except Failure Ordering :=
  ofParts zone ((v.items[0]?).getD Value.null) ((v.items[1]?).getD Value.null)

def toValue (o : Ordering) : Value :=
  .obj [("field", .str o.field.name), ("direction", .str o.direction.name)]

end Ordering

/-- The flags that data describes. -/
def Flags.ofValue (v : Value) : Flags where
  sender := (v.textAt? "from").getD ""
  recipients := (v.textAt? "to").getD ""
  copies := (v.textAt? "cc").getD ""
  subject := (v.textAt? "subject").getD ""
  fileName := (v.textAt? "filename").getD ""
  label := (v.textAt? "label").getD ""
  after := (v.textAt? "after").getD ""
  before := (v.textAt? "before").getD ""
  larger := (v.textAt? "larger").getD ""
  smaller := (v.textAt? "smaller").getD ""
  has := (v.get "has").texts
  is := (v.get "is").texts
  isNot := (v.get "not").texts

end Mailroom.Filter
