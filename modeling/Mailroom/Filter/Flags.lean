import Mailroom.Filter.Catalogue
import Mailroom.Filter.Clause
import Mailroom.Text.Split

/-! Filters and orderings from the flags of a command. All flags that are given are joined by
*and*, in a fixed order. -/

namespace Mailroom.Filter

open Mailroom.Text

/-- The filter flags of a command. A text that is empty counts as not given. -/
structure Flags where
  sender : String := ""
  recipients : String := ""
  copies : String := ""
  subject : String := ""
  fileName : String := ""
  label : String := ""
  after : String := ""
  before : String := ""
  larger : String := ""
  smaller : String := ""
  has : List String := []
  is : List String := []
  isNot : List String := []
deriving Repr

namespace Flags

/-- The flags whose values are texts of equatable attributes, by name. -/
def texts (f : Flags) : List (String × String) :=
  [("from", f.sender), ("to", f.recipients), ("cc", f.copies), ("subject", f.subject),
    ("filename", f.fileName), ("label", f.label)]

def severalWords? (f : Flags) : Option (String × String) :=
  f.texts.find? fun entry => hasBlank (trim entry.2)

/-- A test of an attribute, if the value is given. -/
def testOf (a : Attribute) (op : Operator) (value : String) : List (Except Failure Clause) :=
  if value.isEmpty then []
  else [(a.test op (some (.text value))).map fun p => .term (.leaf p)]

/-- The test of the subject: a phrase if it has several words, else a word it contains. -/
def subjectTest (value : String) : List (Except Failure Clause) :=
  if value.isEmpty then []
  else
    let subject := trim value
    let op := if hasBlank subject then Operator.equal else .contains
    [(Catalogue.subject.test op (some (.text subject))).map fun p => .term (.leaf p)]

/-- Flags of a family by their names in the search text; `isSet` says which way they are
tested. -/
def familyTests (family : String) (known : List String) (isSet : Bool) (names : List String) :
    List (Except Failure Clause) :=
  names.map fun name =>
    if known.contains name then
      .ok (if isSet then .bare (.flag name (some family))
        else .term (.leaf (.ofFlag name (some family) false)))
    else .error (.validation (family ++ " flag \"" ++ name ++ "\"")
      ("expected one of " ++ ", ".intercalate known))

/-- The clauses of the given flags, in their order. -/
def clauses (zone : Zone) (f : Flags) : List (Except Failure Clause) :=
  let hasNames := Catalogue.hasFlags.map Prod.snd
  let isNames := Catalogue.isFlags.map Prod.snd
  testOf Catalogue.sender .equal f.sender
    ++ testOf Catalogue.recipients .equal f.recipients
    ++ testOf Catalogue.copies .equal f.copies
    ++ subjectTest f.subject
    ++ testOf Catalogue.fileName .equal f.fileName
    ++ testOf Catalogue.label .equal f.label
    ++ testOf (Catalogue.date zone) .greater f.after
    ++ testOf (Catalogue.date zone) .less f.before
    ++ testOf (Catalogue.size zone) .greater f.larger
    ++ testOf (Catalogue.size zone) .less f.smaller
    ++ familyTests "has" hasNames true f.has
    ++ familyTests "is" isNames true f.is
    ++ familyTests "is" isNames false f.isNot

/-- The clause of all given flags, or none if no flag is given. Where operands will be cut at the
first blank, a text of several words is refused. -/
def clause (zone : Zone) (f : Flags) (truncate : Bool) : Except Failure (Option Clause) := do
  if truncate then
    if let some (name, value) := f.severalWords? then
      throw (.validation ("--" ++ name ++ " \"" ++ value ++ "\"")
        "operand truncation is on, so only single words can be matched")
  let parts ← (f.clauses zone).mapM id
  match parts with
  | [] => return none
  | first :: rest =>
    let joined ← rest.foldlM (fun acc part => do return .term (← acc.join .and part false)) first
    return some joined

end Flags

/-- One ordering: a field, and maybe a direction behind a colon. What stands behind a second colon
does not count. -/
def Ordering.ofItem (item : String) : Except Failure Ordering := do
  let parts := split ':' item
  let name := parts.headD ""
  let some field := Field.ofName? name
    | throw (.validation ("order field \"" ++ name ++ "\"")
        ("expected one of " ++ ", ".intercalate (Field.all.map Field.name)))
  let written := (parts[1]?).getD "asc"
  let some direction := Direction.ofName? written
    | throw (.validation ("order direction \"" ++ written ++ "\"") "expected asc or desc")
  return ⟨field, direction⟩

/-- The orderings between commas; items that are blank do not count. -/
def Ordering.ofText (text : String) : Except Failure (List Ordering) :=
  (((split ',' text).map trim).filter (!·.isEmpty)).mapM Ordering.ofItem

end Mailroom.Filter
