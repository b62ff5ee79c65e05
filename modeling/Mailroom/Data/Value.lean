import Mailroom.Data.Table
import Mailroom.Number.Shortest

/-! Values of the data interchange format: null, truth values, numbers, texts, lists and records.
The fields of a record stand in a fixed order, each name once: names that are array indices come
first, in numeric order, then the others as they were first given; a name given again takes the
later value. -/

namespace Mailroom

/-- A data value. -/
inductive Value
  | null
  | bool (truth : Bool)
  | num (number : Number)
  | str (text : String)
  | arr (items : List Value)
  | obj (fields : List (String × Value))
deriving Repr, Inhabited, BEq

namespace Value

/-- A natural number as a value. -/
def ofNat (n : Nat) : Value := num (Number.ofNat n)

def ofInt (i : Int) : Value := num (Number.ofInt i)

/-- A text, or null if there is none. -/
def ofText? : Option String → Value
  | some s => str s
  | none => null

def ofTexts (texts : List String) : Value := arr (texts.map str)

/-- The value of a field, if this is a record that has it. -/
def field? : Value → String → Option Value
  | obj fields, name => fields.lookup name
  | _, _ => none

/-- The value of a field; a field that is missing or null has none. -/
def given? (v : Value) (name : String) : Option Value :=
  match v.field? name with
  | some null => none
  | found => found

def asText? : Value → Option String
  | str s => some s
  | _ => none

def asNumber? : Value → Option Number
  | num n => some n
  | _ => none

/-- The value of a field, null if it is missing. -/
def get (v : Value) (name : String) : Value := (v.field? name).getD null

def textAt? (v : Value) (name : String) : Option String := (v.field? name).bind asText?

def numberAt? (v : Value) (name : String) : Option Number := (v.field? name).bind asNumber?

/-- The fields of a record; any other value has none. -/
def fields : Value → List (String × Value)
  | obj fields => fields
  | _ => []

/-- The items of a list; any other value has none. -/
def items : Value → List Value
  | arr vs => vs
  | _ => []

def texts (v : Value) : List String :=
  v.items.filterMap asText?

/-- The texts in the list of a field, if there is one. -/
def textsAt? (v : Value) (name : String) : Option (List String) := (v.given? name).map texts

/-- Whether the value counts as true: neither null, false, zero, NaN nor the empty text. -/
def isTruthy : Value → Bool
  | null => false
  | bool b => b
  | num n => n.isTruthy
  | str s => !s.isEmpty
  | arr _ => true
  | obj _ => true

mutual

/-- The value as a plain text; a list is its items between commas, null items left empty. -/
def text : Value → String
  | null => "null"
  | bool b => if b then "true" else "false"
  | num n => n.text
  | str s => s
  | arr vs => ",".intercalate (itemTexts vs)
  | obj _ => "[object Object]"

def itemTexts : List Value → List String
  | [] => []
  | null :: rest => "" :: itemTexts rest
  | v :: rest => text v :: itemTexts rest

end

/-- The array index that a name writes, without leading zeros. -/
def indexOf? (name : String) : Option Nat :=
  match name.toList with
  | [] => none
  | ['0'] => some 0
  | c :: cs =>
    if c != '0' && (c :: cs).all Char.isDigit && cs.length < 10 then
      let n := (c :: cs).foldl (fun n d => n * 10 + (d.toNat - '0'.toNat)) 0
      if n < 4294967295 then some n else none
    else none

/-- A field in its place among the indices, which ascend. -/
def insertIndex (entry : Nat × String × Value) :
    List (Nat × String × Value) → List (Nat × String × Value)
  | [] => [entry]
  | other :: rest =>
    if entry.1 < other.1 then entry :: other :: rest else other :: insertIndex entry rest

/-- A record of the given fields, in the order that records keep. -/
def record (fields : List (String × Value)) : Value :=
  let once := (Table.ofList fields).entries
  let indices := once.filterMap fun entry => (indexOf? entry.1).map fun i => (i, entry.1, entry.2)
  let named := once.filter fun entry => (indexOf? entry.1).isNone
  obj ((indices.foldr insertIndex []).map Prod.snd ++ named)

def recordOf (fields : List (String × Option Value)) : Value :=
  obj (fields.filterMap fun entry => entry.2.map fun v => (entry.1, v))

end Value

end Mailroom
