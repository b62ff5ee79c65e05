import Mailroom.Session.Basic

/-! Things that callers hand to a session: loaded labels, handles of labels, messages, and data
that is none of these. A thing that does not suit is refused by a word for what it is. -/

namespace Mailroom

open Label (EntityRef NodeRef)

/-- Anything that a caller may hand over. -/
inductive Thing
  | entity (ref : EntityRef)
  /-- The handle of a label. -/
  | proxy (ref : NodeRef)
  | node (ref : NodeRef)
  | message (message : Message)
  | data (value : Value)
  | list (things : List Thing)

namespace Thing

variable {σ : Type}

def dataWord : Value → String
  | .null => "object"
  | .bool _ => "boolean"
  | .num _ => "number"
  | .str _ => "string"
  | .arr _ => "object"
  | .obj _ => "object"

def sortWord : Thing → String
  | data v => dataWord v
  | _ => "object"

def classWord (s : Session σ) : Thing → String
  | entity r =>
    match s.entityKind r with
    | .user => "UserLabel"
    | .system => "SystemLabel"
    | .category => "Category"
  | proxy _ => "LabelProxy"
  | node _ => "LabelNode"
  | message _ => "Message"
  | list _ => "Array"
  | data .null => "null"
  | data (.arr _) => "Array"
  | data (.obj _) => "Object"
  | data v => dataWord v

def id (s : Session σ) : Thing → String
  | entity r => s.entityId r
  | proxy r => (s.directory.node r).id
  | node r => (s.directory.node r).id
  | message m => m.id
  | data v => (v.textAt? "id").getD ""
  | list _ => ""

def name (s : Session σ) : Thing → String
  | entity r => s.entityName r
  | proxy r => (s.directory.node r).name
  | node r => (s.directory.node r).name
  | message _ => ""
  | data v => (v.textAt? "name").getD ""
  | list _ => ""

/-- The things in a list; any other thing is its own only item. -/
def items : Thing → List Thing
  | list things => things
  | thing => [thing]

def isCategory (s : Session σ) : Thing → Bool
  | entity r => s.entityKind r == .category
  | _ => false

/-- Whether a thing stands for a category: one that is loaded, or the handle of one. -/
def standsForCategory (s : Session σ) : Thing → Bool
  | entity r => s.entityKind r == .category
  | proxy r => (s.directory.node r).kind == .category
  | _ => false

end Thing

end Mailroom
