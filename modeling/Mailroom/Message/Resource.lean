import Mailroom.Data.Value
import Mailroom.Number.Reading

/-! Message resources: a message in full as the service gives it. Every field may be missing. The
content is a tree of parts. -/

namespace Mailroom.Message

/-- A header of a part. -/
structure Header where
  name : Option String
  value : Option String
deriving DecidableEq, Repr

/-- What a part holds itself: its data in letters, or a reference to an attachment. -/
structure Content where
  data : Option String := none
  attachmentId : Option String := none
  size : Option Number := none
deriving DecidableEq, Repr

/-- A part of a message's content. -/
inductive Part
  | mk (mimeType filename : Option String) (headers : List Header) (content : Content)
    (parts : List Part)
deriving Repr

instance : Inhabited Part := ⟨.mk none none [] {} []⟩

/-- A message as the service gives it. -/
structure Resource where
  id : Option String := none
  threadId : Option String := none
  labelIds : Option (List String) := none
  sizeEstimate : Option Number := none
  internalDate : Option String := none
  payload : Part := default
deriving Repr, Inhabited

namespace Header

def toValue (h : Header) : Value :=
  .recordOf [("name", h.name.map .str), ("value", h.value.map .str)]

/-- The header that data describes. -/
def ofValue (v : Value) : Header :=
  ⟨v.textAt? "name", v.textAt? "value"⟩

end Header

namespace Content

/-- A part's own content as data. -/
def toValue (c : Content) : Value :=
  .recordOf [("data", c.data.map .str), ("attachmentId", c.attachmentId.map .str),
    ("size", c.size.map .num)]

/-- The content that data describes. A size may be written as text. -/
def ofValue (v : Value) : Content where
  data := v.textAt? "data"
  attachmentId := v.textAt? "attachmentId"
  size := match v.field? "size" with
    | some (.num n) => some n
    | some (.str s) => some (Number.read s)
    | _ => none

end Content

namespace Part

mutual

def toValue : Part → Value
  | mk mimeType filename headers content parts =>
    .recordOf [("mimeType", mimeType.map .str), ("filename", filename.map .str),
      ("headers", some (.arr (headers.map Header.toValue))), ("body", some content.toValue),
      ("parts", some (.arr (toValues parts)))]

def toValues : List Part → List Value
  | [] => []
  | p :: rest => p.toValue :: toValues rest

end

mutual

/-- The part that data describes. -/
def ofValue : Value → Part
  | .obj fields =>
    let v := Value.obj fields
    mk (v.textAt? "mimeType") (v.textAt? "filename")
      (((v.field? "headers").map Value.items).getD [] |>.map Header.ofValue)
      (Content.ofValue (v.get "body")) (partsField fields)
  | _ => default

def partsField : List (String × Value) → List Part
  | [] => []
  | (name, v) :: rest => if name = "parts" then partsOf v else partsField rest

def partsOf : Value → List Part
  | .arr items => partsOfItems items
  | _ => []

def partsOfItems : List Value → List Part
  | [] => []
  | v :: rest => ofValue v :: partsOfItems rest

end

def mimeType : Part → Option String
  | mk mimeType _ _ _ _ => mimeType

/-- The file name of a part. -/
def filename : Part → Option String
  | mk _ filename _ _ _ => filename

def headers : Part → List Header
  | mk _ _ headers _ _ => headers

/-- What a part holds itself. -/
def content : Part → Content
  | mk _ _ _ content _ => content

def parts : Part → List Part
  | mk _ _ _ _ parts => parts

end Part

namespace Resource

def toValue (r : Resource) : Value :=
  .recordOf [("id", r.id.map .str), ("threadId", r.threadId.map .str),
    ("labelIds", r.labelIds.map .ofTexts), ("sizeEstimate", r.sizeEstimate.map .num),
    ("internalDate", r.internalDate.map .str), ("payload", some r.payload.toValue)]

/-- The resource that data describes. A date may be written as a number. -/
def ofValue (v : Value) : Resource where
  id := v.textAt? "id"
  threadId := v.textAt? "threadId"
  labelIds := (v.given? "labelIds").map Value.texts
  sizeEstimate := v.numberAt? "sizeEstimate"
  internalDate := match v.given? "internalDate" with
    | some (.num n) => some n.text
    | some other => other.asText?
    | none => none
  payload := Part.ofValue (v.get "payload")

end Resource

end Mailroom.Message
