import Mailroom.Message.Resource
import Mailroom.Text.Base64

/-! Fixtures: messages described by a few plain fields, and the resources built from them. -/

namespace Mailroom.Message

/-- The description of an attachment. -/
structure FixtureAttachment where
  filename : String
  attachmentId : String
  size : Number
  mimeType : String
deriving DecidableEq, Repr

/-- The description of a message. -/
structure Fixture where
  id : String
  sender : String := ""
  recipients : String := ""
  copies : String := ""
  subject : String := ""
  /-- Milliseconds since the beginning of 1970. -/
  date : Number := 0
  size : Number := .ofNat 1000
  labelIds : List String := ["INBOX"]
  plain : Option String := none
  html : Option String := none
  attachment : Option FixtureAttachment := none
deriving Repr

/-- The attachment that data describes. -/
def FixtureAttachment.ofValue (v : Value) : FixtureAttachment :=
  ⟨(v.textAt? "filename").getD "", (v.textAt? "attachmentId").getD "",
    (v.numberAt? "size").getD 0, (v.textAt? "mimeType").getD ""⟩

namespace Fixture

/-- The fixture that data describes. -/
def ofValue (v : Value) : Fixture where
  id := (v.textAt? "id").getD ""
  sender := (v.textAt? "from").getD ""
  recipients := (v.textAt? "to").getD ""
  copies := (v.textAt? "cc").getD ""
  subject := (v.textAt? "subject").getD ""
  date := (v.numberAt? "date").getD 0
  size := (v.numberAt? "size").getD (.ofNat 1000)
  labelIds := (v.textsAt? "labelIds").getD ["INBOX"]
  plain := v.textAt? "text"
  html := v.textAt? "html"
  attachment := (v.given? "attachment").map .ofValue

def textPart (mimeType body : String) : Part :=
  .mk (some mimeType) none [] { data := some (Text.encodeLetters body) } []

def attachmentPart (a : FixtureAttachment) : Part :=
  .mk (some a.mimeType) (some a.filename) []
    { attachmentId := some a.attachmentId, size := some a.size } []

/-- A header, if its value is not empty. -/
def header? (name value : String) : List Header :=
  if value.isEmpty then [] else [⟨some name, some value⟩]

/-- The resource of a described message. -/
def resource (f : Fixture) : Resource where
  id := some f.id
  threadId := some ("t-" ++ f.id)
  labelIds := some f.labelIds
  sizeEstimate := some f.size
  internalDate := some f.date.text
  payload := .mk (some "multipart/mixed") none
    (header? "From" f.sender ++ header? "To" f.recipients ++ header? "Cc" f.copies
      ++ [⟨some "Subject", some f.subject⟩])
    {}
    ((f.plain.map (textPart "text/plain")).toList ++ (f.html.map (textPart "text/html")).toList
      ++ (f.attachment.map attachmentPart).toList)

end Fixture

end Mailroom.Message
