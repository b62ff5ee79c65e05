import Mailroom.Address.Grammar
import Mailroom.Calendar.Instant
import Mailroom.Label.Directory
import Mailroom.Message.Resource
import Mailroom.Text.Base64

/-! Messages: the reading of a message resource. The text of a body is made of all its parts of
one type that hold data and are no files; a part with a file name and an attachment id is an
attachment. -/

namespace Mailroom

namespace Message

/-- What is known of an attachment. -/
structure Attachment where
  id : String
  filename : String
  mimeType : String
  size : Number
deriving DecidableEq, Repr

/-- The values of a header: those of all headers of that name, empty ones left out, between
commas. -/
def headerText (headers : List Header) (name : String) : String :=
  let values := (headers.filter fun h => h.name.map Text.lowerAscii == some name).map
    fun h => h.value.getD ""
  ", ".intercalate (values.filter (!·.isEmpty))

/-- A text that is there and not empty. -/
def given (s : Option String) : Option String := s.filter (!·.isEmpty)

def Part.body? (mimeType : String) (p : Part) : Option String :=
  if p.mimeType = some mimeType && (given p.filename).isNone then
    (given p.content.data).map Text.decodeLetters
  else none

def Part.attachment? (p : Part) : Option Attachment := do
  let filename ← given p.filename
  let id ← given p.content.attachmentId
  return ⟨id, filename, p.mimeType.getD "application/octet-stream", p.content.size.getD 0⟩

mutual

/-- A part and all parts below it, each before its own parts. -/
def Part.walk : Part → List Part
  | .mk mimeType filename headers content parts =>
    .mk mimeType filename headers content parts :: walkAll parts

/-- The walks through some parts, one after the other. -/
def walkAll : List Part → List Part
  | [] => []
  | p :: rest => p.walk ++ walkAll rest

end

/-- The texts of a type, an empty line between them. -/
def bodyText (mimeType : String) (p : Part) : String :=
  "\n\n".intercalate (p.walk.filterMap (Part.body? mimeType))

def attachmentsIn (p : Part) : List Attachment := p.walk.filterMap Part.attachment?

end Message

/-- A message with its labels; at most one of them is a category. -/
structure Message where
  id : String
  threadId : String
  size : Number
  date : Option Instant
  subject : String
  sender : Option Contact
  recipients : List Contact
  copies : List Contact
  blindCopies : List Contact
  plainBody : String
  htmlBody : String
  attachments : List Message.Attachment
  labels : List Label.EntityRef
  category : Option Label.EntityRef
deriving Repr

namespace Message

/-- The instant that a resource's date stands for: a count of milliseconds. -/
def dateOf (internalDate : Option String) : Option Instant :=
  ((Number.read (internalDate.getD "0")).truncate?).bind Instant.ofMs?

/-- The message that a resource describes, with its labels. -/
def ofResource (r : Resource) (labels : List Label.EntityRef)
    (category : Option Label.EntityRef) : Message :=
  let header := headerText r.payload.headers
  { id := r.id.getD ""
    threadId := r.threadId.getD ""
    size := r.sizeEstimate.getD 0
    date := dateOf r.internalDate
    subject := header "subject"
    sender := Address.sender? (header "from")
    recipients := Address.recipientsOf (header "to")
    copies := Address.recipientsOf (header "cc")
    blindCopies := Address.recipientsOf (header "bcc")
    plainBody := bodyText "text/plain" r.payload
    htmlBody := bodyText "text/html" r.payload
    attachments := attachmentsIn r.payload
    labels
    category }

end Message

end Mailroom
