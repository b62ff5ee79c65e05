import Mailroom.Label.Writing
import Mailroom.Session.Scope
import Mailroom.Session.Thing

/-! What a session holds as data: loaded labels, messages, scopes, and things of any sort. -/

namespace Mailroom

namespace Session

variable {σ : Type}

/-- A loaded label as data. -/
def entityValue (s : Session σ) (r : Label.EntityRef) : Value :=
  match s.entity? r with
  | none => .null
  | some e =>
    .obj [("label", .obj (("class", .str ((Thing.entity r).classWord s)) :: e.record.toValue.fields))]

end Session

def Message.Attachment.toValue (a : Message.Attachment) : Value :=
  .obj [("attachmentId", .str a.id), ("filename", .str a.filename),
    ("mimeType", .str a.mimeType), ("size", .num a.size)]

namespace Session

variable {σ : Type}

def messageValue (s : Session σ) (m : Message) : Value :=
  .obj [("message", .obj [("id", .str m.id), ("threadId", .str m.threadId), ("size", .num m.size),
    ("date", .num ((m.date.map fun t => Number.ofInt t.ms).getD .nan)),
    ("subject", .str m.subject),
    ("from", (m.sender.map Contact.toValue).getD .null),
    ("to", .arr (m.recipients.map Contact.toValue)),
    ("cc", .arr (m.copies.map Contact.toValue)),
    ("bcc", .arr (m.blindCopies.map Contact.toValue)),
    ("body", .obj [("text", .str m.plainBody), ("html", .str m.htmlBody)]),
    ("attachments", .arr (m.attachments.map Message.Attachment.toValue)),
    ("labels", .arr (m.labels.map fun r => .arr [.str (s.entityId r), .str (s.entityName r)])),
    ("category", .ofText? (m.category.map s.entityName))])]

mutual

def thingValue (s : Session σ) : Thing → Value
  | .entity r => s.entityValue r
  | .proxy r => .obj [("proxy", s.directory.nodeValue r)]
  | .node r => .obj [("node", s.directory.nodeValue r)]
  | .message m => s.messageValue m
  | .data v => v
  | .list things => .arr (thingValues s things)

def thingValues (s : Session σ) : List Thing → List Value
  | [] => []
  | t :: rest => thingValue s t :: thingValues s rest

end

end Session

def Scope.toValue (s : Scope) : Value :=
  .obj [("scope", .obj [("ids", .ofTexts s.ids), ("size", .ofNat s.ids.length),
    ("isEmpty", .bool s.ids.isEmpty), ("isCommitted", .bool s.armed)])]

end Mailroom
