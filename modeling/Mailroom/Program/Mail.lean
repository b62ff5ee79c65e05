import Mailroom.Filter.Flags
import Mailroom.Message.Text
import Mailroom.Program.Labels
import Mailroom.Session.Query

/-! Commands on messages: searching them by flags, and showing one. -/

namespace Mailroom.Program

open Remote (Client Wire)
open Terminal (Action Console)

/-- A parameter without a value. -/
def switch (name : String) : Parameter := { name, arity := .none }

/-- The parameters that say which messages are meant. -/
def filterParameters : List Parameter :=
  ["from", "to", "cc", "subject", "filename", "label", "after", "before", "larger",
      "smaller"].map (fun name => { name := name })
    ++ ["has", "is", "not", "in"].map (fun name => { name, arity := .many })
    ++ [{ name := "limit" }, switch "all", switch "include-trash", { name := "order" }]

def filterFlags (a : Arguments) : Filter.Flags where
  sender := a.text "from"
  recipients := a.text "to"
  copies := a.text "cc"
  subject := a.text "subject"
  fileName := a.text "filename"
  label := a.text "label"
  after := a.text "after"
  before := a.text "before"
  larger := a.text "larger"
  smaller := a.text "smaller"
  has := a.texts "has"
  is := a.texts "is"
  isNot := a.texts "not"

/-- The limit that a text writes: an integer greater than zero. -/
def limitOf? (written : String) : Option Rat :=
  let n := Number.read written
  if n.isInteger then n.toRat?.filter (1 ≤ ·) else none

variable {ω : Type} [Wire ω] [Clock ω]

/-- The limit of a query: none if all messages are wanted. -/
def queryLimit (a : Arguments) (plain : Option Rat) : Command ω (Option Rat) :=
  if a.isGiven "all" then return none
  else
    match a.text? "limit" with
    | none => return plain
    | some written =>
      match limitOf? written with
      | some limit => return some limit
      | none => Action.abort ("--limit must be a positive integer, got \"" ++ written ++ "\"")

/-- The query that the arguments describe; the first of them that does not suit is refused. -/
def queryOf (s : Surroundings) (a : Arguments) : Command ω Query := do
  let settings := (← Action.world : Mailbox ω).settings
  let start := Query.start settings
  let filter ← Action.ofExcept ((filterFlags a).clause s.zone settings.truncate)
  let nodes ← (a.texts "in").mapM nodeNamed
  let d := (← Action.world : Mailbox ω).directory
  let tags := nodes.map fun r => (⟨(d.node r).id, (d.node r).name⟩ : Label.Tag)
  let limit ← queryLimit a start.limit
  let orderings ← match a.text? "order" with
    | some written => some <$> Action.ofExcept (Filter.Ordering.ofText written)
    | none => pure none
  return { start with
    filter
    labels := if tags.isEmpty then none else some tags
    limit
    includeTrash := a.isGiven "include-trash"
    orderings }

/-- What is shown of every message. -/
def messageSummary (zone : Zone) (s : Mailbox ω) (now : Rat) (m : Message) :
    List (String × Option Value) :=
  [("id", some (.str m.id)), ("from", some (.str ((m.sender.map Contact.text).getD ""))),
    ("subject", some (.str m.subject)),
    ("date", some (.str ((m.date.map fun t => t.age zone now).getD ""))),
    ("labels", some (.ofTexts (m.labels.map s.entityName))),
    ("category", m.category.map fun c => .str (s.entityName c))]

/-- The time. -/
def now : Command ω Rat := Action.onWorld (Session.onClock Clock.now)

def mailSearch (s : Surroundings) (a : Arguments) : Command ω Unit := do
  openMailbox s
  let q ← queryOf s a
  if a.isGiven "print-query" then
    Console.document (Mailbox ω)
      (← Action.ofExcept (q.describe (← Action.world : Mailbox ω).settings))
  else
    match ← Action.onWorld (Session.execute q) with
    | [] => Console.hint (Mailbox ω) "No messages found"
    | messages =>
      let now ← now
      let world : Mailbox ω ← Action.world
      Console.list (Mailbox ω)
        (messages.map fun m => .recordOf (messageSummary s.zone world now m)) none
      Console.hint (Mailbox ω) (counted messages.length "message(s)")

def attachmentText (a : Message.Attachment) : String :=
  a.filename ++ " (" ++ a.mimeType ++ ", " ++ a.size.text ++ " bytes)"

def mailShow (s : Surroundings) (a : Arguments) : Command ω Unit := do
  openMailbox s
  let m ← Action.onWorld (Session.message (a.operand 0))
  let summary := messageSummary s.zone (← Action.world) (← now) m
  let copies := if m.copies.isEmpty then none else some (.ofTexts (m.copies.map Contact.text))
  Console.document (Mailbox ω) (.recordOf (summary
    ++ [("to", some (.ofTexts (m.recipients.map Contact.text))), ("cc", copies),
      ("attachments", some (.ofTexts (m.attachments.map attachmentText)))]))
  Console.write (Mailbox ω) ("\n" ++ m.text ++ "\n")

end Mailroom.Program
