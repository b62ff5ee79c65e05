import Mailroom.Calendar.Reading
import Mailroom.Filter.Attribute

/-! The attributes that every message has, under the names that callers know them by. -/

namespace Mailroom.Filter

/-- The first ten characters of an instant's text: the universal day, unless its year needs a
sign. -/
def dayText (t : Instant) : String := String.ofList (t.text.toList.take 10)

/-- The local day of an instant; the year has no zeros in front. -/
def localDayText (zone : Zone) (t : Instant) : String :=
  let d := t.localDay zone
  d.year.repr ++ "-" ++ Day.padded 2 d.month ++ "-" ++ Day.padded 2 d.day

/-- The day that an operand denotes: the local one of a moment, the universal one of a count of
milliseconds or of a written date, which is local itself if it has a time and no zone. What denotes
no day is kept as it is. -/
def dayOf (zone : Zone) : Operand → String
  | .moment (some t) => localDayText zone t
  | .number n =>
    match n.truncate?.bind Instant.ofMs? with
    | some t => dayText t
    | none => n.text
  | .text s =>
    match Calendar.read? zone s with
    | some t => dayText t
    | none => s
  | v => v.plain zone

namespace Catalogue

/-- Flags of what a message has: the name callers use and the name in the search text. -/
def hasFlags : List (String × String) :=
  [("attachment", "attachment"), ("youtubeVideo", "youtube"), ("googleDrive", "drive"),
    ("googleDocs", "document"), ("googleSheets", "spreadsheet"),
    ("googleSlides", "presentation"), ("userLabel", "userlabels")]

def isFlags : List (String × String) :=
  [("unread", "unread"), ("read", "read"), ("starred", "starred"), ("important", "important")]

def sender : Attribute := .equatable "from" (some .sender)

def recipients : Attribute := .equatable "to" (some .recipients)

def copies : Attribute := .equatable "cc" (some .copies)

def blindCopies : Attribute := .equatable "bcc" (some .blindCopies)

def subject : Attribute := .equatable "subject" (some .subject)

def fileName : Attribute := .equatable "filename" none

def label : Attribute := .equatable "label" none

/-- The day of arrival. -/
def date (zone : Zone) : Attribute :=
  .comparable ⟨"date", "before", "after"⟩ (some .date) (dayOf zone)

def size (zone : Zone) : Attribute :=
  .comparable ⟨"size", "smaller", "larger"⟩ (some .size) (Operand.plain zone)

/-- What a message has. -/
def has : Attribute := .enumerative "has" (hasFlags.map Prod.snd)

/-- What a message is. -/
def is : Attribute := .enumerative "is" (isFlags.map Prod.snd)

/-- A flag of what a message has, by the name callers use. -/
def has? (name : String) : Option Attribute :=
  (hasFlags.lookup name).map fun flag => .flag flag (some "has")

/-- A flag of what a message is, by the name callers use. -/
def is? (name : String) : Option Attribute :=
  (isFlags.lookup name).map fun flag => .flag flag (some "is")

def named (zone : Zone) : List (String × Attribute) :=
  [("From", sender), ("To", recipients), ("Cc", copies), ("Bcc", blindCopies),
    ("Subject", subject), ("FileName", fileName), ("Label", label),
    ("Date", date zone), ("Size", size zone), ("Has", has), ("Is", is)]

end Catalogue

end Mailroom.Filter
