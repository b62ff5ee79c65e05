import Mailroom.Session.Query
import Mailroom.Session.Scope

/-! Bulk actions: one change to all messages that a query finds. -/

namespace Mailroom.Session

open Remote (LabelChange MailService)

variable {σ : Type} [MailService σ]

/-- An action on the messages of a query; nothing is sent when there are none. -/
def bulkAction (q : Query) (perform : List String → Call σ Unit) : BulkAction (Session σ) where
  listing := messageIds q
  perform ids := if ids.isEmpty then pure () else onOutside (perform ids)

def bulkChange (q : Query) (c : LabelChange) : BulkAction (Session σ) :=
  bulkAction q fun ids => MailService.modifyMessages ids c

def bulkDelete (q : Query) : BulkAction (Session σ) :=
  bulkAction q fun ids => MailService.deleteMessages ids

def bulkAdd (s : Session σ) (q : Query) (labels : Thing) : BulkAction (Session σ) :=
  bulkChange q { add := some (labels.items.map (·.id s)) }

def bulkRemove (s : Session σ) (q : Query) (labels : Thing) : BulkAction (Session σ) :=
  bulkChange q { remove := some (labels.items.map (·.id s)) }

/-- File all messages of a query under a category. -/
def bulkCategory (s : Session σ) (q : Query) (category : Thing) :
    Except Failure (BulkAction (Session σ)) :=
  if category.isCategory s then .ok (bulkChange q { add := some [category.id s] })
  else .error (.typeMismatch category.sortWord "bulk category change" "Category")

def bulkMark (s : Session σ) (q : Query) (l : Label.System) (isSet : Bool) :
    BulkAction (Session σ) :=
  if isSet then bulkAdd s q (systemThing l) else bulkRemove s q (systemThing l)

/-- Mark all messages of a query as read, or as unread. -/
def bulkMarkRead (s : Session σ) (q : Query) (isRead : Bool) : BulkAction (Session σ) :=
  bulkMark s q .unread !isRead

def bulkMarkImportant (s : Session σ) (q : Query) (isImportant : Bool) :
    BulkAction (Session σ) :=
  bulkMark s q .important isImportant

def bulkMarkStarred (s : Session σ) (q : Query) (isStarred : Bool) : BulkAction (Session σ) :=
  bulkMark s q .starred isStarred

/-- Take all messages of a query out of the inbox. -/
def bulkArchive (s : Session σ) (q : Query) : BulkAction (Session σ) :=
  bulkRemove s q (systemThing .inbox)

end Mailroom.Session
