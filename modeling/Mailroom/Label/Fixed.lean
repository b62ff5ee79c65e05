/-! The labels that every mailbox has: nine system labels and five categories, with the ids and
the display names that never change. -/

namespace Mailroom.Label

/-- What a label is: a label of the user, a system label or a category. -/
inductive Kind
  | user
  | system
  | category
deriving DecidableEq, Repr, Inhabited

def Kind.name : Kind → String
  | user => "user"
  | system => "system"
  | category => "category"

/-- The system labels. -/
inductive System
  | inbox
  | sent
  | unread
  | important
  | starred
  | draft
  | chat
  | trash
  | spam
deriving DecidableEq, Repr

namespace System

def all : List System :=
  [inbox, sent, unread, important, starred, draft, chat, trash, spam]

def name : System → String
  | inbox => "Inbox"
  | sent => "Sent"
  | unread => "Unread"
  | important => "Important"
  | starred => "Starred"
  | draft => "Draft"
  | chat => "Chat"
  | trash => "Trash"
  | spam => "Spam"

def id : System → String
  | inbox => "INBOX"
  | sent => "SENT"
  | unread => "UNREAD"
  | important => "IMPORTANT"
  | starred => "STARRED"
  | draft => "DRAFT"
  | chat => "CHAT"
  | trash => "TRASH"
  | spam => "SPAM"

def ofId? (id : String) : Option System := all.find? (·.id == id)

end System

/-- The categories. -/
inductive Category
  | primary
  | social
  | promotions
  | updates
  | forums
deriving DecidableEq, Repr

namespace Category

def all : List Category := [primary, social, promotions, updates, forums]

def name : Category → String
  | primary => "Primary"
  | social => "Social"
  | promotions => "Promotions"
  | updates => "Updates"
  | forums => "Forums"

def id : Category → String
  | primary => "CATEGORY_PERSONAL"
  | social => "CATEGORY_SOCIAL"
  | promotions => "CATEGORY_PROMOTIONS"
  | updates => "CATEGORY_UPDATES"
  | forums => "CATEGORY_FORUMS"

def ofId? (id : String) : Option Category := all.find? (·.id == id)

end Category

/-- Whether the id is one of a label that every mailbox has. -/
def isFixedId (id : String) : Bool := (System.ofId? id).isSome || (Category.ofId? id).isSome

end Mailroom.Label
