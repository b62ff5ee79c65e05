import Mailroom.Message.Resource
import Mailroom.Remote.LabelRecord

/-! The mail service and the clock that a mailbox works with, as operations on the state of the
outside world. An operation may fail; what it did to the world before it failed stays done. -/

namespace Mailroom

/-- A computation on a state that may fail; the state is kept on failure. -/
abbrev Call (σ α : Type) := ExceptT Failure (StateM σ) α

/-- The outcome of a computation, failure or not. -/
def Call.attempt {σ α : Type} (x : Call σ α) : Call σ (Except Failure α) := ExceptT.mk fun s =>
  let (a, s) := x.run s
  (.ok a, s)

/-- A clock in the outside world; times are in milliseconds. -/
class Clock (σ : Type) where
  now : StateM σ Rat
  sleep : Rat → StateM σ Unit

namespace Remote

/-- Which messages to list, and how many on a page. -/
structure ListQuery where
  search : Option String := none
  labelIds : Option (List String) := none
  maxResults : Option Rat := none
  includeTrash : Bool := false
  pageToken : Option String := none
deriving DecidableEq, Repr

/-- The ids of a page of messages, and where the next page begins. -/
structure Page where
  ids : List String
  nextPageToken : Option String
deriving DecidableEq, Repr

/-- The operations of a mail service. -/
class MailService (σ : Type) where
  /-- The address of the account. -/
  profile : Call σ String
  listLabels : Call σ (List LabelRecord)
  getLabel : String → Call σ LabelRecord
  /-- Make a label; the answer is its id. -/
  createLabel : LabelBody → Call σ String
  updateLabel : String → LabelBody → Call σ Unit
  deleteLabel : String → Call σ Unit
  listMessages : ListQuery → Call σ Page
  getMessage : String → Call σ Message.Resource
  /-- Several messages; the first failure ends the call. -/
  getMessages : List String → Call σ (List Message.Resource)
  modifyMessage : String → LabelChange → Call σ Unit
  trashMessage : String → Call σ Unit
  untrashMessage : String → Call σ Unit
  deleteMessage : String → Call σ Unit
  deleteMessages : List String → Call σ Unit
  modifyMessages : List String → LabelChange → Call σ Unit

end Remote

end Mailroom
