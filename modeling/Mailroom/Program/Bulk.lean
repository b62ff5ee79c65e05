import Mailroom.Program.Mail
import Mailroom.Session.Bulk

/-! The command for bulk actions. What it is about to change is shown first, and nothing is changed
unless it is told to commit; a person at a terminal is asked before anything is deleted. -/

namespace Mailroom.Program

open Remote (Client Wire)
open Terminal (Action Console)

/-- Names of bulk actions. -/
inductive BulkName
  | read
  | unread
  | star
  | unstar
  | important
  | unimportant
  | archive
  | delete
  | addLabel
  | removeLabel
  | category
deriving DecidableEq, Repr

namespace BulkName

def all : List BulkName :=
  [read, unread, star, unstar, important, unimportant, archive, delete, addLabel, removeLabel,
    category]

def text : BulkName → String
  | read => "read"
  | unread => "unread"
  | star => "star"
  | unstar => "unstar"
  | important => "important"
  | unimportant => "unimportant"
  | archive => "archive"
  | delete => "delete"
  | addLabel => "add-label"
  | removeLabel => "remove-label"
  | category => "category"

def ofText? (text : String) : Option BulkName := all.find? fun n => n.text == text

end BulkName

variable {ω : Type} [Wire ω] [Clock ω]

def targetNode (target : String) : Command ω Label.NodeRef :=
  if target.isEmpty then Action.abort "--target <label> is required for this action"
  else nodeNamed target

def bulkActionOf (q : Query) (target : String) :
    BulkName → Command ω (BulkAction (Mailbox ω))
  | .read => return Session.bulkMarkRead (← Action.world) q true
  | .unread => return Session.bulkMarkRead (← Action.world) q false
  | .star => return Session.bulkMarkStarred (← Action.world) q true
  | .unstar => return Session.bulkMarkStarred (← Action.world) q false
  | .important => return Session.bulkMarkImportant (← Action.world) q true
  | .unimportant => return Session.bulkMarkImportant (← Action.world) q false
  | .archive => return Session.bulkArchive (← Action.world) q
  | .delete => return Session.bulkDelete q
  | .addLabel => do
    let r ← targetNode target
    return Session.bulkAdd (← Action.world) q (.proxy r)
  | .removeLabel => do
    let r ← targetNode target
    return Session.bulkRemove (← Action.world) q (.proxy r)
  | .category => do
    let e ← Action.onWorld (Session.entity (← targetNode target))
    let s : Mailbox ω ← Action.world
    if s.entityKind e = .category then Action.ofExcept (Session.bulkCategory s q (.entity e))
    else Action.abort ("\"" ++ s.entityName e ++ "\" is not a category")

def besideConsole {σ : Type} (a : BulkAction σ) : BulkAction (Console σ) where
  listing := Console.onWorld a.listing
  perform ids := Console.onWorld (a.perform ids)

/-- Show what is about to be changed, and arm the action if it is to be done. -/
def preview (s : Surroundings) (name : BulkName) (isCommitted : Bool) (query : Value) :
    Call (Scoped (Console (Mailbox ω))) Unit := do
  let ids := (← get).scope.ids
  let console {α : Type} (x : Call (Console (Mailbox ω)) α) := Scoped.onOutside x
  console (Console.document (Mailbox ω) (.obj [("action", .str name.text), ("query", query),
    ("matched", .ofNat ids.length)]))
  if ids.isEmpty then return
  if !isCommitted then
    console (Console.hint (Mailbox ω) "Dry run. Pass --commit to apply")
    return
  let question := "Permanently delete " ++ counted ids.length "message(s)" ++ "?"
  let isAgreed ←
    if name = .delete && s.isInteractive then console (Console.confirm (Mailbox ω) question)
    else pure true
  if isAgreed then Scoped.commit else console (Console.hint (Mailbox ω) "Cancelled")

/-- Run a bulk action. -/
def bulk (s : Surroundings) (a : Arguments) : Command ω Unit := do
  let written := a.operand 0
  match BulkName.ofText? written with
  | none => Action.abort ("Unknown action \"" ++ written ++ "\". Expected one of: "
      ++ ", ".intercalate (BulkName.all.map BulkName.text))
  | some name =>
    openMailbox s
    let q ← queryOf s a
    let action ← bulkActionOf q (a.text "target") name
    let query ← Action.ofExcept (q.describe (← Action.world : Mailbox ω).settings)
    let callback := preview s name (a.isGiven "commit") query
    let affected ← Action.ofCall (Scoped.within (Scoped.run (besideConsole action) callback))
    if 0 < affected then
      Console.success (Mailbox ω) (name.text ++ ": " ++ counted affected "message(s)")

end Mailroom.Program
