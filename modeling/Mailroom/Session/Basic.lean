import Mailroom.Label.Entity
import Mailroom.Message.Basic
import Mailroom.Remote.Service

/-! Sessions: a mailbox at work. A session keeps the directory of labels and the labels loaded so
far, and works with the service and the clock of the outside world. -/

namespace Mailroom

/-- How a session fetches and searches. -/
structure Settings where
  /-- Messages in a batch; without one, or with none in it, messages are fetched one by one. -/
  batchSize : Option Nat := some 100
  /-- The least time between the starts of two batches, in milliseconds. -/
  batchDelay : Rat := 1000
  /-- Whether operands are cut at the first blank. -/
  truncate : Bool := false
  /-- How many pages of a listing are read at most. -/
  pageBudget : Nat := 1000000
deriving Repr

/-- A mailbox at work. -/
structure Session (σ : Type) where
  outside : σ
  settings : Settings := {}
  directory : Label.Directory := .initial
  entities : Array Label.Entity := #[]
  /-- The address of the account, once it is known. -/
  email : Option String := none

/-- An operation of a session. -/
abbrev Op (σ α : Type) := Call (Session σ) α

namespace Session

open Label (Entity EntityRef NodeRef Directory)

variable {σ α : Type}

def onOutside (x : Call σ α) : Op σ α := ExceptT.mk fun s =>
  let (a, outside) := x.run s.outside
  (a, { s with outside })

/-- A use of the clock as an operation of the session. -/
def onClock (x : StateM σ α) : Op σ α := ExceptT.mk fun s =>
  let (a, outside) := x s.outside
  (.ok a, { s with outside })

/-- A loaded label. -/
def entity? (s : Session σ) (r : EntityRef) : Option Entity := s.entities[r.index]?

/-- The id of a loaded label. -/
def entityId (s : Session σ) (r : EntityRef) : String := ((s.entity? r).map Entity.id).getD ""

/-- The name of a loaded label. -/
def entityName (s : Session σ) (r : EntityRef) : String :=
  ((s.entity? r).map Entity.name).getD ""

def entityKind (s : Session σ) (r : EntityRef) : Label.Kind :=
  ((s.entity? r).map Entity.kind).getD .user

def modifyDirectory (f : Directory → Directory) : Op σ Unit :=
  modify fun s => { s with directory := f s.directory }

/-- The value of a result, or its failure. -/
def ofExcept (x : Except Failure α) : Op σ α :=
  match x with
  | .ok a => return a
  | .error f => throw f

/-- Whether a message carries a label of an id that is no category. -/
def carries (s : Session σ) (m : Message) (id : String) : Bool :=
  m.labels.any fun r => s.entityId r == id

def isIn (s : Session σ) (m : Message) (id : String) : Bool :=
  match m.category with
  | some r => s.entityId r == id
  | none => false

end Session

end Mailroom
