import Mailroom.Account.Stored
import Mailroom.Session.Connecting
import Mailroom.Terminal.Console

/-! The surroundings of a program, and what all commands share: a session that is connected for the
account of the surroundings, and labels looked up by what the user calls them. -/

namespace Mailroom.Program

open Remote (Client Wire)
open Terminal (Action Console)

/-- What a program finds when it starts. -/
structure Surroundings where
  home : String
  environment : Environment
  files : Files
  /-- The zone of local times. -/
  zone : Zone
  /-- Whether the output goes to a terminal. -/
  isTerminal : Bool := false
  /-- What is typed at the terminal, if the input comes from one. -/
  typed : Option String := none

/-- Whether the input comes from a terminal. -/
def Surroundings.isInteractive (s : Surroundings) : Bool := s.typed.isSome

/-- A mailbox over a wire. -/
abbrev Mailbox (ω : Type) := Session (Client ω)

/-- A command over a wire. -/
abbrev Command (ω α : Type) := Action (Mailbox ω) α

variable {ω : Type}

def configuration (s : Surroundings) : Command ω Configuration :=
  Action.ofExcept (Configuration.read s.home s.environment)

variable [Wire ω] [Clock ω]

/-- Connect the mailbox for the stored account. -/
def openMailbox (s : Surroundings) : Command ω Unit := do
  let c ← configuration s
  let _ ← Action.ofExcept (Access.of c s.files)
  modifyThe (Console (Mailbox ω)) fun console =>
    { console with world := { console.world with settings := c.settings } }
  Action.onWorld Session.connect

def nodeNamed (name : String) : Command ω Label.NodeRef :=
  Action.onWorld (Session.nodeByName name)

/-- The label with an id, or else with a name. -/
def findLabel (nameOrId : String) : Command ω Label.EntityRef := do
  let d := (← Action.world).directory
  let node ← match d.registry.getById nameOrId with
    | .ok r => pure r
    | .error _ => nodeNamed nameOrId
  Action.onWorld (Session.entity node)

/-- The label of the user with an id, or else with a name. -/
def findUserLabel (nameOrId : String) : Command ω Label.EntityRef := do
  let e ← findLabel nameOrId
  let s : Mailbox ω ← Action.world
  if s.entityKind e = .user then return e
  else Action.abort ("\"" ++ s.entityName e ++ "\" is not a user label")

end Mailroom.Program
