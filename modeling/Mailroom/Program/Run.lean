import Mailroom.Program.Bulk

/-! The program: its commands by the words that name them, and a run of it from its arguments to
what it prints and the status it ends with. -/

namespace Mailroom.Program

open Remote (Client Wire)
open Terminal (Action Console)

variable {ω : Type} [Wire ω] [Clock ω]

/-- Show the account of the token file. -/
def whoami (s : Surroundings) : Command ω Unit := do
  let c ← configuration s
  match StoredAccount.read s.files c.tokenFile with
  | .error f => Console.hint (Mailbox ω) ("No usable credentials: " ++ f.message)
  | .ok account =>
    let expires ← match account.tokens.expiryTime? with
      | none => pure "unknown"
      | some n =>
        match n.truncate?.bind Instant.ofMs? with
        | some t => pure t.text
        | none => Action.fail .invalidTime
    Console.document (Mailbox ω) (.obj [("email", .str account.email), ("expires", .str expires),
      ("token_file", .str c.tokenFile)])

def commands : List (Usage × (Surroundings → Arguments → Command ω Unit)) :=
  [(⟨["whoami"], [], []⟩, fun s _ => whoami s),
    (⟨["mail", "search"], [], filterParameters ++ [switch "print-query"]⟩, mailSearch),
    (⟨["mail", "show"], ["messageId"], []⟩, mailShow),
    (⟨["bulk"], ["action"], filterParameters ++ [{ name := "target" }, switch "commit"]⟩, bulk),
    (⟨["label", "list"], [], []⟩, fun s _ => labelList s),
    (⟨["label", "tree"], [], []⟩, fun s _ => labelTree s),
    (⟨["label", "get"], ["name"], []⟩, labelGet),
    (⟨["label", "create"], ["name"],
      [{ name := "bg-color" }, { name := "text-color" },
        { name := "visibility", choices := ["labelShow", "labelShowIfUnread", "labelHide"] }]⟩,
      labelCreate),
    (⟨["label", "rename"], ["name", "newName"], []⟩, labelRename),
    (⟨["label", "delete"], ["name"], [switch "recursive", switch "force"]⟩, labelDelete)]

/-- What is left of a call behind the words of a command. -/
def afterWords? : List String → List String → Option (List String)
  | [], rest => some rest
  | word :: words, argument :: rest => if argument = word then afterWords? words rest else none
  | _ :: _, [] => none

/-- The failure of a call that does not suit. -/
def misuse (reason : String) : Failure := .escaped (.ofMessage reason)

/-- The command of a call, and the name under which its help is found. -/
def commandOf (s : Surroundings) (arguments : List String) : String × Command ω Unit :=
  let found := (commands : List (Usage × (Surroundings → Arguments → Command ω Unit))).findSome?
    fun entry => (afterWords? entry.1.words arguments).map fun rest => (entry, rest)
  match found with
  | none => ("mailquery", Action.fail (misuse ("Unknown command: " ++ " ".intercalate arguments)))
  | some ((usage, command), rest) =>
    ("mailquery " ++ usage.name, match Arguments.readAll usage rest with
      | .ok a => command s a
      | .error reason => Action.fail (misuse reason))

/-- What a run prints and ends with. -/
structure Outcome (ω : Type) where
  output : String
  errors : String
  status : Nat
  wire : ω

def run (s : Surroundings) (wire : ω) (arguments : List String) : Outcome ω :=
  let console : Console (Mailbox ω) :=
    { world := Session.onWire wire {}
      isTerminal := s.isTerminal
      typed := s.typed.map String.toList }
  let (help, command) := commandOf s arguments
  let (result, console) := command.run console
  let (status, console) := Action.status help result console
  ⟨console.output, console.errors, status, console.world.outside.wire⟩

end Mailroom.Program
