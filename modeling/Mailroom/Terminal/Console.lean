import Mailroom.Remote.Service
import Mailroom.Terminal.Highlight
import Mailroom.Yaml.Document

/-! The console: what a program prints, beside the world that it works on. Data goes to the output
as a document, everything else to the error stream. An action ends in a value, early with a status,
or with a failure that nobody answered for. -/

namespace Mailroom.Terminal

/-- The world beside what is printed so far. -/
structure Console (σ : Type) where
  world : σ
  /-- Whether the output goes to a terminal. -/
  isTerminal : Bool := false
  /-- What is typed at the terminal, if the input comes from one. -/
  typed : Option (List Char) := none
  output : String := ""
  errors : String := ""

namespace Console

variable {σ α : Type} {m : Type → Type} [Monad m] [MonadStateOf (Console σ) m]

/-- Print to the output. -/
def write (σ : Type) [MonadStateOf (Console σ) m] (text : String) : m Unit :=
  modifyThe (Console σ) fun c => { c with output := c.output ++ text }

/-- Print to the error stream. -/
def writeError (σ : Type) [MonadStateOf (Console σ) m] (text : String) : m Unit :=
  modifyThe (Console σ) fun c => { c with errors := c.errors ++ text }

/-- Print a value as a document, highlighted on a terminal. -/
def document (σ : Type) [MonadStateOf (Console σ) m] (v : Value) : m Unit := do
  let isTerminal := (← getThe (Console σ)).isTerminal
  let text := Yaml.document v
  write σ (if isTerminal then highlight text else text)

/-- Print items as a document, with their total if it is given. -/
def list (σ : Type) [MonadStateOf (Console σ) m] (items : List Value) (total : Option Value) :
    m Unit :=
  document σ (.recordOf [("items", some (.arr items)), ("total", total)])

/-- Print a remark. -/
def hint (σ : Type) [MonadStateOf (Console σ) m] (text : String) : m Unit :=
  writeError σ (dim.apply ("# " ++ text) ++ "\n")

/-- Print that something was done. -/
def success (σ : Type) [MonadStateOf (Console σ) m] (text : String) : m Unit :=
  writeError σ (green.apply text ++ "\n")

/-- Print that something went wrong. -/
def complain (σ : Type) [MonadStateOf (Console σ) m] (text : String) : m Unit :=
  writeError σ (red.apply text ++ "\n")

def isYes (answer : List Char) : Bool :=
  let answer := Text.trim (String.ofList answer)
  answer == "y" || answer == "Y"

def endsLine (c : Char) : Bool := c == '\n' || c == '\r'

/-- Ask a question that is answered by yes or no. Without a terminal the answer is no. -/
def confirm (σ : Type) [MonadStateOf (Console σ) m] (question : String) : m Bool := do
  match (← getThe (Console σ)).typed with
  | none => return false
  | some typed =>
    writeError σ (question ++ " [y/N] ")
    modifyThe (Console σ) fun c =>
      { c with typed := some (typed.dropWhile fun c => !endsLine c).tail }
    return isYes (typed.takeWhile fun c => !endsLine c)

def onWorld (x : Call σ α) : Call (Console σ) α := ExceptT.mk fun c =>
  let (a, world) := x.run c.world
  (a, { c with world })

end Console

/-- Why an action ends before its end. -/
inductive Halt
  | exit (status : Nat)
  | raised (failure : Failure)
deriving Repr

abbrev Action (σ α : Type) := ExceptT Halt (StateM (Console σ)) α

namespace Action

variable {σ α : Type}

/-- Print that something went wrong and end. -/
def abort (text : String) : Action σ α := do
  Console.complain σ text
  throw (.exit 1)

/-- Print a failure and end. A failure of authorization says where to look. -/
def giveUp (f : Failure) : Action σ α :=
  match f with
  | .auth .. => abort (f.message ++ ". Check the credentials in MAILQUERY_TOKEN_FILE")
  | f => abort f.message

/-- End with a failure: one of a known kind is printed, any other is left to whoever runs the
action. -/
def fail (f : Failure) : Action σ α :=
  if f.kind?.isSome then giveUp f else throw (.raised f)

/-- The value of a result, or its failure. -/
def ofExcept (x : Except Failure α) : Action σ α :=
  match x with
  | .ok a => return a
  | .error f => fail f

def ofCall (x : Call (Console σ) α) : Action σ α := do
  match ← (x.run : StateM (Console σ) (Except Failure α)) with
  | .ok a => return a
  | .error f => fail f

def onWorld (x : Call σ α) : Action σ α := ofCall (Console.onWorld x)

def world : Action σ σ := return (← getThe (Console σ)).world

/-- The status that a program ends with; what nobody answered for is printed last, with where to
find help. -/
def status (help : String) : Except Halt α → StateM (Console σ) Nat
  | .ok _ => return 0
  | .error (.exit status) => return status
  | .error (.raised f) => do
    Console.writeError σ (red.apply (bold.apply "error:") ++ " " ++ f.message ++ "\n\n"
      ++ "Run \"" ++ help ++ " --help\" for usage information.\n")
    return 1

end Action

end Mailroom.Terminal
