import Mailroom.Data.Table
import Mailroom.Failure
import Mailroom.Number.Reading
import Mailroom.Session.Basic

/-! The configuration: what the variables of the environment say. A variable that is not set has
its plain value; the first one that is set wrongly is refused by name. -/

namespace Mailroom

/-- The variables of an environment by name. -/
abbrev Environment := Table String String

/-- What the environment configures. -/
structure Configuration where
  /-- Messages in a batch; zero fetches them one by one. -/
  batchSize : Nat
  /-- Milliseconds between the starts of two batches. -/
  batchDelay : Nat
  truncate : Bool
  tokenFile : String
  clientId : Option String
  clientSecret : Option String
deriving DecidableEq, Repr

namespace Configuration

/-- The greatest integer that numbers count to without gaps. -/
def greatestCount : Int := 9007199254740991

/-- The count that a text writes, or what is wrong with it. -/
def count (written : String) : Except String Nat :=
  let n := Number.read written
  match n, n.truncate? with
  | .nan, _ => .error "Invalid input: expected number, received NaN"
  | _, none => .error "Invalid input: expected number, received Infinity"
  | n, some i =>
    if !n.isInteger then .error "Invalid input: expected int, received number"
    else if greatestCount < i then .error "Too big: expected int to be <=9007199254740991"
    else if i < -greatestCount then .error "Too small: expected int to be >=-9007199254740991"
    else if i < 0 then .error "Too small: expected number to be >=0"
    else .ok i.toNat

/-- A text that is not empty, or what is wrong with it. -/
def filled (written : String) : Except String String :=
  if written.isEmpty then .error "Too small: expected string to have >=1 characters"
  else .ok written

/-- The value of a variable, if it is set. -/
def setting {α : Type} (env : Environment) (name : String) (read : String → Except String α) :
    Except Failure (Option α) :=
  match env.get? name with
  | none => .ok none
  | some written =>
    match read written with
    | .ok a => .ok (some a)
    | .error reason => .error (.validation name reason)

/-- Whether a variable is switched on. -/
def isOn (env : Environment) (name : String) : Bool :=
  match env.get? name with
  | some written => ["1", "true", "yes"].contains written
  | none => false

def defaultTokenFile (home : String) : String := home ++ "/.mailquery/token.json"

def read (home : String) (env : Environment) : Except Failure Configuration := do
  let batchSize ← setting env "MAILQUERY_BATCH_SIZE" count
  let batchDelay ← setting env "MAILQUERY_BATCH_DELAY_MS" count
  let tokenFile ← setting env "MAILQUERY_TOKEN_FILE" filled
  let clientId ← setting env "MAILQUERY_CLIENT_ID" filled
  let clientSecret ← setting env "MAILQUERY_CLIENT_SECRET" filled
  return {
    batchSize := batchSize.getD 100
    batchDelay := batchDelay.getD 1000
    truncate := isOn env "MAILQUERY_TRUNCATE_OPERANDS"
    tokenFile := tokenFile.getD (defaultTokenFile home)
    clientId
    clientSecret }

def settings (c : Configuration) : Settings where
  batchSize := some c.batchSize
  batchDelay := c.batchDelay
  truncate := c.truncate

def toValue (c : Configuration) : Value :=
  .obj [("batchSize", .ofNat c.batchSize), ("batchDelayMs", .ofNat c.batchDelay),
    ("truncateOperands", .bool c.truncate), ("tokenFile", .str c.tokenFile),
    ("clientId", .ofText? c.clientId), ("clientSecret", .ofText? c.clientSecret)]

end Configuration

end Mailroom
