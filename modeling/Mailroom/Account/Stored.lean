import Mailroom.Account.Configuration
import Mailroom.Account.Shape
import Mailroom.Calendar.Instant
import Mailroom.Data.Reading

/-! The stored account: an address and tokens in a file. A file is checked in full before anything
is taken from it, and the failure of one that does not suit lists every issue. -/

namespace Mailroom

/-- The tokens of an account. A field that is missing stays missing, and one that is null stays
null. -/
structure Tokens where
  access : Option (Option String) := none
  refresh : Option (Option String) := none
  expiry : Option (Option Number) := none
  type : Option (Option String) := none
  identity : Option (Option String) := none
  scope : Option String := none
deriving DecidableEq, Repr

/-- An account as it is stored. -/
structure StoredAccount where
  email : String
  tokens : Tokens
deriving DecidableEq, Repr

/-- The files of a system: the contents of those that exist. -/
abbrev Files := String → Option String

namespace Tokens

def issues (v : Value) : List Issue :=
  let at_ (name : String) : List String := ["tokens", name]
  Shape.text Shape.nullish (at_ "access_token") (v.field? "access_token")
    ++ Shape.text Shape.nullish (at_ "refresh_token") (v.field? "refresh_token")
    ++ Shape.number Shape.nullish (at_ "expiry_date") (v.field? "expiry_date")
    ++ Shape.text Shape.nullish (at_ "token_type") (v.field? "token_type")
    ++ Shape.text Shape.nullish (at_ "id_token") (v.field? "id_token")
    ++ Shape.text Shape.optional (at_ "scope") (v.field? "scope")

/-- The tokens that data without issues describes. -/
def ofValue (v : Value) : Tokens where
  access := (v.field? "access_token").map Value.asText?
  refresh := (v.field? "refresh_token").map Value.asText?
  expiry := (v.field? "expiry_date").map Value.asNumber?
  type := (v.field? "token_type").map Value.asText?
  identity := (v.field? "id_token").map Value.asText?
  scope := v.textAt? "scope"

def toValue (t : Tokens) : Value :=
  .recordOf [("access_token", t.access.map .ofText?), ("refresh_token", t.refresh.map .ofText?),
    ("expiry_date", t.expiry.map fun n => (n.map Value.num).getD .null),
    ("token_type", t.type.map .ofText?), ("id_token", t.identity.map .ofText?),
    ("scope", t.scope.map .str)]

def isUsable (token : Option (Option String)) : Bool :=
  match token with
  | some (some s) => !s.isEmpty
  | _ => false

/-- The number of milliseconds at which the access token expires; zero is none. -/
def expiryTime? (t : Tokens) : Option Number := (t.expiry.getD none).filter Number.isTruthy

end Tokens

namespace StoredAccount

def issues (v : Value) : List Issue :=
  Shape.record [] (some v) fun v =>
    Shape.text Shape.required ["email"] (v.field? "email")
      ++ Shape.record ["tokens"] (v.field? "tokens") Tokens.issues

/-- The reason given for a file that is not written in the data format. -/
def syntaxReason : String := "<JSON syntax>"

def read (files : Files) (file : String) : Except Failure StoredAccount :=
  match files file with
  | none => .error (.notFound ("token file " ++ file))
  | some content =>
    match Value.read? content with
    | none => .error (.parse file syntaxReason)
    | some v =>
      match issues v with
      | [] => .ok ⟨(v.textAt? "email").getD "", .ofValue (v.get "tokens")⟩
      | found => .error (.parse file (Issue.report found))

def toValue (a : StoredAccount) : Value :=
  .obj [("email", .str a.email), ("tokens", a.tokens.toValue)]

end StoredAccount

/-- What is needed to act for an account. -/
structure Access where
  email : String
  clientId : String
  clientSecret : Option String
  tokens : Tokens
deriving DecidableEq, Repr

namespace Access

def of (c : Configuration) (files : Files) : Except Failure Access :=
  match StoredAccount.read files c.tokenFile with
  | .error (.notFound _) => .error (.notFound ("stored credentials (" ++ c.tokenFile ++ ")"))
  | .error f => .error f
  | .ok account =>
    if !Tokens.isUsable account.tokens.refresh && !Tokens.isUsable account.tokens.access then
      .error (.validation c.tokenFile "holds neither an access_token nor a refresh_token")
    else
      match c.clientId.filter (!·.isEmpty) with
      | none => .error (.validation "MAILQUERY_CLIENT_ID" "not set")
      | some clientId => .ok ⟨account.email, clientId, c.clientSecret, account.tokens⟩

def toValue (a : Access) : Value :=
  .obj [("email", .str a.email), ("clientId", .str a.clientId),
    ("clientSecret", .ofText? a.clientSecret), ("credentials", a.tokens.toValue)]

end Access

end Mailroom
