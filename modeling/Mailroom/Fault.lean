import Mailroom.Data.Value
import Mailroom.Text.Split

/-! Faults: what a call to the outside raised instead of answering. A fault is an error with a
name, a message and details, or any bare value. Its status and its list of details decide whether
it is a passing shortage of quota or a matter of authorization. Any value may stand for the list:
where it is none, or a detail is null, looking for a reason raises a fault of its own. -/

namespace Mailroom

/-- What a call to the outside raised. -/
inductive Fault
  | error (name message : String) (details : List (String × Value))
  | bare (value : Value)
deriving Repr, BEq, Inhabited

namespace Fault

/-- An error with a message alone. -/
def ofMessage (message : String) : Fault := error "Error" message []

/-- The error of a value that is used as what it is not. -/
def ofMisuse (message : String) : Fault := error "TypeError" message []

/-- The fault that data describes: a record with a message is an error, whose other fields are its
details. -/
def ofValue (v : Value) : Fault :=
  match v.field? "message" with
  | some message =>
    let name := (v.textAt? "name").getD ""
    error (if name.isEmpty then "Error" else name) message.text
      (v.fields.filter fun entry => entry.1 != "message")
  | none => bare v

/-- The fault as data. The wording for a misused value is not part of it. -/
def toValue : Fault → Value
  | error "TypeError" _ _ => .obj [("error", .str "TypeError")]
  | error name message _ => .obj [("error", .str name), ("message", .str message)]
  | bare v => .obj [("thrown", v)]

def detail? : Fault → String → Option Value
  | error _ _ details, name => (Value.obj details).given? name
  | bare v, name => v.given? name

/-- The name and the message of an error, or the text of a bare value. A field that would give the
fault another text, such as a `toString` of its own, is not looked at. -/
def text : Fault → String
  | error name message _ => if message.isEmpty then name else name ++ ": " ++ message
  | bare v => v.text

/-- The status: the fault's code, else its own status, else the status of the response. -/
def status? (f : Fault) : Option Value :=
  (f.detail? "code").or ((f.detail? "status").or ((f.detail? "response").bind (·.given? "status")))

def hasStatus (f : Fault) (code : Nat) : Bool :=
  match f.status? with
  | some (.num n) => n.same (.ofNat code)
  | _ => false

def quotaReasons : List String :=
  ["userRateLimitExceeded", "rateLimitExceeded", "quotaExceeded", "dailyLimitExceeded",
    "limitExceeded", "backendError"]

/-- The details listed by the fault, or else by the body of the response. -/
def listed? (f : Fault) : Option Value :=
  (f.detail? "errors").or do
    let response ← f.detail? "response"
    let body ← response.given? "data"
    let error ← body.given? "error"
    error.given? "errors"

/-- Whether a detail gives a reason of quota; null cannot be asked for one. -/
def givesQuota : Value → Except Fault Bool
  | .null => .error (ofMisuse "Cannot read properties of null (reading 'reason')")
  | detail => .ok ((detail.textAt? "reason").any quotaReasons.contains)

/-- Whether one of the details gives a reason of quota. They are asked one after another, up to the
first that does; what is no list has none to ask. -/
def listsQuota : Value → Except Fault Bool
  | .arr details => details.anyM givesQuota
  | _ => .error (ofMisuse "errors.some is not a function")

/-- Whether the fault is a passing one of quota: status 429, or 403 with a reason of quota. -/
def isRateLimit (f : Fault) : Except Fault Bool :=
  if f.hasStatus 429 then .ok true
  else if f.hasStatus 403 then
    match f.listed? with
    | some details => listsQuota details
    | none => .ok false
  else .ok false

def authorizationTexts : List String := ["Invalid credentials", "Unauthorized", "invalid_grant"]

/-- Whether the fault is a matter of authorization: status 401, 403 without a reason of quota, or
one of the known texts. -/
def isAuthorization (f : Fault) : Except Fault Bool :=
  let isNamed := authorizationTexts.any (Text.contains f.text)
  if f.hasStatus 401 then .ok true
  else if f.hasStatus 403 then f.isRateLimit.map fun isShort => !isShort || isNamed
  else .ok isNamed

end Fault

end Mailroom
