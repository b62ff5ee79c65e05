import Mailroom.Fault

/-! Failures: what an operation answers instead of its result. Most are of a kind with a message
template; the template's fields are filled in once, and what is filled in is not filled again. -/

namespace Mailroom

namespace Failure

/-- Kinds of failure that have a message template. -/
inductive Kind
  | auth
  | api
  | notFound
  | parse
  | validation
  | typeMismatch
  | invalidOperator
  | unresolvable
  | malformed
deriving DecidableEq, Repr

def Kind.all : List Kind :=
  [.auth, .api, .notFound, .parse, .validation, .typeMismatch, .invalidOperator, .unresolvable,
    .malformed]

def Kind.name : Kind → String
  | auth => "AuthError"
  | api => "ApiError"
  | notFound => "NotFoundError"
  | parse => "ParseError"
  | validation => "ValidationError"
  | typeMismatch => "TypeMismatchError"
  | invalidOperator => "InvalidOperatorError"
  | unresolvable => "UnresolvableAttributeError"
  | malformed => "MalformedExpressionError"

def Kind.ofName? (name : String) : Option Kind := Kind.all.find? fun k => k.name == name

/-- A piece of a message template. -/
inductive Piece
  | text (text : String)
  | field (name : String)

def Kind.template : Kind → List Piece
  | auth => [.text "Authentication failed for ", .field "email", .text ": ", .field "reason"]
  | api => [.text "API call failed: ", .field "reason"]
  | notFound => [.field "resource", .text " not found"]
  | parse => [.text "Failed to parse ", .field "what", .text ": ", .field "reason"]
  | validation => [.text "Invalid ", .field "field", .text ": ", .field "reason"]
  | typeMismatch =>
    [.text "Cannot test ", .field "actual", .text " for membership in ", .field "container",
      .text ", expected one of: ", .field "expected"]
  | invalidOperator =>
    [.text "Invalid operator '", .field "operator", .text "' for ", .field "kind",
      .text " attribute '", .field "attribute", .text "'"]
  | unresolvable =>
    [.text "Cannot resolve ", .field "kind", .text " attribute '", .field "attribute",
      .text "' without using it as part of a boolean expression"]
  | malformed =>
    [.text "Cannot filter '", .field "attribute", .text "': ", .field "reason"]

/-- The message of a kind with the fields that are given; a field that is not given stays as its
name behind a dollar sign. -/
def Kind.message (k : Kind) (given : List (String × String)) : String :=
  String.join (k.template.map fun
    | .text s => s
    | .field name => (given.lookup name).getD ("$" ++ name))

end Failure

/-- Why an operation has no result. -/
inductive Failure
  | auth (email reason : String)
  | api (reason : String)
  | notFound (resource : String)
  | parse (what reason : String)
  | validation (field reason : String)
  | typeMismatch (actual container expected : String)
  | invalidOperator (operator kind attr : String)
  | unresolvable (kind attr : String)
  | malformed (attr reason : String)
  /-- An instant was asked for its text but is none. -/
  | invalidTime
  /-- A fault that no layer took for its own. -/
  | escaped (fault : Fault)
  /-- An action failed on the way out of a callback that had failed itself. -/
  | afterCallback (causes : List Failure)
deriving Repr, BEq, Inhabited

namespace Failure

/-- The kind, if the failure is of one. -/
def kind? : Failure → Option Kind
  | auth .. => some .auth
  | api .. => some .api
  | notFound .. => some .notFound
  | parse .. => some .parse
  | validation .. => some .validation
  | typeMismatch .. => some .typeMismatch
  | invalidOperator .. => some .invalidOperator
  | unresolvable .. => some .unresolvable
  | malformed .. => some .malformed
  | invalidTime => none
  | escaped _ => none
  | afterCallback _ => none

def message : Failure → String
  | auth email reason => Kind.auth.message [("email", email), ("reason", reason)]
  | api reason => Kind.api.message [("reason", reason)]
  | notFound resource => Kind.notFound.message [("resource", resource)]
  | parse what reason => Kind.parse.message [("what", what), ("reason", reason)]
  | validation field reason => Kind.validation.message [("field", field), ("reason", reason)]
  | typeMismatch actual container expected =>
    Kind.typeMismatch.message
      [("actual", actual), ("container", container), ("expected", expected)]
  | invalidOperator operator kind attr =>
    Kind.invalidOperator.message
      [("operator", operator), ("kind", kind), ("attribute", attr)]
  | unresolvable kind attr =>
    Kind.unresolvable.message [("kind", kind), ("attribute", attr)]
  | malformed attr reason =>
    Kind.malformed.message [("attribute", attr), ("reason", reason)]
  | invalidTime => "Invalid time value"
  | escaped (.error _ message _) => message
  | escaped (.bare v) => v.text
  | afterCallback _ => "Bulk action failed after its callback threw"

def name : Failure → String
  | invalidTime => "RangeError"
  | escaped (.error name _ _) => name
  | afterCallback _ => "AggregateError"
  | f => (f.kind?.map Kind.name).getD "Error"

/-- The name and the wording of a failure as fields of data. -/
def named (f : Failure) : List (String × Value) :=
  [("error", .str f.name), ("message", .str f.message)]

mutual

def toValue : Failure → Value
  | escaped fault => fault.toValue
  | afterCallback causes =>
    .obj (named (afterCallback causes) ++ [("errors", .arr (toValues causes))])
  | f => .obj (named f)

def toValues : List Failure → List Value
  | [] => []
  | f :: rest => f.toValue :: toValues rest

end

end Failure

end Mailroom
