import Mailroom.Filter.Clause
import Mailroom.Text.Blank

/-! The search text of a clause. A test for equality quotes its operand, one for containment does
not; a minus sign negates; round brackets join by *and*, braces by *or*. -/

namespace Mailroom.Filter

/-- How clauses are rendered. -/
structure RenderOptions where
  /-- Cut the operands of equatable attributes at the first blank. -/
  truncate : Bool := false
deriving DecidableEq, Repr

/-- The operand of an equatable attribute as text. -/
def Operand.render (options : RenderOptions) (v : Operand) : Except Failure String := do
  let text ← match v with
    | text s => pure s
    | number n => pure n.text
    | truth b => pure (truthText b)
    | moment (some t) => pure t.text
    | moment none => throw .invalidTime
  return if options.truncate then Text.firstWord text else text

/-- The sign in front of a term. -/
def sign (negative : Bool) : String := if negative then "-" else ""

/-- The search text of a predicate. -/
def Predicate.render (options : RenderOptions) (p : Predicate) : Except Failure String :=
  match p.attr with
  | .equatable name _ => do
    let value ← p.operand.render options
    let minus := sign (p.negated != (p.operator == .notEqual))
    if p.operator = .contains then return minus ++ name ++ ":" ++ value
    else return minus ++ name ++ ":\"" ++ value ++ "\""
  | .comparable name _ coerce =>
    let keyword := if p.operator = .greater then name.greater else name.less
    return sign p.negated ++ keyword ++ ":" ++ coerce p.operand
  | .flag name (some owner) =>
    return sign ((p.operator == .equal) == p.negated) ++ owner ++ ":" ++ name
  | .flag name none => throw (.unresolvable AttributeKind.flag.name name)
  | .enumerative name _ =>
    throw (.invalidOperator p.operator.name AttributeKind.enumerative.name name)

def Junction.brackets : Junction → String × String
  | and => ("(", ")")
  | or => ("\x7b", "\x7d")

/-- The search text of a term. -/
def Term.render (options : RenderOptions) : Term → Except Failure String
  | leaf p => p.render options
  | node left junction right negated => do
    let l ← left.render options
    let r ← right.render options
    let (opening, closing) := junction.brackets
    return sign negated ++ opening ++ l ++ " " ++ r ++ closing

/-- The search text of a clause. -/
def Clause.compile (options : RenderOptions) (c : Clause) : Except Failure String := do
  let t ← c.resolve
  t.render options

end Mailroom.Filter
