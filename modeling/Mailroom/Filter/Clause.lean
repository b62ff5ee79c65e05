import Mailroom.Filter.Attribute

/-! Clauses: predicates on attributes, joined by *and* and *or* and negated. Every predicate's
operator is one that its attribute's kind supports, so a clause that was built can be rendered but
for an operand that is no instant or a flag without a family. A bare attribute is a clause; only a
flag has a meaning by itself. -/

namespace Mailroom.Filter

/-- An attribute with an operator that its kind supports, an operand and a sign. -/
structure Predicate where
  attr : Attribute
  operator : Operator
  operand : Operand
  negated : Bool
  supported : operator ∈ attr.kind.operators

namespace Predicate

/-- The predicate of an attribute, an operator by name and an operand, each possibly missing. A
missing operand is reported first, then a missing operator, then one that the kind lacks. -/
def of (a : Attribute) (operator : Option String) (operand : Option Operand) (negated : Bool) :
    Except Failure Predicate :=
  match operand with
  | none => .error (.malformed a.label "operand is missing")
  | some v =>
    match operator with
    | none => .error (.malformed a.label "logical operator is missing")
    | some name =>
      match Operator.ofName? name with
      | none => .error (.invalidOperator name a.kind.name a.label)
      | some op =>
        if h : op ∈ a.kind.operators then .ok ⟨a, op, v, negated, h⟩
        else .error (.invalidOperator name a.kind.name a.label)

def not (p : Predicate) : Predicate := { p with negated := !p.negated }

/-- That a flag is set, or that it is not. -/
def ofFlag (name : String) (owner : Option String) (truth : Bool) : Predicate :=
  ⟨.flag name owner, if truth then .equal else .notEqual, .truth true, false, by
    cases truth <;> simp [Attribute.kind, AttributeKind.operators]⟩

end Predicate

/-- How two terms are joined. -/
inductive Junction
  | and
  | or
deriving DecidableEq, Repr

def Junction.name : Junction → String
  | and => "and"
  | or => "or"

/-- Predicates joined and negated. -/
inductive Term
  | leaf (predicate : Predicate)
  | node (left : Term) (junction : Junction) (right : Term) (negated : Bool)

def Term.not : Term → Term
  | leaf p => leaf p.not
  | node left junction right negated => node left junction right (!negated)

/-- A term or a bare attribute. -/
inductive Clause
  | bare (attr : Attribute)
  | term (term : Term)

namespace Clause

/-- The term that a clause stands for. A bare flag means that it is set; any other bare attribute
means nothing. -/
def resolve : Clause → Except Failure Term
  | term t => .ok t
  | bare (.flag name owner) => .ok (.leaf (.ofFlag name owner true))
  | bare a => .error (.unresolvable a.kind.name a.label)

/-- Two clauses joined; the left one is resolved first. -/
def join (left : Clause) (junction : Junction) (right : Clause) (negated : Bool) :
    Except Failure Term := do
  let l ← left.resolve
  let r ← right.resolve
  return .node l junction r negated

/-- The opposite clause: a bare flag is not set. -/
def not : Clause → Except Failure Clause
  | term t => .ok (term t.not)
  | bare (.flag name owner) => .ok (term (.leaf (.ofFlag name owner false)))
  | bare a => .error (.unresolvable a.kind.name a.label)

end Clause

namespace Attribute

/-- The predicate of an attribute with an operator; for a flag the operand says whether the test
is turned round, and a missing one counts as true. -/
def test (a : Attribute) (op : Operator) (operand : Option Operand) : Except Failure Predicate :=
  match a, op with
  | .flag name owner, .equal =>
    .ok (.ofFlag name owner ((operand.map Operand.isTruthy).getD true))
  | .flag name owner, .notEqual =>
    .ok (.ofFlag name owner (!(operand.map Operand.isTruthy).getD true))
  | a, op => Predicate.of a (some op.name) operand false

end Attribute

end Mailroom.Filter
