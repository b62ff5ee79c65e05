import Mailroom.Filter.Rendering

/-! Clauses are checked when they are built. A clause is built by calls of two constructors, of a
predicate and of two terms joined, each with its own grounds for a refusal; building fails at the
first call that is refused. A clause that was built has only predicates with operators that their
attributes support, so compiling it fails for two reasons that no call could see: a flag without a
family, and an operand that is no instant where its text is wanted. A bare attribute that is no flag
is a clause without a meaning. The first leaf that has one of these flaws decides. -/

namespace Mailroom.Filter

/-! ### Failing at the first of some steps -/

section First

variable {α β γ : Type} {flaw : α → Failure → Prop} {steps more : List α} {failure : Failure}

/-- The failure of the first step that has one. -/
def First (flaw : α → Failure → Prop) (steps : List α) (failure : Failure) : Prop :=
  ∃ before step after, steps = before ++ step :: after ∧
    (∀ earlier ∈ before, ∀ other, ¬flaw earlier other) ∧ flaw step failure

/-- A result that is the failure of the first flawed step, and no failure if no step is flawed. -/
def FailsAt (flaw : α → Failure → Prop) (steps : List α) : Except Failure β → Prop
  | .ok _ => ∀ step ∈ steps, ∀ failure, ¬flaw step failure
  | .error failure => First flaw steps failure

theorem First.append (h : First flaw steps failure) (more : List α) :
    First flaw (steps ++ more) failure := by
  obtain ⟨before, step, after, rfl, hbefore, hstep⟩ := h
  exact ⟨before, step, after ++ more, by simp, hbefore, hstep⟩

theorem First.behind (hsteps : ∀ step ∈ steps, ∀ other, ¬flaw step other)
    (h : First flaw more failure) : First flaw (steps ++ more) failure := by
  obtain ⟨before, step, after, rfl, hbefore, hstep⟩ := h
  exact ⟨steps ++ before, step, after, by simp, List.forall_mem_append.mpr ⟨hsteps, hbefore⟩, hstep⟩

theorem First.exists_mem (h : First flaw steps failure) : ∃ step ∈ steps, flaw step failure := by
  obtain ⟨before, step, after, rfl, -, hstep⟩ := h
  exact ⟨step, by simp, hstep⟩

variable {x : Except Failure β} {f : β → Except Failure γ}

theorem exists_of_bind_eq_ok {c : γ} (h : x >>= f = .ok c) : ∃ b, x = .ok b ∧ f b = .ok c := by
  cases x with
  | ok b => exact ⟨b, rfl, h⟩
  | error failure => cases h

namespace FailsAt

theorem nothing (b : β) : FailsAt flaw [] (.ok b : Except Failure β) := by simp [FailsAt]

theorem one {step : α} (h : ∀ failure, x = .error failure ↔ flaw step failure) :
    FailsAt flaw [step] x := by
  cases x with
  | ok b =>
    simp only [FailsAt, List.mem_singleton, forall_eq]
    exact fun failure hflaw => nomatch (h failure).mpr hflaw
  | error failure => exact ⟨[], step, [], rfl, by simp, (h failure).mp rfl⟩

/-- Steps behind those of a first part, which are taken if it succeeds. -/
theorem bind (h : FailsAt flaw steps x) (hnext : ∀ b, x = .ok b → FailsAt flaw more (f b)) :
    FailsAt flaw (steps ++ more) (x >>= f) := by
  cases x with
  | error failure => exact First.append h more
  | ok b =>
    have hmore := hnext b rfl
    change FailsAt flaw (steps ++ more) (f b)
    cases hf : f b with
    | error failure =>
      rw [hf] at hmore
      exact First.behind h hmore
    | ok c =>
      rw [hf] at hmore
      exact List.forall_mem_append.mpr ⟨h, hmore⟩

/-- A last part that does not fail. -/
theorem thenOk (h : FailsAt flaw steps x) (hnext : ∀ b, x = .ok b → ∃ c, f b = .ok c) :
    FailsAt flaw steps (x >>= f) := by
  rw [← List.append_nil steps]
  refine h.bind fun b hb => ?_
  obtain ⟨c, hc⟩ := hnext b hb
  rw [hc]
  exact nothing c

end FailsAt

end First

/-! ### Constructors -/

/-- The bare attribute that a clause is. -/
def Clause.bare? : Clause → Option Attribute
  | bare a => some a
  | term _ => none

/-- A call of a constructor with what it receives: of a predicate, or of two terms joined, each of
which may be a bare attribute. -/
inductive Construction
  | predicate (attr : Attribute) (operator : Option String) (operand : Option Operand)
  | junction (left right : Option Attribute)

/-- The grounds on which a constructor refuses what it receives. -/
inductive Construction.Refused : Construction → Failure → Prop
  | operand {a : Attribute} {operator : Option String} :
      Refused (.predicate a operator none) (.malformed a.label "operand is missing")
  | operator {a : Attribute} {v : Operand} :
      Refused (.predicate a none (some v)) (.malformed a.label "logical operator is missing")
  | unsupported {a : Attribute} {name : String} {v : Operand} :
      (∀ op ∈ a.kind.operators, name ≠ op.name) →
      Refused (.predicate a (some name) (some v)) (.invalidOperator name a.kind.name a.label)
  | left {a : Attribute} {right : Option Attribute} : a.kind ≠ .flag →
      Refused (.junction (some a) right) (.unresolvable a.kind.name a.label)
  | right {left : Option Attribute} {a : Attribute} : (∀ b ∈ left, b.kind = .flag) →
      a.kind ≠ .flag → Refused (.junction left (some a)) (.unresolvable a.kind.name a.label)

theorem Operator.ofName?_eq_some_iff {name : String} {op : Operator} :
    ofName? name = some op ↔ name = op.name := by
  constructor
  · intro h
    have hname := List.find?_some h
    exact (beq_iff_eq.mp hname).symm
  · rintro rfl
    cases op <;> decide

/-- What the constructor of a predicate refuses. -/
theorem Predicate.of_eq_error_iff (a : Attribute) (operator : Option String)
    (operand : Option Operand) (negated : Bool) (failure : Failure) :
    Predicate.of a operator operand negated = .error failure ↔
      (Construction.predicate a operator operand).Refused failure := by
  cases operand with
  | none =>
    refine ⟨fun h => ?_, fun h => ?_⟩
    · cases h
      exact .operand
    · cases h
      rfl
  | some v =>
    cases operator with
    | none =>
      refine ⟨fun h => ?_, fun h => ?_⟩
      · cases h
        exact .operator
      · cases h
        rfl
    | some name =>
      simp only [Predicate.of]
      constructor
      · intro h
        split at h
        case h_1 hunknown =>
          cases h
          refine .unsupported fun op _ hname => ?_
          rw [Operator.ofName?_eq_some_iff.mpr hname] at hunknown
          cases hunknown
        case h_2 op hop =>
          split at h
          case isTrue => cases h
          case isFalse hlacking =>
            cases h
            refine .unsupported fun other hother hname => ?_
            rw [Operator.ofName?_eq_some_iff.mpr hname] at hop
            obtain rfl := Option.some.inj hop
            exact hlacking hother
      · rintro (_ | _ | h | _ | _)
        split
        case h_1 => rfl
        case h_2 op hop =>
          exact dif_neg fun hsupported => h op hsupported (Operator.ofName?_eq_some_iff.mp hop)

/-- What the constructor of a predicate makes of what it does not refuse. -/
theorem Predicate.of_eq_ok_iff (a : Attribute) (operator : Option String)
    (operand : Option Operand) (negated : Bool) (p : Predicate) :
    Predicate.of a operator operand negated = .ok p ↔ p.attr = a ∧
      operator = some p.operator.name ∧ operand = some p.operand ∧ p.negated = negated := by
  constructor
  · intro h
    unfold Predicate.of at h
    split at h
    · cases h
    · split at h
      · cases h
      · split at h
        · cases h
        · next op hop =>
          split at h <;> cases h
          exact ⟨rfl, congrArg some (Operator.ofName?_eq_some_iff.mp hop), rfl, rfl⟩
  · obtain ⟨attr, op, v, sign, hsupported⟩ := p
    rintro ⟨rfl, rfl, rfl, rfl⟩
    simp only [Predicate.of]
    split
    case h_1 hunknown => exact absurd hunknown (by cases op <;> decide)
    case h_2 other hother =>
      obtain rfl : op = other := by
        rw [Operator.ofName?_eq_some_iff.mpr rfl] at hother
        exact Option.some.inj hother
      exact dif_pos hsupported

theorem Clause.resolve_eq_error_iff {c : Clause} {failure : Failure} :
    c.resolve = .error failure ↔
      ∃ a, c.bare? = some a ∧ a.kind ≠ .flag ∧ failure = .unresolvable a.kind.name a.label := by
  cases c with
  | term t => simp [resolve, bare?]
  | bare a => cases a <;> simp [resolve, bare?, Attribute.kind, eq_comm]

theorem Clause.kind_of_resolve {c : Clause} {t : Term} (h : c.resolve = .ok t) :
    ∀ a ∈ c.bare?, a.kind = .flag := by
  intro a ha
  refine Decidable.byContradiction fun hkind => ?_
  rw [Clause.resolve_eq_error_iff.mpr ⟨a, ha, hkind, rfl⟩] at h
  cases h

theorem Construction.refused_junction_iff {left right : Option Attribute} {failure : Failure} :
    (junction left right).Refused failure ↔
      (∃ a ∈ left, a.kind ≠ .flag ∧ failure = .unresolvable a.kind.name a.label) ∨
      (∀ b ∈ left, b.kind = .flag) ∧
        ∃ a ∈ right, a.kind ≠ .flag ∧ failure = .unresolvable a.kind.name a.label := by
  constructor
  · intro h
    cases h with
    | left hkind => exact .inl ⟨_, rfl, hkind, rfl⟩
    | right hflag hkind => exact .inr ⟨hflag, _, rfl, hkind, rfl⟩
  · rintro (⟨a, rfl, hkind, rfl⟩ | ⟨hflag, a, rfl, hkind, rfl⟩)
    · exact .left hkind
    · exact .right hflag hkind

/-- What joining two clauses refuses. -/
theorem Clause.join_eq_error_iff (left : Clause) (junction : Junction) (right : Clause)
    (negated : Bool) (failure : Failure) : left.join junction right negated = .error failure ↔
      (Construction.junction left.bare? right.bare?).Refused failure := by
  rw [join, Construction.refused_junction_iff]
  -- The right side is looked at only if the left one stands for a term.
  cases hleft : left.resolve with
  | error other =>
    obtain ⟨a, hbare, hkind, rfl⟩ := resolve_eq_error_iff.mp hleft
    constructor
    · intro h
      cases h
      exact .inl ⟨a, hbare, hkind, rfl⟩
    · rintro (⟨b, hb, -, rfl⟩ | ⟨hflag, -⟩)
      · obtain rfl := Option.some.inj (hbare.symm.trans hb)
        rfl
      · exact absurd (hflag a hbare) hkind
  | ok l =>
    have hflag := kind_of_resolve hleft
    cases hright : right.resolve with
    | error other =>
      obtain ⟨a, hbare, hkind, rfl⟩ := resolve_eq_error_iff.mp hright
      constructor
      · intro h
        cases h
        exact .inr ⟨hflag, a, hbare, hkind, rfl⟩
      · rintro (⟨b, hb, hother, -⟩ | ⟨-, b, hb, -, rfl⟩)
        · exact absurd (hflag b hb) hother
        · obtain rfl := Option.some.inj (hbare.symm.trans hb)
          rfl
    | ok r =>
      have hflags := kind_of_resolve hright
      refine ⟨(nomatch ·), ?_⟩
      rintro (⟨a, ha, hother, -⟩ | ⟨-, a, ha, hother, -⟩)
      · exact absurd (hflag a ha) hother
      · exact absurd (hflags a ha) hother

/-! ### Building -/

/-- Ways to build a clause; `true` marks those that end with more than a bare attribute. A test is
an operation of an attribute that supports it, as a flag's own opposite is its test for being
different; the two terms that are joined may be bare attributes. -/
inductive Recipe : Bool → Type
  | bare (a : Attribute) : Recipe false
  | predicate (a : Attribute) (operator : Option String) (operand : Option Operand)
      (negated : Bool) : Recipe true
  | test (a : Attribute) (op : Operator) (h : op ∈ a.kind.operators) (operand : Option Operand) :
      Recipe true
  | not (r : Recipe true) : Recipe true
  | join {i j : Bool} (left : Recipe i) (junction : Junction) (right : Recipe j) (negated : Bool) :
      Recipe true

/-- Whether the operand of a test of a flag counts as true; a missing one does. -/
def isSet (operand : Option Operand) : Bool := (operand.map Operand.isTruthy).getD true

/-- What a test of an attribute hands to the constructor: the operator that it is for and its
operand. A flag's tests hand the operand true and turn the operator round instead. -/
def Attribute.handed : Attribute → Operator → Option Operand → Operator × Option Operand
  | .flag .., op, operand =>
    (if isSet operand == (op == .equal) then .equal else .notEqual, some (.truth true))
  | _, op, operand => (op, operand)

namespace Recipe

/-- What is built. -/
def build : {i : Bool} → Recipe i → Except Failure Clause
  | _, bare a => return .bare a
  | _, predicate a operator operand negated =>
    return .term (.leaf (← Predicate.of a operator operand negated))
  | _, test a op _ operand => return .term (.leaf (← a.test op operand))
  | _, not r => do (← r.build).not
  | _, join left junction right negated => do
    let l ← left.build
    let r ← right.build
    return .term (← l.join junction r negated)

def bare? : {i : Bool} → Recipe i → Option Attribute
  | _, bare a => some a
  | _, _ => none

/-- The calls of constructors, in the order in which they are made. -/
def constructions : {i : Bool} → Recipe i → List Construction
  | _, bare _ => []
  | _, predicate a operator operand _ => [.predicate a operator operand]
  | _, test a op _ operand =>
    let (operator, value) := a.handed op operand
    [.predicate a (some operator.name) value]
  | _, not r => r.constructions
  | _, join left _ right _ =>
    left.constructions ++ (right.constructions ++ [.junction left.bare? right.bare?])

end Recipe

/-- A test of an attribute is a call of the constructor. -/
theorem Attribute.test_eq_of (a : Attribute) {op : Operator} (h : op ∈ a.kind.operators)
    (operand : Option Operand) : a.test op operand =
      Predicate.of a (some (a.handed op operand).1.name) (a.handed op operand).2 false := by
  cases a with
  | equatable => cases op <;> rfl
  | comparable => cases op <;> rfl
  | enumerative => cases h
  | flag name owner =>
    have hset : isSet operand = (operand.map Operand.isTruthy).getD true := rfl
    cases op with
    | equal =>
      simp only [test, handed, ← hset]
      cases isSet operand <;> rfl
    | notEqual =>
      simp only [test, handed, ← hset]
      cases isSet operand <;> rfl
    | greater => simp [kind, AttributeKind.operators] at h
    | less => simp [kind, AttributeKind.operators] at h
    | contains => simp [kind, AttributeKind.operators] at h

namespace Recipe

theorem bare?_eq_none (r : Recipe true) : r.bare? = none := by cases r <;> rfl

/-- What is built is a bare attribute if its recipe is no more. -/
theorem bare?_of_build {i : Bool} (r : Recipe i) {c : Clause} (h : r.build = .ok c) :
    c.bare? = r.bare? := by
  induction r generalizing c with
  | bare a =>
    cases h
    rfl
  | predicate a operator operand negated =>
    obtain ⟨p, -, hp⟩ := exists_of_bind_eq_ok h
    cases hp
    rfl
  | test a op hop operand =>
    obtain ⟨p, -, hp⟩ := exists_of_bind_eq_ok h
    cases hp
    rfl
  | not r ih =>
    obtain ⟨d, hd, hnot⟩ := exists_of_bind_eq_ok h
    have hbare := (ih hd).trans r.bare?_eq_none
    cases d with
    | bare a => cases hbare
    | term t =>
      cases hnot
      rfl
  | join left junction right negated =>
    obtain ⟨l, -, hr⟩ := exists_of_bind_eq_ok h
    obtain ⟨r, -, ht⟩ := exists_of_bind_eq_ok hr
    obtain ⟨t, -, hc⟩ := exists_of_bind_eq_ok ht
    cases hc
    rfl

/-- Building fails at the first call of a constructor that is refused. -/
theorem build_failsAt {i : Bool} (r : Recipe i) :
    FailsAt Construction.Refused r.constructions r.build := by
  induction r with
  | bare a => exact .nothing _
  | predicate a operator operand negated =>
    exact (FailsAt.one (Predicate.of_eq_error_iff a operator operand negated)).thenOk
      fun p _ => ⟨_, rfl⟩
  | test a op h operand =>
    refine FailsAt.thenOk (FailsAt.one fun failure => ?_) fun p _ => ⟨_, rfl⟩
    rw [a.test_eq_of h operand]
    exact Predicate.of_eq_error_iff ..
  | not r ih =>
    refine ih.thenOk fun c hc => ?_
    have hbare := (r.bare?_of_build hc).trans r.bare?_eq_none
    cases c with
    | bare a => cases hbare
    | term t => exact ⟨_, rfl⟩
  | join left junction right negated ihl ihr =>
    refine ihl.bind fun l hl => ihr.bind fun r hr => ?_
    refine FailsAt.thenOk (FailsAt.one fun failure => ?_) fun t _ => ⟨_, rfl⟩
    rw [← left.bare?_of_build hl, ← right.bare?_of_build hr]
    exact Clause.join_eq_error_iff l junction r negated failure

end Recipe

/-! ### Compiling -/

/-- What a clause says at one place: a predicate, or nothing but an attribute. -/
inductive Leaf
  | bare (attr : Attribute)
  | predicate (predicate : Predicate)

/-- Why a leaf of a clause cannot be rendered. -/
inductive Leaf.Flawed : Leaf → Failure → Prop
  | bare {a : Attribute} : Flawed (.bare a) (.unresolvable a.kind.name a.label)
  | unowned {p : Predicate} {name : String} : p.attr = .flag name none →
      Flawed (.predicate p) (.unresolvable AttributeKind.flag.name name)
  | noInstant {p : Predicate} {name : String} {orderBy : Option Field} :
      p.attr = .equatable name orderBy → p.operand = .moment none →
      Flawed (.predicate p) .invalidTime

/-- The leaves of a term from left to right. -/
def Term.leaves : Term → List Leaf
  | leaf p => [.predicate p]
  | node left _ right _ => left.leaves ++ right.leaves

/-- The leaves of a clause; a bare flag is the predicate that it is set. -/
def Clause.leaves : Clause → List Leaf
  | term t => t.leaves
  | bare (.flag name owner) => [.predicate (.ofFlag name owner true)]
  | bare a => [.bare a]

section Rendering

variable (options : RenderOptions)

theorem Operand.render_eq_error_iff (v : Operand) (failure : Failure) :
    v.render options = .error failure ↔ v = .moment none ∧ failure = .invalidTime := by
  cases v with
  | text => exact ⟨(nomatch ·), (nomatch ·.1)⟩
  | number => exact ⟨(nomatch ·), (nomatch ·.1)⟩
  | truth => exact ⟨(nomatch ·), (nomatch ·.1)⟩
  | moment instant =>
    cases instant with
    | some t => exact ⟨(nomatch ·), (nomatch ·.1)⟩
    | none =>
      constructor
      · intro h
        cases h
        exact ⟨rfl, rfl⟩
      · rintro ⟨-, rfl⟩
        rfl

theorem Leaf.not_flawed {p : Predicate} (howner : ∀ name, p.attr ≠ .flag name none)
    (hinstant : ∀ name orderBy, p.attr = .equatable name orderBy → p.operand ≠ .moment none)
    (failure : Failure) : ¬(predicate p).Flawed failure := by
  intro h
  cases h with
  | unowned hattr => exact howner _ hattr
  | noInstant hattr hmoment => exact hinstant _ _ hattr hmoment

/-- A predicate's operator is never what keeps it from being rendered. -/
theorem Predicate.render_eq_error_iff (p : Predicate) (failure : Failure) :
    p.render options = .error failure ↔ (Leaf.predicate p).Flawed failure := by
  obtain ⟨attr, op, v, negated, hsupported⟩ := p
  cases attr with
  | equatable name orderBy =>
    simp only [render]
    cases hvalue : v.render options with
    | error other =>
      obtain ⟨rfl, rfl⟩ := (v.render_eq_error_iff options other).mp hvalue
      refine ⟨fun h => ?_, fun h => ?_⟩
      · cases h
        exact .noInstant rfl rfl
      · cases h with
        | unowned hattr => cases hattr
        | noInstant => rfl
    | ok value =>
      have hinstant : v ≠ .moment none := fun hv =>
        nomatch hvalue.symm.trans ((v.render_eq_error_iff options _).mpr ⟨hv, rfl⟩)
      refine ⟨fun h => ?_, fun h => ?_⟩
      · cases op <;> cases h
      · exact absurd h (Leaf.not_flawed (by simp) (fun _ _ _ => hinstant) _)
  | comparable name orderBy coerce =>
    exact ⟨(nomatch ·), fun h => absurd h (Leaf.not_flawed (by simp) (by simp) _)⟩
  | flag name owner =>
    cases owner with
    | some owner => exact ⟨(nomatch ·), fun h => absurd h (Leaf.not_flawed (by simp) (by simp) _)⟩
    | none =>
      refine ⟨fun h => ?_, fun h => ?_⟩
      · cases h
        exact .unowned rfl
      · cases h with
        | unowned hattr =>
          cases hattr
          rfl
        | noInstant hattr => cases hattr
  | enumerative name flags => cases hsupported

theorem Term.render_failsAt (t : Term) :
    FailsAt Leaf.Flawed t.leaves (t.render options) := by
  induction t with
  | leaf p => exact .one (p.render_eq_error_iff options)
  | node left junction right negated ihl ihr =>
    exact ihl.bind fun l _ => ihr.thenOk fun r _ => ⟨_, rfl⟩

theorem Clause.compile_failsAt (c : Clause) :
    FailsAt Leaf.Flawed c.leaves (c.compile options) := by
  cases c with
  | term t => exact t.render_failsAt options
  | bare a =>
    cases a with
    | flag name owner => exact (Term.leaf (.ofFlag name owner true)).render_failsAt options
    | _ =>
      refine .one fun failure => ⟨fun h => ?_, fun h => ?_⟩
      · cases h
        exact .bare
      · cases h
        rfl

end Rendering

/-- The renderer never finds an operator that its attribute lacks. -/
theorem Clause.compile_ne_invalidOperator (c : Clause) (options : RenderOptions)
    (operator kind label : String) :
    c.compile options ≠ .error (.invalidOperator operator kind label) := by
  intro h
  have hfails := c.compile_failsAt options
  rw [h] at hfails
  obtain ⟨leaf, -, hflaw⟩ := First.exists_mem hfails
  cases hflaw

/-- The constructors of predicates and of joined terms refuse what they receive on the grounds of
`Construction.Refused` and no others; a predicate that is not refused is as it was asked for, a test
is a call of the constructor in which a flag's operand is true, and the opposite of a term is never
refused. Building a clause fails at the first call that is refused, and compiling it, with whatever
options, at its leftmost leaf with a flaw, never over an operator. -/
theorem checked_when_built :
    (∀ a operator operand negated failure,
      Predicate.of a operator operand negated = .error failure ↔
        (Construction.predicate a operator operand).Refused failure) ∧
    (∀ a operator operand negated p, Predicate.of a operator operand negated = .ok p ↔
      p.attr = a ∧ operator = some p.operator.name ∧ operand = some p.operand ∧
        p.negated = negated) ∧
    (∀ (a : Attribute), ∀ op ∈ a.kind.operators, ∀ operand, a.test op operand =
      Predicate.of a (some (a.handed op operand).1.name) (a.handed op operand).2 false) ∧
    (∀ (left : Clause) junction right negated failure,
      left.join junction right negated = .error failure ↔
        (Construction.junction left.bare? right.bare?).Refused failure) ∧
    (∀ t : Term, (Clause.term t).not = .ok (.term t.not)) ∧
    (∀ i (r : Recipe i), FailsAt Construction.Refused r.constructions r.build) ∧
    (∀ (c : Clause) options, FailsAt Leaf.Flawed c.leaves (c.compile options)) ∧
    ∀ (c : Clause) options operator kind label,
      c.compile options ≠ .error (.invalidOperator operator kind label) :=
  ⟨Predicate.of_eq_error_iff, Predicate.of_eq_ok_iff,
    fun a _ hop operand => a.test_eq_of hop operand, Clause.join_eq_error_iff, fun _ => rfl,
    fun _ r => r.build_failsAt, fun c options => c.compile_failsAt options,
    Clause.compile_ne_invalidOperator⟩

/-- A bare sender is found when it is joined. A subject tested against no instant is found when the
clause is compiled, ahead of a flag without a family behind it. -/
theorem checked_when_built_subject :
    let subject : Attribute := .equatable "subject" none
    let test : Predicate := ⟨subject, .equal, .moment none, false, by decide⟩
    let c : Clause := .term (.node (.leaf test) .and (.leaf (.ofFlag "unread" none true)) true)
    let sender : Recipe false := .bare (.equatable "from" none)
    let r : Recipe true := .join sender .or (.bare subject) false
    Operator.equal ∈ subject.kind.operators ∧
      subject.test .equal (some (.moment none)) = .ok test ∧
      First Construction.Refused r.constructions (.unresolvable "equatable" "from") ∧
      First Leaf.Flawed c.leaves .invalidTime := by
  intro subject test c sender r
  obtain ⟨-, -, htest, -, -, hbuild, hcompile, -⟩ := checked_when_built
  have hequal : Operator.equal ∈ subject.kind.operators := by decide
  exact ⟨hequal, (htest subject .equal hequal _).trans rfl, hbuild _ r, hcompile c {}⟩

end Mailroom.Filter
