import Mailroom.Proofs.Filter.Building

/-! One predicate put in the place of another. A context is a clause with an open place, below any
negations and joined to any clauses. What a predicate adds to the text in a context hangs on its own
text and on that of its opposite, so these two decide which predicates may stand for each other. The
predicate that is made from an attribute, an operator and an operand may stand for the attribute's
own test, but for a flag with an operand that counts as false: the test is turned round by such an
operand, the predicate does not heed it. -/

namespace Mailroom.Filter

/-- A clause with an open place. What it is joined to may be any clauses. -/
inductive Context
  | hole
  | not (inner : Context)
  | left (inner : Context) (junction : Junction) (other : Clause) (negated : Bool)
  | right (other : Clause) (junction : Junction) (inner : Context) (negated : Bool)

namespace Context

/-- The clause with a predicate in the open place. -/
def fill (p : Predicate) : Context → Except Failure Clause
  | hole => return .term (.leaf p)
  | not inner => do (← inner.fill p).not
  | left inner junction other negated => do
    let c ← inner.fill p
    return .term (← c.join junction other negated)
  | right other junction inner negated => do
    let c ← inner.fill p
    return .term (← other.join junction c negated)

/-- The search text with a predicate in the open place. -/
def compile (C : Context) (options : RenderOptions) (p : Predicate) : Except Failure String := do
  (← C.fill p).compile options

end Context

/-! ### Related texts -/

section Alike

variable {α β γ δ : Type} {R : α → β → Prop} {x : Except Failure α} {y : Except Failure β}

/-- Results that are related, or the same failure twice. -/
def Alike (R : α → β → Prop) : Except Failure α → Except Failure β → Prop
  | .ok a, .ok b => R a b
  | .error failure, .error other => failure = other
  | _, _ => False

theorem Alike.bind {S : γ → δ → Prop} {f : α → Except Failure γ} {g : β → Except Failure δ}
    (h : Alike R x y) (hnext : ∀ a b, R a b → Alike S (f a) (g b)) :
    Alike S (x >>= f) (y >>= g) := by
  cases x with
  | ok a =>
    cases y with
    | ok b => exact hnext a b h
    | error other => cases h
  | error failure =>
    cases y with
    | ok b => cases h
    | error other => exact h

theorem Alike.exists_ok {a : α} (h : Alike R (.ok a) y) : ∃ b, y = .ok b ∧ R a b := by
  cases y with
  | ok b => exact ⟨b, rfl, h⟩
  | error other => cases h

theorem alike_eq_iff {x y : Except Failure α} : Alike (· = ·) x y ↔ x = y := by
  cases x <;> cases y <;> simp [Alike]

/-- What comes of one result on both sides. -/
theorem alike_bind (x : Except Failure α) {S : γ → δ → Prop} {f : α → Except Failure γ}
    {g : α → Except Failure δ} (h : ∀ a, Alike S (f a) (g a)) : Alike S (x >>= f) (x >>= g) := by
  refine (alike_eq_iff.mpr rfl : Alike (· = ·) x x).bind fun a b hab => ?_
  subst hab
  exact h a

end Alike

/-- A relation between texts that is kept when the same text is put around both. -/
def Framed (R : String → String → Prop) : Prop :=
  ∀ before after s s', R s s' → R (before ++ s ++ after) (before ++ s' ++ after)

/-- Terms whose texts are related, as the terms are and turned round. -/
def Term.Alike (R : String → String → Prop) (t u : Term) : Prop :=
  ∀ options, Filter.Alike R (t.render options) (u.render options) ∧
    Filter.Alike R (t.not.render options) (u.not.render options)

theorem Term.not_not (t : Term) : t.not.not = t := by
  cases t <;> simp [Term.not, Predicate.not]

namespace Term.Alike

variable {R : String → String → Prop} {t u : Term}

theorem not (h : t.Alike R u) : t.not.Alike R u.not := by
  intro options
  rw [Term.not_not, Term.not_not]
  exact (h options).symm

theorem node {junction : Junction} {left left' right right' : Term}
    (hnode : ∀ options negated, Filter.Alike R
      ((Term.node left junction right negated).render options)
      ((Term.node left' junction right' negated).render options)) (negated : Bool) :
    (Term.node left junction right negated).Alike R (Term.node left' junction right' negated) :=
  fun options => ⟨hnode options negated, hnode options !negated⟩

theorem left (hR : Framed R) (h : t.Alike R u) (junction : Junction) (other : Term)
    (negated : Bool) :
    (Term.node t junction other negated).Alike R (Term.node u junction other negated) := by
  refine node (fun options negated => ?_) negated
  refine (h options).1.bind fun s s' hs => alike_bind (other.render options) fun o => ?_
  have hframe := hR (sign negated ++ junction.brackets.1) (" " ++ o ++ junction.brackets.2) s s' hs
  simp only [← String.append_assoc] at hframe
  exact hframe

theorem right (hR : Framed R) (h : t.Alike R u) (junction : Junction) (other : Term)
    (negated : Bool) :
    (Term.node other junction t negated).Alike R (Term.node other junction u negated) := by
  refine node (fun options negated => ?_) negated
  refine alike_bind (other.render options) fun o => (h options).1.bind fun s s' hs => ?_
  exact hR (sign negated ++ junction.brackets.1 ++ o ++ " ") junction.brackets.2 s s' hs

end Term.Alike

/-- Clauses that are terms with related texts. -/
def Clause.Alike (R : String → String → Prop) (c d : Clause) : Prop :=
  ∃ t u, c = .term t ∧ d = .term u ∧ t.Alike R u

namespace Context

variable {R : String → String → Prop} {p q : Predicate}

/-- Predicates with related texts have them in every context, as what else stands there has the same
text on both sides. -/
theorem fill_alike (hR : Framed R) (h : (Term.leaf p).Alike R (.leaf q)) (C : Context) :
    Alike (Clause.Alike R) (C.fill p) (C.fill q) := by
  induction C with
  | hole => exact ⟨_, _, rfl, rfl, h⟩
  | not inner ih =>
    refine ih.bind ?_
    rintro _ _ ⟨t, u, rfl, rfl, htu⟩
    exact ⟨_, _, rfl, rfl, htu.not⟩
  | left inner junction other negated ih =>
    refine ih.bind ?_
    rintro _ _ ⟨t, u, rfl, rfl, htu⟩
    have hjoin : Alike (Term.Alike R) ((Clause.term t).join junction other negated)
        ((Clause.term u).join junction other negated) :=
      alike_bind other.resolve fun o => htu.left hR junction o negated
    exact hjoin.bind fun _ _ hnode => ⟨_, _, rfl, rfl, hnode⟩
  | right other junction inner negated ih =>
    refine ih.bind ?_
    rintro _ _ ⟨t, u, rfl, rfl, htu⟩
    have hjoin : Alike (Term.Alike R) (other.join junction (.term t) negated)
        (other.join junction (.term u) negated) :=
      alike_bind other.resolve fun o => htu.right hR junction o negated
    exact hjoin.bind fun _ _ hnode => ⟨_, _, rfl, rfl, hnode⟩

theorem compile_alike (hR : Framed R) (h : (Term.leaf p).Alike R (.leaf q)) (C : Context)
    (options : RenderOptions) : Alike R (C.compile options p) (C.compile options q) := by
  refine (C.fill_alike hR h).bind ?_
  rintro _ _ ⟨t, u, rfl, rfl, htu⟩
  exact (htu options).1

/-- Predicates with the same texts may stand for each other in every context. -/
theorem compile_congr (h : (Term.leaf p).Alike (· = ·) (.leaf q)) (C : Context)
    (options : RenderOptions) : C.compile options p = C.compile options q := by
  refine alike_eq_iff.mp (C.compile_alike (fun before after s s' hs => ?_) h options)
  rw [hs]

end Context

/-! ### Flags -/

/-- Texts that are the same but for one minus sign. -/
def OneSign (s s' : String) : Prop :=
  ∃ before after, s = before ++ "-" ++ after ∧ s' = before ++ after ∨
    s = before ++ after ∧ s' = before ++ "-" ++ after

theorem framed_oneSign : Framed OneSign := by
  rintro before after s s' ⟨b, a, ⟨rfl, rfl⟩ | ⟨rfl, rfl⟩⟩
  · exact ⟨before ++ b, a ++ after, .inl (by simp only [String.append_assoc, and_self])⟩
  · exact ⟨before ++ b, a ++ after, .inr (by simp only [String.append_assoc, and_self])⟩

theorem OneSign.ne {s s' : String} (h : OneSign s s') : s ≠ s' := by
  have hminus : "-".length = 1 := rfl
  rintro rfl
  obtain ⟨b, a, ⟨hs, hs'⟩ | ⟨hs, hs'⟩⟩ := h
  all_goals
    have hlength := congrArg String.length (hs.symm.trans hs')
    simp only [String.length_append, hminus] at hlength
    omega

theorem oneSign_sign (negative : Bool) (s : String) :
    OneSign (sign negative ++ s) (sign (!negative) ++ s) := by
  cases negative with
  | true => exact ⟨"", s, .inl ⟨by simp [sign], by simp [sign]⟩⟩
  | false => exact ⟨"", s, .inr ⟨by simp [sign], by simp [sign]⟩⟩

/-- Whether a predicate on a flag says that it is not set. -/
def Predicate.clears (p : Predicate) : Bool := (p.operator == .equal) == p.negated

theorem Predicate.clears_not (p : Predicate) : p.not.clears = !p.clears := by
  simp only [clears, not]
  cases p.negated <;> cases p.operator == .equal <;> rfl

/-- The text of a test of a flag, which says that it is not set or that it is. -/
def flagText (name : String) (owner : Option String) (clears : Bool) : Except Failure String :=
  match owner with
  | some family => .ok (sign clears ++ (family ++ ":" ++ name))
  | none => .error (.unresolvable AttributeKind.flag.name name)

theorem alike_flagText (name : String) (owner : Option String) (clears : Bool) :
    Alike OneSign (flagText name owner clears) (flagText name owner !clears) := by
  cases owner with
  | some family => exact oneSign_sign clears _
  | none => exact rfl

namespace Predicate

variable {p q : Predicate} {name : String} {owner : Option String}

/-- The operand of a flag does not show. -/
theorem render_flag (hp : p.attr = .flag name owner) (options : RenderOptions) :
    p.render options = flagText name owner p.clears := by
  obtain ⟨attr, operator, operand, negated, supported⟩ := p
  obtain rfl : attr = .flag name owner := hp
  cases owner with
  | some family => simp only [render, flagText, clears, String.append_assoc]; rfl
  | none => rfl

theorem alike_of_flag {R : String → String → Prop} (hp : p.attr = .flag name owner)
    (hq : q.attr = .flag name owner)
    (h : ∀ clears, Alike R (flagText name owner (clears == p.clears))
      (flagText name owner (clears == q.clears))) : (Term.leaf p).Alike R (.leaf q) := by
  intro options
  have hpnot : p.not.attr = .flag name owner := hp
  have hqnot : q.not.attr = .flag name owner := hq
  simp only [Term.render, Term.not, render_flag hp, render_flag hq, render_flag hpnot,
    render_flag hqnot, clears_not]
  exact ⟨by simpa using h true, by simpa using h false⟩

/-- Predicates that say the same of a flag have the same texts, whatever their operands are. -/
theorem alike_of_clears (hp : p.attr = .flag name owner) (hq : q.attr = .flag name owner)
    (h : p.clears = q.clears) : (Term.leaf p).Alike (· = ·) (.leaf q) :=
  alike_of_flag hp hq fun _ => alike_eq_iff.mpr (by rw [h])

/-- Predicates that say opposite things of a flag have texts that differ in a sign. -/
theorem oneSign_of_clears (hp : p.attr = .flag name owner) (hq : q.attr = .flag name owner)
    (h : q.clears = !p.clears) : (Term.leaf p).Alike OneSign (.leaf q) := by
  refine alike_of_flag hp hq fun clears => ?_
  have hopposite : (clears == q.clears) = !(clears == p.clears) := by
    rw [h]
    cases clears <;> cases p.clears <;> rfl
  rw [hopposite]
  exact alike_flagText name owner _

/-- The predicate of an attribute, an operator that it supports and an operand. -/
theorem of_supported (a : Attribute) {op : Operator} (hop : op ∈ a.kind.operators) (v : Operand) :
    Predicate.of a (some op.name) (some v) false = .ok ⟨a, op, v, false, hop⟩ :=
  (Predicate.of_eq_ok_iff ..).mpr ⟨rfl, rfl, rfl, rfl⟩

end Predicate

theorem Attribute.test_of_kind {a : Attribute} (hkind : a.kind ≠ .flag) (op : Operator)
    (v : Operand) : a.test op (some v) = Predicate.of a (some op.name) (some v) false := by
  cases a with
  | flag => exact absurd rfl hkind
  | equatable => cases op <;> rfl
  | comparable => cases op <;> rfl
  | enumerative => cases op <;> rfl

/-- A flag's test says what its operator and the truth of its operand say together. -/
theorem Attribute.test_flag (name : String) (owner : Option String) {op : Operator}
    (hop : op ∈ (flag name owner).kind.operators) (v : Operand) :
    ∃ q, (flag name owner).test op (some v) = .ok q ∧ q.attr = .flag name owner ∧
      q.clears = ((op == .equal) != v.isTruthy) := by
  cases op with
  | equal | notEqual =>
    refine ⟨_, rfl, rfl, ?_⟩
    cases hv : v.isTruthy <;> simp [Predicate.clears, Predicate.ofFlag, hv]
  | greater | less | contains => simp [kind, AttributeKind.operators] at hop

/-- The predicate that is made from an attribute, an operator that it supports and an operand may
stand for the attribute's own test in every context, but for a flag with an operand that counts as
false. There it stands for the opposite of the test: in every context that can be rendered, the two
texts differ in one sign. -/
theorem predicate_for_test (a : Attribute) {op : Operator} (hop : op ∈ a.kind.operators)
    (v : Operand) :
    ∃ p q, Predicate.of a (some op.name) (some v) false = .ok p ∧ a.test op (some v) = .ok q ∧
      ((a.kind = .flag → v.isTruthy = true) → ∀ (C : Context) options,
        C.compile options p = C.compile options q) ∧
      (a.kind = .flag → v.isTruthy = false → ∀ (C : Context) options,
        C.compile options p = C.compile options q.not ∧
        ∀ text, C.compile options p = .ok text →
          ∃ other, C.compile options q = .ok other ∧ OneSign text other ∧ text ≠ other) := by
  have hof := Predicate.of_supported a hop v
  by_cases hkind : a.kind = .flag
  case neg =>
    refine ⟨_, _, hof, (a.test_of_kind hkind op v).trans hof, fun _ _ _ => rfl, ?_⟩
    exact fun hflag => absurd hflag hkind
  obtain ⟨name, owner, rfl⟩ : ∃ name owner, a = .flag name owner := by
    cases a with
    | flag name owner => exact ⟨name, owner, rfl⟩
    | equatable | comparable | enumerative => cases hkind
  obtain ⟨q, htest, hattr, hclears⟩ := Attribute.test_flag name owner hop v
  have hmade : Predicate.clears ⟨.flag name owner, op, v, false, hop⟩ = !(op == .equal) := by
    simp [Predicate.clears]
  refine ⟨_, q, hof, htest, fun htruthy C options => ?_, fun _ hfalsy C options => ⟨?_, ?_⟩⟩
  · refine C.compile_congr (Predicate.alike_of_clears rfl hattr ?_) options
    rw [hmade, hclears, htruthy rfl, Bool.bne_true]
  · refine C.compile_congr (Predicate.alike_of_clears rfl (q := q.not) hattr ?_) options
    rw [hmade, Predicate.clears_not, hclears, hfalsy, Bool.bne_false]
  · intro text htext
    have hopposite : q.clears = !Predicate.clears ⟨.flag name owner, op, v, false, hop⟩ := by
      rw [hmade, hclears, hfalsy, Bool.bne_false, Bool.not_not]
    have halike := C.compile_alike framed_oneSign
      (Predicate.oneSign_of_clears rfl hattr hopposite) options
    rw [htext] at halike
    obtain ⟨other, hother, hsign⟩ := halike.exists_ok
    exact ⟨other, hother, hsign, hsign.ne⟩

/-- Attachments that are not to be there: the predicate asks for them, below a negation as well. -/
theorem predicate_for_test_unset :
    let attachment : Attribute := .flag "attachment" (some "has")
    let size : Attribute :=
      .comparable ⟨"size", "smaller", "larger"⟩ none (Operand.plain .universal)
    let large : Predicate := ⟨size, .greater, .text "5", false, by decide⟩
    let C : Context := .not (.left .hole .or (.term (.leaf large)) false)
    Operator.equal ∈ attachment.kind.operators ∧
    (∃ p q, Predicate.of attachment (some "equal") (some (.truth false)) false = .ok p ∧
      attachment.test .equal (some (.truth false)) = .ok q ∧
      C.compile {} p = .ok "-\x7bhas:attachment larger:5\x7d" ∧
      C.compile {} q = .ok "-\x7b-has:attachment larger:5\x7d" ∧
      C.compile {} p = C.compile {} q.not ∧ C.compile {} p ≠ C.compile {} q) ∧
    ∃ p q, Predicate.of attachment (some "equal") (some (.truth true)) false = .ok p ∧
      attachment.test .equal (some (.truth true)) = .ok q ∧
      C.compile {} p = C.compile {} q := by
  intro attachment size large C
  have hequal : Operator.equal ∈ attachment.kind.operators := by decide
  obtain ⟨p, q, hp, hq, -, hunset⟩ := predicate_for_test attachment hequal (.truth false)
  obtain ⟨p', q', hp', hq', hset, -⟩ := predicate_for_test attachment hequal (.truth true)
  obtain ⟨hopposite, hsign⟩ := hunset rfl rfl C {}
  have hpText : C.compile {} p = .ok "-\x7bhas:attachment larger:5\x7d" := by
    cases hp
    rfl
  have hqText : C.compile {} q = .ok "-\x7b-has:attachment larger:5\x7d" := by
    cases hq
    rfl
  obtain ⟨other, hother, -, hne⟩ := hsign _ hpText
  refine ⟨hequal, ⟨p, q, hp, hq, hpText, hqText, hopposite, ?_⟩, p', q', hp', hq',
    hset (fun _ => rfl) C {}⟩
  rw [hpText, hother]
  exact fun h => hne (Except.ok.inj h)

end Mailroom.Filter
