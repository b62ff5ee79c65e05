import Mailroom.Filter.Catalogue
import Mailroom.Proofs.Filter.Form

/-! Search texts of clauses. Every clause stands for a form, its normal form, and its search text is
how that form is written. So clauses on the attributes that every message has, with operands that
fit into the grammar, have the same text exactly when they have the same normal form. -/

namespace Mailroom.Filter

/-! ### Normal forms -/

/-- What a predicate says. Negation and an operator for difference turn the sign of an equatable
attribute round together; a flag is negative when exactly one of them says that it is not set. -/
def Predicate.form (p : Predicate) : Except Failure Form :=
  match p.attr with
  | .equatable name _ => do
    let value ← p.operand.render {}
    return .leaf (p.negated != (p.operator == .notEqual)) name (p.operator != .contains) value
  | .comparable name _ coerce =>
    let keyword := if p.operator = .greater then name.greater else name.less
    return .leaf p.negated keyword false (coerce p.operand)
  | .flag name (some owner) =>
    return .leaf (!((p.operator == .equal) != p.negated)) owner false name
  | .flag name none => throw (.unresolvable AttributeKind.flag.name name)
  | .enumerative name _ =>
    throw (.invalidOperator p.operator.name AttributeKind.enumerative.name name)

/-- What a term says. -/
def Term.form : Term → Except Failure Form
  | leaf p => p.form
  | node left junction right negated => do
    let l ← left.form
    let r ← right.form
    return .node negated junction l r

/-- What a clause says: its normal form. -/
def Clause.form (c : Clause) : Except Failure Form := do
  let t ← c.resolve
  t.form

theorem Predicate.render_eq (p : Predicate) : p.render {} = p.form.map Form.text := by
  obtain ⟨attr, operator, operand, negated, supported⟩ := p
  cases attr with
  | equatable name orderBy =>
    simp only [Predicate.render, Predicate.form]
    cases operand.render {} with
    | error failure => rfl
    | ok value => cases operator <;> rfl
  | comparable name orderBy coerce => rfl
  | flag name owner =>
    cases owner with
    | none => rfl
    | some owner => cases operator <;> cases negated <;> rfl
  | enumerative name flags => rfl

/-- The search text of a term is how its normal form is written. -/
theorem Term.render_eq (t : Term) : t.render {} = t.form.map Form.text := by
  induction t with
  | leaf p => exact p.render_eq
  | node left junction right negated ihleft ihright =>
    simp only [Term.render, Term.form, ihleft, ihright]
    cases left.form with
    | error failure => rfl
    | ok l =>
      cases right.form with
      | error failure => rfl
      | ok r => rfl

theorem Clause.compile_eq (c : Clause) : c.compile {} = c.form.map Form.text := by
  unfold Clause.compile Clause.form
  cases c.resolve with
  | error failure => rfl
  | ok t => exact t.render_eq

/-! ### Negation -/

theorem Predicate.form_not (p : Predicate) : p.not.form = p.form.map Form.opposite := by
  obtain ⟨attr, operator, operand, negated, supported⟩ := p
  cases attr with
  | equatable name orderBy =>
    simp only [Predicate.form, Predicate.not]
    cases operand.render {} with
    | error failure => rfl
    | ok value => cases negated <;> cases operator <;> rfl
  | comparable name orderBy coerce => rfl
  | flag name owner =>
    cases owner with
    | none => rfl
    | some owner => cases negated <;> cases operator <;> rfl
  | enumerative name flags => rfl

theorem Term.form_not (t : Term) : t.not.form = t.form.map Form.opposite := by
  cases t with
  | leaf p => exact p.form_not
  | node left junction right negated =>
    simp only [Term.not, Term.form]
    cases left.form with
    | error failure => rfl
    | ok l =>
      cases right.form with
      | error failure => rfl
      | ok r => rfl

/-- The opposite of a clause says the same with the opposite sign in front. -/
theorem Clause.form_not {c d : Clause} (h : c.not = .ok d) :
    d.form = c.form.map Form.opposite := by
  cases c with
  | term t =>
    obtain rfl := Except.ok.inj h
    exact t.form_not
  | bare a =>
    cases a with
    | flag name owner =>
      obtain rfl := Except.ok.inj h
      cases owner <;> rfl
    | equatable | comparable | enumerative => cases h

/-! ### Clauses on what every message has -/

/-- Whether an attribute is one of the catalogue's, in some zone, or a flag of one of its families.
-/
def Catalogue.Offers (a : Attribute) : Prop :=
  (∃ zone, a ∈ (named zone).map Prod.snd) ∨ (∃ name, has? name = some a) ∨ ∃ name, is? name = some a

/-- Whether the names of an attribute are keywords and values of the grammar. -/
def Attribute.Spelled : Attribute → Prop
  | equatable name _ => name ∈ fields
  | comparable name _ _ => name.less ∈ bareKeywords ∧ name.greater ∈ bareKeywords
  | flag name owner => (∃ family ∈ owner, family ∈ bareKeywords) ∧ IsWord name
  | enumerative .. => True

/-- Whether the operand of a predicate fits into the grammar: in quotes it holds no quote, bare it
is a word. -/
def Predicate.Legible (p : Predicate) : Prop :=
  match p.attr with
  | .equatable .. => ∃ value, p.operand.render {} = .ok value ∧
      if p.operator = .contains then IsWord value else '"' ∉ value.toList
  | .comparable _ _ coerce => IsWord (coerce p.operand)
  | _ => True

/-- The clauses that callers build from the catalogue with legible operands. -/
inductive Built : Clause → Prop
  | flag {name : String} {owner : Option String} :
      Catalogue.Offers (.flag name owner) → Built (.bare (.flag name owner))
  | test {a : Attribute} {op : Operator} {operand : Option Operand} {p : Predicate} :
      Catalogue.Offers a → a.test op operand = .ok p → p.Legible → Built (.term (.leaf p))
  | not {c d : Clause} : Built c → c.not = .ok d → Built d
  | join {left right : Clause} {junction : Junction} {t : Term} :
      Built left → Built right → left.join junction right false = .ok t → Built (.term t)

theorem mem_of_lookup {key value : String} {pairs : List (String × String)}
    (h : pairs.lookup key = some value) : value ∈ pairs.map Prod.snd := by
  obtain ⟨before, after, rfl, -⟩ := List.lookup_eq_some_iff.mp h
  simp

theorem Catalogue.flags_words :
    ∀ name ∈ hasFlags.map Prod.snd ++ isFlags.map Prod.snd, IsWord name := by
  decide +kernel

theorem Catalogue.Offers.spelled {a : Attribute} (h : Offers a) : a.Spelled := by
  obtain ⟨zone, h⟩ | ⟨name, h⟩ | ⟨name, h⟩ := h
  · simp only [named, List.map_cons, List.map_nil, List.mem_cons, List.not_mem_nil, or_false] at h
    obtain rfl | rfl | rfl | rfl | rfl | rfl | rfl | rfl | rfl | rfl | rfl := h <;>
      simp [Attribute.Spelled, sender, recipients, copies, blindCopies, subject, fileName, label,
        date, size, has, is, fields, bareKeywords]
  · obtain ⟨flag, hflag, rfl⟩ := Option.map_eq_some_iff.mp h
    exact ⟨⟨"has", rfl, by decide⟩,
      flags_words flag (List.mem_append_left _ (mem_of_lookup hflag))⟩
  · obtain ⟨flag, hflag, rfl⟩ := Option.map_eq_some_iff.mp h
    exact ⟨⟨"is", rfl, by decide⟩,
      flags_words flag (List.mem_append_right _ (mem_of_lookup hflag))⟩

/-- A test of an attribute is a predicate on it. -/
theorem Attribute.test_attr {a : Attribute} {op : Operator} {operand : Option Operand}
    {p : Predicate} (h : a.test op operand = .ok p) : p.attr = a := by
  unfold test at h
  split at h
  case h_1 => cases h; rfl
  case h_2 => cases h; rfl
  case h_3 =>
    unfold Predicate.of at h
    split at h
    · cases h
    · split at h
      · cases h
      · split at h
        · cases h
        · split at h <;> cases h
          rfl

/-- A predicate that is spelled and legible says something that the grammar admits. -/
theorem Predicate.form_proper {p : Predicate} (hattr : p.attr.Spelled) (hp : p.Legible) :
    ∃ f, p.form = .ok f ∧ f.Proper := by
  obtain ⟨attr, operator, operand, negated, supported⟩ := p
  cases attr with
  | equatable name orderBy =>
    obtain ⟨value, hrender, hvalue⟩ := hp
    refine ⟨_, by simp only [Predicate.form, hrender]; rfl, ?_⟩
    cases operator with
    | contains => exact ⟨List.mem_append_left _ hattr, hvalue⟩
    | equal | notEqual | greater | less => exact ⟨hattr, hvalue⟩
  | comparable name orderBy coerce =>
    refine ⟨_, rfl, List.mem_append_right _ ?_, hp⟩
    split
    · exact hattr.2
    · exact hattr.1
  | flag name owner =>
    obtain ⟨⟨family, rfl, hfamily⟩, hname⟩ := hattr
    exact ⟨_, rfl, List.mem_append_right _ hfamily, hname⟩
  | enumerative name flags => cases supported

theorem Form.Proper.opposite {f : Form} (hf : f.Proper) : f.opposite.Proper := by
  cases f with
  | leaf negative keyword quoted value => cases quoted <;> exact hf
  | node negative junction left right => exact hf

theorem Clause.form_join {left right : Clause} {junction : Junction} {negated : Bool} {t : Term}
    {l r : Form} (hl : left.form = .ok l) (hr : right.form = .ok r)
    (h : left.join junction right negated = .ok t) : t.form = .ok (.node negated junction l r) := by
  unfold Clause.form at hl hr
  unfold Clause.join at h
  cases hleft : left.resolve with
  | error failure => rw [hleft] at hl; cases hl
  | ok lt =>
    cases hright : right.resolve with
    | error failure => rw [hright] at hr; cases hr
    | ok rt =>
      rw [hleft] at hl h
      rw [hright] at hr h
      replace hl : lt.form = .ok l := hl
      replace hr : rt.form = .ok r := hr
      obtain rfl := Except.ok.inj h
      simp only [Term.form, hl, hr]
      rfl

/-- Every clause that callers build says something that the grammar admits. -/
theorem Built.proper {c : Clause} (hc : Built c) : ∃ f, c.form = .ok f ∧ f.Proper := by
  induction hc with
  | flag hoffered =>
    exact Predicate.form_proper (p := .ofFlag _ _ true) hoffered.spelled trivial
  | test hoffered htest hlegible =>
    exact Predicate.form_proper (Attribute.test_attr htest ▸ hoffered.spelled) hlegible
  | not _ hnot ih =>
    obtain ⟨f, hform, hproper⟩ := ih
    exact ⟨f.opposite, by rw [Clause.form_not hnot, hform]; rfl, hproper.opposite⟩
  | join _ _ hjoin ihleft ihright =>
    obtain ⟨l, hl, hlproper⟩ := ihleft
    obtain ⟨r, hr, hrproper⟩ := ihright
    exact ⟨_, Clause.form_join hl hr hjoin, hlproper, hrproper⟩

theorem Clause.not_of_form {c : Clause} {f : Form} (h : c.form = .ok f) : ∃ d, c.not = .ok d := by
  cases c with
  | term t => exact ⟨_, rfl⟩
  | bare a =>
    cases a with
    | flag name owner => exact ⟨_, rfl⟩
    | equatable | comparable | enumerative => cases h

/-- The search texts of clauses are unambiguous. A clause's text is how its normal form is written;
the grammar reads it back as that form, and no other form of the grammar is written so. The opposite
clause differs in the sign in front only. Two clauses have the same text if and only if they have
the same normal form. -/
theorem compile_unambiguous {c : Clause} (hc : Built c) :
    (∃ f, c.form = .ok f ∧ f.Proper ∧ c.compile {} = .ok f.text ∧ Form.read? f.text = some f ∧
      (∀ g : Form, g.Proper → g.text = f.text → g = f) ∧
      ∃ d, c.not = .ok d ∧ d.form = .ok f.opposite ∧ d.compile {} = .ok f.opposite.text) ∧
    ∀ d, Built d → (c.compile {} = d.compile {} ↔ c.form = d.form) := by
  obtain ⟨f, hform, hproper⟩ := hc.proper
  have hcompile : c.compile {} = .ok f.text := by rw [Clause.compile_eq, hform]; rfl
  refine ⟨⟨f, hform, hproper, hcompile, Form.read?_text hproper,
    fun g hg htext => Form.text_injective hg hproper htext, ?_⟩, fun d hd => ⟨fun htext => ?_, ?_⟩⟩
  · obtain ⟨d, hd⟩ := Clause.not_of_form hform
    have hopposite : d.form = .ok f.opposite := by rw [Clause.form_not hd, hform]; rfl
    exact ⟨d, hd, hopposite, by rw [Clause.compile_eq, hopposite]; rfl⟩
  · obtain ⟨g, hg, hgproper⟩ := hd.proper
    rw [hcompile, Clause.compile_eq, hg] at htext
    rw [hform, hg, Form.text_injective hproper hgproper (Except.ok.inj htext)]
  · intro h
    rw [Clause.compile_eq, Clause.compile_eq, h]

theorem compile_unambiguous_negated :
    let drive : Clause := .bare (.flag "drive" (some "has"))
    let sender : Predicate := ⟨Catalogue.sender, .equal, .text "a (b) -c", false, by decide⟩
    let large : Predicate := ⟨Catalogue.size .universal, .greater, .text "5", false, by decide⟩
    let noDrive : Predicate := .ofFlag "drive" (some "has") false
    let mixed : Term :=
      .node (.node (.leaf sender) .and (.leaf noDrive) false) .or (.leaf large) true
    Built drive ∧ Built (.term mixed) ∧
      (Clause.term mixed).compile {} = .ok "-\x7b(from:\"a (b) -c\" -has:drive) larger:5\x7d" ∧
      ((Clause.term mixed).compile {} = drive.compile {} ↔
        (Clause.term mixed).form = drive.form) := by
  intro drive sender large noDrive mixed
  have hdrive : Built drive := .flag (.inr (.inl ⟨"googleDrive", rfl⟩))
  have hsenderTest : Catalogue.sender.test .equal (some (.text "a (b) -c")) = .ok sender := rfl
  have hlargeTest : (Catalogue.size .universal).test .greater (some (.text "5")) = .ok large := rfl
  have hsender : Built (.term (.leaf sender)) :=
    .test (.inl ⟨.universal, by simp [Catalogue.named]⟩) hsenderTest ⟨_, rfl, by decide +kernel⟩
  have hlarge : Built (.term (.leaf large)) :=
    .test (.inl ⟨.universal, by simp [Catalogue.named]⟩) hlargeTest
      (show IsWord "5" by decide +kernel)
  have hmixed : Built (.term mixed) :=
    .not (.join (.join hsender (.not hdrive rfl) rfl) hlarge rfl) rfl
  exact ⟨hdrive, hmixed, rfl, (compile_unambiguous hmixed).2 drive hdrive⟩

end Mailroom.Filter
