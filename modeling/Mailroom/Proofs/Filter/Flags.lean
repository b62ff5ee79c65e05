import Mailroom.Filter.Flags
import Mailroom.Proofs.Filter.Rendering
import Mathlib.Data.List.Forall2

/-! Clauses of filter flags. The flags that are given stand for forms, in a fixed order, and the
clause's text is how these forms are written when each is joined to those before it. The first name
of an unknown flag is refused. -/

namespace Mailroom.Filter

open Text (hasBlank trim)

/-! ### Results one after the other -/

section Results

variable {α : Type}

/-- The failure of a result, if it is one. -/
def failure? : Except Failure α → Option Failure
  | .error failure => some failure
  | .ok _ => none

/-- Results are taken together up to the first failure. -/
theorem mapM_id_eq_error_iff {results : List (Except Failure α)} {failure : Failure} :
    results.mapM id = .error failure ↔ (results.filterMap failure?).head? = some failure := by
  induction results with
  | nil => simp [pure, Except.pure]
  | cons result rest ih =>
    rw [List.mapM_cons]
    cases result with
    | error other => simp [failure?, bind, Except.bind]
    | ok a =>
      rw [List.filterMap_cons_none rfl, ← ih]
      cases hrest : rest.mapM id <;> simp [bind, Except.bind, pure, Except.pure]

theorem mapM_id_eq_ok_iff {results : List (Except Failure α)} {as : List α} :
    results.mapM id = .ok as ↔ results = as.map .ok := by
  induction results generalizing as with
  | nil => cases as <;> simp [pure, Except.pure]
  | cons result rest ih =>
    rw [List.mapM_cons]
    cases result with
    | error failure => cases as <;> simp [bind, Except.bind]
    | ok a =>
      cases as with
      | nil => cases hrest : rest.mapM id <;> simp [bind, Except.bind, pure, Except.pure]
      | cons b bs =>
        rw [List.map_cons, List.cons.injEq, ← ih]
        cases hrest : rest.mapM id <;> simp [bind, Except.bind, pure, Except.pure]

end Results

/-- Results that are clauses which stand for some terms. -/
def Stand : List (Except Failure Clause) → List Term → Prop :=
  List.Forall₂ fun result t => ∃ c, result = .ok c ∧ c.resolve = .ok t

theorem Stand.mapM {results : List (Except Failure Clause)} {ts : List Term}
    (h : Stand results ts) : ∃ cs : List Clause, results.mapM id = .ok cs ∧
      List.Forall₂ (fun c t => c.resolve = .ok t) cs ts := by
  induction h with
  | nil => exact ⟨[], rfl, .nil⟩
  | cons hfirst _ ih =>
    obtain ⟨c, rfl, hc⟩ := hfirst
    obtain ⟨cs, hcs, hrest⟩ := ih
    exact ⟨c :: cs, by rw [List.mapM_cons, hcs]; rfl, .cons hc hrest⟩

/-- What holds of all terms that some clauses stand for holds of each of them. -/
theorem Stand.forall_mem {results : List (Except Failure Clause)} {ts : List Term}
    (h : Stand results ts) {Q : Term → Prop}
    (hresults : ∀ c t, .ok c ∈ results → c.resolve = .ok t → Q t) : ∀ t ∈ ts, Q t := by
  induction h with
  | nil => nofun
  | cons hfirst _ ih =>
    obtain ⟨c, rfl, hc⟩ := hfirst
    exact List.forall_mem_cons.mpr ⟨hresults c _ List.mem_cons_self hc,
      ih fun c t hmem => hresults c t (List.mem_cons_of_mem _ hmem)⟩

/-- Clauses joined to one, each to those before it, stand for their terms joined so. -/
theorem foldlM_join {cs : List Clause} {ts : List Term}
    (h : List.Forall₂ (fun c t => c.resolve = .ok t) cs ts) {first : Clause} {t : Term}
    (hfirst : first.resolve = .ok t) :
    ∃ c : Clause,
      cs.foldlM (fun acc part => do return Clause.term (← acc.join .and part false)) first =
        (.ok c : Except Failure Clause) ∧
      c.resolve = .ok (ts.foldl (fun l r => .node l .and r false) t) := by
  induction h generalizing first t with
  | nil => exact ⟨first, rfl, hfirst⟩
  | @cons c u cs ts hc _ ih =>
    have hjoin : first.join .and c false = .ok (.node t .and u false) := by
      simp only [Clause.join, hfirst, hc]
      rfl
    have hnode : (Clause.term (.node t .and u false)).resolve = .ok (.node t .and u false) := rfl
    obtain ⟨d, hd, hresolve⟩ := ih hnode
    refine ⟨d, ?_, hresolve⟩
    rw [List.foldlM_cons, hjoin]
    exact hd

namespace Flags

variable {zone : Zone} {f : Flags}

theorem clause_false (zone : Zone) (f : Flags) : f.clause zone false = (do
    let parts ← (f.clauses zone).mapM id
    match parts with
    | [] => return none
    | first :: rest =>
      let joined ← rest.foldlM (fun acc part => do return .term (← acc.join .and part false)) first
      return some joined) := rfl

theorem clause_of_failure {failure : Failure}
    (h : ((f.clauses zone).filterMap failure?).head? = some failure) :
    f.clause zone false = .error failure := by
  rw [clause_false, mapM_id_eq_error_iff.mpr h]
  rfl

/-- The clause of some terms stands for them joined, the first two first. -/
theorem clause_of_terms {t : Term} {ts : List Term} (h : Stand (f.clauses zone) (t :: ts)) :
    ∃ c : Clause, f.clause zone false = .ok (some c) ∧
      c.resolve = .ok (ts.foldl (fun l r => .node l .and r false) t) := by
  obtain ⟨cs, hcs, hresolve⟩ := h.mapM
  cases hresolve with
  | cons hfirst hrest =>
    obtain ⟨c, hjoined, hc⟩ := foldlM_join hrest hfirst
    refine ⟨c, ?_, hc⟩
    rw [clause_false, hcs]
    simp only [bind, Except.bind] at hjoined ⊢
    rw [hjoined]
    rfl

/-! ### What the flags say -/

/-- A form for a flag, if its value is given. -/
def ifGiven (value : String) (form : Form) : List Form := if value.isEmpty then [] else [form]

/-- What the given flags with values say, in their order. A subject of several words is quoted. -/
def valueForms (zone : Zone) (f : Flags) : List Form :=
  ifGiven f.sender (.leaf false "from" true f.sender)
    ++ ifGiven f.recipients (.leaf false "to" true f.recipients)
    ++ ifGiven f.copies (.leaf false "cc" true f.copies)
    ++ ifGiven f.subject (.leaf false "subject" (hasBlank (trim f.subject)) (trim f.subject))
    ++ ifGiven f.fileName (.leaf false "filename" true f.fileName)
    ++ ifGiven f.label (.leaf false "label" true f.label)
    ++ ifGiven f.after (.leaf false "after" false (dayOf zone (.text f.after)))
    ++ ifGiven f.before (.leaf false "before" false (dayOf zone (.text f.before)))
    ++ ifGiven f.larger (.leaf false "larger" false f.larger)
    ++ ifGiven f.smaller (.leaf false "smaller" false f.smaller)

def forms (zone : Zone) (f : Flags) : List Form :=
  f.valueForms zone
    ++ f.has.map (.leaf false "has" false)
    ++ f.is.map (.leaf false "is" false)
    ++ f.isNot.map (.leaf true "is" false)

/-- The names of flags that are not known in their family, each with the family and the names
known there, in the order of the flags. -/
def unknown (f : Flags) : List (String × List String × String) :=
  let hasNames := Catalogue.hasFlags.map Prod.snd
  let isNames := Catalogue.isFlags.map Prod.snd
  (f.has.filter (· ∉ hasNames)).map (("has", hasNames, ·))
    ++ (f.is.filter (· ∉ isNames)).map (("is", isNames, ·))
    ++ (f.isNot.filter (· ∉ isNames)).map (("is", isNames, ·))

def refusal (family : String) (known : List String) (name : String) : Failure :=
  .validation (family ++ " flag \"" ++ name ++ "\"") ("expected one of " ++ ", ".intercalate known)

theorem forms_eq_nil_iff : f.forms zone = [] ↔ f = {} := by
  have hgiven : ∀ value form, ifGiven value form = [] ↔ value = "" := by
    intro value form
    by_cases h : value = "" <;> simp [ifGiven, h]
  obtain ⟨sender, recipients, copies, subject, fileName, label, after, before, larger, smaller,
    has, is, isNot⟩ := f
  simp only [forms, valueForms, List.append_eq_nil_iff, hgiven, List.map_eq_nil_iff,
    Flags.mk.injEq, and_assoc]

/-- A result that is a clause which states a form. -/
def States (result : Except Failure Clause) (form : Form) : Prop :=
  ∃ c t, result = .ok c ∧ c.resolve = .ok t ∧ t.form = .ok form

/-- Clauses that state some forms stand for terms that do. -/
theorem exists_terms {results : List (Except Failure Clause)} {forms : List Form}
    (h : List.Forall₂ States results forms) :
    ∃ ts, Stand results ts ∧ List.Forall₂ (fun t form => t.form = .ok form) ts forms := by
  induction h with
  | nil => exact ⟨[], .nil, .nil⟩
  | cons hfirst _ ih =>
    obtain ⟨c, t, rfl, hc, hform⟩ := hfirst
    obtain ⟨ts, hstand, hforms⟩ := ih
    exact ⟨t :: ts, .cons ⟨c, rfl, hc⟩ hstand, .cons hform hforms⟩

theorem form_foldl {ts : List Term} {forms : List Form}
    (h : List.Forall₂ (fun t form => t.form = .ok form) ts forms) {t : Term} {form : Form}
    (hfirst : t.form = .ok form) :
    (ts.foldl (fun l r => .node l .and r false) t).form =
      .ok (forms.foldl (.node false .and) form) := by
  induction h generalizing t form with
  | nil => exact hfirst
  | cons hnext _ ih =>
    refine ih ?_
    simp only [Term.form, hfirst, hnext]
    rfl

theorem testOf_states {a : Attribute} {op : Operator} {value : String} {p : Predicate} {form : Form}
    (htest : a.test op (some (.text value)) = .ok p) (hform : p.form = .ok form) :
    List.Forall₂ States (testOf a op value) (ifGiven value form) := by
  unfold testOf ifGiven
  split
  · exact .nil
  · rw [htest]
    exact .cons ⟨.term (.leaf p), .leaf p, rfl, rfl, hform⟩ .nil

theorem subjectTest_states (value : String) : List.Forall₂ States (subjectTest value)
    (ifGiven value (.leaf false "subject" (hasBlank (trim value)) (trim value))) := by
  unfold subjectTest ifGiven
  split
  · exact .nil
  · cases h : hasBlank (trim value) <;>
    · simp only [h]
      exact .cons ⟨_, _, rfl, rfl, rfl⟩ .nil

theorem familyTests_states {family : String} {known names : List String} (isSet : Bool)
    (h : ∀ name ∈ names, name ∈ known) : List.Forall₂ States (familyTests family known isSet names)
      (names.map (.leaf (!isSet) family false)) := by
  rw [familyTests, List.forall₂_map_left_iff, List.forall₂_map_right_iff, List.forall₂_same]
  intro name hname
  rw [if_pos (List.contains_iff_mem.mpr (h name hname))]
  cases isSet <;> exact ⟨_, _, rfl, rfl, rfl⟩

/-- The clauses are those of the flags with values, and those of the names in each family. -/
theorem clauses_eq (zone : Zone) (f : Flags) :
    ∃ tests, List.Forall₂ States tests (f.valueForms zone) ∧ f.clauses zone = tests
      ++ familyTests "has" (Catalogue.hasFlags.map Prod.snd) true f.has
      ++ familyTests "is" (Catalogue.isFlags.map Prod.snd) true f.is
      ++ familyTests "is" (Catalogue.isFlags.map Prod.snd) false f.isNot := by
  refine ⟨_, ?_, rfl⟩
  -- Five of the six texts are tested for equality; a subject is tested in its own way.
  have hequal : ∀ {a : Attribute} {name : String} {field : Option Field} (value : String),
      a = .equatable name field → List.Forall₂ States (testOf a .equal value)
        (ifGiven value (.leaf false name true value)) := by
    rintro _ name field value rfl
    exact testOf_states rfl rfl
  refine List.rel_append (List.rel_append (List.rel_append (List.rel_append (List.rel_append
    (List.rel_append (List.rel_append (List.rel_append (List.rel_append ?sender ?recipients)
    ?copies) ?subject) ?fileName) ?label) ?after) ?before) ?larger) ?smaller
  case subject => exact subjectTest_states f.subject
  case after | before | larger | smaller => exact testOf_states rfl rfl
  all_goals exact hequal _ rfl

theorem failures_of_states {results : List (Except Failure Clause)} {forms : List Form}
    (h : List.Forall₂ States results forms) : results.filterMap failure? = [] := by
  induction h with
  | nil => rfl
  | cons hfirst _ ih =>
    obtain ⟨c, t, rfl, -⟩ := hfirst
    exact ih

theorem familyTests_failures (family : String) (known names : List String) (isSet : Bool) :
    (familyTests family known isSet names).filterMap failure? =
      (names.filter (· ∉ known)).map (refusal family known) := by
  induction names with
  | nil => rfl
  | cons name names ih =>
    rw [familyTests, List.map_cons]
    by_cases h : name ∈ known
    · rw [if_pos (List.contains_iff_mem.mpr h), List.filterMap_cons_none rfl,
        List.filter_cons_of_neg (by simpa using h)]
      exact ih
    · rw [if_neg (by simpa using h), List.filter_cons_of_pos (by simpa using h)]
      exact congrArg (refusal family known name :: ·) ih

/-- What fails are the unknown names. -/
theorem failures_clauses (zone : Zone) (f : Flags) : (f.clauses zone).filterMap failure? =
    f.unknown.map fun (family, known, name) => refusal family known name := by
  obtain ⟨tests, hstates, hclauses⟩ := f.clauses_eq zone
  simp only [hclauses, List.filterMap_append, failures_of_states hstates, familyTests_failures,
    unknown, List.nil_append, List.map_append, List.map_map]
  rfl

/-- When all names are known, the clauses state what the flags say. -/
theorem clauses_states (h : f.unknown = []) :
    List.Forall₂ States (f.clauses zone) (f.forms zone) := by
  have hknown : ∀ {names known : List String}, names.filter (· ∉ known) = [] →
      ∀ name ∈ names, name ∈ known := by
    intro names known hnone name hname
    simpa using List.filter_eq_nil_iff.mp hnone name hname
  simp only [unknown, List.append_eq_nil_iff, List.map_eq_nil_iff] at h
  obtain ⟨⟨hhas, his⟩, hisNot⟩ := h
  obtain ⟨tests, hstates, hclauses⟩ := f.clauses_eq zone
  rw [hclauses, forms]
  exact List.rel_append (List.rel_append (List.rel_append hstates
    (familyTests_states true (hknown hhas))) (familyTests_states true (hknown his)))
    (familyTests_states false (hknown hisNot))

theorem clause_of_unknown {family name : String} {known : List String}
    (h : f.unknown.head? = some (family, known, name)) :
    f.clause zone false = .error (refusal family known name) := by
  refine clause_of_failure ?_
  rw [failures_clauses, List.head?_map, h]
  rfl

/-- Flags that are given and known become terms, joined in the clause, which say their forms. -/
theorem terms_of_known (zone : Zone) (hknown : f.unknown = []) (hgiven : f ≠ {}) :
    ∃ first rest t ts c, f.forms zone = first :: rest ∧ Stand (f.clauses zone) (t :: ts) ∧
      f.clause zone false = .ok (some c) ∧
      c.resolve = .ok (ts.foldl (fun l r => .node l .and r false) t) ∧
      c.compile {} = .ok (rest.foldl (.node false .and) first).text := by
  obtain ⟨ts, hstand, hforms⟩ := exists_terms (clauses_states hknown)
  obtain ⟨first, rest, hsaid⟩ := List.exists_cons_of_ne_nil (mt forms_eq_nil_iff.mp hgiven)
  rw [hsaid] at hforms
  obtain ⟨t, ts, hfirst, hrest, rfl⟩ := List.forall₂_cons_right_iff.mp hforms
  obtain ⟨c, hclause, hresolve⟩ := clause_of_terms hstand
  have hform : c.form = .ok (rest.foldl (.node false .and) first) := by
    rw [Clause.form, hresolve]
    exact form_foldl hrest hfirst
  refine ⟨first, rest, t, ts, c, hsaid, hstand, hclause, hresolve, ?_⟩
  rw [Clause.compile_eq, hform]
  rfl

theorem clause_of_known (zone : Zone) (hknown : f.unknown = []) (hgiven : f ≠ {}) :
    ∃ first rest c, f.forms zone = first :: rest ∧ f.clause zone false = .ok (some c) ∧
      c.compile {} = .ok (rest.foldl (.node false .and) first).text := by
  obtain ⟨first, rest, -, -, c, hforms, -, hclause, -, htext⟩ := terms_of_known zone hknown hgiven
  exact ⟨first, rest, c, hforms, hclause, htext⟩

theorem known_of_clause {c : Clause} (h : f.clause zone false = .ok (some c)) :
    f.unknown = [] ∧ f ≠ {} := by
  constructor
  · cases hunknown : f.unknown with
    | nil => rfl
    | cons entry rest =>
      obtain ⟨family, known, name⟩ := entry
      rw [clause_of_unknown (by rw [hunknown, List.head?_cons])] at h
      cases h
  · rintro rfl
    cases h

/-- Without truncation the flags become exactly what they say. The first unknown name is refused,
among those of what a message has, then is, then is not. No flags make no clause. Otherwise the
text of the clause is that of the forms of the given flags in their order, each joined by *and* to
those before it. -/
theorem clause_of_flags (zone : Zone) (f : Flags) :
    (∀ failure, f.clause zone false = .error failure ↔ ∃ family known name,
      f.unknown.head? = some (family, known, name) ∧ failure = .validation
        (family ++ " flag \"" ++ name ++ "\"") ("expected one of " ++ ", ".intercalate known)) ∧
    (f.clause zone false = .ok none ↔ f = {}) ∧
    (f.unknown = [] → f ≠ {} → ∃ first rest c, f.forms zone = first :: rest ∧
      f.clause zone false = .ok (some c) ∧
      c.compile {} = .ok (rest.foldl (.node false .and) first).text) := by
  cases hunknown : f.unknown with
  | cons entry rest =>
    obtain ⟨family, known, name⟩ := entry
    have hgiven : f ≠ {} := by
      rintro rfl
      cases hunknown
    rw [clause_of_unknown (by rw [hunknown, List.head?_cons])]
    refine ⟨fun failure => ⟨?_, ?_⟩, ⟨nofun, fun hnone => absurd hnone hgiven⟩, nofun⟩
    · rintro ⟨⟩
      exact ⟨family, known, name, rfl, rfl⟩
    · rintro ⟨_, _, _, ⟨⟩, rfl⟩
      rfl
  | nil =>
    by_cases hgiven : f = {}
    · subst hgiven
      exact ⟨fun _ => ⟨nofun, nofun⟩, ⟨fun _ => rfl, fun _ => rfl⟩, fun _ h => absurd rfl h⟩
    · obtain ⟨first, rest, c, hforms, hclause, htext⟩ := clause_of_known zone hunknown hgiven
      rw [hclause]
      exact ⟨fun _ => ⟨nofun, nofun⟩, ⟨nofun, fun hnone => absurd hnone hgiven⟩,
        fun _ _ => ⟨first, rest, c, hforms, rfl, htext⟩⟩

/-- A phrase in the subject, a bound on the size, and names in all three families. -/
def phrase : Flags where
  subject := " weekly report "
  larger := "5"
  has := ["drive", "drive"]
  is := ["unread"]
  isNot := ["starred"]

theorem clause_of_flags_phrase :
    phrase.unknown = [] ∧ phrase ≠ {} ∧
    (∃ c, phrase.clause .universal false = .ok (some c) ∧ c.compile {} = .ok
      "(((((subject:\"weekly report\" larger:5) has:drive) has:drive) is:unread) -is:starred)") ∧
    ({ phrase with is := ["unread", "tall"], isNot := ["cat"] } : Flags).clause .universal false =
      .error (.validation "is flag \"tall\""
        "expected one of unread, read, starred, important") := by
  have hunknown : phrase.unknown = [] := by decide +kernel
  have hgiven : phrase ≠ {} := fun h => nomatch congrArg Flags.has h
  obtain ⟨first, rest, c, hforms, hclause, htext⟩ :=
    (clause_of_flags .universal phrase).2.2 hunknown hgiven
  refine ⟨hunknown, hgiven, ⟨c, hclause, ?_⟩, ?_⟩
  · have hsaid : phrase.forms .universal = [.leaf false "subject" true "weekly report",
        .leaf false "larger" false "5", .leaf false "has" false "drive",
        .leaf false "has" false "drive", .leaf false "is" false "unread",
        .leaf true "is" false "starred"] := by decide +kernel
    rw [hsaid] at hforms
    obtain ⟨rfl, rfl⟩ := List.cons.inj hforms
    rw [htext]
    rfl
  · refine ((clause_of_flags _ _).1 _).mpr ⟨"is",
      ["unread", "read", "starred", "important"], "tall", by decide +kernel, ?_⟩
    rfl

end Flags

end Mailroom.Filter
