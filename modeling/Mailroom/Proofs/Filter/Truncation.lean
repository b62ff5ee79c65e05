import Mailroom.Proofs.Filter.Separation
import Mailroom.Proofs.Text.Words

/-! Operands cut at the first blank. Cutting while a clause is rendered is rendering the clause with
its operands cut. Flags whose values would lose a character that is no blank are refused, so what
is cut from the operands of an accepted record are blanks at their ends. -/

namespace Mailroom.Filter

open Text (firstWord hasBlank isBlank trim)

/-! ### Operands replaced -/

variable (g : String → String)

/-- The operand with another text, made from its own. What has no text stays. -/
def Operand.mapText (v : Operand) : Operand :=
  match v.render {} with
  | .ok s => .text (g s)
  | .error _ => v

/-- The predicate with another operand, if its attribute is equatable. -/
def Predicate.mapText (p : Predicate) : Predicate :=
  match p.attr with
  | .equatable .. => { p with operand := p.operand.mapText g }
  | _ => p

/-- Only predicates on equatable attributes have texts. -/
theorem Predicate.mapText_of_kind {p : Predicate} (h : p.attr.kind ≠ .equatable) :
    p.mapText g = p := by
  unfold mapText
  split
  · next heq => exact absurd (by rw [heq]; rfl) h
  · rfl

theorem Predicate.mapText_congr {p : Predicate} {g h : String → String}
    (hoperand : p.operand.mapText g = p.operand.mapText h) : p.mapText g = p.mapText h := by
  unfold mapText
  split
  · rw [hoperand]
  · rfl

def Term.mapText : Term → Term
  | leaf p => leaf (p.mapText g)
  | node left junction right negated => node left.mapText junction right.mapText negated

def Clause.mapText : Clause → Clause
  | bare a => bare a
  | term t => term (t.mapText g)

theorem Clause.resolve_mapText (c : Clause) :
    (c.mapText g).resolve = c.resolve.map (Term.mapText g) := by
  cases c with
  | term t => rfl
  | bare a => cases a <;> rfl

theorem Operand.render_mapText (v : Operand) :
    (v.mapText g).render {} = (v.render {}).map g := by
  unfold mapText
  split
  · next s h =>
    rw [h]
    rfl
  · next h =>
    rw [h]
    rfl

theorem Operand.mapText_text (s : String) : (text s).mapText g = text (g s) := by
  have hrender : (text s).render {} = .ok s := rfl
  rw [mapText, hrender]

theorem Operand.render_truncated (v : Operand) :
    v.render { truncate := true } = (v.render {}).map firstWord := by
  cases v with
  | text | number | truth => rfl
  | moment instant => cases instant <;> rfl

theorem Predicate.render_truncated (p : Predicate) :
    p.render { truncate := true } = (p.mapText firstWord).render {} := by
  obtain ⟨attr, operator, operand, negated, supported⟩ := p
  cases attr with
  | equatable name orderBy =>
    simp only [Predicate.render, Predicate.mapText, Operand.render_truncated,
      Operand.render_mapText]
    rfl
  | comparable name orderBy coerce => rfl
  | flag name owner => cases owner <;> rfl
  | enumerative name flags => rfl

theorem Term.render_truncated (t : Term) :
    t.render { truncate := true } = (t.mapText firstWord).render {} := by
  induction t with
  | leaf p => exact p.render_truncated
  | node left junction right negated ihleft ihright =>
    simp only [Term.render, Term.mapText, ihleft, ihright]

/-- Cutting operands while a clause is rendered is rendering the clause with its operands cut. -/
theorem Clause.compile_truncated (c : Clause) :
    c.compile { truncate := true } = (c.mapText firstWord).compile {} := by
  rw [Clause.compile, Clause.compile, Clause.resolve_mapText]
  cases c.resolve with
  | error failure => rfl
  | ok t => exact t.render_truncated

/-- A term that can be rendered can be rendered with other texts. -/
theorem Term.render_mapText {t : Term} {s : String} (h : t.render {} = .ok s) :
    ∃ other, (t.mapText g).render {} = .ok other := by
  induction t generalizing s with
  | leaf p =>
    obtain ⟨attr, operator, operand, negated, supported⟩ := p
    cases attr with
    | equatable name orderBy =>
      simp only [Term.render, Predicate.render, Term.mapText, Predicate.mapText,
        Operand.render_mapText] at h ⊢
      cases hvalue : operand.render {} with
      | error failure => rw [hvalue] at h; cases h
      | ok value => cases operator <;> exact ⟨_, rfl⟩
    | _ =>
      rw [Term.mapText, Predicate.mapText_of_kind g (by simp [Attribute.kind])]
      exact ⟨s, h⟩
  | node left junction right negated ihleft ihright =>
    simp only [Term.render, Term.mapText] at h ⊢
    cases hleft : left.render {} with
    | error failure => rw [hleft] at h; cases h
    | ok l =>
      cases hright : right.render {} with
      | error failure => rw [hleft, hright] at h; cases h
      | ok r =>
        obtain ⟨l', hl'⟩ := ihleft hleft
        obtain ⟨r', hr'⟩ := ihright hright
        rw [hl', hr']
        exact ⟨_, rfl⟩

theorem Clause.compile_mapText {c : Clause} {s : String} (h : c.compile {} = .ok s) :
    ∃ other, (c.mapText g).compile {} = .ok other := by
  rw [Clause.compile] at h ⊢
  rw [Clause.resolve_mapText]
  cases hresolve : c.resolve with
  | error failure => rw [hresolve] at h; cases h
  | ok t =>
    rw [hresolve] at h
    exact Term.render_mapText g h

namespace Flags

variable {zone : Zone} {f : Flags}

/-! ### The tests of texts -/

/-- The clauses of flags are tests of texts, which hold the value of an entry as it is or trimmed,
and clauses on other attributes. -/
inductive Test (f : Flags) : Clause → Prop
  | text {p : Predicate} {value operand : String} (entry : (p.attr.label, value) ∈ f.texts)
    (holds : p.operand = .text operand) (same : operand = value ∨ operand = trim value) :
    Test f (.term (.leaf p))
  | other {c : Clause} (fixed : ∀ g, c.mapText g = c)
    (label : ∀ p, c = .term (.leaf p) → p.attr.label ∉ f.texts.map Prod.fst) : Test f c

/-- The test of a text flag, rendered with its operand cut, misses a character of the value that is
no blank. -/
def Cuts (zone : Zone) (f : Flags) (name value : String) : Prop :=
  ∃ p kept, .ok (.term (.leaf p)) ∈ f.clauses zone ∧ p.attr.label = name ∧
    p.operand.render { truncate := true } = .ok kept ∧
    kept.toList ≠ value.toList.filter (!isBlank ·)

theorem attr_of_test {a : Attribute} {op : Operator} {v : Operand} {p : Predicate}
    (hflag : a.kind ≠ .flag) (h : a.test op (some v) = .ok p) : p.attr = a ∧ p.operand = v := by
  unfold Attribute.test at h
  split at h
  · exact absurd rfl hflag
  · exact absurd rfl hflag
  · simp only [Predicate.of] at h
    split at h
    · cases h
    · split at h
      · cases h
        exact ⟨rfl, rfl⟩
      · cases h

theorem mem_test {a : Attribute} (hflag : a.kind ≠ .flag) {op : Operator} {v : Operand}
    {c : Clause} (h : .ok c ∈ [(a.test op (some v)).map fun p => Clause.term (.leaf p)]) :
    ∃ p, c = .term (.leaf p) ∧ p.attr = a ∧ p.operand = v := by
  cases htest : a.test op (some v) with
  | error failure => simp [htest, Except.map] at h
  | ok p =>
    obtain rfl : c = .term (.leaf p) := by simpa [htest, Except.map] using h
    exact ⟨p, rfl, attr_of_test hflag htest⟩

theorem test_of_text {name value : String} (hentry : (name, value) ∈ f.texts)
    {field : Option Field} {op : Operator} {c : Clause}
    (h : .ok c ∈ testOf (.equatable name field) op value) : f.Test c := by
  unfold testOf at h
  split at h
  · cases h
  · obtain ⟨p, rfl, hattr, hoperand⟩ := mem_test (by simp [Attribute.kind]) h
    exact .text (by rwa [hattr]) hoperand (.inl rfl)

theorem test_of_subject {c : Clause} (h : .ok c ∈ subjectTest f.subject) : f.Test c := by
  unfold subjectTest at h
  split at h
  · cases h
  · obtain ⟨p, rfl, hattr, hoperand⟩ := mem_test (by simp [Catalogue.subject, Attribute.kind]) h
    have hentry : (p.attr.label, f.subject) ∈ f.texts := by
      simp [hattr, texts, Catalogue.subject, Attribute.label]
    exact .text hentry hoperand (.inr rfl)

theorem test_of_bound {name : ComparableName} (hname : name.name ∉ f.texts.map Prod.fst)
    {field : Option Field} {coerce : Operand → String} {op : Operator} {value : String} {c : Clause}
    (h : .ok c ∈ testOf (.comparable name field coerce) op value) : f.Test c := by
  unfold testOf at h
  split at h
  · cases h
  · obtain ⟨⟨attr, operator, operand, negated, supported⟩, rfl, rfl, -⟩ :=
      mem_test (by simp [Attribute.kind]) h
    refine .other (fun _ => rfl) ?_
    rintro p ⟨⟩
    exact hname

theorem test_of_family {family : String} {known names : List String} {isSet : Bool}
    (hknown : ∀ name ∈ known, name ∉ f.texts.map Prod.fst) {c : Clause}
    (h : .ok c ∈ familyTests family known isSet names) : f.Test c := by
  obtain ⟨name, -, hname⟩ := List.mem_map.mp h
  split at hname
  · next hmem =>
    have hlabel := hknown name (List.contains_iff_mem.mp hmem)
    cases isSet with
    | false =>
      obtain rfl : .term (.leaf (.ofFlag name (some family) false)) = c := Except.ok.inj hname
      refine .other (fun _ => rfl) ?_
      rintro p ⟨⟩
      exact hlabel
    | true =>
      obtain rfl : .bare (.flag name (some family)) = c := Except.ok.inj hname
      exact .other (fun _ => rfl) fun p h => nomatch h
  · cases hname

theorem test_of_mem {c : Clause} (h : .ok c ∈ f.clauses zone) : f.Test c := by
  have hlabels : f.texts.map Prod.fst = ["from", "to", "cc", "subject", "filename", "label"] := rfl
  simp only [clauses, List.mem_append] at h
  rcases h with (((((((((((h | h) | h) | h) | h) | h) | h) | h) | h) | h) | h) | h) | h
  · exact test_of_text (by simp [texts]) h
  · exact test_of_text (by simp [texts]) h
  · exact test_of_text (by simp [texts]) h
  · exact test_of_subject h
  · exact test_of_text (by simp [texts]) h
  · exact test_of_text (by simp [texts]) h
  · exact test_of_bound (by simp [hlabels]) h
  · exact test_of_bound (by simp [hlabels]) h
  · exact test_of_bound (by simp [hlabels]) h
  · exact test_of_bound (by simp [hlabels]) h
  · exact test_of_family (by simp [hlabels, Catalogue.hasFlags]) h
  · exact test_of_family (by simp [hlabels, Catalogue.isFlags]) h
  · exact test_of_family (by simp [hlabels, Catalogue.isFlags]) h

/-- Among some results there is the test of a text flag. -/
def Tested (results : List (Except Failure Clause)) (name value : String) : Prop :=
  ∃ p operand, .ok (.term (.leaf p)) ∈ results ∧ p.attr.label = name ∧
    p.operand = .text operand ∧ (operand = value ∨ operand = trim value)

theorem Tested.mono {results more : List (Except Failure Clause)} {name value : String}
    (h : Tested results name value) (hsubset : ∀ r ∈ results, r ∈ more) :
    Tested more name value := by
  obtain ⟨p, operand, hp, hrest⟩ := h
  exact ⟨p, operand, hsubset _ hp, hrest⟩

theorem testOf_tested (name : String) (field : Option Field) {value : String}
    (hgiven : value ≠ "") : Tested (testOf (.equatable name field) .equal value) name value := by
  rw [testOf, if_neg (by simpa using hgiven)]
  exact ⟨_, value, List.mem_singleton.mpr rfl, rfl, rfl, .inl rfl⟩

theorem subjectTest_tested {value : String} (hgiven : value ≠ "") :
    Tested (subjectTest value) "subject" value := by
  rw [subjectTest, if_neg (by simpa using hgiven)]
  cases h : hasBlank (trim value) <;>
  · simp only [h]
    exact ⟨_, trim value, List.mem_singleton.mpr rfl, rfl, rfl, .inr rfl⟩

theorem mem_clauses {r : Except Failure Clause}
    (h : r ∈ testOf Catalogue.sender .equal f.sender ∨
      r ∈ testOf Catalogue.recipients .equal f.recipients ∨
      r ∈ testOf Catalogue.copies .equal f.copies ∨ r ∈ subjectTest f.subject ∨
      r ∈ testOf Catalogue.fileName .equal f.fileName ∨
      r ∈ testOf Catalogue.label .equal f.label) : r ∈ f.clauses zone := by
  simp only [clauses, List.mem_append]
  tauto

/-- Every text that is given is tested. -/
theorem clauses_tested {name value : String} (hentry : (name, value) ∈ f.texts)
    (hgiven : value ≠ "") : Tested (f.clauses zone) name value := by
  simp only [texts, List.mem_cons, List.not_mem_nil, or_false, Prod.mk.injEq] at hentry
  rcases hentry with ⟨rfl, rfl⟩ | ⟨rfl, rfl⟩ | ⟨rfl, rfl⟩ | ⟨rfl, rfl⟩ | ⟨rfl, rfl⟩ | ⟨rfl, rfl⟩
  · exact (testOf_tested "from" _ hgiven).mono fun _ hr => mem_clauses (.inl hr)
  · exact (testOf_tested "to" _ hgiven).mono fun _ hr => mem_clauses (.inr (.inl hr))
  · exact (testOf_tested "cc" _ hgiven).mono fun _ hr => mem_clauses (.inr (.inr (.inl hr)))
  · exact (subjectTest_tested hgiven).mono fun _ hr =>
      mem_clauses (.inr (.inr (.inr (.inl hr))))
  · exact (testOf_tested "filename" _ hgiven).mono fun _ hr =>
      mem_clauses (.inr (.inr (.inr (.inr (.inl hr)))))
  · exact (testOf_tested "label" _ hgiven).mono fun _ hr =>
      mem_clauses (.inr (.inr (.inr (.inr (.inr hr)))))

/-- The names of text flags differ, so each has one value. -/
theorem texts_unique {name value other : String} (h : (name, value) ∈ f.texts)
    (hother : (name, other) ∈ f.texts) : value = other := by
  simp only [texts, List.mem_cons, List.not_mem_nil, or_false, Prod.mk.injEq] at h hother
  rcases h with ⟨rfl, rfl⟩ | ⟨rfl, rfl⟩ | ⟨rfl, rfl⟩ | ⟨rfl, rfl⟩ | ⟨rfl, rfl⟩ | ⟨rfl, rfl⟩ <;>
    simpa [eq_comm] using hother

theorem firstWord_of_same {operand value : String} (h : operand = value ∨ operand = trim value) :
    firstWord operand = firstWord value := by
  rcases h with rfl | rfl
  · rfl
  · exact Text.firstWord_trim value

/-- A value is cut exactly if it holds a blank that is not at one of its ends. -/
theorem cuts_iff {name value : String} (hentry : (name, value) ∈ f.texts) :
    f.Cuts zone name value ↔ hasBlank (trim value) = true := by
  constructor
  · rintro ⟨p, kept, hp, hname, hkept, hcut⟩
    -- The names of text flags are names of no other attributes, so this is the test of the entry.
    cases test_of_mem hp with
    | text hvalue hholds hsame =>
      rw [hname] at hvalue
      obtain rfl := texts_unique hentry hvalue
      rw [hholds] at hkept
      have hword : firstWord value = kept :=
        (firstWord_of_same hsame).symm.trans (Except.ok.inj hkept)
      rw [← hword] at hcut
      exact (Text.hasBlank_trim_iff _).mpr hcut
    | other hfixed hlabel =>
      exact absurd (List.mem_map_of_mem hentry) (hname ▸ hlabel p rfl)
  · intro hblank
    have hgiven : value ≠ "" := by
      rintro rfl
      cases hblank
    obtain ⟨p, operand, hp, hname, hholds, hsame⟩ := clauses_tested hentry hgiven
    refine ⟨p, firstWord value, hp, hname, ?_, (Text.hasBlank_trim_iff value).mp hblank⟩
    rw [hholds, ← firstWord_of_same hsame]
    rfl

/-! ### Refused values -/

/-- How a value that would be cut is refused. -/
def cutRefusal (name value : String) : Failure :=
  .validation ("--" ++ name ++ " \"" ++ value ++ "\"")
    "operand truncation is on, so only single words can be matched"

theorem clause_true (zone : Zone) (f : Flags) : f.clause zone true =
    match f.severalWords? with
    | some (name, value) => .error (cutRefusal name value)
    | none => f.clause zone false := by
  unfold clause
  cases f.severalWords? <;> rfl

theorem cutRefusal_inj {name value other otherValue : String} (hentry : (name, value) ∈ f.texts)
    (hother : (other, otherValue) ∈ f.texts)
    (h : cutRefusal name value = cutRefusal other otherValue) :
    name = other ∧ value = otherValue := by
  have hplain : ∀ entry ∈ f.texts, ' ' ∉ entry.1.toList := by simp [texts]
  simp only [cutRefusal, Failure.validation.injEq, and_true] at h
  have htext : name.toList ++ ' ' :: ('"' :: (value.toList ++ ['"'])) =
      other.toList ++ ' ' :: ('"' :: (otherValue.toList ++ ['"'])) := by
    simpa [String.toList_append] using congrArg String.toList h
  obtain ⟨hname, hbehind⟩ | ⟨x, hx, -⟩ := split_at_first (hplain _ hother) htext
  · exact ⟨String.toList_inj.mp hname,
      String.toList_inj.mp (List.append_cancel_right (List.cons.inj hbehind).2)⟩
  · exact absurd hx (ne_around (hplain _ hentry))

theorem clause_false_ne (name value : String) :
    f.clause zone false ≠ .error (cutRefusal name value) := by
  intro h
  cases hunknown : f.unknown with
  | cons entry rest =>
    obtain ⟨family, known, unknown⟩ := entry
    rw [clause_of_unknown (by rw [hunknown, List.head?_cons])] at h
    have hreason := (Failure.validation.inj (Except.error.inj h)).2
    have hhead := congrArg (fun s : String => s.toList.head?) hreason
    simp [String.toList_append] at hhead
  | nil =>
    by_cases hgiven : f = {}
    · subst hgiven
      cases h
    · obtain ⟨first, rest, c, -, hclause, -⟩ := clause_of_known zone hunknown hgiven
      rw [hclause] at h
      cases h

/-- The text flag is the first whose value would be cut. -/
def FirstCut (zone : Zone) (f : Flags) (name value : String) : Prop :=
  ∃ before after, f.texts = before ++ (name, value) :: after ∧ f.Cuts zone name value ∧
    ∀ entry ∈ before, ¬f.Cuts zone entry.1 entry.2

theorem severalWords?_eq_some_iff {name value : String} :
    f.severalWords? = some (name, value) ↔ f.FirstCut zone name value := by
  rw [severalWords?, List.find?_eq_some_iff_append]
  constructor
  · rintro ⟨hblank, before, after, hsplit, hbefore⟩
    refine ⟨before, after, hsplit, (cuts_iff (by simp [hsplit])).mpr hblank, ?_⟩
    intro entry hentry hcut
    have hmem : entry ∈ f.texts := by simp [hsplit, hentry]
    have hnone := hbefore entry hentry
    rw [(cuts_iff hmem).mp hcut] at hnone
    cases hnone
  · rintro ⟨before, after, hsplit, hcut, hbefore⟩
    refine ⟨(cuts_iff (by simp [hsplit])).mp hcut, before, after, hsplit, ?_⟩
    intro entry hentry
    have hmem : entry ∈ f.texts := by simp [hsplit, hentry]
    simpa [cuts_iff hmem] using hbefore entry hentry

theorem severalWords?_eq_none_iff :
    f.severalWords? = none ↔ ∀ name value, (name, value) ∈ f.texts → ¬f.Cuts zone name value := by
  rw [severalWords?, List.find?_eq_none]
  constructor
  · intro h name value hentry hcut
    exact h _ hentry ((cuts_iff hentry).mp hcut)
  · rintro h ⟨name, value⟩ hentry hblank
    exact h name value hentry ((cuts_iff hentry).mpr hblank)

/-! ### Accepted clauses -/

theorem firstWord_eq_trim {operand value : String} (hsame : operand = value ∨ operand = trim value)
    (hone : hasBlank (trim value) = false) : firstWord operand = trim operand := by
  rw [firstWord_of_same hsame, Text.firstWord_of_not_hasBlank hone]
  rcases hsame with rfl | rfl
  · rfl
  · exact (Text.trim_trim value).symm

/-- Where no value would be cut, the first words of the tests are their texts trimmed. -/
theorem Test.mapText_firstWord {c : Clause} (h : f.Test c)
    (hwhole : ∀ entry ∈ f.texts, hasBlank (trim entry.2) = false) {t : Term}
    (hresolve : c.resolve = .ok t) : t.mapText firstWord = t.mapText trim := by
  cases h with
  | text hentry hholds hsame =>
    obtain rfl := Except.ok.inj hresolve
    have hone := hwhole _ hentry
    refine congrArg Term.leaf (Predicate.mapText_congr ?_)
    rw [hholds, Operand.mapText_text, Operand.mapText_text, firstWord_eq_trim hsame hone]
  | other hfixed hlabel =>
    have hsame : ∀ g, t.mapText g = t := by
      intro g
      have hmapped := Clause.resolve_mapText g c
      rw [hfixed g, hresolve] at hmapped
      exact (Except.ok.inj hmapped).symm
    rw [hsame, hsame]

theorem mapText_foldl {g h : String → String} {ts : List Term}
    (hts : ∀ t ∈ ts, t.mapText g = t.mapText h) {t : Term} (ht : t.mapText g = t.mapText h) :
    (ts.foldl (fun l r => .node l .and r false) t).mapText g =
      (ts.foldl (fun l r => .node l .and r false) t).mapText h := by
  induction ts generalizing t with
  | nil => exact ht
  | cons u ts ih =>
    obtain ⟨hu, hts⟩ := List.forall_mem_cons.mp hts
    exact ih hts (by rw [Term.mapText, Term.mapText, ht, hu])

/-- Cutting an accepted clause is trimming its texts. -/
theorem compile_accepted {c : Clause} (h : f.clause zone true = .ok (some c)) :
    ∃ s, c.compile { truncate := true } = .ok s ∧ (c.mapText trim).compile {} = .ok s := by
  rw [clause_true] at h
  cases hseveral : f.severalWords? with
  | some entry => rw [hseveral] at h; cases h
  | none =>
    rw [hseveral] at h
    have hwhole : ∀ entry ∈ f.texts, hasBlank (trim entry.2) = false := by
      simpa [severalWords?] using hseveral
    obtain ⟨hknown, hgiven⟩ := known_of_clause h
    obtain ⟨first, rest, t, ts, d, -, hstand, hd, hresolve, htext⟩ :=
      terms_of_known zone hknown hgiven
    obtain rfl : d = c := by simpa [h] using hd.symm
    obtain ⟨s, hs⟩ := Clause.compile_mapText firstWord htext
    obtain ⟨ht, hts⟩ := List.forall_mem_cons.mp (hstand.forall_mem fun _ _ hmem hterm =>
      (test_of_mem hmem).mapText_firstWord hwhole hterm)
    refine ⟨s, d.compile_truncated.trans hs, ?_⟩
    rw [← hs, Clause.compile, Clause.compile, Clause.resolve_mapText, Clause.resolve_mapText,
      hresolve]
    exact congrArg (Term.render {}) (mapText_foldl hts ht).symm

/-- Truncation never cuts an accepted filter. A clause rendered with its operands cut is that
clause with the first words of its texts. Of flags with operands to be cut, the first text is
refused that would lose a character that is no blank; where none would, the clause is the one
without truncation, and rendered with its operands cut it is that clause with its texts trimmed. -/
theorem truncation_never_cuts :
    (∀ (c : Clause) (s : String), c.compile {} = .ok s → ∃ cut,
      c.compile { truncate := true } = .ok cut ∧ (c.mapText firstWord).compile {} = .ok cut) ∧
    ∀ (zone : Zone) (f : Flags),
      (∀ name value, (name, value) ∈ f.texts →
        (f.clause zone true = .error (cutRefusal name value) ↔ f.FirstCut zone name value)) ∧
      ((∀ name value, (name, value) ∈ f.texts → ¬f.Cuts zone name value) →
        f.clause zone true = f.clause zone false) ∧
      ∀ c, f.clause zone true = .ok (some c) → ∃ s,
        c.compile { truncate := true } = .ok s ∧ (c.mapText trim).compile {} = .ok s := by
  refine ⟨fun c s h => ?_, fun zone f => ⟨fun name value hentry => ?_, fun hwhole => ?_,
    fun c => compile_accepted⟩⟩
  · obtain ⟨cut, hcut⟩ := Clause.compile_mapText firstWord h
    exact ⟨cut, c.compile_truncated.trans hcut, hcut⟩
  · rw [clause_true, ← severalWords?_eq_some_iff]
    cases hseveral : f.severalWords? with
    | none => exact ⟨fun h => absurd h (clause_false_ne name value), nofun⟩
    | some entry =>
      obtain ⟨other, otherValue⟩ := entry
      have hother : (other, otherValue) ∈ f.texts := List.mem_of_find?_eq_some hseveral
      constructor
      · intro h
        obtain ⟨rfl, rfl⟩ := cutRefusal_inj hentry hother (Except.error.inj h).symm
        rfl
      · rintro ⟨⟩
        rfl
  · rw [clause_true, severalWords?_eq_none_iff.mpr hwhole]

/-- Single words with blanks around them, and a bound on the size. -/
def spaced : Flags := { sender := " ann ", subject := "report\n", larger := "5" }

theorem spaced_text : ∃ c, spaced.clause .universal true = .ok (some c) ∧
    c.compile {} = .ok "((from:\" ann \" subject:report) larger:5)" ∧
    c.compile { truncate := true } = .ok "((from:\"ann\" subject:report) larger:5)" :=
  ⟨_, rfl, rfl, rfl⟩

theorem truncation_never_cuts_spaced :
    spaced.clause .universal true = spaced.clause .universal false ∧
    (∃ c, spaced.clause .universal true = .ok (some c) ∧
      c.compile {} = .ok "((from:\" ann \" subject:report) larger:5)" ∧
      (c.mapText firstWord).compile {} = .ok "((from:\"ann\" subject:report) larger:5)" ∧
      (c.mapText trim).compile {} = .ok "((from:\"ann\" subject:report) larger:5)") ∧
    ({ spaced with recipients := "bob", label := "a b" } : Flags).FirstCut .universal
      "label" "a b" := by
  have hwhole : ∀ name value, (name, value) ∈ spaced.texts →
      ¬spaced.Cuts .universal name value := by
    intro name value hentry
    rw [cuts_iff hentry]
    have hall : ∀ entry ∈ spaced.texts, ¬hasBlank (trim entry.2) = true := by decide +kernel
    exact hall (name, value) hentry
  obtain ⟨c, hc, htext, hcut⟩ := spaced_text
  obtain ⟨cut, hrendered, hfirst⟩ := truncation_never_cuts.1 c _ htext
  obtain ⟨s, haccepted, htrim⟩ := (truncation_never_cuts.2 .universal spaced).2.2 c hc
  rw [hcut] at hrendered haccepted
  obtain rfl := Except.ok.inj hrendered
  obtain rfl := Except.ok.inj haccepted
  exact ⟨(truncation_never_cuts.2 .universal spaced).2.1 hwhole, ⟨c, hc, htext, hfirst, htrim⟩,
    ((truncation_never_cuts.2 .universal _).1 "label" "a b" (by decide +kernel)).mp rfl⟩

end Flags

end Mailroom.Filter
