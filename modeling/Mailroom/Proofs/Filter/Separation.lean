import Mailroom.Proofs.Filter.Flags

/-! Filter values that imitate terms. Values are quoted as they are, so a value that holds a quote
may close its term early and go on like another one. That is the only way in which two records of
quoted values share a search text: each of them has a value that, with one of the quotes around it,
holds the end of a term and the beginning of a term of the other record. -/

namespace Mailroom.Filter

/-! ### Lists around an element -/

section Splitting

variable {α : Type} {a : α}

theorem ne_around {l m r : List α} (hl : a ∉ l) : l ≠ m ++ a :: r := by
  rintro rfl
  simp at hl

/-- Where a list is written in two ways around an element, both ways mean one place or one of the
places comes first. -/
theorem split_cases {l r m s : List α} (h : l ++ a :: r = m ++ a :: s) :
    (l = m ∧ r = s) ∨ (∃ x, m = l ++ a :: x ∧ r = x ++ a :: s) ∨
      ∃ x, l = m ++ a :: x ∧ s = x ++ a :: r := by
  obtain ⟨x, rfl, hx⟩ | ⟨x, rfl, hx⟩ := List.append_eq_append_iff.mp h
  · cases x with
    | nil => exact .inl ⟨(List.append_nil l).symm, (List.cons.inj hx).2⟩
    | cons b x =>
      obtain ⟨rfl, hr⟩ := List.cons.inj hx
      exact .inr (.inl ⟨x, rfl, hr⟩)
  · cases x with
    | nil => exact .inl ⟨List.append_nil m, (List.cons.inj hx).2.symm⟩
    | cons b x =>
      obtain ⟨rfl, hs⟩ := List.cons.inj hx
      exact .inr (.inr ⟨x, rfl, hs⟩)

/-- Where one of the ways has the element for the first time, the other has it there or later. -/
theorem split_at_first {l r m s : List α} (hm : a ∉ m) (h : l ++ a :: r = m ++ a :: s) :
    (l = m ∧ r = s) ∨ ∃ x, l = m ++ a :: x ∧ s = x ++ a :: r := by
  obtain hsame | ⟨x, rfl, -⟩ | hlater := split_cases h
  · exact .inl hsame
  · exact absurd rfl (ne_around hm)
  · exact .inr hlater

theorem replicate_append_inj {l m : List α} (hl : l.head? ≠ some a) (hm : m.head? ≠ some a)
    {i j : Nat} (h : List.replicate i a ++ l = List.replicate j a ++ m) : i = j ∧ l = m := by
  induction i generalizing j with
  | zero =>
    cases j with
    | zero => exact ⟨rfl, h⟩
    | succ j =>
      obtain rfl : l = a :: (List.replicate j a ++ m) := h
      exact absurd rfl hl
  | succ i ih =>
    cases j with
    | zero =>
      obtain rfl : a :: (List.replicate i a ++ l) = m := h
      exact absurd rfl hm
    | succ j =>
      obtain ⟨hij, hlm⟩ := ih (List.cons.inj h).2
      exact ⟨congrArg Nat.succ hij, hlm⟩

end Splitting

/-! ### Texts of quoted values -/

/-- A keyword and the value that is quoted behind it. -/
abbrev Quoted := String × String

namespace Quoted

def form (entry : Quoted) : Form := .leaf false entry.1 true entry.2

/-- How entries are written behind others: each behind a blank, and a bracket closes behind it. -/
def tail : List Quoted → List Char
  | [] => []
  | (keyword, value) :: rest =>
    ' ' :: keyword.toList ++ ':' :: '"' :: (value.toList ++ '"' :: ')' :: tail rest)

theorem text_form (entry : Quoted) : entry.form.text.toList =
    entry.1.toList ++ ':' :: '"' :: (entry.2.toList ++ ['"']) := by
  simp [form, Form.text, sign]

theorem text_foldl (rest : List Quoted) (first : Form) :
    ((rest.map form).foldl (.node false .and) first).text.toList =
      List.replicate rest.length '(' ++ (first.text.toList ++ tail rest) := by
  induction rest generalizing first with
  | nil => simp [tail]
  | cons entry rest ih =>
    rw [List.map_cons, List.foldl_cons, ih, List.length_cons, List.replicate_succ', Form.text]
    simp [tail, text_form, sign, Junction.brackets]

/-- What closes behind a term: nothing behind the first one, a bracket behind the others. -/
def closings : List (List Char) := [[], [')']]

/-- What stands between the quote that closes a value and the quote that opens the next one, whose
keyword is given. -/
def gap (closing : List Char) (keyword : String) : List Char :=
  closing ++ ' ' :: (keyword.toList ++ [':'])

/-- A value that, with one of the quotes around it, holds the end of a term and the beginning of
one with the keyword. -/
def Imitates (keyword value : String) : Prop :=
  ∃ closing ∈ closings, '"' :: (gap closing keyword ++ ['"']) <:+: value.toList ++ ['"'] ∨
    '"' :: (gap closing keyword ++ ['"']) <:+: '"' :: value.toList

theorem append_tail (closing : List Char) (keyword value : String) (rest : List Quoted) :
    closing ++ tail ((keyword, value) :: rest) =
      gap closing keyword ++ '"' :: (value.toList ++ '"' :: ([')'] ++ tail rest)) := by
  simp [tail, gap]

theorem field_plain : ∀ keyword ∈ fields, '"' ∉ keyword.toList ∧ ':' ∉ keyword.toList := by
  decide +kernel

theorem quote_notMem_closing : ∀ closing ∈ closings, '"' ∉ closing := by decide

section Gaps

variable {c d : List Char} (hc : c ∈ closings) (hd : d ∈ closings) {keyword other : String}
include hc

theorem quote_notMem_gap (hkeyword : keyword ∈ fields) : '"' ∉ gap c keyword := by
  simp [gap, quote_notMem_closing c hc, (field_plain keyword hkeyword).1]

include hd in
theorem gap_inj (h : gap c keyword = gap d other) : keyword = other := by
  simp only [closings, List.mem_cons, List.not_mem_nil, or_false] at hc hd
  rcases hc with rfl | rfl <;> rcases hd with rfl | rfl <;> simp [gap] at h
  all_goals exact String.toList_inj.mp h

/-- A value whose quote is the end of a term and has a gap behind it imitates the term there. -/
theorem imitates_of_opening {value : String} {w x r s : List Char} (hkeyword : keyword ∈ fields)
    (hvalue : value.toList = w ++ '"' :: x)
    (h : x ++ '"' :: r = gap c keyword ++ '"' :: s) : Imitates keyword value := by
  refine ⟨c, hc, .inl ?_⟩
  rw [hvalue]
  obtain ⟨rfl, -⟩ | ⟨y, rfl, -⟩ := split_at_first (quote_notMem_gap hc hkeyword) h
  · exact ⟨w, [], by simp⟩
  · exact ⟨w, y ++ ['"'], by simp⟩

/-- A value that starts with a gap and a quote imitates the term behind it. -/
theorem imitates_of_gap {value : String} {x : List Char}
    (hvalue : value.toList = gap c keyword ++ '"' :: x) : Imitates keyword value :=
  ⟨c, hc, .inr ⟨[], x, by simp [hvalue]⟩⟩

end Gaps

/-- A value that imitates none of some entries ends where the value in front of them ends, unless
that one ends behind it. -/
theorem ends_together {us : List Quoted} (hus : ∀ u ∈ us, u.1 ∈ fields) {d : List Char}
    (hd : d ∈ closings) {value : String} (hhonest : ∀ u ∈ us, ¬Imitates u.1 value)
    {w behind : List Char} (hbehind : ∀ x, behind ≠ x ++ '"' :: (d ++ tail us))
    (h : value.toList ++ '"' :: behind = w ++ '"' :: (d ++ tail us)) :
    value.toList = w ∧ behind = d ++ tail us := by
  obtain hsame | ⟨x, -, hx⟩ | ⟨x, hvalue, hx⟩ := split_cases h
  · exact hsame
  · exact absurd hx (hbehind x)
  · cases us with
    | nil =>
      exact absurd ((List.append_nil d).symm.trans hx) (ne_around (quote_notMem_closing d hd))
    | cons u us =>
      obtain ⟨keyword, other⟩ := u
      rw [append_tail] at hx
      exact absurd (imitates_of_opening hd (hus _ List.mem_cons_self) hvalue hx.symm)
        (hhonest _ List.mem_cons_self)

/-- Entries with values that imitate none of some others, of which there are at least as many, are
written apart from these. Behind a value that imitates none either, they are written like the
others behind one only if the values and the entries are the same; and the value in front of the
others never ends within them. -/
theorem tail_separate {ts us : List Quoted} (hts : ∀ t ∈ ts, t.1 ∈ fields)
    (hus : ∀ u ∈ us, u.1 ∈ fields) (hhonest : ∀ t ∈ ts, ∀ u ∈ us, ¬Imitates u.1 t.2)
    (hlength : ts.length ≤ us.length) {c d : List Char} (hc : c ∈ closings) (hd : d ∈ closings) :
    (∀ x, c ++ tail ts ≠ x ++ '"' :: (d ++ tail us)) ∧
    ∀ {value : String} {w : List Char}, (∀ u ∈ us, ¬Imitates u.1 value) →
      value.toList ++ '"' :: (c ++ tail ts) = w ++ '"' :: (d ++ tail us) →
      value.toList = w ∧ ts = us := by
  -- By induction on the entries: each part uses both parts for fewer of them, as the value in front
  -- of the others may end within the rest again or together with the first value here.
  induction ts generalizing us c d with
  | nil =>
    have hnone : '"' ∉ c ++ tail [] := (List.append_nil c).symm ▸ quote_notMem_closing c hc
    refine ⟨fun _ => ne_around hnone, fun hvalue h => ?_⟩
    obtain ⟨hw, hrest⟩ := ends_together hus hd hvalue (fun _ => ne_around hnone) h
    cases us with
    | nil => exact ⟨hw, rfl⟩
    | cons u us => exact absurd (hrest.trans (append_tail d u.1 u.2 us)) (ne_around hnone)
  | cons t ts ih =>
    obtain ⟨u, us, rfl⟩ :=
      List.exists_cons_of_length_pos (Nat.lt_of_lt_of_le (Nat.succ_pos _) hlength)
    obtain ⟨keyword, value⟩ := t
    obtain ⟨other, otherValue⟩ := u
    obtain ⟨hkeyword, hts⟩ := List.forall_mem_cons.mp hts
    obtain ⟨hother, husTail⟩ := List.forall_mem_cons.mp hus
    obtain ⟨hvalue, hhonestTail⟩ := List.forall_mem_cons.mp hhonest
    have hclosing : [')'] ∈ closings := by decide
    have hnext := ih hts husTail (fun t ht u hu => hhonestTail t ht u (List.mem_cons_of_mem _ hu))
      (Nat.le_of_succ_le_succ hlength) hclosing hclosing
    have hall := ih hts hus hhonestTail (Nat.le_of_succ_le hlength) hclosing hd
    have hwithin : ∀ x, c ++ tail ((keyword, value) :: ts) ≠
        x ++ '"' :: (d ++ tail ((other, otherValue) :: us)) := by
      intro x h
      rw [append_tail c] at h
      obtain ⟨-, hrest⟩ | ⟨y, -, hrest⟩ := split_at_first (quote_notMem_gap hc hkeyword) h.symm
      -- Either it ends where the first value here begins, and this value is their gap, or it ends
      -- later, together with this value; then fewer entries are left here than there.
      · rw [append_tail] at hrest
        obtain ⟨-, hbehind⟩ | ⟨y, hy, -⟩ :=
          split_at_first (quote_notMem_gap hd hother) hrest.symm
        · exact hnext.1 _ hbehind
        · exact hvalue _ List.mem_cons_self (imitates_of_gap hd hy)
      · obtain ⟨-, rfl⟩ := hall.2 hvalue hrest
        exact absurd hlength (by simp)
    refine ⟨hwithin, fun hfirst h => ?_⟩
    obtain ⟨hw, hrest⟩ := ends_together hus hd hfirst hwithin h
    rw [append_tail, append_tail] at hrest
    obtain ⟨hgap, hrest⟩ | ⟨y, hy, -⟩ := split_at_first (quote_notMem_gap hd hother) hrest
    · obtain ⟨hvalues, hentries⟩ :=
        hnext.2 (fun u hu => hvalue u (List.mem_cons_of_mem _ hu)) hrest
      obtain rfl : keyword = other := gap_inj hc hd hgap
      obtain rfl : value = otherValue := String.toList_inj.mp hvalues
      exact ⟨hw, congrArg _ hentries⟩
    · exact absurd hy (ne_around (quote_notMem_gap hc hkeyword))

/-- Some entries joined, the first two first. -/
def join (first : Quoted) (rest : List Quoted) : Form :=
  (rest.map form).foldl (.node false .and) first.form

theorem head?_keyword {keyword : String} (hkeyword : keyword ∈ fields) (cs : List Char) :
    (keyword.toList ++ cs).head? ≠ some '(' := by
  obtain ⟨hne, hletters⟩ := Form.keyword_letters keyword (List.mem_append_left _ hkeyword)
  obtain ⟨c, letters, hcons⟩ := List.exists_cons_of_ne_nil hne
  rw [hcons]
  rintro ⟨⟩
  exact absurd (List.all_eq_true.mp hletters '(' (by simp [hcons])) (by decide)

/-- Entries with values that imitate none of some others have a text of their own. -/
theorem join_separate {t u : Quoted} {ts us : List Quoted} (hts : ∀ own ∈ t :: ts, own.1 ∈ fields)
    (hus : ∀ other ∈ u :: us, other.1 ∈ fields)
    (hhonest : ∀ own ∈ t :: ts, ∀ other ∈ u :: us, ¬Imitates other.1 own.2)
    (h : (join t ts).text = (join u us).text) : t :: ts = u :: us := by
  obtain ⟨hkeyword, hts⟩ := List.forall_mem_cons.mp hts
  obtain ⟨hother, hus⟩ := List.forall_mem_cons.mp hus
  obtain ⟨hvalue, hhonest⟩ := List.forall_mem_cons.mp hhonest
  have htext := congrArg String.toList h
  simp only [join, text_foldl, text_form, List.append_assoc, List.cons_append] at htext
  obtain ⟨hlength, hbehind⟩ :=
    replicate_append_inj (head?_keyword hkeyword _) (head?_keyword hother _) htext
  obtain ⟨hkeywords, hbehind⟩ | ⟨x, hx, -⟩ := split_at_first (field_plain u.1 hother).2 hbehind
  · obtain ⟨hvalues, hrest⟩ := (tail_separate hts hus
      (fun own hown other hmem => hhonest own hown other (List.mem_cons_of_mem _ hmem))
      (Nat.le_of_eq hlength) (c := []) (d := []) (by decide) (by decide)).2
      (fun other hmem => hvalue other (List.mem_cons_of_mem _ hmem)) (List.cons.inj hbehind).2
    rw [hrest, Prod.ext (String.toList_inj.mp hkeywords) (String.toList_inj.mp hvalues)]
  · exact absurd hx (ne_around (field_plain t.1 hkeyword).2)

/-- Values without quotes imitate nothing. -/
theorem Imitates.quote_mem {keyword value : String} (h : Imitates keyword value) :
    '"' ∈ value.toList := by
  obtain ⟨closing, -, h⟩ := h
  have hcount : List.count '"' ('"' :: (gap closing keyword ++ ['"'])) ≤
      List.count '"' value.toList + 1 := by
    rcases h with h | h
    · simpa using h.sublist.count_le '"'
    · simpa using h.sublist.count_le '"'
  rw [List.count_cons_self, List.count_append, List.count_singleton_self] at hcount
  exact List.count_pos_iff.mp (by omega)

end Quoted

namespace Flags

variable {zone : Zone} {f g : Flags}

/-- Only values that are always quoted are given. -/
def OnlyQuoted (f : Flags) : Prop :=
  f = { sender := f.sender, recipients := f.recipients, copies := f.copies,
        fileName := f.fileName, label := f.label }

/-- The values that are always quoted, under their keywords. -/
def entries (f : Flags) : List Quoted :=
  [("from", f.sender), ("to", f.recipients), ("cc", f.copies), ("filename", f.fileName),
    ("label", f.label)]

/-- The entries that are given. -/
def quoted (f : Flags) : List Quoted := f.entries.filter (!·.2.isEmpty)

theorem quoted_fields (f : Flags) : ∀ entry ∈ f.quoted, entry.1 ∈ fields := by
  have hentries : ∀ entry ∈ f.entries, entry.1 ∈ fields := by simp [entries, fields]
  exact fun entry hentry => hentries entry (List.mem_of_mem_filter hentry)

theorem ifGiven_form (entry : Quoted) :
    ifGiven entry.2 entry.form = ([entry].filter (!·.2.isEmpty)).map Quoted.form := by
  unfold ifGiven
  cases h : entry.2.isEmpty <;> simp [h]

theorem forms_of_onlyQuoted (hf : f.OnlyQuoted) : f.forms zone = f.quoted.map Quoted.form := by
  have hsplit : f.entries = [("from", f.sender)] ++ [("to", f.recipients)] ++ [("cc", f.copies)]
    ++ [("filename", f.fileName)] ++ [("label", f.label)] := rfl
  rw [quoted, hsplit, hf]
  simp only [List.filter_append, List.map_append, ← ifGiven_form]
  simp [forms, valueForms, ifGiven, Quoted.form]

/-- The text of an accepted record is that of its entries. -/
theorem compile_of_onlyQuoted (hf : f.OnlyQuoted) {c : Clause}
    (hc : f.clause zone false = .ok (some c)) :
    ∃ t ts, f.quoted = t :: ts ∧ c.compile {} = .ok (Quoted.join t ts).text := by
  obtain ⟨hknown, hgiven⟩ := known_of_clause hc
  obtain ⟨first, rest, d, hforms, hd, htext⟩ := clause_of_known zone hknown hgiven
  obtain rfl : d = c := by simpa [hc] using hd.symm
  rw [forms_of_onlyQuoted hf] at hforms
  obtain ⟨t, ts, hquoted, rfl, rfl⟩ := List.map_eq_cons_iff.mp hforms
  exact ⟨t, ts, hquoted, htext⟩

/-- Texts that are not given are looked up as empty ones. -/
theorem lookup_given (entries : List Quoted) (keyword : String)
    (hkeys : (entries.map Prod.fst).Nodup) :
    ((entries.filter (!·.2.isEmpty)).lookup keyword).getD "" =
      (entries.lookup keyword).getD "" := by
  induction entries with
  | nil => rfl
  | cons entry entries ih =>
    obtain ⟨other, value⟩ := entry
    obtain ⟨hother, hkeys⟩ := List.nodup_cons.mp hkeys
    have ih := ih hkeys
    by_cases hkeyword : keyword = other
    · subst hkeyword
      have hnone : entries.lookup keyword = none := by
        rw [List.lookup_eq_none_iff]
        rintro entry hentry
        have hkey : entry.1 ∈ entries.map Prod.fst := List.mem_map_of_mem hentry
        simpa using fun h : keyword = entry.1 => hother (h ▸ hkey)
      rw [hnone] at ih
      by_cases hvalue : value = ""
      · simpa [hvalue] using ih
      · simp [hvalue]
    · have hne : (keyword == other) = false := by simpa using hkeyword
      by_cases hvalue : value = "" <;> simpa [hvalue, List.lookup_cons, hne] using ih

theorem quoted_inj (hf : f.OnlyQuoted) (hg : g.OnlyQuoted) (h : f.quoted = g.quoted) : f = g := by
  have hlookup : ∀ keyword, (f.entries.lookup keyword).getD "" =
      (g.entries.lookup keyword).getD "" := by
    intro keyword
    rw [← lookup_given f.entries keyword (by simp [entries]),
      ← lookup_given g.entries keyword (by simp [entries])]
    exact congrArg (fun entries => (List.lookup keyword entries).getD "") h
  rw [hf, hg]
  congr 1
  · exact hlookup "from"
  · exact hlookup "to"
  · exact hlookup "cc"
  · exact hlookup "filename"
  · exact hlookup "label"

/-- A given value of the one record imitates a term of the other. -/
def Imitates (f g : Flags) : Prop :=
  ∃ own ∈ f.quoted, ∃ other ∈ g.quoted, Quoted.Imitates other.1 own.2

theorem imitates_of_compile_eq (hf : f.OnlyQuoted) (hg : g.OnlyQuoted) {c d : Clause}
    (hc : f.clause zone false = .ok (some c)) (hd : g.clause zone false = .ok (some d))
    (htext : c.compile {} = d.compile {}) (hne : f ≠ g) : f.Imitates g := by
  obtain ⟨t, ts, hfQuoted, hfText⟩ := compile_of_onlyQuoted hf hc
  obtain ⟨u, us, hgQuoted, hgText⟩ := compile_of_onlyQuoted hg hd
  rw [hfText, hgText] at htext
  by_contra himitates
  have hentries : t :: ts = u :: us :=
    Quoted.join_separate (hfQuoted ▸ f.quoted_fields) (hgQuoted ▸ g.quoted_fields)
      (fun own hown other hother h => himitates
        ⟨own, hfQuoted ▸ hown, other, hgQuoted ▸ hother, h⟩) (Except.ok.inj htext)
  exact hne (quoted_inj hf hg (hfQuoted.trans (hentries.trans hgQuoted.symm)))

/-- Two records of quoted values have the same search text only if each holds a value that imitates
a term of the other. So no other record has the text of one whose values are free of quotes. -/
theorem compile_separate (hf : f.OnlyQuoted) (hg : g.OnlyQuoted) {c d : Clause}
    (hc : f.clause zone false = .ok (some c)) (hd : g.clause zone false = .ok (some d))
    (htext : c.compile {} = d.compile {}) :
    (f = g ∨ f.Imitates g ∧ g.Imitates f) ∧
      ((∀ entry ∈ f.quoted, '"' ∉ entry.2.toList) → f = g) := by
  by_cases hsame : f = g
  · exact ⟨.inl hsame, fun _ => hsame⟩
  · have himitates := imitates_of_compile_eq hf hg hc hd htext hsame
    refine ⟨.inr ⟨himitates, imitates_of_compile_eq hg hf hd hc htext.symm (Ne.symm hsame)⟩,
      fun hplain => ?_⟩
    obtain ⟨own, hown, other, -, h⟩ := himitates
    exact absurd h.quote_mem (hplain own hown)

/-- A sender that closes its quote and goes on like a recipient. -/
def openSender : Flags := { sender := "a\" to:\"b", recipients := "c" }

/-- A recipient that closes its quote and goes on like another recipient. -/
def openRecipients : Flags := { sender := "a", recipients := "b\" to:\"c" }

theorem openSender_text : ∃ c, openSender.clause .universal false = .ok (some c) ∧
    c.compile {} = .ok "(from:\"a\" to:\"b\" to:\"c\")" := ⟨_, rfl, rfl⟩

theorem openRecipients_text : ∃ d, openRecipients.clause .universal false = .ok (some d) ∧
    d.compile {} = .ok "(from:\"a\" to:\"b\" to:\"c\")" := ⟨_, rfl, rfl⟩

theorem openSender_ne : openSender ≠ openRecipients :=
  fun h => absurd (congrArg Flags.recipients h) (by decide)

theorem compile_separate_open : openSender.OnlyQuoted ∧ openRecipients.OnlyQuoted ∧
    ∃ c d, openSender.clause .universal false = .ok (some c) ∧
      openRecipients.clause .universal false = .ok (some d) ∧
      c.compile {} = d.compile {} ∧
      openSender.Imitates openRecipients ∧ openRecipients.Imitates openSender := by
  have hsender : openSender.OnlyQuoted := rfl
  have hrecipients : openRecipients.OnlyQuoted := rfl
  obtain ⟨c, hc, hcText⟩ := openSender_text
  obtain ⟨d, hd, hdText⟩ := openRecipients_text
  have htext : c.compile {} = d.compile {} := hcText.trans hdText.symm
  exact ⟨hsender, hrecipients, c, d, hc, hd, htext,
    (compile_separate hsender hrecipients hc hd htext).1.resolve_left openSender_ne⟩

/-- Different records may have the same search text. -/
theorem compile_collides : openSender.OnlyQuoted ∧ openRecipients.OnlyQuoted ∧
    openSender ≠ openRecipients ∧ ∃ c d, openSender.clause .universal false = .ok (some c) ∧
      openRecipients.clause .universal false = .ok (some d) ∧ c.compile {} = d.compile {} := by
  obtain ⟨c, hc, hcText⟩ := openSender_text
  obtain ⟨d, hd, hdText⟩ := openRecipients_text
  exact ⟨rfl, rfl, openSender_ne, c, d, hc, hd, hcText.trans hdText.symm⟩

end Flags

end Mailroom.Filter
