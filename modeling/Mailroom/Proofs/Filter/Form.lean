import Mailroom.Filter.Catalogue
import Mailroom.Filter.Rendering
import Mathlib.Data.List.TakeWhile

/-! The grammar of search texts. A text stands for a form: a leaf is a keyword with a value, bare or
in quotes, an inner node joins two forms by *and* in round brackets or by *or* in braces, and either
may be negated by a minus sign. The grammar is unambiguous: what is written for a form is read back
as that form and no other, as quotes, brackets and blanks never stand in a bare value. -/

namespace Mailroom.Filter

/-- What a search text says. -/
inductive Form
  | leaf (negative : Bool) (keyword : String) (quoted : Bool) (value : String)
  | node (negative : Bool) (junction : Junction) (left right : Form)
deriving DecidableEq, Repr

/-- Keywords of values in quotes or bare. -/
def fields : List String := ["from", "to", "cc", "bcc", "subject", "filename", "label"]

/-- Keywords of bounds and of families of flags, whose values are always bare. -/
def bareKeywords : List String := ["after", "before", "larger", "smaller", "has", "is"]

/-- The characters of bare values. -/
def isWordChar (c : Char) : Bool :=
  !(Text.isBlank c || ['"', '(', ')', '\x7b', '\x7d'].contains c)

/-- A text that may stand as a bare value. -/
def IsWord (s : String) : Prop := s ≠ "" ∧ s.toList.all isWordChar = true

instance (s : String) : Decidable (IsWord s) := inferInstanceAs (Decidable (_ ∧ _))

namespace Form

/-- How a form is written. -/
def text : Form → String
  | leaf negative keyword true value => sign negative ++ keyword ++ ":\"" ++ value ++ "\""
  | leaf negative keyword false value => sign negative ++ keyword ++ ":" ++ value
  | node negative junction left right =>
    sign negative ++ junction.brackets.1 ++ left.text ++ " " ++ right.text ++ junction.brackets.2

/-- The forms that the grammar admits. -/
def Proper : Form → Prop
  | leaf _ keyword true value => keyword ∈ fields ∧ '"' ∉ value.toList
  | leaf _ keyword false value => keyword ∈ fields ++ bareKeywords ∧ IsWord value
  | node _ _ left right => left.Proper ∧ right.Proper

/-- The form with the opposite sign in front. -/
def opposite : Form → Form
  | leaf negative keyword quoted value => leaf (!negative) keyword quoted value
  | node negative junction left right => node (!negative) junction left right

/-! ### Reading -/

/-- A minus sign in front, and what follows. -/
def readSign : List Char → Bool × List Char
  | '-' :: rest => (true, rest)
  | cs => (false, cs)

/-- A keyword with a value, and what follows. -/
def readLeaf (negative : Bool) (cs : List Char) : Option (Form × List Char) :=
  let keyword := String.ofList (cs.takeWhile (· != ':'))
  match cs.dropWhile (· != ':') with
  | ':' :: '"' :: rest =>
    let value := String.ofList (rest.takeWhile (· != '"'))
    (Text.after? ['"'] (rest.dropWhile (· != '"'))).map fun rest =>
      (leaf negative keyword true value, rest)
  | ':' :: rest =>
    let value := String.ofList (rest.takeWhile isWordChar)
    some (leaf negative keyword false value, rest.dropWhile isWordChar)
  | _ => none

def junction? : Char → Option Junction
  | '(' => some .and
  | '\x7b' => some .or
  | _ => none

/-- A form, and what follows. Fuel bounds the nesting. -/
def readFrom : Nat → List Char → Option (Form × List Char)
  | 0, _ => none
  | fuel + 1, cs =>
    let (negative, cs) := readSign cs
    match cs.head?.bind junction? with
    | some junction => do
      let (left, rest) ← readFrom fuel cs.tail
      let rest ← Text.after? [' '] rest
      let (right, rest) ← readFrom fuel rest
      let rest ← Text.after? junction.brackets.2.toList rest
      return (node negative junction left right, rest)
    | none => readLeaf negative cs

/-- The form that a whole text stands for. -/
def read? (s : String) : Option Form :=
  match readFrom s.toList.length s.toList with
  | some (f, []) => some f
  | _ => none

/-! ### Reading what is written -/

def depth : Form → Nat
  | leaf .. => 1
  | node _ _ left right => max left.depth right.depth + 1

theorem depth_le_length (f : Form) : f.depth ≤ f.text.toList.length := by
  induction f with
  | leaf negative keyword quoted value =>
    cases quoted <;> simp [depth, text] <;> omega
  | node negative junction left right ihleft ihright =>
    simp only [depth, text, String.toList_append, List.length_append]
    simp
    omega

theorem keyword_letters :
    ∀ k ∈ fields ++ bareKeywords, k.toList ≠ [] ∧ k.toList.all Char.isAlpha = true := by
  decide +kernel

theorem readSign_sign (negative : Bool) {cs : List Char} (h : cs.head? ≠ some '-') :
    readSign ((sign negative).toList ++ cs) = (negative, cs) := by
  cases negative with
  | true => rfl
  | false =>
    change readSign cs = (false, cs)
    unfold readSign
    split
    · simp at h
    · rfl

theorem after?_append (start rest : List Char) : Text.after? start (start ++ rest) = some rest := by
  simp [Text.after?]

section Leaf

variable {keyword : String} (hletters : ∀ c ∈ keyword.toList, c.isAlpha = true) (negative : Bool)
include hletters

theorem scan_keyword (cs : List Char) :
    (keyword.toList ++ ':' :: cs).takeWhile (· != ':') = keyword.toList ∧
      (keyword.toList ++ ':' :: cs).dropWhile (· != ':') = ':' :: cs := by
  have hcolon : ∀ c ∈ keyword.toList, (c != ':') = true := by
    intro c hc
    rw [bne_iff_ne]
    rintro rfl
    exact absurd (hletters _ hc) (by decide)
  rw [List.takeWhile_append_of_pos hcolon, List.dropWhile_append_of_pos hcolon]
  simp

theorem readLeaf_quoted {value : String} (hvalue : '"' ∉ value.toList) (rest : List Char) :
    readLeaf negative (keyword.toList ++ ':' :: '"' :: (value.toList ++ '"' :: rest)) =
      some (leaf negative keyword true value, rest) := by
  have hquote : ∀ c ∈ value.toList, (c != '"') = true := by
    intro c hc
    rw [bne_iff_ne]
    rintro rfl
    exact hvalue hc
  obtain ⟨htake, hdrop⟩ := scan_keyword hletters ('"' :: (value.toList ++ '"' :: rest))
  simp only [readLeaf, htake, hdrop, List.takeWhile_append_of_pos hquote,
    List.dropWhile_append_of_pos hquote]
  simp [Text.after?]

theorem readLeaf_bare {value : String} (hvalue : IsWord value) {rest : List Char}
    (hrest : rest.head?.all (!isWordChar ·) = true) :
    readLeaf negative (keyword.toList ++ ':' :: (value.toList ++ rest)) =
      some (leaf negative keyword false value, rest) := by
  obtain ⟨hne, hword⟩ := hvalue
  have hword : ∀ c ∈ value.toList, isWordChar c = true := List.all_eq_true.mp hword
  have hstop : rest.takeWhile isWordChar = [] ∧ rest.dropWhile isWordChar = rest := by
    cases rest with
    | nil => simp
    | cons c rest => simp_all
  obtain ⟨htake, hdrop⟩ := scan_keyword hletters (value.toList ++ rest)
  cases hv : value.toList with
  | nil => exact absurd (String.toList_inj.mp hv) hne
  | cons c cs =>
    have hc : c ≠ '"' := by
      rintro rfl
      exact absurd (hword '"' (by simp [hv])) (by decide)
    have hvalue : String.ofList (c :: cs) = value := by rw [← hv, String.ofList_toList]
    rw [hv] at htake hdrop hword
    simp only [readLeaf, htake, hdrop]
    split
    case h_1 heq => simp_all
    case h_2 other _ heq =>
      obtain rfl : c :: cs ++ rest = other := (List.cons.inj heq).2
      rw [List.takeWhile_append_of_pos hword, List.dropWhile_append_of_pos hword, hstop.1, hstop.2,
        List.append_nil, hvalue, String.ofList_toList]
    case h_3 hne => exact absurd rfl (hne _)

theorem readFrom_keyword (hne : keyword.toList ≠ []) (fuel : Nat) (cs : List Char) :
    readFrom (fuel + 1) ((sign negative).toList ++ (keyword.toList ++ cs)) =
      readLeaf negative (keyword.toList ++ cs) := by
  obtain ⟨c, letters, hkeyword⟩ := List.exists_cons_of_ne_nil hne
  have hc : c.isAlpha = true := hletters c (hkeyword ▸ List.mem_cons_self)
  have hminus : (keyword.toList ++ cs).head? ≠ some '-' := by
    rw [hkeyword]
    rintro ⟨⟩
    exact absurd hc (by decide)
  have hjunction : (keyword.toList ++ cs).head?.bind junction? = none := by
    rw [hkeyword]
    change junction? c = none
    unfold junction?
    split
    · exact absurd hc (by decide)
    · exact absurd hc (by decide)
    · rfl
  simp only [readFrom, readSign_sign negative hminus, hjunction]

end Leaf

theorem opening_cases (junction : Junction) : ∃ c, junction.brackets.1.toList = [c] ∧
    junction? c = some junction ∧ c ≠ '-' := by
  cases junction with
  | and => exact ⟨'(', rfl, rfl, by decide⟩
  | or => exact ⟨'\x7b', rfl, rfl, by decide⟩

theorem text_node (negative : Bool) (junction : Junction) (left right : Form) (rest : List Char) :
    (node negative junction left right).text.toList ++ rest =
      (sign negative).toList ++ (junction.brackets.1.toList ++ (left.text.toList ++
        ([' '] ++ (right.text.toList ++ (junction.brackets.2.toList ++ rest))))) := by
  simp [text]

/-- What is written for a form is read back, whatever ends a bare value behind it. -/
theorem readFrom_text {f : Form} (hf : f.Proper) {fuel : Nat} (hfuel : f.depth ≤ fuel)
    {rest : List Char} (hrest : rest.head?.all (!isWordChar ·) = true) :
    readFrom fuel (f.text.toList ++ rest) = some (f, rest) := by
  induction f generalizing fuel rest with
  | leaf negative keyword quoted value =>
    obtain ⟨fuel, rfl⟩ := Nat.exists_eq_succ_of_ne_zero (Nat.ne_of_gt hfuel)
    have hkeyword : keyword ∈ fields ++ bareKeywords := by
      cases quoted with
      | true => exact List.mem_append_left _ hf.1
      | false => exact hf.1
    obtain ⟨hne, hall⟩ := keyword_letters keyword hkeyword
    have hletters : ∀ c ∈ keyword.toList, c.isAlpha = true := List.all_eq_true.mp hall
    cases quoted with
    | true =>
      have htext : (leaf negative keyword true value).text.toList ++ rest =
          (sign negative).toList ++
            (keyword.toList ++ ':' :: '"' :: (value.toList ++ '"' :: rest)) := by
        simp [text]
      rw [htext, readFrom_keyword hletters negative hne]
      exact readLeaf_quoted hletters negative hf.2 rest
    | false =>
      have htext : (leaf negative keyword false value).text.toList ++ rest =
          (sign negative).toList ++ (keyword.toList ++ ':' :: (value.toList ++ rest)) := by
        simp [text]
      rw [htext, readFrom_keyword hletters negative hne]
      exact readLeaf_bare hletters negative hf.2 hrest
  | node negative junction left right ihleft ihright =>
    obtain ⟨fuel, rfl⟩ := Nat.exists_eq_succ_of_ne_zero (Nat.ne_of_gt (Nat.lt_of_lt_of_le
      (Nat.succ_pos _) hfuel))
    obtain ⟨hleftDepth, hrightDepth⟩ := Nat.max_le.mp (Nat.le_of_succ_le_succ hfuel)
    have hblank : ([' '] ++ (right.text.toList ++ (junction.brackets.2.toList ++ rest))).head?.all
        (!isWordChar ·) = true := by simp [show isWordChar ' ' = false by decide]
    have hclosing : (junction.brackets.2.toList ++ rest).head?.all (!isWordChar ·) = true := by
      cases junction <;> rfl
    have hleft := ihleft hf.1 hleftDepth hblank
    have hright := ihright hf.2 hrightDepth hclosing
    obtain ⟨c, hopening, hjunction, hminus⟩ := opening_cases junction
    have hhead : (c :: (left.text.toList ++ ([' '] ++ (right.text.toList ++
        (junction.brackets.2.toList ++ rest))))).head? ≠ some '-' := by simpa using hminus
    rw [text_node, hopening, List.singleton_append, readFrom, readSign_sign negative hhead]
    simp only [List.head?_cons, Option.bind_eq_bind, Option.bind_some, hjunction, List.tail_cons,
      hleft, hright, after?_append]
    rfl

theorem read?_text {f : Form} (hf : f.Proper) : read? f.text = some f := by
  have hread : readFrom _ (f.text.toList ++ []) = some (f, []) :=
    readFrom_text hf f.depth_le_length rfl
  rw [List.append_nil] at hread
  rw [read?, hread]

/-- The grammar is unambiguous. -/
theorem text_injective {f g : Form} (hf : f.Proper) (hg : g.Proper) (h : f.text = g.text) :
    f = g := by
  have hread := read?_text hf
  rw [h, read?_text hg] at hread
  exact (Option.some.inj hread).symm

/-- Values in quotes may hold blanks, brackets and signs. -/
example : read? "-(from:\"a (b) -c\" \x7bhas:drive -larger:5\x7d)" =
    some (node true .and (leaf false "from" true "a (b) -c")
      (node false .or (leaf false "has" false "drive") (leaf true "larger" false "5"))) := by
  decide +kernel

end Form

end Mailroom.Filter
