import Mathlib.Tactic.Ring
import Mailroom.Calendar.Day
import Mailroom.Proofs.Number.Whole
import Mailroom.Text.Units

/-! Numerals of a fixed width, with zeros in front. A number has one numeral of each width it fits
in, `Day.padded` writes it, and numerals of one width are in order as texts as their numbers
are. -/

namespace Mailroom

/-- Decimal digits of a number, as many as the width. -/
structure Numeral (width n : Nat) (ds : List Char) : Prop where
  length : ds.length = width
  digits : ∀ c ∈ ds, c.isDigit = true
  value : Number.digitsValue 10 ds = n

namespace Numeral

open Number Text

variable {width m n : Nat} {c d : Char} {ds es : List Char}

/-- A digit is the character so many places after zero. -/
theorem toNat_eq (h : c.isDigit = true) : c.toNat = 48 + digitValue c ∧ digitValue c < 10 := by
  obtain ⟨hlow, hhigh⟩ := toNat_of_isDigit h
  have hzero : '0'.toNat = 48 := rfl
  rw [digitValue_of_isDigit h, hzero]
  omega

theorem digitsValue_cons (hc : c.isDigit = true) (hds : ∀ c ∈ ds, c.isDigit = true) :
    digitsValue 10 (c :: ds) = digitValue c * 10 ^ ds.length + digitsValue 10 ds := by
  rw [digitsValue_eq (List.forall_mem_cons.mpr ⟨hc, hds⟩), digitsValue_eq hds,
    Nat.ofDigitChars_cons, Nat.ofDigitChars_eq_ofDigitChars_zero, digitValue_of_isDigit hc]
  ring

theorem digitsValue_lt (h : ∀ c ∈ ds, c.isDigit = true) : digitsValue 10 ds < 10 ^ ds.length := by
  induction ds with
  | nil => exact Nat.one_pos
  | cons c ds ih =>
    obtain ⟨hc, hds⟩ := List.forall_mem_cons.mp h
    have hlt := ih hds
    have hdigit := Nat.le_of_lt_succ (toNat_eq hc).2
    have hle := Nat.mul_le_mul_right (10 ^ ds.length) hdigit
    rw [digitsValue_cons hc hds, List.length_cons, Nat.pow_succ]
    omega

theorem lt (h : Numeral width n ds) : n < 10 ^ width := by
  have hlt := digitsValue_lt h.digits
  rwa [h.value, h.length] at hlt

/-- A number of a width is written with zeros in front. -/
theorem padded (hwidth : 0 < width) (hn : n < 10 ^ width) :
    Numeral width n (Day.padded width n).toList := by
  have hlength : (Nat.toDigits 10 n).length ≤ width :=
    (Nat.length_toDigits_le_iff (by decide) hwidth).mpr hn
  have hdigits : ∀ c ∈ List.replicate (width - (Nat.toDigits 10 n).length) '0' ++
      Nat.toDigits 10 n, c.isDigit = true := by
    intro c hc
    obtain hc | hc := List.mem_append.mp hc
    · rw [List.eq_of_mem_replicate hc]
      decide
    · exact Nat.isDigit_of_mem_toDigits (by decide) (by decide) hc
  rw [Day.padded, String.toList_ofList]
  refine ⟨?_, hdigits, ?_⟩
  · rw [List.length_append, List.length_replicate, Nat.sub_add_cancel hlength]
  · rw [digitsValue_eq hdigits, Nat.ofDigitChars_append, Nat.ofDigitChars_replicate_zero,
      Nat.mul_zero, Nat.ofDigitChars_ten_toDigits]

/-! ### Numerals in order

The first digit is the number's place in the hundreds or thousands of the width, and the digits
behind it are the numeral of the rest. -/

theorem uncons (h : Numeral (width + 1) n (c :: ds)) :
    c.toNat = 48 + n / 10 ^ width ∧ Numeral width (n % 10 ^ width) ds := by
  obtain ⟨hlength, hdigits, rfl⟩ := h
  obtain rfl := Nat.succ.inj hlength
  obtain ⟨hc, hds⟩ := List.forall_mem_cons.mp hdigits
  have hrest := digitsValue_lt hds
  have hpos : 0 < 10 ^ ds.length := Nat.pow_pos (by decide)
  rw [digitsValue_cons hc hds, Nat.mul_comm, Nat.mul_add_div hpos, Nat.div_eq_of_lt hrest,
    Nat.mul_add_mod, Nat.mod_eq_of_lt hrest]
  exact ⟨(toNat_eq hc).1, rfl, hds, rfl⟩

theorem unique (h : Numeral width n ds) (h' : Numeral width n es) : ds = es := by
  induction width generalizing n ds es with
  | zero => rw [List.eq_nil_of_length_eq_zero h.length, List.eq_nil_of_length_eq_zero h'.length]
  | succ width ih =>
    obtain ⟨c, ds, rfl⟩ := List.exists_cons_of_length_eq_add_one h.length
    obtain ⟨d, es, rfl⟩ := List.exists_cons_of_length_eq_add_one h'.length
    obtain ⟨hc, hds⟩ := h.uncons
    obtain ⟨hd, hes⟩ := h'.uncons
    rw [Char.toNat_inj.mp (hc.trans hd.symm), ih hds hes]

theorem units_eq (h : c.isDigit = true) : unitsOf c = [c.toNat] := by
  have hhigh := (toNat_of_isDigit h).2
  exact if_pos (by omega)

theorem units_lt (h : Numeral width m ds) (h' : Numeral width n es) (hlt : m < n)
    (xs ys : List Nat) : ds.flatMap unitsOf ++ xs < es.flatMap unitsOf ++ ys := by
  induction width generalizing m n ds es with
  | zero =>
    have hn := h'.lt
    omega
  | succ width ih =>
    obtain ⟨c, ds, rfl⟩ := List.exists_cons_of_length_eq_add_one h.length
    obtain ⟨d, es, rfl⟩ := List.exists_cons_of_length_eq_add_one h'.length
    obtain ⟨hc, hds⟩ := h.uncons
    obtain ⟨hd, hes⟩ := h'.uncons
    rw [List.flatMap_cons, List.flatMap_cons, units_eq (h.digits c List.mem_cons_self),
      units_eq (h'.digits d List.mem_cons_self), List.append_assoc, List.append_assoc,
      List.singleton_append, List.singleton_append, List.cons_lt_cons_iff, hc, hd]
    obtain hfirst | hfirst := Nat.lt_or_eq_of_le (Nat.div_le_div_right (c := 10 ^ width) hlt.le)
    · exact .inl (Nat.add_lt_add_left hfirst 48)
    · refine .inr ⟨congrArg (48 + ·) hfirst, ih hds hes ?_⟩
      have hm := Nat.div_add_mod m (10 ^ width)
      have hn := Nat.div_add_mod n (10 ^ width)
      rw [hfirst] at hm
      omega

end Numeral

end Mailroom
