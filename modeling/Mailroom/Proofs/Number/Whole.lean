import Mathlib.Data.List.TakeWhile
import Mathlib.Data.Rat.Cast.Order
import Mathlib.Tactic.FieldSimp
import Mailroom.Number.Reading
import Mailroom.Number.Shortest
import Mailroom.Proofs.Text.Words

/-! Whole numbers below `2 ^ 53`, with a sign or without one. The format has them exactly, and the
text of each is a decimal numeral that reads as the same number again. -/

namespace Mailroom.Number

variable {n : Nat}

/-! ### Whole numbers in the format -/

theorem scaled_neg (n k : Nat) : scaled n 1 (-(k : Int)) = (n * 2 ^ k, 1) := by
  cases k with
  | zero => simp [scaled]
  | succ k =>
    have hneg : -((k + 1 : Nat) : Int) < 0 := by omega
    simp only [scaled, hneg, if_true, Int.natAbs_neg, Int.natAbs_natCast, Nat.pow_eq]

/-- A whole number has 53 significant bits, zeros at the end if it is short. -/
theorem ofRatio_whole (hpos : 0 < n) (hn : n < 2 ^ 53) :
    ∃ k : Nat, ∀ negative, ofRatio negative n 1 = finite negative (n * 2 ^ k) (-(k : Int)) := by
  have hlog : n.log2 < 53 := (Nat.log2_lt (by omega)).mpr hn
  have hhigh : n < 2 ^ (n.log2 + 1) := Nat.lt_log2_self
  have hlow : 2 ^ n.log2 ≤ n := Nat.log2_self_le (by omega)
  let k := 52 - n.log2
  have hk : 2 ^ n.log2 * 2 ^ k = 2 ^ 52 := by
    rw [← Nat.pow_add]
    congr 1
    omega
  have hm : n * 2 ^ k < 2 ^ 53 := by
    have hlt := Nat.mul_lt_mul_of_pos_right hhigh (Nat.two_pow_pos k)
    rw [Nat.pow_succ, Nat.mul_right_comm, hk] at hlt
    omega
  have hfull : 2 ^ 52 ≤ n * 2 ^ k := hk ▸ Nat.mul_le_mul_right _ hlow
  have hunit : unitExponent n 1 = -(k : Int) := by
    have hguess : max ((n.log2 : Int) - (1 : Nat).log2 - 52) leastExponent = -(k : Int) := by
      have hone : (1 : Nat).log2 = 0 := by decide
      simp only [hone, leastExponent, k]
      omega
    simp only [unitExponent, hguess, scaled_neg, Nat.div_one, Nat.pow_eq]
    rw [if_neg (by omega)]
  refine ⟨k, fun negative => ?_⟩
  have hnearest : nearest (n * 2 ^ k) 1 = n * 2 ^ k := by
    simp [nearest, Nat.mod_one]
  have hne : n * 2 ^ k ≠ 2 ^ 53 := by omega
  simp only [ofRatio, hunit, scaled_neg, hnearest, pack, Nat.pow_eq, hne, if_false]
  rw [if_neg (by omega), if_neg (by simp only [greatestExponent]; omega)]

theorem toRat?_whole (negative : Bool) (n k : Nat) :
    (finite negative (n * 2 ^ k) (-(k : Int))).toRat? =
      some (if negative then -(n : Rat) else n) := by
  cases k with
  | zero => simp [toRat?]
  | succ k =>
    have hneg : -((k + 1 : Nat) : Int) < 0 := by omega
    have hsize : ((n * 2 ^ (k + 1) : Nat) : Rat) / ((2 ^ (k + 1) : Nat) : Rat) = n := by
      push_cast
      field_simp
    simp only [toRat?, hneg, if_true, Int.natAbs_neg, Int.natAbs_natCast, Nat.pow_eq,
      Rat.mkRat_eq_div, Int.cast_natCast, hsize]

/-- The format has the integers of that size exactly. -/
theorem toRat?_ofInt {i : Int} (hi : i.natAbs < 2 ^ 53) : (ofInt i).toRat? = some (i : Rat) := by
  obtain hzero | hpos := Nat.eq_zero_or_pos i.natAbs
  · rw [Int.natAbs_eq_zero.mp hzero]
    decide +kernel
  · obtain ⟨k, hk⟩ := ofRatio_whole hpos hi
    rw [ofInt, hk, toRat?_whole]
    by_cases hneg : i < 0
    · have hvalue : -((i.natAbs : Nat) : Int) = i := by omega
      rw [if_pos (decide_eq_true hneg), ← Int.cast_natCast, ← Int.cast_neg, hvalue]
    · have hvalue : ((i.natAbs : Nat) : Int) = i := by omega
      rw [if_neg (by simpa using hneg), ← Int.cast_natCast, hvalue]

/-- A number with its sign set. -/
def withSign (negative : Bool) : Number → Number
  | nan => nan
  | infinite _ => infinite negative
  | finite _ m e => finite negative m e

theorem ofRatio_withSign (negative : Bool) (num den : Nat) :
    ofRatio negative num den = withSign negative (ofRatio false num den) := by
  have hpack : ∀ m e, pack negative m e = withSign negative (pack false m e) := by
    intro m e
    simp only [pack]
    repeat' split
    all_goals rfl
  by_cases hzero : num = 0
  · simp only [ofRatio, hzero, if_true, zero, withSign]
  · simp only [ofRatio, hzero, if_false, hpack]

/-! ### Decimal digits of a whole number -/

theorem length_add_le {d t : Nat} (hd : d ≠ 0) (h : d * 10 ^ t < 10 ^ 21) :
    (Nat.toDigits 10 d).length + t ≤ 21 := by
  have ht : t < 21 := by
    refine (Nat.pow_lt_pow_iff_right (by decide : 1 < 10)).mp (Nat.lt_of_le_of_lt ?_ h)
    exact Nat.le_mul_of_pos_left _ (by omega)
  have hlength : (Nat.toDigits 10 d).length ≤ 21 - t := by
    refine (Nat.length_toDigits_le_iff (by decide) (by omega)).mpr ?_
    refine Nat.lt_of_mul_lt_mul_right (a := 10 ^ t) ?_
    rwa [← Nat.pow_add, Nat.sub_add_cancel (by omega)]
  omega

/-- Digits scaled by a power of ten are the number nearest to the product. -/
theorem ofDecimal_whole (negative : Bool) {d t : Nat} (hd : d ≠ 0) (h : d * 10 ^ t < 10 ^ 21) :
    ofDecimal negative d t = ofRatio negative (d * 10 ^ t) 1 := by
  have hlength := length_add_le hd h
  simp only [ofDecimal, hd, if_false, Nat.pow_eq, Int.natAbs_natCast]
  rw [if_neg (by omega), if_neg (by omega), if_neg (by omega)]

theorem isDigit_of_mem {d t : Nat} {c : Char}
    (hc : c ∈ Nat.toDigits 10 d ++ List.replicate t '0') : c.isDigit = true := by
  rcases List.mem_append.mp hc with hc | hc
  · exact Nat.isDigit_of_mem_toDigits (by decide) (by decide) hc
  · rw [List.eq_of_mem_replicate hc]
    decide

theorem digitValue_of_isDigit {c : Char} (h : c.isDigit = true) :
    digitValue c = c.toNat - '0'.toNat := if_pos h

theorem digitsValue_eq {ds : List Char} (h : ∀ c ∈ ds, c.isDigit = true) :
    digitsValue 10 ds = Nat.ofDigitChars 10 ds 0 := by
  unfold digitsValue
  generalize 0 = start
  induction ds generalizing start with
  | nil => rfl
  | cons c ds ih =>
    obtain ⟨hc, hds⟩ := List.forall_mem_cons.mp h
    rw [List.foldl_cons, ih hds, digitValue_of_isDigit hc, Nat.mul_comm]
    rfl

/-- Digits and zeros behind them. -/
theorem digitsValue_append_zeros (d t : Nat) :
    digitsValue 10 (Nat.toDigits 10 d ++ List.replicate t '0') = d * 10 ^ t := by
  rw [digitsValue_eq fun _ => isDigit_of_mem, Nat.ofDigitChars_append,
    Nat.ofDigitChars_ten_toDigits, Nat.ofDigitChars_replicate_zero, Nat.mul_comm]

/-! ### Reading digits -/

theorem toNat_of_isDigit {c : Char} (h : c.isDigit = true) : 48 ≤ c.toNat ∧ c.toNat ≤ 57 := by
  simp only [Char.isDigit, Bool.and_eq_true, decide_eq_true_eq] at h
  exact h

theorem not_isBlank_of_isDigit {c : Char} (h : c.isDigit = true) : Text.isBlank c = false := by
  have hbounds := toNat_of_isDigit h
  simp only [Text.isBlank, Bool.or_eq_false_iff, Bool.and_eq_false_iff, decide_eq_false_iff_not,
    beq_eq_false_iff_ne]
  omega

/-- The sign in front of digits. -/
def minus (negative : Bool) : List Char := if negative then ['-'] else []

/-- Digits behind a sign, and nothing after them. -/
theorem read_decimal {ds : List Char} (negative : Bool) (hne : ds ≠ [])
    (h : ∀ c ∈ ds, c.isDigit = true) :
    read.decimal (minus negative ++ ds) = ofDecimal negative (digitsValue 10 ds) 0 := by
  have hrun : digitRun ds = (ds, []) := by
    have hall : ds.takeWhile Char.isDigit = ds := List.takeWhile_eq_self_iff.mpr h
    have hrest : ds.dropWhile Char.isDigit = [] := List.dropWhile_eq_nil_iff.mpr h
    rw [digitRun, hall, hrest]
  have hdecimalOf : decimalOf ds = some (digitsValue 10 ds, 0, []) := by
    simp only [decimalOf, hrun]
    cases ds with
    | nil => exact absurd rfl hne
    | cons c ds => simp [exponentOf]
  have hsign : signOf (minus negative ++ ds) = (negative, ds) := by
    cases negative with
    | true => rfl
    | false =>
      change signOf ds = (false, ds)
      unfold signOf
      split
      · exact absurd (h '-' List.mem_cons_self) (by decide)
      · exact absurd (h '+' List.mem_cons_self) (by decide)
      · rfl
  have hword : ds ≠ "Infinity".toList := by
    rintro rfl
    exact absurd (h 'I' (by decide)) (by decide)
  simp only [read.decimal, hsign, hword, if_false, hdecimalOf]

/-- Digits read as their value. -/
theorem read_digits {ds : List Char} (negative : Bool) (hne : ds ≠ [])
    (h : ∀ c ∈ ds, c.isDigit = true) :
    read (String.ofList (minus negative ++ ds)) = ofDecimal negative (digitsValue 10 ds) 0 := by
  have hblank : ∀ c ∈ minus negative ++ ds, Text.isBlank c = false := by
    intro c hc
    rcases List.mem_append.mp hc with hc | hc
    · cases negative with
      | true => rw [List.mem_singleton.mp hc]; decide
      | false => cases hc
    · exact not_isBlank_of_isDigit (h c hc)
  have hdecimal := read_decimal negative hne h
  rw [read, Text.trim_of_not_blank hblank, String.toList_ofList]
  split
  · next hnil => exact absurd (List.append_eq_nil_iff.mp hnil).2 hne
  · next mark more hmarked =>
    -- A digit is none of the marks of other bases.
    have hmark : mark.isDigit = true := by
      cases negative with
      | true => cases hmarked
      | false =>
        refine h mark ?_
        rw [show ds = '0' :: mark :: more from hmarked]
        simp
    have hnot : ∀ other : Char, other.isDigit = false → mark ≠ other := by
      rintro other hother rfl
      cases hmark.symm.trans hother
    simp only [hnot 'x' (by decide), hnot 'X' (by decide), hnot 'o' (by decide),
      hnot 'O' (by decide), hnot 'b' (by decide), hnot 'B' (by decide), decide_false,
      Bool.or_self, Bool.false_eq_true, if_false]
    exact hmarked ▸ hdecimal
  · exact hdecimal

/-! ### The shortest digits -/

/-- The search ends at the latest at a number of places that has the number on its grid. -/
theorem search_found {x : Number} {num den : Nat} {above : Int} {places : Nat} {d : Nat}
    (hd : d ∈ neighbours num den (above - places)) (hd0 : d ≠ 0)
    (hx : ofDecimal false d (above - places) = x) (before after : List Nat) :
    ∃ q ∈ before ++ [places], ∃ d ∈ neighbours num den (above - q), d ≠ 0 ∧
      ofDecimal false d (above - q) = x ∧
      search x num den above (before ++ places :: after) = some (d, above - q) := by
  induction before with
  | nil =>
    have hsome : ((neighbours num den (above - places)).find? fun d =>
        d != 0 && ofDecimal false d (above - places) == x).isSome = true :=
      List.find?_isSome.mpr ⟨d, hd, by simp [hd0, hx]⟩
    obtain ⟨first, hfirst⟩ := Option.isSome_iff_exists.mp hsome
    have hgood := List.find?_some hfirst
    simp only [Bool.and_eq_true, bne_iff_ne, beq_iff_eq] at hgood
    exact ⟨places, by simp, first, List.mem_of_find?_eq_some hfirst, hgood.1, hgood.2, by
      simp only [List.nil_append, search, hfirst]⟩
  | cons p before ih =>
    cases hp : (neighbours num den (above - p)).find? fun d =>
        d != 0 && ofDecimal false d (above - p) == x with
    | some first =>
      have hgood := List.find?_some hp
      simp only [Bool.and_eq_true, bne_iff_ne, beq_iff_eq] at hgood
      exact ⟨p, by simp, first, List.mem_of_find?_eq_some hp, hgood.1, hgood.2, by
        simp only [List.cons_append, search, hp]⟩
    | none =>
      obtain ⟨q, hq, other, hother, hother0, hread, hsearch⟩ := ih
      exact ⟨q, List.mem_cons_of_mem _ hq, other, hother, hother0, hread, by
        simp only [List.cons_append, search, hp, hsearch]⟩

/-- Neighbours on a grid of tens are not far above the number. -/
theorem neighbours_le {num den d : Nat} {t : Nat} (hd : d ∈ neighbours num den t) :
    d ≤ num / (den * 10 ^ t) + 1 := by
  have hneg : ¬((t : Int) < 0) := by omega
  simp only [neighbours, inTens, hneg, if_false, Int.natAbs_natCast, Nat.pow_eq] at hd
  split at hd <;> simp only [List.mem_cons, List.not_mem_nil, or_false] at hd <;> omega

theorem shortest_eq (hpos : 0 < n) (k : Nat) : shortest (n * 2 ^ k) (-(k : Int)) =
    (search (finite false (n * 2 ^ k) (-(k : Int))) (n * 2 ^ k) (2 ^ k)
      (Nat.toDigits 10 n).length (List.range' 1 17)).getD (0, 0) := by
  have habove : powerAbove (n * 2 ^ k) (2 ^ k) = (Nat.toDigits 10 n).length := by
    rw [powerAbove, if_pos (Nat.le_mul_of_pos_left _ hpos),
      Nat.mul_div_cancel _ (Nat.two_pow_pos k)]
  cases k with
  | zero => simpa [shortest] using congrArg (fun above => (search _ n 1 above _).getD (0, 0)) habove
  | succ k =>
    have hneg : -((k + 1 : Nat) : Int) < 0 := by omega
    simp only [shortest, hneg, if_true, Int.natAbs_neg, Int.natAbs_natCast, Nat.pow_eq, habove]

/-- The shortest digits of a whole number have no fraction, and stand for the number. -/
theorem shortest_whole (hpos : 0 < n) (hn : n < 2 ^ 53) {k : Nat}
    (hx : ofRatio false n 1 = finite false (n * 2 ^ k) (-(k : Int))) :
    ∃ d t : Nat, shortest (n * 2 ^ k) (-(k : Int)) = (d, (t : Int)) ∧ d ≠ 0 ∧
      d * 10 ^ t < 10 ^ 21 ∧ ofRatio false (d * 10 ^ t) 1 = ofRatio false n 1 := by
  have hden : 0 < 2 ^ k := Nat.two_pow_pos k
  obtain ⟨length, hlength⟩ : ∃ length, (Nat.toDigits 10 n).length = length := ⟨_, rfl⟩
  have hfew : length ≤ 16 := by
    rw [← hlength]
    exact (Nat.length_toDigits_le_iff (by decide) (by decide)).mpr (by omega)
  have hmany : 0 < length := hlength ▸ Nat.length_toDigits_pos
  -- On the grid of whole numbers the number is its own neighbour.
  have hself : n ∈ neighbours (n * 2 ^ k) (2 ^ k) ((length : Int) - length) := by
    simp [neighbours, inTens, Nat.mul_div_cancel _ hden, hden]
  have hread : ofDecimal false n ((length : Int) - length) =
      finite false (n * 2 ^ k) (-(k : Int)) := by
    have hwhole := ofDecimal_whole false (t := 0) hpos.ne' (by omega)
    rwa [Nat.pow_zero, Nat.mul_one, hx, Int.natCast_zero, ← Int.sub_self (length : Int)] at hwhole
  have hplaces : List.range' 1 17 =
      List.range' 1 (length - 1) ++ length :: List.range' (length + 1) (17 - length) := by
    have htail : length :: List.range' (length + 1) (17 - length) =
        List.range' (1 + (length - 1)) (18 - length) := by
      rw [show 18 - length = 17 - length + 1 by omega, List.range'_succ,
        show 1 + (length - 1) = length by omega]
    rw [htail, List.range'_append_1]
    congr 1
    omega
  obtain ⟨q, hq, d, hd, hd0, hstands, hsearch⟩ := search_found hself hpos.ne' hread
    (List.range' 1 (length - 1)) (List.range' (length + 1) (17 - length))
  have hqlength : q ≤ length := by
    rcases List.mem_append.mp hq with hq | hq
    · have hlast := (List.mem_range'_1.mp hq).2
      omega
    · exact (List.mem_singleton.mp hq).le
  obtain ⟨t, ht⟩ : ∃ t : Nat, (length : Int) - q = t := ⟨length - q, by omega⟩
  rw [ht] at hd hstands hsearch
  have hsize : d * 10 ^ t < 10 ^ 21 := by
    have hle := neighbours_le hd
    rw [Nat.mul_comm n, Nat.mul_div_mul_left _ _ hden] at hle
    have hpower : 10 ^ t ≤ 10 ^ 16 := Nat.pow_le_pow_right (by decide) (by omega)
    calc d * 10 ^ t ≤ (n / 10 ^ t + 1) * 10 ^ t := Nat.mul_le_mul_right _ hle
      _ = n / 10 ^ t * 10 ^ t + 10 ^ t := by rw [Nat.add_mul, Nat.one_mul]
      _ ≤ n + 10 ^ 16 := Nat.add_le_add (Nat.div_mul_le_self _ _) hpower
      _ < 10 ^ 21 := by omega
  refine ⟨d, t, ?_, hd0, hsize, ?_⟩
  · rw [shortest_eq hpos, hlength, hplaces, hsearch]
    rfl
  · rw [← ofDecimal_whole false hd0 hsize, hstands, hx]

/-- Zeros at the end are moved into the exponent. -/
theorem stripZeros_eq (fuel d t : Nat) (hd : d ≠ 0) :
    ∃ d' t' : Nat, stripZeros fuel d t = (d', (t' : Int)) ∧ d' ≠ 0 ∧ d' * 10 ^ t' = d * 10 ^ t := by
  induction fuel generalizing d t with
  | zero => exact ⟨d, t, rfl, hd, rfl⟩
  | succ fuel ih =>
    rw [stripZeros]
    split
    case isTrue hzero =>
      have hmod : d % 10 = 0 := by
        simp only [Bool.and_eq_true, decide_eq_true_eq] at hzero
        exact hzero.1
      obtain ⟨d', t', hstrip, hd', heq⟩ := ih (d / 10) (t + 1) (by omega)
      refine ⟨d', t', hstrip, hd', heq.trans ?_⟩
      rw [Nat.pow_succ', ← Nat.mul_assoc, Nat.div_mul_cancel (Nat.dvd_of_mod_eq_zero hmod)]
    case isFalse => exact ⟨d, t, rfl, hd, rfl⟩

/-- Whole numbers that are not too long are written without a point. -/
theorem layout_whole {d t : Nat} (hd : d ≠ 0) (h : d * 10 ^ t < 10 ^ 21) :
    layout d t = Nat.toDigits 10 d ++ List.replicate t '0' := by
  have hlength := length_add_le hd h
  have hpoint : 0 ≤ (t : Int) ∧ ((Nat.toDigits 10 d).length : Int) + t ≤ 21 := by omega
  simp only [layout, hpoint.1, hpoint.2, decide_true, Bool.and_self, if_true, Int.natAbs_natCast]

/-! ### Reading back -/

/-- The text of a whole number reads as the number, its sign included. -/
theorem read_text_whole (negative : Bool) (hpos : 0 < n) (hn : n < 2 ^ 53) :
    read (ofRatio negative n 1).text = ofRatio negative n 1 := by
  obtain ⟨k, hx⟩ := ofRatio_whole hpos hn
  obtain ⟨d, t, hshortest, hd, hsize, hround⟩ := shortest_whole hpos hn (hx false)
  obtain ⟨d', t', hstrip, hd', heq⟩ := stripZeros_eq 20 d t hd
  have hm : n * 2 ^ k ≠ 0 := (Nat.mul_pos hpos (Nat.two_pow_pos k)).ne'
  have htext : (ofRatio negative n 1).text =
      String.ofList (minus negative ++ (Nat.toDigits 10 d' ++ List.replicate t' '0')) := by
    simp only [hx, text, hm, if_false, hshortest, hstrip]
    rw [layout_whole hd' (heq ▸ hsize)]
    cases negative <;> rfl
  have hd0 : d * 10 ^ t ≠ 0 := (Nat.mul_pos (Nat.pos_of_ne_zero hd) (Nat.pow_pos (by decide))).ne'
  have hwhole := ofDecimal_whole negative (t := 0) hd0 (by rwa [Nat.pow_zero, Nat.mul_one])
  rw [Nat.pow_zero, Nat.mul_one, Int.natCast_zero] at hwhole
  rw [htext, read_digits negative (by simp) fun _ => isDigit_of_mem, digitsValue_append_zeros,
    heq, hwhole, ofRatio_withSign, hround, ← ofRatio_withSign]

/-- The text of an integer reads as the integer. -/
theorem read_text_ofInt {i : Int} (hi : i.natAbs < 2 ^ 53) : read (ofInt i).text = ofInt i := by
  obtain hzero | hpos := Nat.eq_zero_or_pos i.natAbs
  · rw [Int.natAbs_eq_zero.mp hzero]
    decide +kernel
  · exact read_text_whole _ hpos hi

theorem read_text_ofRat (hn : n < 2 ^ 53) :
    (read (ofRat (n : Rat)).text).toRat? = some (n : Rat) := by
  have hrat : ofRat (n : Rat) = ofInt n := by
    simp only [ofRat, ofInt, Rat.num_natCast, Rat.den_natCast]
    rfl
  have hsize : (n : Int).natAbs < 2 ^ 53 := hn
  rw [hrat, read_text_ofInt hsize, toRat?_ofInt hsize, Int.cast_natCast]

/-- The whole part of a fraction that is whole. -/
theorem div_of_mkRat {m p : Nat} {i : Int} (hp : 0 < p) (h : mkRat m p = (i : Rat)) :
    ((m / p : Nat) : Int) = i := by
  have hne : (p : Rat) ≠ 0 := by exact_mod_cast hp.ne'
  rw [Rat.mkRat_eq_div, div_eq_iff hne] at h
  have hm : (m : Int) = i * p := by exact_mod_cast h
  rw [Int.natCast_div, hm, Int.mul_ediv_cancel _ (by omega)]

theorem truncate?_of_toRat? {x : Number} {i : Int} (h : x.toRat? = some (i : Rat)) :
    x.truncate? = some i := by
  cases x with
  | nan => cases h
  | infinite negative => cases h
  | finite negative m e =>
    have hp : 0 < Nat.pow 2 e.natAbs := Nat.two_pow_pos _
    have hsize : ∀ j : Int, (if e < 0 then mkRat m (Nat.pow 2 e.natAbs)
        else ((m * Nat.pow 2 e.natAbs : Nat) : Rat)) = j →
        ((if e < 0 then m / Nat.pow 2 e.natAbs else m * Nat.pow 2 e.natAbs : Nat) : Int) = j := by
      intro j hj
      by_cases he : e < 0
      · rw [if_pos he] at hj ⊢
        exact div_of_mkRat hp hj
      · rw [if_neg he] at hj ⊢
        exact_mod_cast hj
    have hvalue := Option.some.inj h
    cases negative with
    | false => exact congrArg some (hsize i hvalue)
    | true =>
      have hneg := hsize (-i) (by rw [Int.cast_neg, ← hvalue]; exact (neg_neg _).symm)
      exact congrArg some (neg_eq_iff_eq_neg.mpr hneg)

theorem truncate?_ofInt {i : Int} (hi : i.natAbs < 2 ^ 53) : (ofInt i).truncate? = some i :=
  truncate?_of_toRat? (toRat?_ofInt hi)

/-- Numbers that are the same have one text. -/
theorem text_of_same {a b : Number} (h : a.same b = true) : a.text = b.text := by
  unfold same at h
  split at h
  · cases h
  · cases h
  · rfl
  · rw [beq_iff_eq.mp h]

end Mailroom.Number
