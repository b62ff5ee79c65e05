import Mathlib.Data.List.TakeWhile
import Mailroom.Calendar.Reading
import Mailroom.Proofs.Calendar.Gregorian
import Mailroom.Proofs.Number.Numeral

/-! Dates as texts of ten characters, YYYY-MM-DD. Such a text is read as the midnight that begins
its date, and the texts are in order as their dates are. -/

namespace Mailroom

open Calendar Text

/-- The text that writes a date with four digits, two and two. -/
inductive Day.Names (d : Day) : String → Prop
  | intro {year : Nat} {ys ms ds : List Char} : d.year = year →
      Numeral 4 year ys → Numeral 2 d.month ms → Numeral 2 d.day ds →
        Names d (String.ofList (ys ++ '-' :: (ms ++ '-' :: ds)))

namespace Day

variable {d e : Day} {s t : String}

theorem Names.year_bounds (h : d.Names s) : 0 ≤ d.year ∧ d.year ≤ 9999 := by
  obtain ⟨hyear, hy, -, -⟩ := h
  have hlt := hy.lt
  omega

theorem Names.length (h : d.Names s) : s.toList.length = 10 := by
  obtain ⟨-, hy, hm, hd⟩ := h
  simp only [String.toList_ofList, List.length_append, List.length_cons, hy.length, hm.length,
    hd.length]

/-- A date has one text. -/
theorem Names.unique (h : d.Names s) (h' : d.Names t) : s = t := by
  obtain ⟨hyear, hy, hm, hd⟩ := h
  obtain ⟨hyear', hy', hm', hd'⟩ := h'
  obtain rfl := Int.ofNat.inj (hyear.symm.trans hyear')
  rw [hy.unique hy', hm.unique hm', hd.unique hd']

theorem Real.lt_hundred (h : d.Real) : d.month < 100 ∧ d.day < 100 := by
  have hmonth := h.month_le
  have hday := h.day_le.trans (monthLength_le _ _)
  omega

theorem names_text (h : d.Real) (hyear : 0 ≤ d.year ∧ d.year ≤ 9999) : d.Names d.text := by
  obtain ⟨year, hnat⟩ := Int.eq_ofNat_of_zero_le hyear.1
  obtain ⟨hmonth, hday⟩ := h.lt_hundred
  have hlt : year < 10 ^ 4 := by omega
  have htext : d.text = String.ofList ((padded 4 year).toList ++
      '-' :: ((padded 2 d.month).toList ++ '-' :: (padded 2 d.day).toList)) := by
    apply String.toList_injective
    have hyearText : yearText d.year = padded 4 year := by
      rw [yearText, if_pos (by simpa using hyear), hnat, Int.toNat_natCast]
    simp [text, hyearText]
  rw [htext]
  exact .intro hnat (.padded (by decide) hlt) (.padded (by decide) hmonth)
    (.padded (by decide) hday)

/-- Texts of dates are in the order of the dates. -/
theorem Names.before (h : d.Names s) (h' : e.Names t) (hlt : d.Earlier e) :
    Text.before s t = true := by
  obtain ⟨hyear, hy, hm, hd⟩ := h
  obtain ⟨hyear', hy', hm', hd'⟩ := h'
  simp only [Text.before, decide_eq_true_eq, units, String.toList_ofList, List.flatMap_append,
    List.flatMap_cons]
  obtain hlt | ⟨heq, hlt | ⟨hmonth, hlt⟩⟩ := hlt
  case inl => exact hy.units_lt hy' (by omega) _ _
  all_goals
    obtain rfl := Int.ofNat.inj (hyear.symm.trans (heq.trans hyear'))
    rw [hy.unique hy']
    refine List.append_left_lt (List.append_left_lt ?_)
  case inr.inl => exact hm.units_lt hm' hlt _ _
  case inr.inr =>
    rw [hmonth] at hm
    rw [hm.unique hm']
    have hday := hd.units_lt hd' hlt [] []
    rw [List.append_nil, List.append_nil] at hday
    exact List.append_left_lt (List.append_left_lt hday)

end Day

namespace Calendar

variable {width n : Nat} {ds : List Char}

/-! ### Tokens -/

theorem digitsValue_dropZeros (ds : List Char) :
    Number.digitsValue 10 (ds.dropWhile (· == '0')) = Number.digitsValue 10 ds := by
  induction ds with
  | nil => rfl
  | cons c ds ih =>
    by_cases hc : c = '0'
    · subst hc
      exact ih
    · rw [List.dropWhile_cons_of_neg (by simpa using hc)]

theorem runValue_numeral (h : Numeral width n ds) (hwidth : width ≤ 9) : runValue ds = n := by
  have hlength : (ds.dropWhile (· == '0')).length ≤ 9 :=
    (List.length_dropWhile_le _ ds).trans (h.length.trans_le hwidth)
  rw [runValue, List.take_of_length_le hlength, digitsValue_dropZeros, h.value]

/-- A numeral is one token, up to the next character that is no digit. -/
theorem tokens_numeral (h : Numeral (width + 1) n ds) (hwidth : width + 1 ≤ 9) (fuel : Nat)
    {rest : List Char} (hrest : rest.takeWhile Char.isDigit = []) :
    tokens (fuel + 1) (ds ++ rest) = .number n (width + 1) :: tokens fuel rest := by
  obtain ⟨c, ds, rfl⟩ := List.exists_cons_of_length_eq_add_one h.length
  obtain ⟨hc, hds⟩ := List.forall_mem_cons.mp h.digits
  have htake : (ds ++ rest).takeWhile Char.isDigit = ds := by
    rw [List.takeWhile_append_of_pos hds, hrest, List.append_nil]
  have hdrop : (ds ++ rest).dropWhile Char.isDigit = rest := by
    have happend := List.takeWhile_append_dropWhile (p := Char.isDigit) (l := ds ++ rest)
    rw [htake] at happend
    exact List.append_cancel_left happend
  have hfirst : firstToken c (ds ++ rest) = (.number n (width + 1), rest) := by
    simp only [firstToken, hc, if_true, htake, hdrop, runValue_numeral h hwidth, h.length]
  rw [List.cons_append, tokens, hfirst]

/-- The tokens of a date between hyphens. -/
theorem tokensOf_written {year month day : Nat} {ys ms ds : List Char} (hy : Numeral 4 year ys)
    (hm : Numeral 2 month ms) (hd : Numeral 2 day ds) :
    tokensOf (String.ofList (ys ++ '-' :: (ms ++ '-' :: ds))) =
      [.number year 4, .mark '-', .number month 2, .mark '-', .number day 2] := by
  have hlength : (ys ++ '-' :: (ms ++ '-' :: ds)).length = 10 := by
    simp only [List.length_append, List.length_cons, hy.length, hm.length, hd.length]
  have hhyphen : ∀ (fuel : Nat) (rest : List Char),
      tokens (fuel + 1) ('-' :: rest) = .mark '-' :: tokens fuel rest := fun _ _ => rfl
  have hday : tokens 6 ds = .number day 2 :: tokens 5 [] := by
    have hend := tokens_numeral hd (by decide) 5 (List.takeWhile_nil (p := Char.isDigit))
    rwa [List.append_nil] at hend
  rw [tokensOf, String.toList_ofList, hlength, tokens_numeral hy (by decide) 9 rfl, hhyphen 8,
    tokens_numeral hm (by decide) 7 rfl, hhyphen 6, hday]
  rfl

/-! ### Reading -/

/-- The days of those years are well within the range of instants. -/
theorem count_bounds {d : Day} (h : d.Real) (hyear : 0 ≤ d.year ∧ d.year ≤ 9999) :
    -1000000 ≤ d.count ∧ d.count < 3000000 := by
  obtain ⟨hdays, hle, -⟩ := h.marchDays
  have hmarch : d.marchYear = d.year - 1 ∨ d.marchYear = d.year := by
    unfold Day.marchYear
    split <;> omega
  have hcount := Day.count_eq d
  unfold Day.marchCount at hcount
  omega

theorem msAt_midnight {d : Day} (h : d.Real) :
    Instant.msAt d.year d.month d.day 0 0 0 0 = d.count * Instant.msPerDay := by
  have hpos := h.month_pos
  have hle := h.month_le
  have hyear : (d.year * 12 + ((d.month : Int) - 1)) / 12 = d.year := by omega
  have hmonth : ((d.year * 12 + ((d.month : Int) - 1)) % 12).toNat + 1 = d.month := by omega
  have hcount : Day.count ⟨d.year, d.month, 1⟩ + ((d.day : Int) - 1) = d.count := by
    simp only [Day.count_eq, Day.marchYear, Day.marchDays]
    omega
  simp only [Instant.msAt, hyear, hmonth, hcount]
  omega

theorem isMonth_of_real {d : Day} (h : d.Real) : isMonth d.month = true := by
  simpa [isMonth] using ⟨h.month_pos, h.month_le⟩

theorem isDayOfMonth_of_real {d : Day} (h : d.Real) : isDayOfMonth d.day = true := by
  simpa [isDayOfMonth] using ⟨h.day_pos, h.day_le.trans (Day.monthLength_le _ _)⟩

/-- The parts of a date in the standard form; the time is midnight, and universal. -/
def midnightParts (d : Day) : Parts :=
  { day := { numbers := [d.year, d.month, d.day], standard := true }, zone := .ofHours 0 }

theorem standard_date {d : Day} {year : Nat} (hyear : d.year = year) (h : d.Real) :
    standard [.number year 4, .mark '-', .number d.month 2, .mark '-', .number d.day 2] =
      .complete (midnightParts d) := by
  simp [standard, standardDay, standardEnd, midnightParts, isMonth_of_real h,
    isDayOfMonth_of_real h, hyear]

theorem instant?_midnightParts (zone : Zone) {d : Day} (h : d.Real) :
    (midnightParts d).instant? zone = Instant.ofMs? (d.count * Instant.msPerDay) := by
  have hdate : (midnightParts d).day.date? = some (d.year, (d.month : Int), (d.day : Int)) := by
    simp [midnightParts, DayParts.date?, isMonth_of_real h, isDayOfMonth_of_real h]
  have htime : (midnightParts d).time.ms? = some 0 := by
    simp [midnightParts, TimeParts.ms?]
  have hzone : ∀ shown, (midnightParts d).zone.offset zone shown = 0 := by
    simp [midnightParts, ZoneParts.offset, ZoneParts.ofHours]
  rw [Parts.instant?, hdate, htime]
  simp only [hzone, Option.bind_eq_bind, Option.bind_some, Int.natCast_zero, Int.add_zero,
    Int.sub_zero, msAt_midnight h]

/-- A date is read as the universal midnight that begins it, in every zone. -/
theorem read?_of_names (zone : Zone) {s : String} {d : Day} (h : d.Names s) (hreal : d.Real) :
    ∃ t, read? zone s = some t ∧ t.ms = d.count * Instant.msPerDay := by
  have hbounds : (d.count * Instant.msPerDay).natAbs ≤ Instant.limit := by
    have hcount := count_bounds hreal h.year_bounds
    unfold Instant.msPerDay Instant.limit
    omega
  obtain ⟨hyear, hy, hm, hd⟩ := h
  refine ⟨⟨_, hbounds⟩, ?_, rfl⟩
  rw [read?, tokensOf_written hy hm hd, standard_date hyear hreal]
  exact (instant?_midnightParts zone hreal).trans (dif_pos hbounds)

end Calendar

end Mailroom
