import Mailroom.Calendar.Day
import Mathlib.Tactic.IntervalCases

/-! The calendar by its rules: leap years, lengths of months, and the date after a date. The count
of a date grows by one from each date to the next, and every count is that of one real date, so
`Day.ofCount` and `Day.count` are the two directions of the calendar that has 1 January 1970 at
zero. -/

namespace Mailroom

/-- Every fourth year is a leap year, but of the full centuries only every fourth. -/
def IsLeap (year : Int) : Prop := year % 4 = 0 ∧ (year % 100 ≠ 0 ∨ year % 400 = 0)

instance (year : Int) : Decidable (IsLeap year) := inferInstanceAs (Decidable (_ ∧ _))

def monthLength (year : Int) (month : Nat) : Nat :=
  if month = 2 then if IsLeap year then 29 else 28
  else if month = 4 ∨ month = 6 ∨ month = 9 ∨ month = 11 then 30
  else 31

namespace Day

/-- A date that the calendar has. -/
structure Real (d : Day) : Prop where
  month_pos : 1 ≤ d.month
  month_le : d.month ≤ 12
  day_pos : 1 ≤ d.day
  day_le : d.day ≤ monthLength d.year d.month

/-- The date after a date. -/
def next (d : Day) : Day :=
  if d.day < monthLength d.year d.month then { d with day := d.day + 1 }
  else if d.month < 12 then ⟨d.year, d.month + 1, 1⟩
  else ⟨d.year + 1, 1, 1⟩

/-- The dates of counts, from 1 January 1970 on and back from it. -/
inductive Falls : Int → Day → Prop
  | epoch : Falls 0 ⟨1970, 1, 1⟩
  | after {n d} : Falls n d → Falls (n + 1) d.next
  | before {n d} : Falls (n + 1) d.next → d.Real → Falls n d

theorem monthLength_pos (year : Int) (month : Nat) : 1 ≤ monthLength year month := by
  unfold monthLength
  repeat' split
  all_goals decide

theorem monthLength_le (year : Int) (month : Nat) : monthLength year month ≤ 31 := by
  unfold monthLength
  repeat' split
  all_goals decide

theorem Real.next {d : Day} (h : d.Real) : d.next.Real := by
  unfold Day.next
  split
  case isTrue hday => exact ⟨h.month_pos, h.month_le, Nat.le_add_left 1 _, hday⟩
  case isFalse =>
    split
    case isTrue hmonth => exact ⟨Nat.le_add_left 1 _, hmonth, le_refl 1, monthLength_pos _ _⟩
    case isFalse =>
      exact ⟨le_refl 1, Nat.le_add_left 1 11, le_refl 1, monthLength_pos (d.year + 1) 1⟩

/-! ### Counts of dates

Years that begin in March. Every such year ends with its leap day if it has one. -/

/-- The year that begins in March before a date. -/
def marchYear (d : Day) : Int := if d.month ≤ 2 then d.year - 1 else d.year

/-- The days from the beginning of March to a date. -/
def marchDays (d : Day) : Int := (153 * ((d.month + 9) % 12) + 2) / 5 + d.day - 1

/-- The count of the first of March. -/
def marchCount (year : Int) : Int := 365 * year + year / 4 - year / 100 + year / 400 - 719468

/-- The date so many days after the beginning of March. -/
def ofMarch (year days : Int) : Day :=
  let marchMonth := (5 * days + 2) / 153
  let day := (days - (153 * marchMonth + 2) / 5 + 1).toNat
  let month := if marchMonth < 10 then (marchMonth + 3).toNat else (marchMonth - 9).toNat
  ⟨if month ≤ 2 then year + 1 else year, month, day⟩

theorem count_eq (d : Day) : d.count = marchCount d.marchYear + d.marchDays := by
  simp only [count, marchCount, marchYear, marchDays]
  generalize (if d.month ≤ 2 then d.year - 1 else d.year) = year
  omega

/-- Between the first days of two Marches lie 337 days and those of February. -/
theorem marchCount_succ (year : Int) :
    marchCount year = marchCount (year - 1) + 337 + monthLength year 2 := by
  unfold marchCount monthLength
  by_cases h : IsLeap year
  case pos =>
    rw [if_pos rfl, if_pos h]
    unfold IsLeap at h
    omega
  case neg =>
    rw [if_pos rfl, if_neg h]
    unfold IsLeap at h
    omega

theorem marchCount_era (year era : Int) :
    marchCount (year + era * 400) = marchCount year + era * 146097 := by
  unfold marchCount
  omega

theorem count_next {d : Day} (h : d.Real) : d.next.count = d.count + 1 := by
  obtain ⟨year, month, day⟩ := d
  obtain ⟨hpos, hle, hday, hlength⟩ := h
  simp only at hpos hle hday hlength
  unfold next
  split
  case isTrue =>
    simp only [count_eq, marchYear, marchDays]
    push_cast
    omega
  case isFalse hlast =>
    -- The last day of a month. Only the length of February depends on the year.
    obtain rfl : day = monthLength year month := le_antisymm hlength (Nat.le_of_not_lt hlast)
    have hyear := marchCount_succ year
    interval_cases month <;> simp only [count_eq, marchYear, marchDays] <;>
      simp [monthLength] at hyear ⊢ <;> omega

/-- The year is recovered from a day of its era of four hundred years: the quotients count the leap
days before it, each at the end of its year. -/
theorem yearOfEra_eq {year days : Int} (hyear : 0 ≤ year ∧ year < 400) (hdays : 0 ≤ days)
    (hle : days ≤ 365) (hleap : days = 365 → IsLeap (year + 1)) {e : Int}
    (he : e = 365 * year + year / 4 - year / 100 + days) :
    (e - e / 1460 + e / 36524 - e / 146096) / 365 = year := by
  have hleap' : days = 365 → year % 4 = 3 ∧ (year % 100 ≠ 99 ∨ year = 399) := by
    intro h
    have := hleap h
    unfold IsLeap at this
    omega
  -- The last day of an era is a leap day that the full century would have left out.
  by_cases hlast : e = 146096
  case pos =>
    subst hlast
    omega
  case neg =>
    have hera : e / 146096 = 0 := by omega
    have hcentury : e / 36524 = year / 100 := by omega
    rw [hera, hcentury]
    omega

theorem ofCount_marchCount {year days : Int} (hdays : 0 ≤ days) (hle : days ≤ 365)
    (hleap : days = 365 → IsLeap (year + 1)) :
    ofCount (marchCount year + days) = ofMarch year days := by
  obtain ⟨era, ofEra, rfl, hofEra⟩ : ∃ era ofEra, year = ofEra + era * 400 ∧
      0 ≤ ofEra ∧ ofEra < 400 := ⟨year / 400, year % 400, by omega, by omega⟩
  have hleap' : days = 365 → IsLeap (ofEra + 1) := by
    intro h
    have := hleap h
    unfold IsLeap at this ⊢
    omega
  have hlength : days = 365 → ofEra % 4 = 3 := by
    intro h
    have := hleap' h
    unfold IsLeap at this
    omega
  obtain ⟨e, he⟩ : ∃ e, e = 365 * ofEra + ofEra / 4 - ofEra / 100 + days := ⟨_, rfl⟩
  have hcount : marchCount (ofEra + era * 400) + days + 719468 = e + era * 146097 := by
    unfold marchCount
    omega
  have hquot : (e + era * 146097) / 146097 = era := by omega
  have hrest : (e + era * 146097) % 146097 = e := by omega
  have hdays' : e - (365 * ofEra + ofEra / 4 - ofEra / 100) = days := by omega
  simp only [ofCount, hcount, hquot, hrest, yearOfEra_eq hofEra hdays hle hleap' he, hdays',
    ofMarch]

theorem marchMonth_eq {d : Day} (h : d.Real) :
    (5 * d.marchDays + 2) / 153 = (d.month + 9) % 12 := by
  obtain ⟨year, month, day⟩ := d
  obtain ⟨hpos, hle, hday, hlength⟩ := h
  simp only at hpos hle hday hlength
  have hfebruary : monthLength year 2 ≤ 29 := by
    rw [monthLength, if_pos rfl]
    split <;> decide
  simp only [marchDays]
  interval_cases month
  case «2» => omega
  all_goals
    simp [monthLength] at hlength
    omega

theorem ofMarch_marchDays {d : Day} (h : d.Real) : ofMarch d.marchYear d.marchDays = d := by
  have hmonth : (if ((d.month : Int) + 9) % 12 < 10 then (((d.month : Int) + 9) % 12 + 3).toNat
      else (((d.month : Int) + 9) % 12 - 9).toNat) = d.month := by
    have hpos := h.month_pos
    have hle := h.month_le
    split <;> omega
  have hday : (d.marchDays - (153 * (((d.month : Int) + 9) % 12) + 2) / 5 + 1).toNat = d.day := by
    unfold marchDays
    omega
  have hyear : (if d.month ≤ 2 then d.marchYear + 1 else d.marchYear) = d.year := by
    unfold marchYear
    split <;> omega
  simp only [ofMarch, marchMonth_eq h, hmonth, hday, hyear]

theorem Real.marchDays {d : Day} (h : d.Real) : 0 ≤ d.marchDays ∧ d.marchDays ≤ 365 ∧
    (d.marchDays = 365 → IsLeap (d.marchYear + 1)) := by
  obtain ⟨year, month, day⟩ := d
  obtain ⟨hpos, hle, hday, hlength⟩ := h
  simp only at hpos hle hday hlength
  simp only [Day.marchDays, marchYear]
  by_cases hfebruary : month = 2
  case pos =>
    subst hfebruary
    rw [monthLength, if_pos rfl] at hlength
    refine ⟨by omega, by split at hlength <;> omega, fun heq => ?_⟩
    rw [if_pos (le_refl 2), Int.sub_add_cancel]
    by_contra hleap
    rw [if_neg hleap] at hlength
    omega
  case neg =>
    have hmonth := monthLength_le year month
    omega

/-- The date of a count and the count of a date. -/
theorem ofCount_count {d : Day} (h : d.Real) : ofCount d.count = d := by
  obtain ⟨hdays, hle, hleap⟩ := h.marchDays
  rw [count_eq, ofCount_marchCount hdays hle hleap, ofMarch_marchDays h]

/-! ### Every count has its date -/

/-- Counting on from 1 January 1970. -/
theorem exists_of_nonneg (n : Nat) : ∃ d : Day, d.Real ∧ d.count = n := by
  induction n with
  | zero => exact ⟨⟨1970, 1, 1⟩, ⟨by decide, by decide, by decide, by decide⟩, by decide⟩
  | succ n ih =>
    obtain ⟨d, hreal, hcount⟩ := ih
    exact ⟨d.next, hreal.next, by rw [count_next hreal, hcount, Int.natCast_succ]⟩

/-- The calendar repeats after four hundred years. -/
theorem Real.era {d : Day} (h : d.Real) (era : Int) :
    Real ⟨d.year + era * 400, d.month, d.day⟩ ∧
      count ⟨d.year + era * 400, d.month, d.day⟩ = d.count + era * 146097 := by
  have hleap : IsLeap (d.year + era * 400) ↔ IsLeap d.year := by
    unfold IsLeap
    omega
  have hlength : monthLength (d.year + era * 400) d.month = monthLength d.year d.month := by
    simp only [monthLength, hleap]
  have hyear : marchYear ⟨d.year + era * 400, d.month, d.day⟩ = d.marchYear + era * 400 := by
    simp only [marchYear]
    split <;> omega
  refine ⟨⟨h.month_pos, h.month_le, h.day_pos, hlength ▸ h.day_le⟩, ?_⟩
  rw [count_eq, count_eq, hyear, marchCount_era]
  exact Int.add_right_comm _ _ _

theorem exists_count (n : Int) : ∃ d : Day, d.Real ∧ d.count = n := by
  obtain ⟨d, hreal, hcount⟩ := exists_of_nonneg (n % 146097).toNat
  obtain ⟨hreal', hcount'⟩ := hreal.era (n / 146097)
  exact ⟨_, hreal', by omega⟩

theorem real_ofCount (n : Int) : (ofCount n).Real := by
  obtain ⟨d, hreal, rfl⟩ := exists_count n
  rwa [ofCount_count hreal]

theorem count_ofCount (n : Int) : (ofCount n).count = n := by
  obtain ⟨d, hreal, rfl⟩ := exists_count n
  rw [ofCount_count hreal]

theorem ofCount_succ (n : Int) : ofCount (n + 1) = (ofCount n).next := by
  have hreal := real_ofCount n
  rw [← ofCount_count hreal.next, count_next hreal, count_ofCount]

/-- The dates are those that counting from 1 January 1970 arrives at. -/
theorem falls_iff {n : Int} {d : Day} : Falls n d ↔ ofCount n = d := by
  constructor
  · intro h
    induction h with
    | epoch => decide +kernel
    | after _ ih => rw [ofCount_succ, ih]
    | @before n d _ hreal ih =>
      have hcount := congrArg count ih
      rw [count_ofCount, count_next hreal] at hcount
      have hn : n = d.count := by omega
      rw [hn, ofCount_count hreal]
  · rintro rfl
    induction n with
    | zero => exact .epoch
    | succ n ih => exact ofCount_succ n ▸ ih.after
    | pred n ih =>
      refine .before ?_ (real_ofCount _)
      rwa [← ofCount_succ, Int.sub_add_cancel]

/-! ### Dates in order -/

/-- The one date comes before the other. -/
def Earlier (d e : Day) : Prop :=
  d.year < e.year ∨ d.year = e.year ∧ (d.month < e.month ∨ d.month = e.month ∧ d.day < e.day)

theorem Earlier.trans {c d e : Day} (h : c.Earlier d) (h' : d.Earlier e) : c.Earlier e := by
  unfold Earlier at *
  omega

theorem earlier_next (d : Day) : d.Earlier d.next := by
  unfold Earlier next
  split
  · simp
  · split <;> simp

/-- Of two counts, the smaller one has the earlier date. -/
theorem earlier_ofCount {m n : Int} (h : m < n) : (ofCount m).Earlier (ofCount n) := by
  induction n, h using Int.leInduction with
  | base => exact ofCount_succ m ▸ earlier_next _
  | succ n _ ih => exact ih.trans (ofCount_succ n ▸ earlier_next _)

end Day

end Mailroom
