import Mailroom.Filter.Catalogue
import Mailroom.Filter.Rendering
import Mailroom.Proofs.Calendar.Written

/-! The days of operands, in any zone. The day of an operand is written in full exactly in years of
four digits, those of a moment without zeros in front. Between the years 0 and 9999 writing the day
of a count of milliseconds is a projection onto midnights that keeps the order. -/

namespace Mailroom.Filter

open Day (Falls Names)

variable {zone : Zone} {d e : Day} {s : String} {t : Instant}

/-! ### What is written of a day -/

/-- The day with as few digits of the year as it has. -/
def unpadded (d : Day) : String :=
  d.year.repr ++ "-" ++ Day.padded 2 d.month ++ "-" ++ Day.padded 2 d.day

/-- The month with the year in six digits behind a sign. -/
def signedMonth (d : Day) : String :=
  (if d.year < 0 then "-" else "+") ++ Day.padded 6 d.year.natAbs ++ "-" ++ Day.padded 2 d.month

theorem dayText_of_text {rest : String} (htext : t.text = s ++ rest) (h : s.toList.length = 10) :
    dayText t = s := by
  rw [dayText, htext, String.toList_append, ← h, List.take_left, String.ofList_toList]

/-- The universal text begins with the date. -/
theorem exists_text (t : Instant) : ∃ rest, t.text = t.day.text ++ rest :=
  ⟨_, by simp only [Instant.text, String.append_assoc]; rfl⟩

theorem dayText_near (hyear : 0 ≤ t.day.year ∧ t.day.year ≤ 9999) : dayText t = t.day.text := by
  obtain ⟨rest, hrest⟩ := exists_text t
  exact dayText_of_text hrest ((Day.names_text (Day.real_ofCount _) hyear).length)

/-- The years of instants have at most six digits. -/
theorem natAbs_year_lt (t : Instant) : t.day.year.natAbs < 10 ^ 6 := by
  have hreal := Day.real_ofCount (Instant.dayCount t.ms)
  have hcount := Day.count_ofCount (Instant.dayCount t.ms)
  obtain ⟨hdays, hle, -⟩ := hreal.marchDays
  have hlimit := t.ms_le
  rw [Day.count_eq] at hcount
  unfold Day.marchCount Day.marchYear Instant.dayCount Instant.msPerDay at *
  unfold Instant.limit at hlimit
  unfold Instant.day Instant.dayCount Instant.msPerDay
  split at hcount <;> omega

theorem dayText_far (hyear : ¬(0 ≤ t.day.year ∧ t.day.year ≤ 9999)) :
    dayText t = signedMonth t.day := by
  obtain ⟨rest, hrest⟩ := exists_text t
  have hmonth : t.day.month < 10 ^ 2 := (Day.real_ofCount _).lt_hundred.1
  have hyearText : Day.yearText t.day.year =
      (if t.day.year < 0 then "-" else "+") ++ Day.padded 6 t.day.year.natAbs := by
    rw [Day.yearText, if_neg (by simpa using hyear)]
  have htext : t.text = signedMonth t.day ++ ("-" ++ Day.padded 2 t.day.day ++ rest) := by
    simp only [hrest, Day.text, hyearText, signedMonth, String.append_assoc]
  refine dayText_of_text htext ?_
  have hsign : (if t.day.year < 0 then "-" else "+").toList.length = 1 := by split <;> rfl
  have hyearLength := (Numeral.padded (by decide) (natAbs_year_lt t)).length
  have hmonthLength := (Numeral.padded (by decide) hmonth).length
  simp only [signedMonth, String.toList_append, List.length_append, hsign, hyearLength,
    hmonthLength]
  rfl

/-- Four digits without zeros in front. -/
theorem length_repr_iff (y : Nat) : y.repr.toList.length = 4 ↔ 1000 ≤ y ∧ y ≤ 9999 := by
  have hfour := Nat.length_toDigits_le_iff (b := 10) (n := y) (k := 4) (by decide) (by decide)
  have hthree := Nat.length_toDigits_le_iff (b := 10) (n := y) (k := 3) (by decide) (by decide)
  rw [Nat.toList_repr]
  omega

theorem names_unpadded_iff (h : d.Real) :
    d.Names (unpadded d) ↔ 1000 ≤ d.year ∧ d.year ≤ 9999 := by
  constructor
  · intro hnames
    have hlength := hnames.length
    have hmonth : d.month < 10 ^ 2 := h.lt_hundred.1
    have hday : d.day < 10 ^ 2 := h.lt_hundred.2
    have hrepr : d.year.repr.toList.length = 4 := by
      have hhyphen : "-".toList.length = 1 := rfl
      have hmonthLength := (Numeral.padded (by decide) hmonth).length
      have hdayLength := (Numeral.padded (by decide) hday).length
      simp only [unpadded, String.toList_append, List.length_append, hhyphen, hmonthLength,
        hdayLength] at hlength
      omega
    obtain ⟨y, hnat⟩ := Int.eq_ofNat_of_zero_le hnames.year_bounds.1
    rw [hnat] at hrepr ⊢
    exact_mod_cast (length_repr_iff y).mp hrepr
  · intro hyear
    obtain ⟨y, hnat⟩ := Int.eq_ofNat_of_zero_le (show 0 ≤ d.year by omega)
    have hlength := (length_repr_iff y).mpr (by omega)
    rw [Nat.toList_repr] at hlength
    have hrepr : d.year.repr = Day.yearText d.year := by
      rw [Day.yearText, if_pos (by simpa using (by omega : 0 ≤ d.year ∧ d.year ≤ 9999)), hnat,
        Int.toNat_natCast, Day.padded, hlength]
      exact Nat.repr_eq_ofList_toDigits
    have htext : unpadded d = d.text := by rw [unpadded, hrepr, Day.text]
    exact htext ▸ Day.names_text h (by omega)

/-! ### Operands that denote an instant -/

/-- The instant that an operand denotes. -/
def Operand.instant? (zone : Zone) : Operand → Option Instant
  | text s => Calendar.read? zone s
  | number n => n.truncate?.bind Instant.ofMs?
  | truth _ => none
  | moment t => t

/-- The count of the day of an operand's instant: of a moment the local one, of a number or a text
the universal one. -/
def Operand.dayCount (zone : Zone) : Operand → Instant → Int
  | moment _, t => (t.ms + zone.offset t.ms) / 86400000
  | _, t => t.ms / 86400000

/-- The years whose days are written in full. -/
def Operand.InFull : Operand → Day → Prop
  | moment _, d => 1000 ≤ d.year ∧ d.year ≤ 9999
  | _, d => 0 ≤ d.year ∧ d.year ≤ 9999

/-- What is written of a day in any other year. -/
def Operand.remainder : Operand → Day → String
  | moment _, d => unpadded d
  | _, d => signedMonth d

theorem dayOf_number {n : Number} (h : n.truncate?.bind Instant.ofMs? = some t) :
    dayOf zone (.number n) = dayText t := by
  simp only [dayOf, h]

theorem dayOf_text (h : Calendar.read? zone s = some t) : dayOf zone (.text s) = dayText t := by
  simp only [dayOf, h]

theorem dayText_in_full (t : Instant) :
    (t.day.Names (dayText t) ↔ 0 ≤ t.day.year ∧ t.day.year ≤ 9999) ∧
      (¬(0 ≤ t.day.year ∧ t.day.year ≤ 9999) → dayText t = signedMonth t.day) := by
  refine ⟨⟨Names.year_bounds, fun hyear => ?_⟩, dayText_far⟩
  exact dayText_near hyear ▸ Day.names_text (Day.real_ofCount _) hyear

/-- The search text of a test of the date, with the day of the operand behind the keyword. -/
theorem render_date (zone : Zone) (options : RenderOptions) (v : Operand) :
    ((Catalogue.date zone).test .greater (some v) >>= Predicate.render options) =
      .ok ("after:" ++ dayOf zone v) ∧
    ((Catalogue.date zone).test .less (some v) >>= Predicate.render options) =
      .ok ("before:" ++ dayOf zone v) := ⟨rfl, rfl⟩

/-- In every zone, an operand that denotes an instant is rendered as its day, in full exactly in
years of four digits; the year of a moment has no zeros in front. -/
theorem dayOf_in_full (zone : Zone) {v : Operand} {t : Instant} (h : v.instant? zone = some t) :
    ∃ d, Falls (v.dayCount zone t) d ∧ (d.Names (dayOf zone v) ↔ v.InFull d) ∧
      (¬v.InFull d → dayOf zone v = v.remainder d) ∧
      ∀ options, ((Catalogue.date zone).test .greater (some v) >>= Predicate.render options) =
          .ok ("after:" ++ dayOf zone v) ∧
        ((Catalogue.date zone).test .less (some v) >>= Predicate.render options) =
          .ok ("before:" ++ dayOf zone v) := by
  refine ⟨Day.ofCount (v.dayCount zone t), Day.falls_iff.mpr rfl, ?_⟩
  rw [← and_assoc]
  refine ⟨?_, fun options => render_date zone options v⟩
  cases v with
  | truth b => cases h
  | moment instant =>
    obtain rfl : instant = some t := h
    exact ⟨names_unpadded_iff (Day.real_ofCount _), fun _ => rfl⟩
  | number n => exact dayOf_number h ▸ dayText_in_full t
  | text s => exact dayOf_text h ▸ dayText_in_full t

/-- Midnight of a local date in a year of three digits, five hours behind the universal time. -/
def shortYear : Operand := .moment (some ⟨-30620055600000, by decide⟩)

theorem dayOf_in_full_short_year :
    let zone : Zone := .fixed (-18000000) "GMT-05:00"
    dayOf zone shortYear = "999-09-09" ∧
    shortYear.instant? zone = some ⟨-30620055600000, by decide⟩ ∧
    ∃ d, Falls (shortYear.dayCount zone ⟨-30620055600000, by decide⟩) d ∧
      (d.Names (dayOf zone shortYear) ↔ shortYear.InFull d) ∧
      (¬shortYear.InFull d → dayOf zone shortYear = shortYear.remainder d) ∧
      ∀ options,
        ((Catalogue.date zone).test .greater (some shortYear) >>= Predicate.render options) =
          .ok ("after:" ++ dayOf zone shortYear) ∧
        ((Catalogue.date zone).test .less (some shortYear) >>= Predicate.render options) =
          .ok ("before:" ++ dayOf zone shortYear) :=
  ⟨by decide +kernel, rfl, dayOf_in_full _ rfl⟩

/-! ### Integers between the years 0 and 9999 -/

/-- A number whose value is an integer, with the universal date of so many milliseconds, in a year
between 0 and 9999. -/
structure Stamp (n : Number) (i : Int) (d : Day) : Prop where
  value : n.toRat? = some (i : Rat)
  falls : Falls (i / 86400000) d
  year : 0 ≤ d.year ∧ d.year ≤ 9999

namespace Stamp

variable {n : Number} {i : Int}

theorem real (h : Stamp n i d) : d.Real := Day.falls_iff.mp h.falls ▸ Day.real_ofCount _

theorem count_eq (h : Stamp n i d) : d.count = i / 86400000 := by
  rw [← Day.falls_iff.mp h.falls, Day.count_ofCount]

theorem dayOf_eq (h : Stamp n i d) : dayOf zone (.number n) = d.text := by
  have hlimit : i.natAbs ≤ Instant.limit := by
    have hbounds := Calendar.count_bounds h.real h.year
    have hcount := h.count_eq
    unfold Instant.limit
    omega
  have hinstant : n.truncate?.bind Instant.ofMs? = some ⟨i, hlimit⟩ := by
    rw [Number.truncate?_of_toRat? h.value]
    exact dif_pos hlimit
  have hday : Instant.day ⟨i, hlimit⟩ = d := Day.falls_iff.mp h.falls
  rw [dayOf_number hinstant, dayText_near (by rw [hday]; exact h.year), hday]

theorem names (zone : Zone) (h : Stamp n i d) : d.Names (dayOf zone (.number n)) :=
  h.dayOf_eq ▸ Day.names_text h.real h.year

/-- The text of the day is read as the midnight at or before the number. -/
theorem read?_dayOf (zone : Zone) (h : Stamp n i d) : ∃ midnight,
    Calendar.read? zone (dayOf zone (.number n)) = some midnight ∧ midnight.ms % 86400000 = 0 ∧
      midnight.ms ≤ i ∧ i < midnight.ms + 86400000 := by
  obtain ⟨midnight, hread, hms⟩ := Calendar.read?_of_names zone (h.names zone) h.real
  have hcount := h.count_eq
  unfold Instant.msPerDay at hms
  exact ⟨midnight, hread, by omega⟩

/-- A later number has no earlier text. -/
theorem not_before {m : Number} {j : Int} (h : Stamp n i d) (h' : Stamp m j e) (hle : i ≤ j) :
    Text.before (dayOf zone (.number m)) (dayOf zone (.number n)) = false := by
  obtain heq | hlt := (Int.ediv_le_ediv (c := 86400000) (by decide) hle).eq_or_lt
  · have hde : d = e := by
      rw [← Day.falls_iff.mp h.falls, ← Day.falls_iff.mp h'.falls, heq]
    rw [h.dayOf_eq, h'.dayOf_eq, hde]
    exact decide_eq_false (List.lt_irrefl _)
  · have hearlier : d.Earlier e := by
      rw [← Day.falls_iff.mp h.falls, ← Day.falls_iff.mp h'.falls]
      exact Day.earlier_ofCount hlt
    have hbefore := of_decide_eq_true ((h.names zone).before (h'.names zone) hearlier)
    exact decide_eq_false (List.lt_asymm hbefore)

end Stamp

/-- A text that writes a real date is its own day. -/
theorem dayOf_names (h : d.Names s) (hreal : d.Real) : dayOf zone (.text s) = s := by
  obtain ⟨t, hread, hms⟩ := Calendar.read?_of_names zone h hreal
  have hday : t.day = d := by
    have hcount : Instant.dayCount t.ms = d.count := by
      rw [Instant.dayCount, hms, Int.mul_ediv_cancel _ (by decide)]
    rw [Instant.day, hcount, Day.ofCount_count hreal]
  rw [dayOf_text hread, dayText_near (by rw [hday]; exact h.year_bounds), hday]
  exact (Day.names_text hreal h.year_bounds).unique h

/-- The day of an integer is its universal date and the midnight before it, in the order of the
integers, and the day of a day is the same. -/
theorem dayOf_projects (zone : Zone) {n m : Number} {i j : Int} (h : Stamp n i d)
    (h' : Stamp m j e) :
    d.Names (dayOf zone (.number n)) ∧
    (∃ midnight, Calendar.read? zone (dayOf zone (.number n)) = some midnight ∧
      midnight.ms % 86400000 = 0 ∧ midnight.ms ≤ i ∧ i < midnight.ms + 86400000) ∧
    (i ≤ j → Text.before (dayOf zone (.number m)) (dayOf zone (.number n)) = false) ∧
    (∀ (s : String) (c : Day), c.Real → c.Names s → dayOf zone (.text s) = s) ∧
    dayOf zone (.text (dayOf zone (.number n))) = dayOf zone (.number n) :=
  ⟨h.names zone, h.read?_dayOf zone, h.not_before h',
    fun _ _ hreal hnames => dayOf_names hnames hreal, dayOf_names (h.names zone) h.real⟩

theorem dayOf_projects_leap_day :
    let zone : Zone := .universal
    Names ⟨1969, 12, 31⟩ (dayOf zone (.number (.ofInt (-1)))) ∧
    (∃ midnight, Calendar.read? zone (dayOf zone (.number (.ofInt (-1)))) = some midnight ∧
      midnight.ms % 86400000 = 0 ∧ midnight.ms ≤ -1 ∧ -1 < midnight.ms + 86400000) ∧
    ((-1 : Int) ≤ 951782400000 → Text.before (dayOf zone (.number (.ofInt 951782400000)))
      (dayOf zone (.number (.ofInt (-1)))) = false) ∧
    (∀ (s : String) (c : Day), c.Real → c.Names s → dayOf zone (.text s) = s) ∧
    dayOf zone (.text (dayOf zone (.number (.ofInt (-1))))) = dayOf zone (.number (.ofInt (-1))) :=
  dayOf_projects _
    ⟨Number.toRat?_ofInt (by decide), Day.falls_iff.mpr (by decide +kernel), by decide⟩
    ⟨Number.toRat?_ofInt (by decide), Day.falls_iff.mpr
      (by decide +kernel : Day.ofCount (951782400000 / 86400000) = ⟨2000, 2, 29⟩), by decide⟩

end Mailroom.Filter
