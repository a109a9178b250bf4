import DocumentPipeline.Time.Date
import Mathlib.Tactic.IntervalCases

/-! # Counting days off the calendar

The number of a date is the number of days that the calendar counts from 1970-01-01 to it, one
after the other, with months of 28 to 31 days and a leap day in every fourth year, save three in
four centuries. Both conversions follow from the shape of a year that begins in March.
-/
namespace DocumentPipeline

namespace Date

/-- The following day. -/
def next (d : Date) : Date :=
  if d.day < daysIn d.year d.month then ⟨d.year, d.month, d.day + 1⟩
  else if d.month < 12 then ⟨d.year, d.month + 1, 1⟩
  else ⟨d.year + 1, 1, 1⟩

/-- The calendar counts so many days from 1970-01-01 to the date. -/
inductive OnDay : Int → Date → Prop
  | epoch : OnDay 0 ⟨1970, 1, 1⟩
  | after {n : Int} {d : Date} (h : OnDay n d) : OnDay (n + 1) d.next
  | before {n : Int} {d : Date} (hd : d.IsValid) (h : OnDay (n + 1) d.next) : OnDay n d

variable {d e : Date} {n : Int}

theorem daysIn_le (year : Int) (month : Nat) : daysIn year month ≤ 31 := by
  unfold daysIn
  split
  · split <;> decide
  all_goals decide

theorem isLeapYear_iff (year : Int) :
    isLeapYear year = true ↔ year % 4 = 0 ∧ (year % 100 ≠ 0 ∨ year % 400 = 0) := by
  simp [isLeapYear]

/-- Up to July the odd months are long, from August on the even ones. -/
theorem daysIn_of_ne {year : Int} {month : Nat} (h : month ≠ 2) (h₁ : 1 ≤ month)
    (h₂ : month ≤ 12) : daysIn year month = 30 + (month + month / 8) % 2 := by
  interval_cases month <;> first | rfl | exact absurd rfl h

theorem isValid_next (h : d.IsValid) : d.next.IsValid := by
  obtain ⟨hm₁, hm₂, hd₁, hd₂⟩ := h
  unfold next
  split_ifs with hday hmonth
  · exact ⟨hm₁, hm₂, by simp, hday⟩
  · refine ⟨by simp, hmonth, le_rfl, ?_⟩
    simp only [daysIn]
    split
    · split <;> decide
    all_goals decide
  · exact ⟨le_rfl, by simp, le_rfl, by simp [daysIn]⟩

section Years

/-- Days from 0000-03-01 to the first of March of a year. -/
def yearStart (y : Int) : Int := 365 * y + y / 4 - y / 100 + y / 400

/-- The year that begins in March and holds the date. -/
def marchYear (d : Date) : Int := if d.month ≤ 2 then d.year - 1 else d.year

/-- Days from the first of March to the date. -/
def dayOfYear (d : Date) : Nat :=
  (153 * (if d.month ≤ 2 then d.month + 9 else d.month - 3) + 2) / 5 + d.day - 1

theorem dayNumber_eq (d : Date) :
    d.dayNumber = yearStart d.marchYear + d.dayOfYear - epochOffset := rfl

theorem dayNumber_mk (year : Int) (month day : Nat) : dayNumber ⟨year, month, day⟩ =
    yearStart (if month ≤ 2 then year - 1 else year) +
      ((153 * (if month ≤ 2 then month + 9 else month - 3) + 2) / 5 + day - 1 : Nat) -
        epochOffset := rfl

theorem yearStart_mono {y z : Int} (h : y ≤ z) : yearStart y ≤ yearStart z := by
  unfold yearStart
  omega

theorem yearStart_succ_bounds (y : Int) :
    yearStart y + 365 ≤ yearStart (y + 1) ∧ yearStart (y + 1) ≤ yearStart y + 366 := by
  unfold yearStart
  omega

/-- February ends the year that begins in March, and takes what is left of it. -/
theorem daysIn_february (y : Int) :
    (daysIn (y + 1) 2 : Int) + 337 = yearStart (y + 1) - yearStart y := by
  unfold daysIn yearStart
  simp only
  split_ifs with h
  · rw [isLeapYear_iff] at h
    omega
  · rw [isLeapYear_iff] at h
    omega

theorem daysIn_february_le (y : Int) : daysIn y 2 ≤ 29 := by
  have hlength := daysIn_february (y - 1)
  have hyear := (yearStart_succ_bounds (y - 1)).2
  rw [sub_add_cancel] at hlength hyear
  omega

theorem dayOfYear_lt (h : d.IsValid) :
    yearStart d.marchYear + d.dayOfYear < yearStart (d.marchYear + 1) := by
  obtain ⟨year, month, day⟩ := d
  obtain ⟨hm₁, hm₂, hd₁, hd₂⟩ := h
  simp only [marchYear, dayOfYear] at *
  by_cases hm : month = 2
  · subst hm
    have hfebruary := daysIn_february (year - 1)
    simp only [le_refl, if_true, sub_add_cancel] at hfebruary ⊢
    omega
  · rw [daysIn_of_ne hm hm₁ hm₂] at hd₂
    split_ifs
    · have hyear := (yearStart_succ_bounds (year - 1)).1
      omega
    · have hyear := (yearStart_succ_bounds year).1
      omega

/-- The months from March on have 31, 30, 31, 30 and 31 days, again and again. -/
theorem month_of_dayOfYear (h : d.IsValid) :
    (5 * d.dayOfYear + 2) / 153 = if d.month ≤ 2 then d.month + 9 else d.month - 3 := by
  obtain ⟨year, month, day⟩ := d
  obtain ⟨hm₁, hm₂, hd₁, hd₂⟩ := h
  simp only [dayOfYear] at *
  by_cases hm : month = 2
  · subst hm
    have hfebruary := daysIn_february_le year
    simp only [le_refl, if_true]
    omega
  · rw [daysIn_of_ne hm hm₁ hm₂] at hd₂
    interval_cases month <;> simp only [Nat.reduceLeDiff, if_true, if_false] at * <;> omega

/-- Dates with the same number are the same. -/
theorem dayNumber_injective (hd : d.IsValid) (he : e.IsValid) (h : d.dayNumber = e.dayNumber) :
    d = e := by
  rw [dayNumber_eq, dayNumber_eq] at h
  have hdlt := dayOfYear_lt hd
  have helt := dayOfYear_lt he
  have hyear : d.marchYear = e.marchYear := by
    rcases lt_trichotomy d.marchYear e.marchYear with hlt | heq | hgt
    · have := yearStart_mono (Int.add_one_le_of_lt hlt)
      omega
    · exact heq
    · have := yearStart_mono (Int.add_one_le_of_lt hgt)
      omega
  have hday : d.dayOfYear = e.dayOfYear := by
    rw [hyear] at h
    omega
  have hmonth := month_of_dayOfYear hd
  rw [hday, month_of_dayOfYear he] at hmonth
  obtain ⟨hdm₁, hdm₂, hdd₁, -⟩ := hd
  obtain ⟨hem₁, hem₂, hed₁, -⟩ := he
  have heq : d.month = e.month := by
    split_ifs at hmonth <;> omega
  obtain ⟨year, month, day⟩ := d
  obtain ⟨year', month', day'⟩ := e
  obtain rfl : month = month' := heq
  simp only [marchYear, dayOfYear] at *
  congr 1
  · split_ifs at hyear <;> omega
  · omega

/-- One day later. -/
theorem dayNumber_next (h : d.IsValid) : d.next.dayNumber = d.dayNumber + 1 := by
  obtain ⟨year, month, day⟩ := d
  obtain ⟨hm₁, hm₂, hd₁, hd₂⟩ := h
  rw [next]
  split_ifs with hday hmonth
  · rw [dayNumber_mk, dayNumber_mk]
    dsimp only at hd₁ ⊢
    omega
  · rw [dayNumber_mk, dayNumber_mk]
    dsimp only at hm₁ hd₁ hd₂ hday hmonth ⊢
    by_cases hm : month = 2
    · subst hm
      have hfebruary := daysIn_february (year - 1)
      rw [sub_add_cancel] at hfebruary
      simp only [le_refl, if_true, Nat.reduceAdd, Nat.reduceLeDiff, if_false]
      omega
    · have hlength : daysIn year month = _ := daysIn_of_ne hm hm₁ hm₂
      rw [hlength] at hd₂ hday
      interval_cases month <;>
        simp only [Nat.reduceLeDiff, Nat.reduceAdd, if_true, if_false] <;> omega
  · obtain rfl : month = 12 := by simp only at hm₂ hmonth; omega
    rw [dayNumber_mk, dayNumber_mk]
    dsimp only at hd₁ hd₂ hday ⊢
    simp only [daysIn] at hd₂ hday
    simp only [Nat.reduceLeDiff, if_true, if_false, add_sub_cancel_right]
    omega

end Years

section Dates

/-- The date of a day counted from the first of March of a year. -/
def ofMarch (y : Int) (k : Nat) : Date :=
  let m := (5 * k + 2) / 153
  let day := k - (153 * m + 2) / 5 + 1
  if m < 10 then ⟨y, m + 3, day⟩ else ⟨y + 1, m - 9, day⟩

theorem ofMarch_spec {y : Int} {k : Nat} (h : yearStart y + k < yearStart (y + 1)) :
    (ofMarch y k).IsValid ∧ (ofMarch y k).dayNumber = yearStart y + k - epochOffset := by
  have hlength := (yearStart_succ_bounds y).2
  have hfebruary := daysIn_february y
  obtain ⟨m, hm⟩ : ∃ m, (5 * k + 2) / 153 = m := ⟨_, rfl⟩
  have hle : m ≤ 11 := by omega
  simp only [ofMarch, hm]
  by_cases hlast : m = 11
  · subst hlast
    have hvalid : k - 337 + 1 ≤ daysIn (y + 1) 2 := by omega
    simp only [Nat.reduceMul, Nat.reduceAdd, Nat.reduceDiv, Nat.reduceLT, if_false, Nat.reduceSub]
    refine ⟨⟨by simp, by simp, by simp, hvalid⟩, ?_⟩
    rw [dayNumber_mk]
    simp only [le_refl, if_true, add_sub_cancel_right]
    omega
  · split_ifs with hsmall
    · have hvalid : k - (153 * m + 2) / 5 + 1 ≤ daysIn y (m + 3) := by
        rw [daysIn_of_ne (by omega) (by omega) (by omega)]
        interval_cases m <;> omega
      refine ⟨⟨by simp, by simp only; omega, by simp, hvalid⟩, ?_⟩
      rw [dayNumber_mk, if_neg (by omega), if_neg (by omega)]
      omega
    · obtain rfl : m = 10 := by omega
      have hvalid : k - (153 * 10 + 2) / 5 + 1 ≤ daysIn (y + 1) 1 := by
        simp only [daysIn]
        omega
      refine ⟨⟨by simp, by simp, by simp, hvalid⟩, ?_⟩
      rw [dayNumber_mk, if_pos (by decide), if_pos (by decide), add_sub_cancel_right]
      omega

section Cycles

variable {c : Int} {a b r : Nat}

/-- A cycle of 400 years has four centuries of 25 times four years. -/
theorem yearStart_cycle (ha : a ≤ 3) (hb : b ≤ 24) (hr : r ≤ 3) :
    yearStart (c * 400 + (a * 100 + b * 4 + r : Nat)) =
      146097 * c + (36524 * a + 1461 * b + 365 * r : Nat) := by
  have hfour : (c * 400 + (a * 100 + b * 4 + r : Nat)) / 4 = 100 * c + 25 * a + b := by omega
  have hcentury : (c * 400 + (a * 100 + b * 4 + r : Nat)) / 100 = 4 * c + a := by omega
  have hcycle : (c * 400 + (a * 100 + b * 4 + r : Nat)) / 400 = c := by omega
  rw [yearStart, hfour, hcentury, hcycle]
  omega

/-- The last of four years is the longest, save at the end of the first three centuries. -/
theorem yearStart_cycle_succ (ha : a ≤ 3) (hb : b ≤ 24) (hr : r ≤ 3) :
    yearStart (c * 400 + (a * 100 + b * 4 + r : Nat) + 1) =
      146097 * c + (36524 * a + 1461 * b + 365 * r : Nat) +
        if r = 3 ∧ (b < 24 ∨ a = 3) then 366 else 365 := by
  have next (c' : Int) (a' b' r' : Nat) (ha : a' ≤ 3) (hb : b' ≤ 24) (hr : r' ≤ 3)
      (heq : c * 400 + (a * 100 + b * 4 + r : Nat) + 1 =
        c' * 400 + (a' * 100 + b' * 4 + r' : Nat)) :
      yearStart (c * 400 + (a * 100 + b * 4 + r : Nat) + 1) =
        146097 * c' + (36524 * a' + 1461 * b' + 365 * r' : Nat) := by
    rw [heq, yearStart_cycle ha hb hr]
  rcases Nat.lt_or_eq_of_le hr with hr | rfl
  · rw [next c a b (r + 1) ha hb hr (by omega), if_neg (by omega)]
    omega
  rcases Nat.lt_or_eq_of_le hb with hb | rfl
  · rw [next c a (b + 1) 0 ha hb (by omega) (by omega),
      if_pos (by omega)]
    omega
  rcases Nat.lt_or_eq_of_le ha with ha | rfl
  · rw [next c (a + 1) 0 0 ha (by omega) (by omega) (by omega),
      if_neg (by omega)]
    omega
  · rw [next (c + 1) 0 0 0 (by omega) (by omega) (by omega) (by omega), if_pos (by omega)]
    omega

end Cycles

/-- Every day is one of a year that begins in March. -/
theorem exists_ofMarch (n : Int) : ∃ y k, ofDayNumber n = ofMarch y k ∧
    yearStart y + k = n + epochOffset ∧ yearStart y + k < yearStart (y + 1) := by
  obtain ⟨c, days, hdays, hlt⟩ : ∃ (c : Int) (days : Nat), n + epochOffset = 146097 * c + days ∧
      days < 146097 := ⟨(n + epochOffset) / 146097, ((n + epochOffset) % 146097).toNat, by omega,
    by omega⟩
  obtain ⟨a, ha⟩ : ∃ a, min (days / 36524) 3 = a := ⟨_, rfl⟩
  obtain ⟨b, hb⟩ : ∃ b, (days - a * 36524) / 1461 = b := ⟨_, rfl⟩
  obtain ⟨r, hr⟩ : ∃ r, min ((days - a * 36524 - b * 1461) / 365) 3 = r := ⟨_, rfl⟩
  obtain ⟨k, hk⟩ : ∃ k, days - a * 36524 - b * 1461 - r * 365 = k := ⟨_, rfl⟩
  refine ⟨c * 400 + (a * 100 + b * 4 + r : Nat), k, ?_, ?_, ?_⟩
  · have hcycle : (n + epochOffset) / 146097 = c := by omega
    have hrest : ((n + epochOffset) % 146097).toNat = days := by omega
    simp only [ofDayNumber, ofMarch, hcycle, hrest, ha, hb, hr, hk]
  · rw [yearStart_cycle (by omega) (by omega) (by omega), hdays]
    omega
  · rw [yearStart_cycle (by omega) (by omega) (by omega),
      yearStart_cycle_succ (by omega) (by omega) (by omega)]
    split_ifs
    · omega
    · omega

theorem isValid_ofDayNumber (n : Int) : (ofDayNumber n).IsValid := by
  obtain ⟨y, k, heq, -, hlt⟩ := exists_ofMarch n
  rw [heq]
  exact (ofMarch_spec hlt).1

@[simp] theorem dayNumber_ofDayNumber (n : Int) : (ofDayNumber n).dayNumber = n := by
  obtain ⟨y, k, heq, hday, hlt⟩ := exists_ofMarch n
  rw [heq, (ofMarch_spec hlt).2, hday, add_sub_cancel_right]

theorem ofDayNumber_dayNumber (h : d.IsValid) : ofDayNumber d.dayNumber = d :=
  dayNumber_injective (isValid_ofDayNumber _) h (dayNumber_ofDayNumber _)

example : ofDayNumber (-1) = ⟨1969, 12, 31⟩ := by decide
example : ofDayNumber (dayNumber ⟨2000, 2, 29⟩) = ⟨2000, 2, 29⟩ := by decide

theorem next_ofDayNumber (n : Int) : (ofDayNumber n).next = ofDayNumber (n + 1) := by
  apply dayNumber_injective (isValid_next (isValid_ofDayNumber n)) (isValid_ofDayNumber _)
  rw [dayNumber_next (isValid_ofDayNumber n), dayNumber_ofDayNumber, dayNumber_ofDayNumber]

theorem onDay_ofDayNumber (n : Int) : OnDay n (ofDayNumber n) := by
  induction n with
  | zero => exact .epoch
  | succ n ih =>
    rw [← next_ofDayNumber]
    exact ih.after
  | pred n ih =>
    refine .before (isValid_ofDayNumber _) ?_
    rw [next_ofDayNumber, sub_add_cancel]
    exact ih

/-- The number of a date in the calendar is the number of days counted to it. -/
theorem onDay_iff : OnDay n d ↔ d.IsValid ∧ d.dayNumber = n := by
  constructor
  · intro h
    induction h with
    | epoch => decide
    | after h ih => exact ⟨isValid_next ih.1, by rw [dayNumber_next ih.1, ih.2]⟩
    | before hd h ih =>
      refine ⟨hd, ?_⟩
      have hnext := dayNumber_next hd
      omega
  · rintro ⟨hd, rfl⟩
    rw [← ofDayNumber_dayNumber hd, dayNumber_ofDayNumber]
    exact onDay_ofDayNumber _

/-- The calendar counts so many days to one date only. -/
theorem onDay_iff_eq : OnDay n d ↔ d = ofDayNumber n := by
  rw [onDay_iff]
  constructor
  · rintro ⟨hd, rfl⟩
    exact (ofDayNumber_dayNumber hd).symm
  · rintro rfl
    exact ⟨isValid_ofDayNumber n, dayNumber_ofDayNumber n⟩

end Dates

end Date

end DocumentPipeline
