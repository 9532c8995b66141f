import Mathlib.Algebra.Order.Group.Unbundled.Int
import Mathlib.Data.Int.Notation
import Mathlib.Data.Nat.Notation
import Mathlib.Order.Basic
import Mathlib.Algebra.BigOperators.Group.List.Basic
import Mathlib.Algebra.GroupWithZero.Nat

namespace SlipScan.Foundation.Calendar

def isLeapYear (year : ℤ) : Bool :=
  year % 4 = 0 && (year % 100 ≠ 0 || year % 400 = 0)

def daysInMonth (year : ℤ) (month : ℕ) : ℕ :=
  if month = 2 then if isLeapYear year then 29 else 28
  else if month = 4 ∨ month = 6 ∨ month = 9 ∨ month = 11 then 30
  else 31

/-- A day of the proleptic Gregorian calendar in the years from -9999 to 9999. -/
structure Date where
  year : ℤ
  month : ℕ
  day : ℕ
  year_mem : -9999 ≤ year ∧ year ≤ 9999
  month_mem : 1 ≤ month ∧ month ≤ 12
  day_mem : 1 ≤ day ∧ day ≤ daysInMonth year month
  deriving DecidableEq

def Date.ofParts? (year : ℤ) (month day : ℕ) : Option Date :=
  if h : (-9999 ≤ year ∧ year ≤ 9999) ∧ (1 ≤ month ∧ month ≤ 12) ∧
      (1 ≤ day ∧ day ≤ daysInMonth year month) then
    some ⟨year, month, day, h.1, h.2.1, h.2.2⟩
  else none

def daysBeforeYear (year : ℤ) : ℤ :=
  365 * (year - 1) + (year - 1) / 4 - (year - 1) / 100 + (year - 1) / 400

def daysBeforeMonth (year : ℤ) (month : ℕ) : ℕ :=
  ((List.range' 1 (month - 1)).map (daysInMonth year)).sum

/-- The days up to a date, the first of January of the year 1 being day 1. -/
def Date.number (d : Date) : ℤ :=
  daysBeforeYear d.year + daysBeforeMonth d.year d.month + d.day

def Date.monthNumber (d : Date) : ℤ :=
  12 * d.year + (d.month - 1 : ℕ)

/-- The year of a day number: 400 years have 146097 days, which is off by two years at most. -/
def yearOf (n : ℤ) : ℤ :=
  let year := 400 * n / 146097
  if n ≤ daysBeforeYear (year + 1) then year
  else if n ≤ daysBeforeYear (year + 2) then year + 1
  else year + 2

def monthOf (year : ℤ) (n : ℕ) : ℕ :=
  ((List.range' 1 11).find? fun month ↦ n ≤ daysBeforeMonth year (month + 1)).getD 12

def Date.ofNumber? (n : ℤ) : Option Date :=
  let year := yearOf n
  let day := (n - daysBeforeYear year).toNat
  let month := monthOf year day
  ofParts? year month (day - daysBeforeMonth year month)

def Date.addDays? (d : Date) (days : ℤ) : Option Date :=
  ofNumber? (d.number + days)

/-- The same day so many months later, or the last day of that month when it is shorter. -/
def Date.addMonths? (d : Date) (months : ℤ) : Option Date :=
  let target := d.monthNumber + months
  let year := target / 12
  let month := (target % 12).toNat + 1
  ofParts? year month (min d.day (daysInMonth year month))

section Numbers

variable {year year' : ℤ} {month day : ℕ} {d e : Date} {n : ℤ}

theorem Date.ofParts?_eq_some (h : ofParts? year month day = some d) :
    d.year = year ∧ d.month = month ∧ d.day = day := by
  simp only [ofParts?, Option.dite_none_right_eq_some, Option.some.injEq] at h
  obtain ⟨_, rfl⟩ := h
  exact ⟨rfl, rfl, rfl⟩

theorem Date.ofParts?_self (d : Date) : ofParts? d.year d.month d.day = some d :=
  dif_pos ⟨d.year_mem, d.month_mem, d.day_mem⟩

theorem daysBeforeMonth_succ (h : 1 ≤ month) :
    daysBeforeMonth year (month + 1) = daysBeforeMonth year month + daysInMonth year month := by
  obtain ⟨k, rfl⟩ := Nat.exists_eq_add_of_le' h
  simp [daysBeforeMonth, List.range'_concat, Nat.add_comm]

theorem daysBeforeMonth_mono (year : ℤ) {month' : ℕ} (h : month ≤ month') :
    daysBeforeMonth year month ≤ daysBeforeMonth year month' := by
  obtain ⟨k, hk⟩ := Nat.exists_eq_add_of_le (Nat.sub_le_sub_right h 1)
  rw [daysBeforeMonth, daysBeforeMonth, hk, ← List.range'_append_1, List.map_append,
    List.sum_append]
  exact Nat.le_add_right _ _

theorem daysBeforeYear_succ :
    daysBeforeYear (year + 1) = daysBeforeYear year + daysBeforeMonth year 13 := by
  have hdays : daysBeforeMonth year 13 = if isLeapYear year then 366 else 365 := by
    cases hleap : isLeapYear year <;>
      simp [daysBeforeMonth, daysInMonth, hleap, List.range']
  have hleap : isLeapYear year ↔ year % 4 = 0 ∧ (year % 100 ≠ 0 ∨ year % 400 = 0) := by
    simp [isLeapYear]
  simp only [hdays, hleap, daysBeforeYear]
  split_ifs with h
  · omega
  · omega

theorem daysBeforeYear_mono (h : year ≤ year') : daysBeforeYear year ≤ daysBeforeYear year' := by
  simp only [daysBeforeYear]
  omega

theorem Date.daysBeforeMonth_lt (d : Date) :
    daysBeforeMonth d.year d.month + d.day ≤ daysBeforeMonth d.year (d.month + 1) := by
  rw [daysBeforeMonth_succ d.month_mem.1]
  exact Nat.add_le_add_left d.day_mem.2 _

theorem Date.number_le (d : Date) : d.number ≤ daysBeforeYear (d.year + 1) := by
  have hmonth := d.daysBeforeMonth_lt
  have hyear := daysBeforeMonth_mono d.year (show d.month + 1 ≤ 13 by
    have := d.month_mem.2
    omega)
  rw [daysBeforeYear_succ, number]
  omega

theorem Date.number_lt_of_monthNumber_lt (h : d.monthNumber < e.monthNumber) :
    d.number < e.number := by
  have hd := d.month_mem
  have he := e.month_mem
  have hday := e.day_mem.1
  rw [monthNumber, monthNumber] at h
  rcases lt_or_eq_of_le (show d.year ≤ e.year by omega) with hyear | hyear
  · have hle := d.number_le
    have hmono := daysBeforeYear_mono (show d.year + 1 ≤ e.year by omega)
    rw [number] at hle ⊢
    rw [number]
    omega
  · have hle := d.daysBeforeMonth_lt
    have hmono := daysBeforeMonth_mono d.year (show d.month + 1 ≤ e.month by omega)
    rw [number, number, ← hyear]
    omega

/-- The year of a day number is the one the day falls in. -/
theorem yearOf_spec (n : ℤ) : daysBeforeYear (yearOf n) < n ∧ n ≤ daysBeforeYear (yearOf n + 1) := by
  have hlow : daysBeforeYear (400 * n / 146097) < n := by
    simp only [daysBeforeYear]
    omega
  have hhigh : n ≤ daysBeforeYear (400 * n / 146097 + 2 + 1) := by
    simp only [daysBeforeYear]
    omega
  rw [yearOf]
  split_ifs with h₁ h₂
  · exact ⟨hlow, h₁⟩
  · exact ⟨not_le.1 h₁, by rwa [add_assoc]⟩
  · exact ⟨not_le.1 h₂, hhigh⟩

theorem yearOf_eq (h : daysBeforeYear year < n) (h' : n ≤ daysBeforeYear (year + 1)) :
    yearOf n = year := by
  obtain ⟨hlow, hhigh⟩ := yearOf_spec n
  rcases lt_trichotomy (yearOf n) year with hlt | heq | hgt
  · have hmono := daysBeforeYear_mono (show yearOf n + 1 ≤ year by omega)
    omega
  · exact heq
  · have hmono := daysBeforeYear_mono (show year + 1 ≤ yearOf n by omega)
    omega

theorem Date.yearOf_number (d : Date) : yearOf d.number = d.year := by
  refine yearOf_eq ?_ d.number_le
  have hday := d.day_mem.1
  rw [number]
  omega

theorem monthOf_eq (hm : 1 ≤ month ∧ month ≤ 12) {k : ℕ} (h : daysBeforeMonth year month < k)
    (h' : k ≤ daysBeforeMonth year (month + 1)) : monthOf year k = month := by
  have hbefore : ∀ m < month, ¬k ≤ daysBeforeMonth year (m + 1) := fun m hlt ↦ by
    have hmono := daysBeforeMonth_mono year (show m + 1 ≤ month by omega)
    omega
  rw [monthOf]
  rcases lt_or_eq_of_le hm.2 with hlt | rfl
  · have hfind : (List.range' 1 11).find? (fun m ↦ k ≤ daysBeforeMonth year (m + 1)) =
        some month := by
      rw [List.find?_range'_eq_some]
      refine ⟨by simpa using h', by simp; omega, fun m _ hm' ↦ by simpa using hbefore m hm'⟩
    rw [hfind, Option.getD_some]
  · have hnone : (List.range' 1 11).find? (fun m ↦ k ≤ daysBeforeMonth year (m + 1)) = none := by
      rw [List.find?_eq_none]
      intro m hm'
      simpa using hbefore m (by simp at hm'; omega)
    rw [hnone, Option.getD_none]

theorem Date.ofNumber?_number (d : Date) : ofNumber? d.number = some d := by
  have hyear := d.yearOf_number
  have hday : (d.number - daysBeforeYear d.year).toNat =
      daysBeforeMonth d.year d.month + d.day := by
    rw [number]
    omega
  have hmonth : monthOf d.year (daysBeforeMonth d.year d.month + d.day) = d.month :=
    monthOf_eq d.month_mem (by have := d.day_mem.1; omega) d.daysBeforeMonth_lt
  simp only [ofNumber?, hyear, hday, hmonth, Nat.add_sub_cancel_left, ofParts?_self]

theorem Date.number_of_ofNumber? (h : ofNumber? n = some d) : d.number = n := by
  obtain ⟨hlow, hhigh⟩ := yearOf_spec n
  obtain ⟨hy, hm, hd⟩ := ofParts?_eq_some h
  have hday := d.day_mem.1
  rw [number, hy, hm, hd]
  omega

theorem Date.year_le_of_number_le (h : d.number ≤ e.number) : d.year ≤ e.year := by
  by_contra hlt
  have hmono := daysBeforeYear_mono (show e.year + 1 ≤ d.year by omega)
  have hle := e.number_le
  have hday := d.day_mem.1
  rw [number] at h
  omega

/-- The days of the calendar have numbers of at most seven digits. -/
theorem Date.number_mem (d : Date) : -4000000 < d.number ∧ d.number < 4000000 := by
  have hyear := d.year_mem
  have hle := d.number_le
  have hday := d.day_mem.1
  rw [number] at hle ⊢
  simp only [daysBeforeYear] at hle ⊢
  omega

theorem Date.monthNumber_mem (d : Date) : -4000000 < d.monthNumber ∧ d.monthNumber < 4000000 := by
  have hyear := d.year_mem
  have hmonth := d.month_mem
  rw [monthNumber]
  omega

theorem Date.number_addDays? {days : ℤ} (h : d.addDays? days = some e) :
    e.number = d.number + days :=
  number_of_ofNumber? h

theorem Date.monthNumber_addMonths? {months : ℤ} (h : d.addMonths? months = some e) :
    e.monthNumber = d.monthNumber + months := by
  obtain ⟨hy, hm, -⟩ := ofParts?_eq_some h
  rw [monthNumber, hy, hm]
  omega

theorem Date.addDays?_eq_some {days : ℤ} : d.addDays? days = some e ↔ e.number = d.number + days := by
  constructor
  · exact number_addDays?
  · intro h
    rw [addDays?, ← h, ofNumber?_number]

theorem Date.addMonths?_eq_some {months : ℤ} : d.addMonths? months = some e ↔
    e.monthNumber = d.monthNumber + months ∧ e.day = min d.day (daysInMonth e.year e.month) := by
  constructor
  · intro h
    obtain ⟨hy, hm, hd⟩ := ofParts?_eq_some h
    refine ⟨monthNumber_addMonths? h, ?_⟩
    rw [hd, hy, hm]
  · rintro ⟨hmonth, hday⟩
    have hmem := e.month_mem
    have hyear : (d.monthNumber + months) / 12 = e.year := by
      rw [← hmonth, monthNumber]
      omega
    have hrest : ((d.monthNumber + months) % 12).toNat + 1 = e.month := by
      rw [← hmonth, monthNumber]
      omega
    simp only [addMonths?, hyear, hrest, ← hday]
    exact e.ofParts?_self

end Numbers

end SlipScan.Foundation.Calendar
