import SlipScan.Model.Recurring
import Mathlib.Tactic.Ring

namespace SlipScan.Schedules.Dates

open Model.Domain Model.Database Model.Money Model.Recurring Foundation.Transaction
  Foundation.Calendar

variable {h : Host} {frequency : RecurringFrequency} {n i : ℤ} {start d d' : Date}

def unit : RecurringFrequency → ℤ
  | .daily | .monthly => 1
  | .weekly => 7
  | .yearly => 12

/-- The number of a day, or of its month, whichever a schedule counts by. -/
def position (frequency : RecurringFrequency) (d : Date) : ℤ :=
  match frequency with
  | .daily | .weekly => d.number
  | .monthly | .yearly => d.monthNumber

theorem asI64_eq (v : ℤ) : ∃ k, asI64 v = v + 2 ^ 64 * k := by
  refine ⟨-(v.bdiv (2 ^ 64)), ?_⟩
  have hv : (2 ^ 64 : ℤ) * v.bdiv (2 ^ 64) + v.bmod (2 ^ 64) = v := Int.bdiv_add_bmod v (2 ^ 64)
  rw [asI64]
  omega

theorem step_eq (frequency : RecurringFrequency) (n i : ℤ) :
    ∃ k, step frequency n i = unit frequency * (n * i) + 2 ^ 64 * k := by
  obtain ⟨k, hk⟩ := asI64_eq (n * i)
  cases frequency with
  | daily => exact ⟨k, by simp only [step, unit, hk]; ring⟩
  | monthly => exact ⟨k, by simp only [step, unit, hk]; ring⟩
  | weekly =>
    obtain ⟨l, hl⟩ := asI64_eq (asI64 (n * i) * 7)
    refine ⟨7 * k + l, ?_⟩
    simp only [step, unit]
    rw [hl, hk]
    ring
  | yearly =>
    obtain ⟨l, hl⟩ := asI64_eq (asI64 (n * i) * 12)
    refine ⟨12 * k + l, ?_⟩
    simp only [step, unit]
    rw [hl, hk]
    ring

theorem position_mem (frequency : RecurringFrequency) (d : Date) :
    -4000000 < position frequency d ∧ position frequency d < 4000000 := by
  cases frequency with
  | daily | weekly => exact d.number_mem
  | monthly | yearly => exact d.monthNumber_mem

theorem number_lt_of_position_lt (hlt : position frequency d < position frequency d') :
    d.number < d'.number := by
  cases frequency with
  | daily | weekly => exact hlt
  | monthly | yearly => exact Date.number_lt_of_monthNumber_lt hlt

theorem number_addDays {days : ℤ} (hd : addDays start days = .ok d) :
    d.number = start.number + days := by
  rw [addDays] at hd
  split at hd
  · cases hd
  · split at hd
    · next date hdate =>
      cases hd
      exact Date.number_addDays? hdate
    · cases hd

theorem monthNumber_addMonths {months : ℤ} (hd : addMonths start months = .ok d) :
    d.monthNumber = start.monthNumber + months := by
  simp only [addMonths] at hd
  split at hd
  · cases hd
  · split at hd
    · cases hd
    · split at hd
      · next date hdate =>
        cases hd
        exact Date.monthNumber_addMonths? hdate
      · cases hd

theorem position_occurrence (hd : occurrence start frequency n i = .ok d) :
    position frequency d = position frequency start + step frequency n i := by
  cases frequency with
  | daily | weekly => exact number_addDays hd
  | monthly | yearly => exact monthNumber_addMonths hd

theorem position_succ (hn : 0 < n) (hsmall : 12 * n < 2 ^ 63)
    (hd : occurrence start frequency n i = .ok d)
    (hd' : occurrence start frequency n (i + 1) = .ok d') :
    position frequency d' = position frequency d + unit frequency * n := by
  have hpos := position_occurrence hd
  have hpos' := position_occurrence hd'
  have hmem := position_mem frequency d
  have hmem' := position_mem frequency d'
  obtain ⟨k, hk⟩ := step_eq frequency n i
  obtain ⟨k', hk'⟩ := step_eq frequency n (i + 1)
  have hexpand : unit frequency * (n * (i + 1)) = unit frequency * (n * i) + unit frequency * n := by
    ring
  have hunit : 0 < unit frequency * n ∧ unit frequency * n < 2 ^ 63 := by
    cases frequency <;> simp only [unit] <;> omega
  omega

theorem number_lt_succ (hn : 0 < n) (hsmall : 12 * n < 2 ^ 63)
    (hd : occurrence start frequency n i = .ok d)
    (hd' : occurrence start frequency n (i + 1) = .ok d') : d.number < d'.number := by
  have hunit : 0 < unit frequency * n := by
    cases frequency <;> simp only [unit] <;> omega
  have hlt : position frequency d < position frequency d' := by
    rw [position_succ hn hsmall hd hd']
    omega
  exact number_lt_of_position_lt hlt

theorem occurrenceDate_eq_ok {startDate text : String} :
    occurrenceDate h startDate frequency n i = .ok text ↔ ∃ start d,
      h.parseDate startDate = some start ∧ occurrence start frequency n i = .ok d ∧
        h.formatDate d = text := by
  have hparse : ∀ start, parseDate h startDate = .ok start ↔ h.parseDate startDate = some start := by
    intro start
    rw [parseDate]
    split <;> simp_all
  simp only [occurrenceDate, except_bind_eq_ok, except_pure_eq_ok, hparse]
  constructor
  · rintro ⟨start, hstart, d, hd, rfl⟩
    exact ⟨start, d, hstart, hd, rfl⟩
  · rintro ⟨start, d, hstart, hd, rfl⟩
    exact ⟨start, hstart, d, hd, rfl⟩

/-- From the year 0 on the texts of dates are in the order of the calendar. -/
def FormatsInOrder (h : Host) : Prop :=
  ∀ d e : Date, 0 ≤ d.year → d.number < e.number → h.formatDate d < h.formatDate e

/-- The occurrence has a date, in the year 0 or later. -/
def Dated (h : Host) (startDate : String) (frequency : RecurringFrequency) (n i : ℤ)
    (text : String) : Prop :=
  ∃ start d, h.parseDate startDate = some start ∧ occurrence start frequency n i = .ok d ∧
    h.formatDate d = text ∧ 0 ≤ d.year

variable {startDate text text' : String}

theorem Dated.succ (hformat : FormatsInOrder h) (hn : 0 < n) (hsmall : 12 * n < 2 ^ 63)
    (hi : Dated h startDate frequency n i text)
    (hi' : occurrenceDate h startDate frequency n (i + 1) = .ok text') :
    Dated h startDate frequency n (i + 1) text' ∧ text < text' := by
  obtain ⟨start, d, hstart, hd, rfl, hyear⟩ := hi
  obtain ⟨start', d', hstart', hd', rfl⟩ := occurrenceDate_eq_ok.1 hi'
  rw [hstart, Option.some.injEq] at hstart'
  subst hstart'
  have hlt := number_lt_succ hn hsmall hd hd'
  have hyear' := hyear.trans (Date.year_le_of_number_le hlt.le)
  exact ⟨⟨start, d', hstart, hd', rfl, hyear'⟩, hformat d d' hyear hlt⟩

/-- The occurrences of a schedule that starts in the year 0 or later. -/
theorem dated_of_start (hn : 0 < n) (hsmall : 12 * n < 2 ^ 63)
    (hstart : ∀ start, h.parseDate startDate = some start → 0 ≤ start.year) {k : ℕ}
    (hdates : ∀ j ≤ k, ∃ text, occurrenceDate h startDate frequency n j = .ok text) :
    ∀ text, occurrenceDate h startDate frequency n k = .ok text →
      Dated h startDate frequency n k text := by
  induction k with
  | zero =>
    intro text htext
    obtain ⟨start, d, hparse, hd, rfl⟩ := occurrenceDate_eq_ok.1 htext
    have hpos := position_occurrence hd
    have hzero : step frequency n (0 : ℕ) = 0 := by
      cases frequency <;> simp [step, asI64]
    rw [hzero, add_zero] at hpos
    refine ⟨start, d, hparse, hd, rfl, (hstart start hparse).trans ?_⟩
    cases frequency with
    | daily | weekly => exact Date.year_le_of_number_le hpos.ge
    | monthly | yearly =>
      have hmonth := d.month_mem
      have hmonth' := start.month_mem
      simp only [position, Date.monthNumber] at hpos
      omega
  | succ k ih =>
    intro text htext
    obtain ⟨text₀, htext₀⟩ := hdates k k.le_succ
    have hk := ih (fun j hj ↦ hdates j (hj.trans k.le_succ)) text₀ htext₀
    obtain ⟨start, d, hparse, hd, rfl, hyear⟩ := hk
    obtain ⟨start', d', hparse', hd', rfl⟩ := occurrenceDate_eq_ok.1 htext
    rw [hparse, Option.some.injEq] at hparse'
    subst hparse'
    rw [Nat.cast_succ] at hd'
    have hlt := number_lt_succ hn hsmall hd hd'
    rw [← Nat.cast_succ] at hd'
    exact ⟨start, d', hparse, hd', rfl, hyear.trans (Date.year_le_of_number_le hlt.le)⟩

end SlipScan.Schedules.Dates
