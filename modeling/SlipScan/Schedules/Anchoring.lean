import SlipScan.Arithmetic.Vat
import SlipScan.Model.PlainHost
import SlipScan.Schedules.Dates

namespace SlipScan.Schedules.Anchoring

open Model.Domain Model.Database Model.Money Model.Recurring Model.PlainHost Foundation.Transaction
  Foundation.Calendar Ledger.Amounts Arithmetic.Vat Dates

variable {h : Host} {frequency : RecurringFrequency} {n i j : ℤ} {start d d' : Date}
  {startDate : String}

section Anchors

/-- The anchored date: so many days or weeks after the start, or its day in the month so many
months or years later, cut down to the end of that month. -/
def Anchored (start : Date) (frequency : RecurringFrequency) (n i : ℤ) (d : Date) : Prop :=
  match frequency with
  | .daily => d.number = start.number + n * i
  | .weekly => d.number = start.number + 7 * (n * i)
  | .monthly => d.monthNumber = start.monthNumber + n * i ∧
      d.day = min start.day (daysInMonth d.year d.month)
  | .yearly => d.monthNumber = start.monthNumber + 12 * (n * i) ∧
      d.day = min start.day (daysInMonth d.year d.month)

theorem Anchored.position (hd : Anchored start frequency n i d) :
    position frequency d = position frequency start + unit frequency * (n * i) := by
  cases frequency with
  | daily => rw [unit, one_mul]; exact hd
  | weekly => exact hd
  | monthly => rw [unit, one_mul]; exact hd.1
  | yearly => exact hd.1

theorem Anchored.number_lt (hn : 0 < n) (hij : i < j) (hd : Anchored start frequency n i d)
    (hd' : Anchored start frequency n j d') : d.number < d'.number := by
  have hpos := hd.position
  have hpos' := hd'.position
  have hmul : n * i < n * j := mul_lt_mul_of_pos_left hij hn
  have hunit : unit frequency * (n * i) < unit frequency * (n * j) := by
    apply mul_lt_mul_of_pos_left hmul
    cases frequency with
    | daily | weekly | monthly | yearly => decide
  have hlt : Dates.position frequency d < Dates.position frequency d' := by omega
  exact number_lt_of_position_lt hlt

/-- An out-of-range error where there is no anchored date, and else that date. -/
def Answers (h : Host) (start : Date) (frequency : RecurringFrequency) (n i : ℤ)
    (r : Except Fault String) : Prop :=
  (∃ d, Anchored start frequency n i d ∧ r = .ok (h.formatDate d)) ∨
    (∃ m, r = .error (.validation m)) ∧ ∀ d, ¬Anchored start frequency n i d

end Anchors

section Arithmetic

/-- The interval fits the 64 bits of its calculation: days are kept as seconds. -/
def Fits (frequency : RecurringFrequency) (n i : ℤ) : Prop :=
  match frequency with
  | .daily => n * i * 86400 < 2 ^ 63
  | .weekly => n * i * 7 * 86400 < 2 ^ 63
  | .monthly => n * i < 2 ^ 63
  | .yearly => n * i * 12 < 2 ^ 63

instance : Decidable (Fits frequency n i) :=
  match frequency with
  | .daily | .weekly | .monthly | .yearly => inferInstanceAs (Decidable (_ < _))

theorem Fits.mono (hn : 0 < n) (hij : i < j) (hfits : Fits frequency n j) : Fits frequency n i := by
  have hmul : n * i < n * j := mul_lt_mul_of_pos_left hij hn
  cases frequency with
  | daily | weekly | monthly | yearly =>
    simp only [Fits] at hfits ⊢
    omega

theorem addDays_cases (start : Date) {days : ℤ} (hfit : -2 ^ 63 ≤ days * 86400 ∧ days * 86400 < 2 ^ 63) :
    (∃ d, d.number = start.number + days ∧ addDays start days = .ok d) ∨
      (∃ m, addDays start days = .error (.validation m)) ∧ ∀ d : Date, d.number ≠ start.number + days := by
  rw [addDays, if_neg (not_not.2 hfit)]
  cases hdate : start.addDays? days with
  | some d => exact .inl ⟨d, Date.number_addDays? hdate, rfl⟩
  | none =>
    refine .inr ⟨⟨_, rfl⟩, fun d hd ↦ ?_⟩
    rw [Date.addDays?_eq_some.2 hd] at hdate
    cases hdate

theorem addMonths_cases (start : Date) (months : ℤ) :
    (∃ d, d.monthNumber = start.monthNumber + months ∧
        d.day = min start.day (daysInMonth d.year d.month) ∧ addMonths start months = .ok d) ∨
      (∃ m, addMonths start months = .error (.validation m)) ∧
        ∀ d : Date, ¬(d.monthNumber = start.monthNumber + months ∧
          d.day = min start.day (daysInMonth d.year d.month)) := by
  simp only [addMonths]
  split
  · next hout =>
    refine .inr ⟨⟨_, rfl⟩, fun d hd ↦ hout ?_⟩
    have hmem := d.monthNumber_mem
    omega
  · split
    · next hout =>
      refine .inr ⟨⟨_, rfl⟩, fun d hd ↦ hout ?_⟩
      have hmem := d.monthNumber_mem
      omega
    · cases hdate : start.addMonths? months with
      | some d =>
        obtain ⟨hmonth, hday⟩ := Date.addMonths?_eq_some.1 hdate
        exact .inl ⟨d, hmonth, hday, rfl⟩
      | none =>
        refine .inr ⟨⟨_, rfl⟩, fun d hd ↦ ?_⟩
        rw [Date.addMonths?_eq_some.2 hd] at hdate
        cases hdate

def dateAt (start : Date) (frequency : RecurringFrequency) (steps : ℤ) : Except Fault Date :=
  match frequency with
  | .daily | .weekly => addDays start steps
  | .monthly | .yearly => addMonths start steps

variable (hn : 0 < n) (hi : 0 ≤ i)
include hn hi

theorem dateAt_answers (hfits : Fits frequency n i) :
    Answers h start frequency n i
      (dateAt start frequency (unit frequency * (n * i)) >>= fun d ↦ pure (h.formatDate d)) := by
  have hmul : 0 ≤ n * i := mul_nonneg hn.le hi
  have hdays : ∀ {steps : ℤ}, -2 ^ 63 ≤ steps * 86400 ∧ steps * 86400 < 2 ^ 63 →
      (∀ d : Date, d.number = start.number + steps ↔ Anchored start frequency n i d) →
      Answers h start frequency n i (addDays start steps >>= fun d ↦ pure (h.formatDate d)) := by
    intro steps hfit hiff
    rcases addDays_cases start hfit with ⟨d, hd, hok⟩ | ⟨⟨m, herror⟩, hnone⟩
    · rw [hok]
      exact .inl ⟨d, (hiff d).1 hd, rfl⟩
    · rw [herror]
      exact .inr ⟨⟨m, rfl⟩, fun d hd ↦ hnone d ((hiff d).2 hd)⟩
  have hmonths : ∀ {steps : ℤ},
      (∀ d : Date, (d.monthNumber = start.monthNumber + steps ∧
        d.day = min start.day (daysInMonth d.year d.month)) ↔ Anchored start frequency n i d) →
      Answers h start frequency n i (addMonths start steps >>= fun d ↦ pure (h.formatDate d)) := by
    intro steps hiff
    rcases addMonths_cases start steps with ⟨d, hmonth, hday, hok⟩ | ⟨⟨m, herror⟩, hnone⟩
    · rw [hok]
      exact .inl ⟨d, (hiff d).1 ⟨hmonth, hday⟩, rfl⟩
    · rw [herror]
      exact .inr ⟨⟨m, rfl⟩, fun d hd ↦ hnone d ((hiff d).2 hd)⟩
  cases frequency with
  | daily =>
    simp only [Fits] at hfits
    rw [unit, one_mul]
    exact hdays (by omega) fun _ ↦ Iff.rfl
  | weekly =>
    simp only [Fits] at hfits
    exact hdays (by simp only [unit]; omega) fun _ ↦ Iff.rfl
  | monthly =>
    rw [unit, one_mul]
    exact hmonths fun _ ↦ Iff.rfl
  | yearly => exact hmonths fun _ ↦ Iff.rfl

theorem step_of_fits (hfits : Fits frequency n i) :
    step frequency n i = unit frequency * (n * i) ∧
      checkedStep frequency n i = .ok (unit frequency * (n * i)) := by
  have hmul : 0 ≤ n * i := mul_nonneg hn.le hi
  have hword : n * i < 2 ^ 63 := by
    cases frequency with
    | daily | weekly | monthly | yearly =>
      simp only [Fits] at hfits
      omega
  have hchecked : checkedMul n i = .ok (n * i) := if_pos ⟨by omega, hword⟩
  have hwrap : asI64 (n * i) = n * i := asI64_of_mem (by omega) hword
  have htimes : ∀ k : ℤ, 0 ≤ n * i * k → n * i * k < 2 ^ 63 →
      asI64 (n * i * k) = k * (n * i) ∧ checkedMul (n * i) k = .ok (k * (n * i)) := by
    intro k hlow hhigh
    rw [mul_comm k]
    exact ⟨asI64_of_mem (by omega) hhigh, if_pos ⟨by omega, hhigh⟩⟩
  cases frequency with
  | daily | monthly =>
    rw [unit, one_mul, step, checkedStep, hchecked, hwrap]
    exact ⟨rfl, rfl⟩
  | weekly =>
    simp only [Fits] at hfits
    rw [step, checkedStep, hchecked, hwrap]
    exact htimes 7 (by omega) (by omega)
  | yearly =>
    simp only [Fits] at hfits
    rw [step, checkedStep, hchecked, hwrap]
    exact htimes 12 (by omega) (by omega)

/-- Where the interval does not fit, the steps or the date panic in a build that checks its
arithmetic. -/
theorem panics_of_not_fits (start : Date) (hfits : ¬Fits frequency n i) :
    (∃ m, checkedStep frequency n i = .error (.panic m)) ∨
      ∃ steps m, checkedStep frequency n i = .ok steps ∧
        dateAt start frequency steps = .error (.panic m) := by
  have hmul : 0 ≤ n * i := mul_nonneg hn.le hi
  have hover : ∀ {a b : ℤ}, 2 ^ 63 ≤ a * b →
      checkedMul a b = .error (.panic "attempt to multiply with overflow") :=
    fun hlarge ↦ if_neg fun hfit ↦ by omega
  have hseconds : ∀ {days : ℤ}, 2 ^ 63 ≤ days * 86400 →
      addDays start days = .error (.panic "overflow constructing time::Duration") :=
    fun hlarge ↦ if_pos fun hfit ↦ by omega
  rw [checkedStep]
  by_cases hword : n * i < 2 ^ 63
  · have hcount : checkedMul n i = .ok (n * i) := if_pos ⟨by omega, hword⟩
    rw [hcount]
    cases frequency with
    | daily =>
      simp only [Fits] at hfits
      exact .inr ⟨n * i, _, rfl, hseconds (by omega)⟩
    | weekly =>
      simp only [Fits] at hfits
      by_cases hweeks : n * i * 7 < 2 ^ 63
      · exact .inr ⟨n * i * 7, _, if_pos ⟨by omega, hweeks⟩, hseconds (by omega)⟩
      · exact .inl ⟨_, hover (by omega)⟩
    | monthly => exact absurd hword hfits
    | yearly =>
      simp only [Fits] at hfits
      exact .inl ⟨_, hover (by omega)⟩
  · rw [hover (by omega)]
    exact .inl ⟨_, rfl⟩

end Arithmetic

section Occurrences

theorem occurrenceDate_eq (hstart : h.parseDate startDate = some start) :
    occurrenceDate h startDate frequency n i =
      dateAt start frequency (step frequency n i) >>= fun d ↦ pure (h.formatDate d) := by
  have hparse : parseDate h startDate = .ok start := by rw [parseDate, hstart]
  rw [occurrenceDate, hparse]
  cases frequency with
  | daily | weekly | monthly | yearly => rfl

theorem checkedOccurrenceDate_eq (hstart : h.parseDate startDate = some start) :
    checkedOccurrenceDate h startDate frequency n i =
      checkedStep frequency n i >>= fun steps ↦
        dateAt start frequency steps >>= fun d ↦ pure (h.formatDate d) := by
  have hparse : parseDate h startDate = .ok start := by rw [parseDate, hstart]
  rw [checkedOccurrenceDate, hparse]
  cases frequency with
  | daily | weekly | monthly | yearly => rfl

/-- Both kinds of builds answer with the anchored date, or that it is out of range, exactly when
the interval fits. The dates of a schedule are in the order of their indices. -/
theorem anchored_iff_fits (hstart : h.parseDate startDate = some start) (hn : 0 < n) (hi : 0 ≤ i) :
    (Answers h start frequency n i (occurrenceDate h startDate frequency n i) ∧
        Answers h start frequency n i (checkedOccurrenceDate h startDate frequency n i) ↔
      Fits frequency n i) ∧
    ∀ j > i, Fits frequency n j →
      ∀ text text', occurrenceDate h startDate frequency n i = .ok text →
        occurrenceDate h startDate frequency n j = .ok text' →
        ∃ d d', h.formatDate d = text ∧ h.formatDate d' = text' ∧ d.number < d'.number := by
  have hanswers : ∀ {k : ℤ}, 0 ≤ k → Fits frequency n k →
      Answers h start frequency n k (occurrenceDate h startDate frequency n k) := by
    intro k hk hfits
    rw [occurrenceDate_eq hstart, (step_of_fits hn hk hfits).1]
    exact dateAt_answers hn hk hfits
  refine ⟨⟨?_, ?_⟩, ?_⟩
  · rintro ⟨-, hchecked⟩
    by_contra hfits
    have hpanic : ∃ m, checkedOccurrenceDate h startDate frequency n i = .error (.panic m) := by
      rw [checkedOccurrenceDate_eq hstart]
      rcases panics_of_not_fits hn hi start hfits with ⟨m, hstep⟩ | ⟨steps, m, hstep, hdate⟩
      · exact ⟨m, by rw [hstep]; rfl⟩
      · refine ⟨m, ?_⟩
        rw [hstep]
        change (dateAt start frequency steps >>= _) = _
        rw [hdate]
        rfl
    obtain ⟨m, hm⟩ := hpanic
    rw [hm] at hchecked
    rcases hchecked with ⟨d, -, hok⟩ | ⟨⟨m', herror⟩, -⟩
    · cases hok
    · cases herror
  · intro hfits
    refine ⟨hanswers hi hfits, ?_⟩
    rw [checkedOccurrenceDate_eq hstart, (step_of_fits hn hi hfits).2]
    exact dateAt_answers hn hi hfits
  · intro j hij hfits text text' htext htext'
    have hd := hanswers hi (hfits.mono hn hij)
    have hd' := hanswers (hi.trans hij.le) hfits
    rw [htext] at hd
    rw [htext'] at hd'
    rcases hd with ⟨d, hd, hok⟩ | ⟨⟨m, herror⟩, -⟩
    · rcases hd' with ⟨d', hd', hok'⟩ | ⟨⟨m, herror⟩, -⟩
      · exact ⟨d, d', (Except.ok.inj hok).symm, (Except.ok.inj hok').symm, hd.number_lt hn hij hd'⟩
      · cases herror
    · cases herror

theorem year_2025 : (-9999 : ℤ) ≤ 2025 ∧ (2025 : ℤ) ≤ 9999 := by decide

def lastOfJanuary : Date :=
  ⟨2025, 1, 31, year_2025, by decide, by decide⟩

/-- A schedule on the 31st reads the last of February and then the 31st again. -/
theorem anchored_month_end :
    Answers plainHost lastOfJanuary .monthly 1 1
        (occurrenceDate plainHost "2025-01-31" .monthly 1 1) ∧
      ∃ d d', plainHost.formatDate d = "2025-02-28" ∧ plainHost.formatDate d' = "2025-03-31" ∧
        d.number < d'.number := by
  have hstart : plainHost.parseDate "2025-01-31" = some lastOfJanuary := by decide +kernel
  obtain ⟨hiff, hmono⟩ := anchored_iff_fits hstart (by decide : (0 : ℤ) < 1) (by decide : (0 : ℤ) ≤ 1)
  refine ⟨(hiff.2 (by decide)).1, ?_⟩
  exact hmono 2 (by decide) (by decide) _ _ (by decide +kernel) (by decide +kernel)

/-- Every 2635249153387078803 weeks from the first of January 2025 is the sixth: the weeks wrap
around to five days. -/
theorem occurrence_drifts :
    ¬∀ (h : Host) (startDate : String) (start : Date) (frequency : RecurringFrequency) (n i : ℤ),
      h.parseDate startDate = some start → 0 < n → n < 2 ^ 63 → 0 ≤ i → i < 2 ^ 63 →
      Answers h start frequency n i (occurrenceDate h startDate frequency n i) := by
  intro hclaim
  have hanswers := hclaim plainHost "2025-01-01" ⟨2025, 1, 1, by decide, by decide, by decide⟩ .weekly
    2635249153387078803 1 (by decide +kernel) (by decide) (by decide) (by decide) (by decide)
  have hdate : occurrenceDate plainHost "2025-01-01" .weekly 2635249153387078803 1 =
      .ok "2025-01-06" := by decide +kernel
  rw [hdate] at hanswers
  rcases hanswers with ⟨d, hd, -⟩ | ⟨⟨m, herror⟩, -⟩
  · have hmem := d.number_mem
    have hstart := (⟨2025, 1, 1, by decide, by decide, by decide⟩ : Date).number_mem
    simp only [Anchored] at hd
    omega
  · cases herror

end Occurrences

end SlipScan.Schedules.Anchoring
