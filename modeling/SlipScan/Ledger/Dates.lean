import SlipScan.Model.CsvStatement
import SlipScan.Model.PlainHost
import Mathlib.Data.String.Basic
import Mathlib.Data.List.Lex

namespace SlipScan.Ledger.Dates

open Model.Database Model.CsvStatement Model.PlainHost Foundation.Calendar
open Model.Assets (zeroPad)

section Padding

variable {width n m : ℕ} {l l' r r' : List Char}

theorem toList_zeroPad (width n : ℕ) : (zeroPad width n).toList =
    List.replicate (width - (Nat.toDigits 10 n).length) '0' ++ Nat.toDigits 10 n := by
  rw [zeroPad, String.toList_ofList]

theorem length_zeroPad (hwidth : 0 < width) (hn : n < 10 ^ width) :
    (zeroPad width n).toList.length = width := by
  have hlength := (Nat.length_toDigits_le_iff (by decide) hwidth).2 hn
  rw [toList_zeroPad, List.length_append, List.length_replicate]
  omega

theorem isDigit_toDigits (n : ℕ) : ∀ c ∈ Nat.toDigits 10 n, c.isDigit :=
  fun _ hc ↦ Nat.isDigit_of_mem_toDigits (by decide) (by decide) hc

theorem isDigit_zeroPad (width n : ℕ) : ∀ c ∈ (zeroPad width n).toList, c.isDigit := by
  rw [toList_zeroPad, List.forall_mem_append]
  refine ⟨fun c hc ↦ ?_, isDigit_toDigits n⟩
  rw [List.eq_of_mem_replicate hc]
  rfl

theorem ofDigitChars_zeroPad (width n : ℕ) : Nat.ofDigitChars 10 (zeroPad width n).toList 0 = n := by
  rw [toList_zeroPad, Nat.ofDigitChars_append, Nat.ofDigitChars_replicate_zero, Nat.mul_zero,
    Nat.ofDigitChars_toDigits (by decide) (by decide)]

theorem toList_isoDate (year : ℤ) (month day : ℕ) : (isoDate year month day).toList =
    (zeroPad 4 year.toNat).toList ++ '-' :: ((zeroPad 2 month).toList ++ '-' ::
      (zeroPad 2 day).toList) := by
  simp [isoDate, toString]

theorem append_lt_append_iff (hlength : l.length = l'.length) :
    l ++ r < l' ++ r' ↔ l < l' ∨ l = l' ∧ r < r' := by
  induction l generalizing l' with
  | nil =>
    obtain rfl := List.eq_nil_of_length_eq_zero hlength.symm
    simp
  | cons c l ih =>
    cases l' with
    | nil => simp at hlength
    | cons c' l' =>
      simp only [List.cons_append, List.cons_lt_cons_iff, ih (Nat.succ.inj hlength),
        List.cons.injEq]
      tauto

/-- A greater start makes a greater number, whatever digits follow. -/
theorem ofDigitChars_lt_of_lt (hl : ∀ c ∈ l, c.isDigit) (hlength : l.length = l'.length)
    (hlt : m < n) : Nat.ofDigitChars 10 l m < Nat.ofDigitChars 10 l' n := by
  induction l generalizing l' m n with
  | nil =>
    obtain rfl := List.eq_nil_of_length_eq_zero hlength.symm
    simpa using hlt
  | cons c l ih =>
    cases l' with
    | nil => simp at hlength
    | cons c' l' =>
      rw [List.forall_mem_cons] at hl
      have hdigit : 48 ≤ c.toNat ∧ c.toNat ≤ 57 := Char.isDigit_iff_toNat.1 hl.1
      have hzero : '0'.toNat = 48 := rfl
      rw [Nat.ofDigitChars_cons, Nat.ofDigitChars_cons]
      exact ih hl.2 (Nat.succ.inj hlength) (by omega)

/-- Of digits, as many on both sides, the first that differ decide. -/
theorem ofDigitChars_lt_of_lex (hl : ∀ c ∈ l, c.isDigit) (hl' : ∀ c ∈ l', c.isDigit)
    (hlength : l.length = l'.length) (hlt : l < l') :
    Nat.ofDigitChars 10 l n < Nat.ofDigitChars 10 l' n := by
  induction l generalizing l' n with
  | nil =>
    obtain rfl := List.eq_nil_of_length_eq_zero hlength.symm
    exact absurd hlt (lt_irrefl _)
  | cons c l ih =>
    cases l' with
    | nil => simp at hlength
    | cons c' l' =>
      rw [List.forall_mem_cons] at hl hl'
      rw [Nat.ofDigitChars_cons, Nat.ofDigitChars_cons]
      rcases List.cons_lt_cons_iff.1 hlt with hc | ⟨rfl, hrest⟩
      · refine ofDigitChars_lt_of_lt hl.2 (Nat.succ.inj hlength) ?_
        have hdigit : 48 ≤ c.toNat ∧ c.toNat ≤ 57 := Char.isDigit_iff_toNat.1 hl.1
        have hzero : '0'.toNat = 48 := rfl
        have hless : c.toNat < c'.toNat := hc
        omega
      · exact ih hl.2 hl'.2 (Nat.succ.inj hlength) hrest

theorem eq_of_ofDigitChars (hl : ∀ c ∈ l, c.isDigit) (hl' : ∀ c ∈ l', c.isDigit)
    (hlength : l.length = l'.length) (heq : Nat.ofDigitChars 10 l n = Nat.ofDigitChars 10 l' n) :
    l = l' := by
  rcases lt_trichotomy l l' with h | h | h
  · exact absurd heq (ofDigitChars_lt_of_lex hl hl' hlength h).ne
  · exact h
  · exact absurd heq (ofDigitChars_lt_of_lex hl' hl hlength.symm h).ne'

theorem zeroPad_ofDigitChars (hl : ∀ c ∈ l, c.isDigit) (hwidth : 0 < width)
    (hlength : l.length = width) : (zeroPad width (Nat.ofDigitChars 10 l 0)).toList = l := by
  have hlt : Nat.ofDigitChars 10 l 0 < 10 ^ width := by
    have hzeros : Nat.ofDigitChars 10 l 0 < Nat.ofDigitChars 10 (List.replicate width '0') 1 :=
      ofDigitChars_lt_of_lt hl (by rw [List.length_replicate, hlength]) Nat.zero_lt_one
    rwa [Nat.ofDigitChars_replicate_zero, Nat.mul_one] at hzeros
  refine eq_of_ofDigitChars (isDigit_zeroPad _ _) hl ?_ (ofDigitChars_zeroPad width _)
  rw [length_zeroPad hwidth hlt, hlength]

theorem zeroPad_lt (hwidth : 0 < width) (hn : n < 10 ^ width) (hlt : m < n) :
    (zeroPad width m).toList < (zeroPad width n).toList := by
  have hlength : (zeroPad width m).toList.length = (zeroPad width n).toList.length := by
    rw [length_zeroPad hwidth (hlt.trans hn), length_zeroPad hwidth hn]
  rcases lt_trichotomy (zeroPad width m).toList (zeroPad width n).toList with h | h | h
  · exact h
  · have heq := congrArg (Nat.ofDigitChars 10 · 0) h
    simp only [ofDigitChars_zeroPad] at heq
    exact absurd heq hlt.ne
  · have hgt := ofDigitChars_lt_of_lex (n := 0) (isDigit_zeroPad _ _) (isDigit_zeroPad _ _)
      hlength.symm h
    rw [ofDigitChars_zeroPad, ofDigitChars_zeroPad] at hgt
    exact absurd hgt hlt.asymm

end Padding

section Days

variable {h : Host} {d e : Date} {text : String}

/-- A day from the year 0 on as the ledger writes it, such as `2025-01-31`. -/
def dayText (d : Date) : String :=
  isoDate d.year d.month d.day

def PlainDay (text : String) (d : Date) : Prop :=
  0 ≤ d.year ∧ text = dayText d

theorem lex_of_number_lt (hlt : d.number < e.number) :
    d.year < e.year ∨ d.year = e.year ∧ (d.month < e.month ∨ d.month = e.month ∧ d.day < e.day) := by
  rcases lt_trichotomy d.year e.year with hyear | hyear | hyear
  · exact .inl hyear
  · refine .inr ⟨hyear, ?_⟩
    rcases lt_trichotomy d.month e.month with hmonth | hmonth | hmonth
    · exact .inl hmonth
    · refine .inr ⟨hmonth, ?_⟩
      rw [Date.number, Date.number, hyear, hmonth] at hlt
      omega
    · have hnot : e.number < d.number := by
        refine Date.number_lt_of_monthNumber_lt ?_
        have := e.month_mem.1
        rw [Date.monthNumber, Date.monthNumber, hyear]
        omega
      exact absurd hlt hnot.asymm
  · exact absurd (Date.year_le_of_number_le hlt.le) (not_le_of_gt hyear)

theorem daysInMonth_le (year : ℤ) (month : ℕ) : daysInMonth year month ≤ 31 := by
  rw [daysInMonth]
  split_ifs <;> omega

theorem parts_lt (d : Date) : d.year.toNat < 10 ^ 4 ∧ d.month < 10 ^ 2 ∧ d.day < 10 ^ 2 := by
  have hyear := d.year_mem
  have hmonth := d.month_mem
  have hday := d.day_mem.2.trans (daysInMonth_le d.year d.month)
  omega

theorem dayText_lt (hd : 0 ≤ d.year) (hlt : d.number < e.number) : dayText d < dayText e := by
  obtain ⟨hyd, hmd, hdd⟩ := parts_lt d
  obtain ⟨hye, hme, hde⟩ := parts_lt e
  have hyears : (zeroPad 4 d.year.toNat).toList.length = (zeroPad 4 e.year.toNat).toList.length := by
    rw [length_zeroPad (by decide) hyd, length_zeroPad (by decide) hye]
  have hmonths : (zeroPad 2 d.month).toList.length = (zeroPad 2 e.month).toList.length := by
    rw [length_zeroPad (by decide) hmd, length_zeroPad (by decide) hme]
  rw [dayText, dayText, String.lt_iff_toList_lt, toList_isoDate, toList_isoDate,
    append_lt_append_iff hyears, List.cons_lt_cons_iff, append_lt_append_iff hmonths,
    List.cons_lt_cons_iff]
  rcases lex_of_number_lt hlt with hyear | ⟨hyear, hmonth | ⟨hmonth, hday⟩⟩
  · exact .inl (zeroPad_lt (by decide) hye (by omega))
  · exact .inr ⟨by rw [hyear], .inr ⟨rfl, .inl (zeroPad_lt (by decide) hme hmonth)⟩⟩
  · exact .inr ⟨by rw [hyear], .inr ⟨rfl, .inr ⟨by rw [hmonth], .inr
      ⟨rfl, zeroPad_lt (by decide) hde hday⟩⟩⟩⟩

theorem dayText_le_iff (hd : 0 ≤ d.year) (he : 0 ≤ e.year) :
    dayText d ≤ dayText e ↔ d.number ≤ e.number := by
  constructor
  · intro hle
    by_contra hlt
    exact absurd (dayText_lt he (not_le.1 hlt)) (not_lt_of_ge hle)
  · intro hle
    rcases hle.lt_or_eq with hlt | heq
    · exact (dayText_lt hd hlt).le
    · have hself := Date.ofNumber?_number d
      rw [heq, Date.ofNumber?_number] at hself
      rw [Option.some.inj hself]

def Signed (text : String) : Prop :=
  ∃ c ∈ text.toList.head?, c = '+' ∨ c = '-'

/-- What is known of the dates that the host reads: each is a day from the year 0 on in the plain
form, or has a sign before its year. -/
def ReadsDays (h : Host) : Prop :=
  ∀ text d, h.parseDate text = some d → PlainDay text d ∨ Signed text

theorem signed_lt_dayText (hsigned : Signed text) : text < dayText d := by
  obtain ⟨c, hc, hsign⟩ := hsigned
  obtain ⟨rest, hrest⟩ : ∃ rest, text.toList = c :: rest := List.head?_eq_some_iff.1 hc
  have hdigits := isDigit_zeroPad 4 d.year.toNat
  have hlength := length_zeroPad (by decide : 0 < 4) (parts_lt d).1
  rw [dayText, String.lt_iff_toList_lt, toList_isoDate, hrest]
  cases hyear : (zeroPad 4 d.year.toNat).toList with
  | nil => simp [hyear] at hlength
  | cons c' year =>
    rw [hyear, List.forall_mem_cons] at hdigits
    have hdigit : 48 ≤ c'.toNat ∧ c'.toNat ≤ 57 := Char.isDigit_iff_toNat.1 hdigits.1
    have hless : c.toNat < 48 := by
      rcases hsign with rfl | rfl <;> decide
    exact List.cons_lt_cons_iff.2 (.inl (show c.toNat < c'.toNat by omega))

/-- A text that is read as a day on or before `d` comes in the order of texts no later. -/
theorem le_dayText (hreads : ReadsDays h) (hd : 0 ≤ d.year) (htext : h.parseDate text = some e)
    (hle : e.number ≤ d.number) : text ≤ dayText d := by
  rcases hreads text e htext with ⟨he, rfl⟩ | hsigned
  · exact (dayText_le_iff he hd).2 hle
  · exact (signed_lt_dayText hsigned).le

end Days

section Plain

variable {l : List Char} {n : ℕ} {d : Date} {text : String}

theorem digits_eq_ofDigitChars (hl : ∀ c ∈ l, c.isDigit) :
    digits l = some (Nat.ofDigitChars 10 l 0) := by
  rw [digits, if_pos (List.all_eq_true.2 hl), Nat.ofDigitChars_eq_foldl]
  rfl

theorem zeroPad_digits {width : ℕ} (hwidth : 0 < width) (hlength : l.length = width)
    (hn : digits l = some n) : (zeroPad width n).toList = l := by
  by_cases hall : l.all Char.isDigit
  · have hl := List.all_eq_true.1 hall
    obtain rfl := Option.some.inj ((digits_eq_ofDigitChars hl).symm.trans hn)
    exact zeroPad_ofDigitChars hl hwidth hlength
  · simp [digits, hall] at hn

theorem readsDays_plainHost : ReadsDays plainHost := by
  intro text d hd
  change plainParse text = some d at hd
  rw [plainParse] at hd
  split at hd
  case h_2 => cases hd
  case h_1 y₁ y₂ y₃ y₄ m₁ m₂ d₁ d₂ htext =>
    simp only [Option.bind_eq_bind, Option.bind_eq_some_iff] at hd
    obtain ⟨year, hyear, month, hmonth, day, hday, hparts⟩ := hd
    obtain ⟨hy, rfl, rfl⟩ := Date.ofParts?_eq_some hparts
    refine .inl ⟨by omega, String.toList_injective ?_⟩
    have hyears : (zeroPad 4 year).toList = _ := zeroPad_digits (by decide) rfl hyear
    have hmonths : (zeroPad 2 d.month).toList = _ := zeroPad_digits (by decide) rfl hmonth
    have hdays : (zeroPad 2 d.day).toList = _ := zeroPad_digits (by decide) rfl hday
    rw [dayText, toList_isoDate, hy, Int.toNat_natCast, hyears, hmonths, hdays, htext]
    rfl

end Plain

end SlipScan.Ledger.Dates
