import SlipScan.Foundation.Calendar
import Mathlib.Data.List.DropRight
import Mathlib.Data.String.Basic

namespace SlipScan.Foundation.Timestamps

open Calendar

section Digits

def digits : ℕ → ℕ → List Char
  | 0, _ => []
  | width + 1, n => digits width (n / 10) ++ [Char.ofNat (48 + n % 10)]

variable {l l' r r' : List Char} {width n m : ℕ}

@[simp]
theorem length_digits (width n : ℕ) : (digits width n).length = width := by
  induction width generalizing n with
  | zero => rfl
  | succ width ih => simp [digits, ih]

/-- Texts that begin with parts of one length are ordered by these parts first. -/
theorem append_lt_append_iff (hlength : l.length = l'.length) :
    l ++ r < l' ++ r' ↔ l < l' ∨ l = l' ∧ r < r' := by
  induction l generalizing l' with
  | nil =>
    obtain rfl := List.length_eq_zero_iff.1 hlength.symm
    simp
  | cons a l ih =>
    cases l' with
    | nil => cases hlength
    | cons b l' =>
      rw [List.cons_append, List.cons_append, List.cons_lt_cons_iff, List.cons_lt_cons_iff,
        ih (Nat.succ.inj hlength)]
      simp only [List.cons.injEq]
      tauto

/-- Texts that part before either ends are ordered where they part. -/
theorem append_lt_append_iff_of_part (hl : ¬l <+: l') (hl' : ¬l' <+: l) :
    l ++ r < l' ++ r' ↔ l < l' := by
  induction l generalizing l' with
  | nil => exact absurd List.nil_prefix hl
  | cons a l ih =>
    cases l' with
    | nil => exact absurd List.nil_prefix hl'
    | cons b l' =>
      rw [List.cons_append, List.cons_append, List.cons_lt_cons_iff, List.cons_lt_cons_iff]
      by_cases hab : a = b
      · subst hab
        rw [ih (fun h ↦ hl (List.cons_prefix_cons.2 ⟨rfl, h⟩))
          fun h ↦ hl' (List.cons_prefix_cons.2 ⟨rfl, h⟩)]
      · simp [hab]

theorem digit_lt_iff (hn : n < 10) (hm : m < 10) :
    Char.ofNat (48 + n) < Char.ofNat (48 + m) ↔ n < m := by
  have hall : ∀ n < 10, ∀ m < 10, (Char.ofNat (48 + n) < Char.ofNat (48 + m) ↔ n < m) := by decide
  exact hall n hn m hm

theorem digits_lt_iff (hn : n < 10 ^ width) (hm : m < 10 ^ width) :
    digits width n < digits width m ↔ n < m := by
  induction width generalizing n m with
  | zero =>
    simp only [pow_zero, Nat.lt_one_iff] at hn hm
    simp [digits, hn, hm]
  | succ width ih =>
    have hn' : n / 10 < 10 ^ width := by omega
    have hm' : m / 10 < 10 ^ width := by omega
    have heq : digits width (n / 10) = digits width (m / 10) ↔ n / 10 = m / 10 := by
      constructor
      · intro heq
        have hlt : ¬n / 10 < m / 10 := fun hlt ↦ ((ih hn' hm').2 hlt).ne heq
        have hgt : ¬m / 10 < n / 10 := fun hgt ↦ ((ih hm' hn').2 hgt).ne heq.symm
        omega
      · exact fun heq ↦ congrArg _ heq
    rw [digits, digits, append_lt_append_iff (by simp), ih hn' hm', heq]
    have hdigit := digit_lt_iff (Nat.mod_lt n (by decide)) (Nat.mod_lt m (by decide))
    simp only [List.cons_lt_cons_iff, List.not_lt_nil, and_false, or_false, hdigit]
    omega

theorem digits_inj (hn : n < 10 ^ width) (hm : m < 10 ^ width) :
    digits width n = digits width m ↔ n = m := by
  constructor
  · intro heq
    have hlt : ¬n < m := fun hlt ↦ ((digits_lt_iff hn hm).2 hlt).ne heq
    have hgt : ¬m < n := fun hgt ↦ ((digits_lt_iff hm hn).2 hgt).ne heq.symm
    omega
  · exact fun heq ↦ congrArg _ heq

theorem field_lt_iff (sep : Char) (hn : n < 10 ^ width) (hm : m < 10 ^ width) :
    digits width n ++ sep :: r < digits width m ++ sep :: r' ↔ n < m ∨ n = m ∧ r < r' := by
  rw [append_lt_append_iff (by simp), digits_lt_iff hn hm, digits_inj hn hm, List.cons_lt_cons_iff]
  simp only [lt_irrefl, false_or, true_and]

end Digits

section Seconds

def dateText (d : Date) : List Char :=
  digits 4 d.year.toNat ++ '-' :: (digits 2 d.month ++ '-' :: digits 2 d.day)

def timeText (second : ℕ) : List Char :=
  digits 2 (second / 3600) ++ ':' :: (digits 2 (second / 60 % 60) ++ ':' :: digits 2 (second % 60))

variable {d e : Date} {n m : ℕ}

theorem length_dateText (d : Date) : (dateText d).length = 10 := by simp [dateText]

theorem length_timeText (n : ℕ) : (timeText n).length = 8 := by simp [timeText]

theorem Date.day_lt (d : Date) : d.day < 100 := by
  have hday := d.day_mem.2
  rw [daysInMonth] at hday
  split_ifs at hday <;> omega

/-- Dates of the years from 0 on are ordered as their texts. -/
theorem dateText_lt_iff (hd : 0 ≤ d.year) (he : 0 ≤ e.year) :
    dateText d < dateText e ↔ d.number < e.number := by
  have hdm := d.month_mem
  have hem := e.month_mem
  have hdy := d.year_mem
  have hey := e.year_mem
  have hdd := Date.day_lt d
  have hed := Date.day_lt e
  rw [dateText, dateText, field_lt_iff _ (by omega) (by omega),
    field_lt_iff _ (by omega) (by omega), digits_lt_iff (by omega) (by omega)]
  rcases lt_trichotomy d.monthNumber e.monthNumber with hlt | hsame | hgt
  · have hnumber := Date.number_lt_of_monthNumber_lt hlt
    simp only [Date.monthNumber] at hlt
    omega
  · simp only [Date.monthNumber] at hsame
    have hyear : d.year = e.year := by omega
    have hmonth : d.month = e.month := by omega
    rw [Date.number, Date.number, hyear, hmonth]
    omega
  · have hnumber := Date.number_lt_of_monthNumber_lt hgt
    simp only [Date.monthNumber] at hgt
    omega

theorem timeText_lt_iff (hn : n < 86400) (hm : m < 86400) : timeText n < timeText m ↔ n < m := by
  rw [timeText, timeText, field_lt_iff _ (by omega) (by omega),
    field_lt_iff _ (by omega) (by omega), digits_lt_iff (by omega) (by omega)]
  omega

def civilText (second : ℤ) : Option (List Char) :=
  (Date.ofNumber? (second / 86400 + 719163)).bind fun d ↦
    if 0 ≤ d.year then some (dateText d ++ 'T' :: timeText (second % 86400).toNat) else none

variable {s t : ℤ} {l l' : List Char}

theorem civilText_eq_some (hl : civilText s = some l) : ∃ d : Date, 0 ≤ d.year ∧
    d.number = s / 86400 + 719163 ∧ l = dateText d ++ 'T' :: timeText (s % 86400).toNat := by
  rw [civilText, Option.bind_eq_some_iff] at hl
  obtain ⟨d, hd, hl⟩ := hl
  rw [Option.ite_none_right_eq_some] at hl
  exact ⟨d, hl.1, Date.number_of_ofNumber? hd, (Option.some.inj hl.2).symm⟩

theorem length_civilText (hl : civilText s = some l) : l.length = 19 := by
  obtain ⟨d, -, -, rfl⟩ := civilText_eq_some hl
  simp [length_dateText, length_timeText]

theorem civilText_lt_iff (hl : civilText s = some l) (hl' : civilText t = some l') :
    l < l' ↔ s < t := by
  obtain ⟨d, hd, hds, rfl⟩ := civilText_eq_some hl
  obtain ⟨e, he, het, rfl⟩ := civilText_eq_some hl'
  have hsame : dateText d = dateText e ↔ d.number = e.number := by
    constructor
    · intro heq
      have hlt : ¬d.number < e.number := fun hlt ↦ ((dateText_lt_iff hd he).2 hlt).ne heq
      have hgt : ¬e.number < d.number := fun hgt ↦ ((dateText_lt_iff he hd).2 hgt).ne heq.symm
      omega
    · intro heq
      have hde : d = e := Option.some.inj (by
        rw [← Date.ofNumber?_number d, ← Date.ofNumber?_number e, heq])
      rw [hde]
  rw [append_lt_append_iff (by simp [length_dateText]), dateText_lt_iff hd he, hsame,
    List.cons_lt_cons_iff, timeText_lt_iff (by omega) (by omega)]
  simp only [lt_irrefl, false_or, true_and]
  omega

theorem civilText_inj (hl : civilText s = some l) (hl' : civilText t = some l') :
    l = l' ↔ s = t := by
  constructor
  · intro heq
    have hlt : ¬s < t := fun hlt ↦ ((civilText_lt_iff hl hl').2 hlt).ne heq
    have hgt : ¬t < s := fun hgt ↦ ((civilText_lt_iff hl' hl).2 hgt).ne heq.symm
    omega
  · intro heq
    exact Option.some.inj (hl.symm.trans (heq ▸ hl'))

end Seconds

section Moments

/-- The nanoseconds of a second as a fraction without zeros at its end. -/
def fraction (nanos : ℕ) : List Char :=
  (digits 9 nanos).rdropWhile fun c ↦ c = '0'

/-- The end of a text in UTC. A second without a fraction has no point either. -/
def endText (nanos : ℕ) : List Char :=
  if fraction nanos = [] then ['Z'] else '.' :: (fraction nanos ++ ['Z'])

def secondOf (t : ℤ) : ℤ :=
  t / 10 ^ 9

def nanosOf (t : ℤ) : ℕ :=
  (t % 10 ^ 9).toNat

def utcText (t : ℤ) : Option String :=
  (civilText (secondOf t)).map fun l ↦ String.ofList (l ++ endText (nanosOf t))

/-- The moments are in different seconds, or neither fraction only goes on after the other. -/
def Aligned (t u : ℤ) : Prop :=
  secondOf t = secondOf u →
    fraction (nanosOf t) <+: fraction (nanosOf u) ∨
        fraction (nanosOf u) <+: fraction (nanosOf t) →
      fraction (nanosOf t) = fraction (nanosOf u)

instance (t u : ℤ) : Decidable (Aligned t u) :=
  inferInstanceAs (Decidable (_ → _ → _))

theorem Aligned.symm {t u : ℤ} (h : Aligned t u) : Aligned u t :=
  fun hsecond hprefix ↦ (h hsecond.symm hprefix.symm).symm

variable {t u : ℤ} {n m : ℕ} {a b : String}

theorem digits_eq_fraction (n : ℕ) : ∃ zeros : List Char,
    digits 9 n = fraction n ++ zeros ∧ ∀ c ∈ zeros, c = '0' := by
  refine ⟨(digits 9 n).rtakeWhile fun c ↦ c = '0', List.rdropWhile_append_rtakeWhile.symm, ?_⟩
  intro c hc
  have hzero := List.mem_rtakeWhile_imp hc
  exact of_decide_eq_true hzero

theorem fraction_inj (hn : n < 10 ^ 9) (hm : m < 10 ^ 9) : fraction n = fraction m ↔ n = m := by
  constructor
  · intro heq
    obtain ⟨zeros, hzeros, hall⟩ := digits_eq_fraction n
    obtain ⟨zeros', hzeros', hall'⟩ := digits_eq_fraction m
    have hlength : zeros.length = zeros'.length := by
      have hn9 := congrArg List.length hzeros
      have hm9 := congrArg List.length hzeros'
      rw [List.length_append, length_digits] at hn9 hm9
      rw [heq] at hn9
      omega
    have hsame : zeros = zeros' := by
      rw [List.eq_replicate_of_mem hall, List.eq_replicate_of_mem hall', hlength]
    apply (digits_inj hn hm).1
    rw [hzeros, hzeros', heq, hsame]
  · exact fun heq ↦ congrArg _ heq

/-- Fractions that part are ordered as their nanoseconds. -/
theorem endText_lt_iff (hn : n < 10 ^ 9) (hm : m < 10 ^ 9)
    (haligned : fraction n <+: fraction m ∨ fraction m <+: fraction n →
      fraction n = fraction m) : endText n < endText m ↔ n < m := by
  by_cases heq : fraction n = fraction m
  · have hsame := (fraction_inj hn hm).1 heq
    subst hsame
    simp
  · have hpart : ¬fraction n <+: fraction m := fun h ↦ heq (haligned (.inl h))
    have hpart' : ¬fraction m <+: fraction n := fun h ↦ heq (haligned (.inr h))
    have hnil : fraction n ≠ [] := fun h ↦ hpart (h ▸ List.nil_prefix)
    have hnil' : fraction m ≠ [] := fun h ↦ hpart' (h ▸ List.nil_prefix)
    obtain ⟨zeros, hzeros, -⟩ := digits_eq_fraction n
    obtain ⟨zeros', hzeros', -⟩ := digits_eq_fraction m
    rw [endText, endText, if_neg hnil, if_neg hnil', List.cons_lt_cons_iff]
    simp only [lt_irrefl, false_or, true_and]
    rw [append_lt_append_iff_of_part hpart hpart', ← digits_lt_iff hn hm, hzeros, hzeros',
      append_lt_append_iff_of_part hpart hpart']

theorem utcText_lt_iff (ha : utcText t = some a) (hb : utcText u = some b)
    (haligned : Aligned t u) : a < b ↔ t < u := by
  rw [utcText, Option.map_eq_some_iff] at ha hb
  obtain ⟨l, hl, rfl⟩ := ha
  obtain ⟨l', hl', rfl⟩ := hb
  have hn : nanosOf t < 10 ^ 9 := by
    rw [nanosOf]
    omega
  have hm : nanosOf u < 10 ^ 9 := by
    rw [nanosOf]
    omega
  rw [String.lt_iff_toList_lt, String.toList_ofList, String.toList_ofList,
    append_lt_append_iff ((length_civilText hl).trans (length_civilText hl').symm),
    civilText_lt_iff hl hl', civilText_inj hl hl']
  have hsplit : t = secondOf t * 10 ^ 9 + nanosOf t := by
    rw [secondOf, nanosOf]
    omega
  have hsplit' : u = secondOf u * 10 ^ 9 + nanosOf u := by
    rw [secondOf, nanosOf]
    omega
  by_cases hsecond : secondOf t = secondOf u
  · rw [endText_lt_iff hn hm (haligned hsecond)]
    omega
  · simp only [hsecond, false_and, or_false]
    omega

/-- Texts of aligned moments are ordered as the moments. -/
theorem utcText_le_iff (ha : utcText t = some a) (hb : utcText u = some b)
    (haligned : Aligned t u) : a ≤ b ↔ t ≤ u := by
  rw [← not_lt, ← not_lt, utcText_lt_iff hb ha haligned.symm]

end Moments

section Reading

def number (l : List Char) : ℕ :=
  l.foldl (fun n c ↦ 10 * n + (c.toNat - 48)) 0

def readUtc (text : String) : Option ℤ :=
  let l := text.toList
  (Date.ofParts? (number (l.take 4)) (number ((l.drop 5).take 2))
    (number ((l.drop 8).take 2))).map fun d ↦
      let second := number ((l.drop 11).take 2) * 3600 + number ((l.drop 14).take 2) * 60 +
        number ((l.drop 17).take 2)
      let parts := (l.drop 20).dropLast
      ((d.number - 719163) * 86400 + second) * 10 ^ 9 +
        number (parts ++ List.replicate (9 - parts.length) '0')

variable {t : ℤ} {width n : ℕ} {text : String}

theorem number_digits (hn : n < 10 ^ width) : number (digits width n) = n := by
  induction width generalizing n with
  | zero =>
    simp only [pow_zero, Nat.lt_one_iff] at hn
    simp [number, digits, hn]
  | succ width ih =>
    have hlow : (Char.ofNat (48 + n % 10)).toNat - 48 = n % 10 := by
      have hall : ∀ k < 10, (Char.ofNat (48 + k)).toNat - 48 = k := by decide
      exact hall _ (Nat.mod_lt n (by decide))
    have hhigh := ih (n := n / 10) (by omega)
    rw [number] at hhigh
    rw [number, digits, List.foldl_append, hhigh]
    simp only [List.foldl_cons, List.foldl_nil, hlow]
    omega

theorem number_fraction (hn : n < 10 ^ 9) :
    number (fraction n ++ List.replicate (9 - (fraction n).length) '0') = n := by
  obtain ⟨zeros, hzeros, hall⟩ := digits_eq_fraction n
  have hlength := congrArg List.length hzeros
  rw [length_digits, List.length_append] at hlength
  rw [List.eq_replicate_of_mem hall] at hzeros
  rw [show 9 - (fraction n).length = zeros.length by omega, ← hzeros, number_digits hn]

theorem take_fields {y m d hour minute second : List Char} (rest : List Char)
    (hy : y.length = 4) (hm : m.length = 2) (hd : d.length = 2) (hhour : hour.length = 2)
    (hminute : minute.length = 2) (hsecond : second.length = 2) :
    let l := y ++ '-' :: (m ++ '-' :: d) ++
      'T' :: (hour ++ ':' :: (minute ++ ':' :: second)) ++ rest
    l.take 4 = y ∧ (l.drop 5).take 2 = m ∧ (l.drop 8).take 2 = d ∧ (l.drop 11).take 2 = hour ∧
      (l.drop 14).take 2 = minute ∧ (l.drop 17).take 2 = second ∧ l.drop 20 = rest.drop 1 := by
  match y, hy, m, hm, d, hd, hour, hhour, minute, hminute, second, hsecond with
  | [_, _, _, _], _, [_, _], _, [_, _], _, [_, _], _, [_, _], _, [_, _], _ =>
    exact ⟨rfl, rfl, rfl, rfl, rfl, rfl, rfl⟩

theorem dropLast_endText (n : ℕ) : ((endText n).drop 1).dropLast = fraction n := by
  rw [endText]
  split
  · next hnil => exact hnil.symm
  · rw [List.drop_one, List.tail_cons, List.dropLast_concat]

theorem readUtc_utcText (htext : utcText t = some text) : readUtc text = some t := by
  rw [utcText, Option.map_eq_some_iff] at htext
  obtain ⟨l, hl, rfl⟩ := htext
  obtain ⟨d, hyear, hd, rfl⟩ := civilText_eq_some hl
  have hmonth := d.month_mem
  have hyear' := d.year_mem
  have hday := Date.day_lt d
  have hn : nanosOf t < 10 ^ 9 := by
    rw [nanosOf]
    omega
  obtain ⟨hy, hm, hdd, hhour, hminute, hsecond, hrest⟩ := take_fields (endText (nanosOf t))
    (length_digits 4 d.year.toNat) (length_digits 2 d.month) (length_digits 2 d.day)
    (length_digits 2 ((secondOf t % 86400).toNat / 3600))
    (length_digits 2 ((secondOf t % 86400).toNat / 60 % 60))
    (length_digits 2 ((secondOf t % 86400).toNat % 60))
  rw [readUtc, String.toList_ofList, dateText, timeText]
  simp only [hy, hm, hdd, hhour, hminute, hsecond, hrest, dropLast_endText, number_fraction hn]
  rw [number_digits (by omega), number_digits (by omega), number_digits (by omega),
    number_digits (by omega), number_digits (by omega), number_digits (by omega),
    Int.toNat_of_nonneg hyear, Date.ofParts?_self, Option.map_some, hd]
  congr 1
  rw [secondOf, nanosOf]
  omega

end Reading

end SlipScan.Foundation.Timestamps
