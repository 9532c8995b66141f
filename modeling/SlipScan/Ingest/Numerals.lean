import SlipScan.Model.Amounts
import Mathlib.Data.List.Induction
import Mathlib.Data.List.TakeWhile

namespace SlipScan.Ingest.Numerals

open Model.Database Model.Amounts

section Lists

variable {p : Char → Bool} {l before after : List Char} {sep : Char}

theorem splitLast_append (hafter : ∀ c ∈ after, p c = false) (hsep : p sep) :
    splitLast p (before ++ sep :: after) = some (before, after) := by
  have hspan : (before ++ sep :: after).reverse.span (!p ·) =
      (after.reverse, sep :: before.reverse) := by
    rw [List.reverse_append, List.reverse_cons, List.append_assoc, List.singleton_append,
      List.span_eq_takeWhile_dropWhile, List.takeWhile_append_of_pos, List.dropWhile_append_of_pos]
    · simp [hsep]
    · simpa using hafter
    · simpa using hafter
  simp only [splitLast, hspan, List.reverse_reverse]

theorem splitLast_eq_none (hl : ∀ c ∈ l, p c = false) : splitLast p l = none := by
  have hspan : l.reverse.span (!p ·) = (l.reverse, []) := by
    rw [List.span_eq_takeWhile_dropWhile, List.takeWhile_eq_self_iff.2, List.dropWhile_eq_nil_iff.2]
    · simpa using hl
    · simpa using hl
  simp only [splitLast, hspan]

theorem splitLast_cases (p : Char → Bool) (l : List Char) :
    (splitLast p l = none ∧ ∀ c ∈ l, p c = false) ∨
      ∃ before sep after, l = before ++ sep :: after ∧ p sep ∧ (∀ c ∈ after, p c = false) ∧
        splitLast p l = some (before, after) := by
  have hsplit : (∀ c ∈ l, p c = false) ∨
      ∃ before sep after, l = before ++ sep :: after ∧ p sep ∧ ∀ c ∈ after, p c = false := by
    induction l using List.reverseRecOn with
    | nil => exact .inl nofun
    | append_singleton l c ih =>
      cases hc : p c with
      | true => exact .inr ⟨l, c, [], rfl, hc, nofun⟩
      | false =>
        refine ih.imp (fun hl ↦ ?_) fun ⟨before, sep, after, hl, hsep, hafter⟩ ↦ ?_
        · simpa [or_imp, forall_and, hc] using hl
        · exact ⟨before, sep, after ++ [c], by simp [hl], hsep,
            by simpa [or_imp, forall_and, hc] using hafter⟩
  refine hsplit.imp (fun hl ↦ ⟨splitLast_eq_none hl, hl⟩) ?_
  rintro ⟨before, sep, after, rfl, hsep, hafter⟩
  exact ⟨before, sep, after, rfl, hsep, hafter, splitLast_append hafter hsep⟩

theorem dropWhile_append_of_head {q : Char → Bool} (hbefore : ∀ c ∈ before, q c)
    (hhead : ∀ c ∈ l.head?, q c = false) : (before ++ l).dropWhile q = l := by
  rw [List.dropWhile_append_of_pos hbefore]
  cases l with
  | nil => rfl
  | cons c l => rw [List.dropWhile_cons_of_neg (by simp [hhead c rfl])]

/-- A scan up to a mark passes over what is before it. -/
theorem takeWhile_ne_append {mark : Char} (hmark : mark ∉ before) (l : List Char) :
    (before ++ l).takeWhile (· ≠ mark) = before ++ l.takeWhile (· ≠ mark) :=
  List.takeWhile_append_of_pos fun _ hc ↦ decide_eq_true fun heq ↦ hmark (heq ▸ hc)

theorem dropWhile_ne_append {mark : Char} (hmark : mark ∉ before) (l : List Char) :
    (before ++ l).dropWhile (· ≠ mark) = l.dropWhile (· ≠ mark) :=
  List.dropWhile_append_of_pos fun _ hc ↦ decide_eq_true fun heq ↦ hmark (heq ▸ hc)

/-- Blanks around a text are trimmed, and nothing else. -/
theorem trimmed_append (hbefore : ∀ c ∈ before, isWhitespace c)
    (hafter : ∀ c ∈ after, isWhitespace c) (hhead : ∀ c ∈ l.head?, isWhitespace c = false)
    (hlast : ∀ c ∈ l.getLast?, isWhitespace c = false) (hl : l ≠ []) :
    trimmed (before ++ (l ++ after)) = l := by
  have hhead' : ∀ c ∈ (l ++ after).head?, isWhitespace c = false := by
    cases l with
    | nil => exact absurd rfl hl
    | cons c l => exact hhead
  rw [trimmed, dropWhile_append_of_head hbefore hhead', List.reverse_append,
    dropWhile_append_of_head (by simpa using hafter) (by simpa using hlast), List.reverse_reverse]

structure Bare (l : List Char) : Prop where
  head : ∀ c ∈ l.head?, isWhitespace c = false
  last : ∀ c ∈ l.getLast?, isWhitespace c = false

theorem Bare.of_forall (hl : ∀ c ∈ l, isWhitespace c = false) : Bare l :=
  ⟨fun c hc ↦ hl c (List.mem_of_mem_head? hc), fun c hc ↦ hl c (List.mem_of_getLast? hc)⟩

theorem trimmed_of_blank (hl : ∀ c ∈ l, isWhitespace c) : trimmed l = [] := by
  rw [trimmed, List.dropWhile_eq_nil_iff.2 hl]
  rfl

theorem trimmed_around (hbefore : ∀ c ∈ before, isWhitespace c)
    (hafter : ∀ c ∈ after, isWhitespace c) (hl : Bare l) : trimmed (before ++ (l ++ after)) = l := by
  by_cases hnil : l = []
  · subst hnil
    exact trimmed_of_blank (List.forall_mem_append.2 ⟨hbefore, hafter⟩)
  · exact trimmed_append hbefore hafter hl.head hl.last hnil

theorem head_dropWhile (p : Char → Bool) (l : List Char) : ∀ c ∈ (l.dropWhile p).head?, p c = false := by
  intro c hc
  have hnot := List.head?_dropWhile_not p l
  rw [hc] at hnot
  simpa using hnot

/-- A text is what is left of it with blanks around. -/
theorem trimmed_split (l : List Char) : ∃ before after, l = before ++ (trimmed l ++ after) ∧
    (∀ c ∈ before, isWhitespace c) ∧ (∀ c ∈ after, isWhitespace c) ∧ Bare (trimmed l) := by
  have hjoin : l.dropWhile isWhitespace =
      trimmed l ++ ((l.dropWhile isWhitespace).reverse.takeWhile isWhitespace).reverse := by
    rw [trimmed, ← List.reverse_append, List.takeWhile_append_dropWhile, List.reverse_reverse]
  refine ⟨l.takeWhile isWhitespace,
    ((l.dropWhile isWhitespace).reverse.takeWhile isWhitespace).reverse, ?_,
    fun c hc ↦ List.mem_takeWhile_imp hc, fun c hc ↦ ?_, ?_, ?_⟩
  · rw [← hjoin, List.takeWhile_append_dropWhile]
  · exact List.mem_takeWhile_imp (List.mem_reverse.1 hc)
  · intro c hc
    refine head_dropWhile isWhitespace l c ?_
    rw [hjoin, List.head?_append, hc]
    rfl
  · intro c hc
    rw [trimmed, List.getLast?_reverse] at hc
    exact head_dropWhile isWhitespace _ c hc

theorem bare_trimmed (l : List Char) : Bare (trimmed l) := by
  obtain ⟨_, _, -, -, -, hbare⟩ := trimmed_split l
  exact hbare

theorem trimmed_eq_self : trimmed l = l ↔ Bare l := by
  have hnone : ∀ c ∈ ([] : List Char), isWhitespace c := nofun
  refine ⟨fun hl ↦ hl ▸ bare_trimmed l, fun hl ↦ ?_⟩
  simpa using trimmed_around hnone hnone hl

theorem trimmed_append_blank (hafter : ∀ c ∈ after, isWhitespace c) :
    trimmed (l ++ after) = trimmed l := by
  obtain ⟨before, rest, hsplit, hbefore, hrest, hbare⟩ := trimmed_split l
  have hjoin : l ++ after = before ++ (trimmed l ++ (rest ++ after)) := by
    conv_lhs => rw [hsplit]
    simp only [List.append_assoc]
  rw [hjoin, trimmed_around hbefore (List.forall_mem_append.2 ⟨hrest, hafter⟩) hbare]

end Lists

section Spec

inductive Thousands (mark : Char → Prop) : List Char → List Char → Prop
  | nil : Thousands mark [] []
  | cons {sep a b c : Char} {text digits : List Char} (hsep : mark sep) (ha : a.isDigit)
      (hb : b.isDigit) (hc : c.isDigit) (hrest : Thousands mark text digits) :
      Thousands mark (sep :: a :: b :: c :: text) (a :: b :: c :: digits)

/-- The text of a whole number, with or without thousands grouping, and its digits. -/
structure Whole (mark : Char → Prop) (text digits : List Char) : Prop where
  split : ∃ first groups groupDigits, text = first ++ groups ∧ digits = first ++ groupDigits ∧
    first ≠ [] ∧ (∀ c ∈ first, c.isDigit) ∧ Thousands mark groups groupDigits ∧
    (groups ≠ [] → first.length ≤ 3)

/-- Up to two digits after the decimal separator, and their value in hundredths. -/
inductive Fraction (decimal : Char) : List Char → ℕ → Prop
  | none : Fraction decimal [] 0
  | tenths {a : Char} (ha : a.isDigit) :
      Fraction decimal [decimal, a] (10 * Nat.ofDigitChars 10 [a] 0)
  | hundredths {a b : Char} (ha : a.isDigit) (hb : b.isDigit) :
      Fraction decimal [decimal, a, b] (Nat.ofDigitChars 10 [a, b] 0)

/-- What may group thousands: the separator that is not the decimal one, or a blank. -/
def GroupMark (decimal c : Char) : Prop :=
  c ≠ decimal ∧ (isSeparator c ∨ isWhitespace c)

structure Numeral (decimal : Char) (text : List Char) (value : ℕ) : Prop where
  split : ∃ whole digits fraction cents, text = whole ++ fraction ∧
    Whole (GroupMark decimal) whole digits ∧ Fraction decimal fraction cents ∧
    value = 100 * Nat.ofDigitChars 10 digits 0 + cents

/-- What a numeral is in each style. Without a declared style it may be one of either. -/
def IsNumeral : DecimalStyle → List Char → ℕ → Prop
  | .auto, text, value => Numeral '.' text value ∨ Numeral ',' text value
  | .point, text, value => Numeral '.' text value
  | .comma, text, value => Numeral ',' text value

end Spec

section Characters

variable {decimal c : Char}

theorem isSeparator_not_digit (hc : isSeparator c) : c.isDigit = false := by
  rw [isSeparator, Bool.or_eq_true, decide_eq_true_eq, decide_eq_true_eq] at hc
  rcases hc with rfl | rfl <;> rfl

theorem isWhitespace_not_digit (hc : isWhitespace c) : c.isDigit = false := by
  by_contra hdigit
  rw [Bool.not_eq_false, Char.isDigit, Bool.and_eq_true, decide_eq_true_eq, decide_eq_true_eq]
    at hdigit
  have hlow : 48 ≤ c.toNat := hdigit.1
  have hhigh : c.toNat ≤ 57 := hdigit.2
  simp only [isWhitespace, Bool.or_eq_true, Bool.and_eq_true, decide_eq_true_eq] at hc
  omega

theorem isWhitespace_of_digit (hc : c.isDigit) : isWhitespace c = false := by
  by_contra hblank
  rw [Bool.not_eq_false] at hblank
  rw [isWhitespace_not_digit hblank] at hc
  cases hc

theorem isSeparator_of_digit (hc : c.isDigit) : isSeparator c = false := by
  by_contra hsep
  rw [Bool.not_eq_false] at hsep
  rw [isSeparator_not_digit hsep] at hc
  cases hc

theorem GroupMark.not_digit (hc : GroupMark decimal c) : c.isDigit = false :=
  hc.2.elim isSeparator_not_digit isWhitespace_not_digit

end Characters

section Groups

variable {decimal : Char} {text digits whole fraction before after groups : List Char} {value cents : ℕ}
  {sep : Char}

def cleaned (text : List Char) : List Char :=
  text.filter fun c ↦ c.isDigit || isSeparator c

theorem filter_isDigit_cleaned (text : List Char) :
    (cleaned text).filter Char.isDigit = text.filter Char.isDigit := by
  rw [cleaned, List.filter_filter]
  refine List.filter_congr fun c _ ↦ ?_
  cases c.isDigit <;> simp

theorem cleaned_of_digits (hdigits : ∀ c ∈ text, c.isDigit) : cleaned text = text :=
  List.filter_eq_self.2 fun c hc ↦ by simp [hdigits c hc]

theorem Thousands.filter_isDigit (hgroups : Thousands (GroupMark decimal) text digits) :
    text.filter Char.isDigit = digits := by
  induction hgroups with
  | nil => rfl
  | cons hsep ha hb hc _ ih =>
    rw [List.filter_cons_of_neg (by simp [hsep.not_digit])]
    simp [ha, hb, hc, ih]

theorem Thousands.mem (hgroups : Thousands (GroupMark decimal) text digits) :
    ∀ c ∈ text, c.isDigit ∨ GroupMark decimal c := by
  induction hgroups with
  | nil => exact nofun
  | cons hsep ha hb hc _ ih =>
    simp only [List.forall_mem_cons]
    exact ⟨.inr hsep, .inl ha, .inl hb, .inl hc, ih⟩

theorem Thousands.mono {mark mark' : Char → Prop} (hgroups : Thousands mark text digits)
    (hmarks : ∀ c ∈ text, mark c → mark' c) : Thousands mark' text digits := by
  induction hgroups with
  | nil => exact .nil
  | cons hsep ha hb hc _ ih =>
    simp only [List.forall_mem_cons] at hmarks
    exact .cons (hmarks.1 hsep) ha hb hc (ih hmarks.2.2.2.2)

/-- A separator does not stand among digits. -/
theorem suffix_of_digits (hdigits : ∀ c ∈ digits, c.isDigit) (hsep : isSeparator sep)
    (hsuffix : sep :: after <:+ digits ++ text) : sep :: after <:+ text := by
  induction digits with
  | nil => exact hsuffix
  | cons c digits ih =>
    rw [List.forall_mem_cons] at hdigits
    rw [List.cons_append, List.suffix_cons_iff, List.cons.injEq] at hsuffix
    rcases hsuffix with ⟨rfl, -⟩ | hsuffix
    · rw [isSeparator_not_digit hsep] at hdigits
      cases hdigits.1
    · exact ih hdigits.2 hsuffix

/-- Three digits or more follow every separator. -/
theorem Thousands.spaced {mark : Char → Prop} (hmarks : ∀ c, mark c → c.isDigit = false)
    (hgroups : Thousands mark text digits) (hsep : isSeparator sep)
    (hsuffix : sep :: after <:+ cleaned text) : 3 ≤ after.length := by
  induction hgroups with
  | nil => simp [cleaned] at hsuffix
  | @cons mark a b c text digits hmark ha hb hc _ ih =>
    have hdigits : ∀ d ∈ [a, b, c], d.isDigit := by simp [ha, hb, hc]
    have hrest : sep :: after <:+ [a, b, c] ++ cleaned text → 3 ≤ after.length :=
      fun hin ↦ ih (suffix_of_digits hdigits hsep hin)
    have hcleaned : cleaned (mark :: a :: b :: c :: text) = if isSeparator mark then
        mark :: ([a, b, c] ++ cleaned text) else [a, b, c] ++ cleaned text := by
      simp [cleaned, List.filter_cons, hmarks mark hmark, ha, hb, hc]
    rw [hcleaned] at hsuffix
    split at hsuffix
    · rw [List.suffix_cons_iff, List.cons.injEq] at hsuffix
      rcases hsuffix with ⟨-, rfl⟩ | hsuffix
      · simp
      · exact hrest hsuffix
    · exact hrest hsuffix

theorem Whole.filter_isDigit (hwhole : Whole (GroupMark decimal) whole digits) :
    whole.filter Char.isDigit = digits := by
  obtain ⟨first, groups, groupDigits, rfl, rfl, _, hfirst, hgroups, _⟩ := hwhole.split
  rw [List.filter_append, List.filter_eq_self.2 hfirst, hgroups.filter_isDigit]

theorem Whole.mem (hwhole : Whole (GroupMark decimal) whole digits) :
    ∀ c ∈ whole, c.isDigit ∨ GroupMark decimal c := by
  obtain ⟨first, groups, groupDigits, rfl, rfl, _, hfirst, hgroups, _⟩ := hwhole.split
  rw [List.forall_mem_append]
  exact ⟨fun c hc ↦ .inl (hfirst c hc), hgroups.mem⟩

theorem Whole.spaced (hwhole : Whole (GroupMark decimal) whole digits) (hsep : isSeparator sep)
    (hsuffix : sep :: after <:+ cleaned whole) : 3 ≤ after.length := by
  obtain ⟨first, groups, groupDigits, rfl, rfl, _, hfirst, hgroups, _⟩ := hwhole.split
  rw [cleaned, List.filter_append, ← cleaned, ← cleaned, cleaned_of_digits hfirst] at hsuffix
  exact hgroups.spaced (fun _ hc ↦ hc.not_digit) hsep (suffix_of_digits hfirst hsep hsuffix)

theorem Thousands.last (hgroups : Thousands (GroupMark decimal) text digits) (htext : text ≠ []) :
    ∃ c ∈ text.getLast?, c.isDigit := by
  induction hgroups with
  | nil => exact absurd rfl htext
  | @cons mark a b c text digits hmark ha hb hc hrest ih =>
    by_cases hnil : text = []
    · subst hnil
      exact ⟨c, rfl, hc⟩
    · obtain ⟨d, hd, hdigit⟩ := ih hnil
      have hlast : (mark :: a :: b :: c :: text).getLast? = some d := by
        have happend : mark :: a :: b :: c :: text = [mark, a, b, c] ++ text := rfl
        rw [happend, List.getLast?_append, hd, Option.some_or]
      exact ⟨d, hlast, hdigit⟩

/-- A whole number begins and ends with a digit. -/
theorem Whole.ends (hwhole : Whole (GroupMark decimal) whole digits) :
    (∃ c ∈ whole.head?, c.isDigit) ∧ ∃ c ∈ whole.getLast?, c.isDigit := by
  obtain ⟨first, groups, groupDigits, rfl, rfl, hne, hfirst, hgroups, _⟩ := hwhole.split
  constructor
  · rw [List.head?_append_of_ne_nil _ hne]
    exact ⟨first.head hne, List.head?_eq_some_head hne, hfirst _ (List.head_mem hne)⟩
  · by_cases hnil : groups = []
    · subst hnil
      rw [List.append_nil]
      exact ⟨first.getLast hne, List.getLast?_eq_some_getLast hne, hfirst _ (List.getLast_mem hne)⟩
    · obtain ⟨c, hc, hdigit⟩ := hgroups.last hnil
      exact ⟨c, by rw [List.getLast?_append, hc, Option.some_or]; rfl, hdigit⟩

theorem Whole.decimal_notMem (hdecimal : isSeparator decimal)
    (hwhole : Whole (GroupMark decimal) whole digits) : decimal ∉ whole := by
  intro hmem
  rcases hwhole.mem decimal hmem with hdigit | hmark
  · rw [isSeparator_not_digit hdecimal] at hdigit
    cases hdigit
  · exact hmark.1 rfl

/-- The separators of a whole number delimit groups. -/
theorem Whole.splitAuto_eq (hwhole : Whole (GroupMark decimal) whole digits) :
    splitAuto (cleaned whole) = (cleaned whole, []) := by
  rw [splitAuto]
  rcases splitLast_cases isSeparator (cleaned whole) with
    ⟨hnone, -⟩ | ⟨before, sep, after, hsplit, hsep, -, hsome⟩
  · rw [hnone]
  · have hspaced := hwhole.spaced hsep (hsplit ▸ List.suffix_append ..)
    simp only [hsome]
    rw [if_neg (by omega)]

end Groups

section Values

variable {decimal : Char} {text fraction : List Char} {value cents : ℕ}

theorem parseI64_eq (digits : List Char) : parseI64 digits =
    if Nat.ofDigitChars 10 digits 0 < 2 ^ 63 then some (Nat.ofDigitChars 10 digits 0) else none :=
  rfl

def amountOf (parts : List Char × List Char) : ℕ :=
  100 * Nat.ofDigitChars 10 (parts.1.filter Char.isDigit) 0 + centsOf parts.2

theorem toMinor_eq (parts : List Char × List Char) (original : String) :
    toMinor parts.1 parts.2 original = if amountOf parts < 2 ^ 63 then .ok (amountOf parts)
      else .error (.parse s!"amount overflow in {repr original}") := by
  rw [toMinor, amountOf, parseI64_eq]
  by_cases hmajor : Nat.ofDigitChars 10 (parts.1.filter Char.isDigit) 0 < 2 ^ 63
  · simp only [if_pos hmajor, Nat.mul_comm 100]
    split <;> rfl
  · rw [if_neg hmajor, if_neg (by omega)]
    rfl

theorem ofDigitChars_lt {digits : List Char} (hdigits : ∀ c ∈ digits, c.isDigit) :
    Nat.ofDigitChars 10 digits 0 < 10 ^ digits.length := by
  induction digits using List.reverseRecOn with
  | nil => simp
  | append_singleton digits c ih =>
    rw [List.forall_mem_append] at hdigits
    have hrest := ih hdigits.1
    have hc : c.toNat ≤ 57 := by
      have hdigit := hdigits.2 c (List.mem_singleton_self c)
      rw [Char.isDigit, Bool.and_eq_true, decide_eq_true_eq, decide_eq_true_eq] at hdigit
      exact hdigit.2
    have hvalue : c.toNat - '0'.toNat ≤ 9 := Nat.sub_le_of_le_add hc
    rw [Nat.ofDigitChars_append, Nat.ofDigitChars_cons, Nat.ofDigitChars_nil, List.length_append,
      List.length_singleton, Nat.pow_succ]
    omega

theorem centsOf_one {a : Char} (ha : a.isDigit) :
    centsOf [a] = 10 * Nat.ofDigitChars 10 [a] 0 := by
  have hlt : Nat.ofDigitChars 10 [a] 0 < 10 := ofDigitChars_lt (by simp [ha])
  simp only [centsOf, List.length_singleton, parseI64_eq]
  rw [if_pos (by omega), Option.getD_some]

theorem centsOf_two {a b : Char} (ha : a.isDigit) (hb : b.isDigit) :
    centsOf [a, b] = Nat.ofDigitChars 10 [a, b] 0 := by
  have hlt : Nat.ofDigitChars 10 [a, b] 0 < 100 := ofDigitChars_lt (by simp [ha, hb])
  simp only [centsOf, List.length_cons, List.length_nil, parseI64_eq]
  rw [if_pos (by omega), Option.getD_some]

theorem splitOnDecimalSep_of_notMem (htext : decimal ∉ text) (original : String) :
    splitOnDecimalSep text decimal original = .ok (text, []) := by
  have hnone : splitLast (· = decimal) text = none :=
    splitLast_eq_none fun c hc ↦ decide_eq_false fun heq ↦ htext (heq ▸ hc)
  simp only [splitOnDecimalSep, hnone]

/-- One or two digits after the last separator are the fraction in every style. -/
theorem split_fraction (text : List Char) (hdecimal : isSeparator decimal) (hdigits : ∀ c ∈ fraction, c.isDigit)
    (hlength : 1 ≤ fraction.length ∧ fraction.length ≤ 2) :
    splitAuto (text ++ decimal :: fraction) = (text, fraction) ∧
      ∀ original, splitOnDecimalSep (text ++ decimal :: fraction) decimal original =
        .ok (text, fraction) := by
  have hseparators : ∀ c ∈ fraction, isSeparator c = false :=
    fun c hc ↦ isSeparator_of_digit (hdigits c hc)
  have hdecimals : ∀ c ∈ fraction, decide (c = decimal) = false := by
    intro c hc
    refine decide_eq_false fun heq ↦ ?_
    rw [← heq, hseparators c hc] at hdecimal
    cases hdecimal
  have hlast : splitLast isSeparator (text ++ decimal :: fraction) = some (text, fraction) :=
    splitLast_append hseparators hdecimal
  have hlastDecimal : splitLast (· = decimal) (text ++ decimal :: fraction) =
      some (text, fraction) := splitLast_append hdecimals (decide_eq_true rfl)
  have hany : fraction.any isSeparator = false := by simpa using hseparators
  constructor
  · simp only [splitAuto, hlast]
    rw [if_pos hlength]
  · intro original
    simp only [splitOnDecimalSep, hlastDecimal, hany, Bool.false_eq_true, or_false]
    rw [if_neg (by omega)]

theorem cleaned_fraction (hdecimal : isSeparator decimal) (hdigits : ∀ c ∈ fraction, c.isDigit) :
    cleaned (text ++ decimal :: fraction) = cleaned text ++ decimal :: fraction := by
  have hkept : cleaned (decimal :: fraction) = decimal :: fraction := by
    rw [cleaned, List.filter_cons_of_pos (by simp [hdecimal]), ← cleaned, cleaned_of_digits hdigits]
  rw [cleaned, List.filter_append, ← cleaned, ← cleaned, hkept]

/-- What stands around the decimal separator of a numeral. -/
theorem Numeral.parts (hdecimal : isSeparator decimal) (htext : Numeral decimal text value) :
    ∃ parts, splitAuto (cleaned text) = parts ∧
      (∀ original, splitOnDecimalSep (cleaned text) decimal original = .ok parts) ∧
      value = amountOf parts := by
  obtain ⟨whole, digits, fraction, cents, rfl, hwhole, hfraction, rfl⟩ := htext.split
  have hdigits : (cleaned whole).filter Char.isDigit = digits := by
    rw [filter_isDigit_cleaned, hwhole.filter_isDigit]
  cases hfraction with
  | none =>
    rw [List.append_nil]
    refine ⟨(cleaned whole, []), hwhole.splitAuto_eq, splitOnDecimalSep_of_notMem ?_, ?_⟩
    · exact fun hmem ↦ hwhole.decimal_notMem hdecimal (List.mem_of_mem_filter hmem)
    · rw [amountOf, hdigits]
      rfl
  | @tenths a ha =>
    have hall : ∀ c ∈ [a], c.isDigit := by simp [ha]
    rw [cleaned_fraction hdecimal hall]
    obtain ⟨hauto, hstyled⟩ := split_fraction (cleaned whole) hdecimal hall (by simp)
    exact ⟨_, hauto, hstyled, by rw [amountOf, hdigits, centsOf_one ha]⟩
  | @hundredths a b ha hb =>
    have hall : ∀ c ∈ [a, b], c.isDigit := by simp [ha, hb]
    rw [cleaned_fraction hdecimal hall]
    obtain ⟨hauto, hstyled⟩ := split_fraction (cleaned whole) hdecimal hall (by simp)
    exact ⟨_, hauto, hstyled, by rw [amountOf, hdigits, centsOf_two ha hb]⟩

/-- No text is a numeral of two values. -/
theorem Numeral.unique {decimal' : Char} {value' : ℕ} (hdecimal : isSeparator decimal)
    (hdecimal' : isSeparator decimal') (htext : Numeral decimal text value)
    (htext' : Numeral decimal' text value') : value = value' := by
  obtain ⟨parts, hauto, -, rfl⟩ := htext.parts hdecimal
  obtain ⟨parts', hauto', -, rfl⟩ := htext'.parts hdecimal'
  rw [← hauto, ← hauto']

end Values

end SlipScan.Ingest.Numerals
