import SlipScan.Ingest.Amounts
import SlipScan.Model.Alerts

namespace SlipScan.Ingest.AlertAmounts

open Model.Database Model.Amounts Model.Alerts Numerals Amounts Foundation.Transaction

variable {h : AlertHost} {style : AmountStyle} {raw : String} {minor : ℤ}
  {text body before frac first groups fraction digits : List Char} {sep decimal : Char} {value : ℕ}

section Acceptance

def strippedOf (h : AlertHost) (raw : String) : List Char :=
  stripCurrencyMarkers h (trimmed (normalizeSpaces raw.toList))

/-- What a captured text has passed when it is taken for an amount. -/
structure Accepted (h : AlertHost) (raw : String) (style : AmountStyle) (minor : ℤ) : Prop where
  shape : amountShape h (strippedOf h raw) = true
  declared : checkDecimalSeparator raw (strippedOf h raw) style = .ok ()
  parsed : parseAmountMinorStyled (String.ofList (strippedOf h raw)) style.decimalStyle = .ok minor
  positive : 0 < minor
  bounded : minor ≤ maxAlertAmountMinor

theorem accepted_of_parse (hparse : parseAlertAmount h raw style = .ok minor) :
    Accepted h raw style minor := by
  rw [parseAlertAmount, ← strippedOf] at hparse
  dsimp only at hparse
  rw [except_guard_eq_ok, except_guard_eq_ok, except_guard_eq_ok, except_bind_eq_ok, exists_unit,
    except_bind_eq_ok] at hparse
  obtain ⟨-, -, hshape, hcheck, n, hn, hrest⟩ := hparse
  rw [except_guard_eq_ok, except_guard_eq_ok, except_pure_eq_ok] at hrest
  obtain ⟨hpositive, hbounded, rfl⟩ := hrest
  exact ⟨by simpa using hshape, hcheck, except_mapError_eq_ok.1 hn, not_le.1 hpositive,
    not_lt.1 hbounded⟩

theorem parse_body {style : DecimalStyle} (hbody : IsBody body) :
    parseAmountMinorStyled (String.ofList body) style =
      (splitAmount (cleaned body) style (String.ofList body)).bind fun parts ↦
        (toMinor parts.1 parts.2 (String.ofList body)).map fun minor : ℕ ↦ (minor : ℤ) := by
  have hwritten : unsigned.IsWritten := nofun
  have hpad : ∀ c ∈ ([] : List Char), isWhitespace c := nofun
  have hraw : (String.ofList body).toList = [] ++ (unsigned.dress body ++ []) := by
    simp [Sign.dress, Sign.enclosed, Sign.signed, Sign.markerText, unsigned]
  exact parse_dress hwritten hbody hpad hpad hraw

/-- A numeral is read as what it says, if that fits. -/
theorem parse_isNumeral {style : DecimalStyle} (hbody : IsNumeral style body value)
    (hparse : parseAmountMinorStyled (String.ofList body) style = .ok minor) : minor = value := by
  obtain ⟨parts, hparts, rfl⟩ := splitAmount_of_isNumeral hbody (String.ofList body)
  rw [parse_body (isBody_of_isNumeral hbody), hparts, Except.bind, toMinor_eq] at hparse
  by_cases hfits : amountOf parts < 2 ^ 63
  · rw [if_pos hfits] at hparse
    exact (Except.ok.inj hparse).symm
  · rw [if_neg hfits] at hparse
    cases hparse

/-- The decimal separator of the declared style does not group. -/
theorem notMem_of_parse {style : DecimalStyle} {declared other : Char}
    (hstyle : Opposed style declared other) (hbody : Numeral other body value)
    (hparse : parseAmountMinorStyled (String.ofList body) style = .ok minor) : declared ∉ body := by
  intro hmem
  obtain ⟨e, he⟩ := splitOnDecimalSep_isError hstyle hbody hmem (String.ofList body)
  rw [parse_body (isBody_of_numeral hstyle.separators.2.1 hbody), hstyle.splitAmount_eq, he] at hparse
  cases hparse

end Acceptance

section Shapes

/-- What is known of the digits of Unicode: those of ASCII are among them, and they are neither blanks
nor separators. -/
structure DigitTable (h : AlertHost) : Prop where
  ascii : ∀ c, c.isDigit → h.isDecimalDigit c
  notMark : ∀ c, h.isDecimalDigit c → isWhitespace c = false ∧ isSeparator c = false

structure EndsIn (text before : List Char) (sep : Char) (frac : List Char) : Prop where
  split : text = before ++ sep :: frac
  separator : isSeparator sep
  length : 1 ≤ frac.length ∧ frac.length ≤ 2
  digits : ∀ c ∈ frac, c.isDigit

/-- Every digit is one of ASCII, and no separator has two roles: what stands before the last one or
two digits does not group as well, and otherwise only one of the two separators groups. -/
structure Clean (h : AlertHost) (text : List Char) : Prop where
  ascii : ∀ c ∈ text, h.isDecimalDigit c → c.isDigit
  decimal : ∀ before sep frac, EndsIn text before sep frac → sep ∉ before
  grouping : (∀ before sep frac, ¬EndsIn text before sep frac) → ¬('.' ∈ text ∧ ',' ∈ text)

theorem endsIn_splitLast (hends : EndsIn text before sep frac) :
    splitLast isSeparator text = some (before, frac) := by
  rw [hends.split]
  exact splitLast_append (fun c hc ↦ isSeparator_of_digit (hends.digits c hc)) hends.separator

theorem endsIn_unique {before' frac' : List Char} {sep' : Char} (hends : EndsIn text before sep frac)
    (hends' : EndsIn text before' sep' frac') : before = before' ∧ sep = sep' := by
  have hsame := (endsIn_splitLast hends).symm.trans (endsIn_splitLast hends')
  obtain ⟨rfl, rfl⟩ := Prod.mk.inj (Option.some.inj hsame)
  have hsplit := hends.split.symm.trans hends'.split
  exact ⟨rfl, (List.cons.inj (List.append_cancel_left hsplit)).1⟩

/-- In a text that ends in a group no separator is followed by one or two digits. -/
theorem not_endsIn {mark : Char → Prop} (hmarks : ∀ c, mark c → c.isDigit = false)
    (hfirst : ∀ c ∈ first, c.isDigit) (hgroups : Thousands mark groups digits) :
    ¬EndsIn (first ++ groups) before sep frac := by
  intro hends
  have hcleaned : cleaned (first ++ groups) = cleaned before ++ sep :: frac := by
    rw [hends.split, cleaned_fraction hends.separator hends.digits]
  rw [cleaned, List.filter_append, ← cleaned, ← cleaned, cleaned_of_digits hfirst] at hcleaned
  have hsuffix : sep :: frac <:+ first ++ cleaned groups := by
    rw [hcleaned]
    exact List.suffix_append ..
  have hspaced := hgroups.spaced hmarks hends.separator
    (suffix_of_digits hfirst hends.separator hsuffix)
  have hshort := hends.length.2
  omega

theorem endsIn_fraction {cents : ℕ} (before : List Char) (hdecimal : isSeparator decimal)
    (hfraction : Fraction decimal fraction cents) :
    fraction = [] ∨ ∃ frac, EndsIn (before ++ fraction) before decimal frac := by
  cases hfraction with
  | none => exact .inl rfl
  | @tenths a ha => exact .inr ⟨[a], rfl, hdecimal, by simp, by simp [ha]⟩
  | @hundredths a b ha hb => exact .inr ⟨[a, b], rfl, hdecimal, by simp, by simp [ha, hb]⟩

theorem clean_of_numeral (htable : DigitTable h) (hdecimal : isSeparator decimal)
    (htext : Numeral decimal text value) : Clean h text := by
  obtain ⟨whole, digits, fraction, cents, rfl, hwhole, hfraction, -⟩ := htext.split
  obtain ⟨first, groups, groupDigits, hsplit, -, -, hfirst, hgroups, -⟩ := hwhole.split
  have hnotEnds : ∀ before sep frac, ¬EndsIn whole before sep frac := by
    rw [hsplit]
    exact fun _ _ _ ↦ not_endsIn (fun _ hc ↦ hc.not_digit) hfirst hgroups
  have hnotMem := hwhole.decimal_notMem hdecimal
  refine ⟨?_, fun before sep frac hends ↦ ?_, fun hnone hboth ↦ ?_⟩
  · intro c hc hdigit
    rcases List.mem_append.1 hc with hin | hin
    · refine (hwhole.mem c hin).resolve_right fun hmark ↦ ?_
      obtain ⟨hblank, hsep⟩ := htable.notMark c hdigit
      rcases hmark.2 with hmark | hmark
      · rw [hsep] at hmark
        cases hmark
      · rw [hblank] at hmark
        cases hmark
    · rcases endsIn_fraction whole hdecimal hfraction with rfl | ⟨frac, hends⟩
      · cases hin
      · obtain rfl : fraction = decimal :: frac := List.append_cancel_left hends.split
        rcases List.mem_cons.1 hin with rfl | hin
        · rw [(htable.notMark c hdigit).2] at hdecimal
          cases hdecimal
        · exact hends.digits c hin
  · rcases endsIn_fraction whole hdecimal hfraction with rfl | ⟨frac', hends'⟩
    · rw [List.append_nil] at hends
      exact absurd hends (hnotEnds _ _ _)
    · obtain ⟨rfl, rfl⟩ := endsIn_unique hends hends'
      exact hnotMem
  · rcases endsIn_fraction whole hdecimal hfraction with rfl | ⟨frac', hends'⟩
    · rw [List.append_nil] at hboth
      rw [isSeparator, Bool.or_eq_true, decide_eq_true_eq, decide_eq_true_eq] at hdecimal
      rcases hdecimal with rfl | rfl
      · exact hnotMem hboth.1
      · exact hnotMem hboth.2
    · exact hnone _ _ _ hends'

/-- What the groups of a shape are when their digits are those of ASCII. -/
theorem matchesGroups_split (hmatches : matchesGroups h text)
    (hascii : ∀ c ∈ text, h.isDecimalDigit c → c.isDigit) :
    ∃ groups fraction digits, text = groups ++ fraction ∧
      Thousands (fun c ↦ isGroupSeparator c) groups digits ∧ matchesFraction h fraction := by
  induction text using matchesGroups.induct with
  | case1 sep a b c rest ih =>
    simp only [matchesGroups, Bool.and_eq_true] at hmatches
    simp only [List.forall_mem_cons] at hascii
    obtain ⟨⟨⟨⟨hsep, ha⟩, hb⟩, hc⟩, hrest⟩ := hmatches
    obtain ⟨-, ha', hb', hc', hascii⟩ := hascii
    obtain ⟨groups, fraction, digits, rfl, hgroups, hfraction⟩ := ih hrest hascii
    exact ⟨sep :: a :: b :: c :: groups, fraction, a :: b :: c :: digits, rfl,
      .cons hsep (ha' ha) (hb' hb) (hc' hc) hgroups, hfraction⟩
  | case2 rest hshort =>
    rw [matchesGroups.eq_2 h rest hshort] at hmatches
    exact ⟨[], rest, [], rfl, .nil, hmatches⟩

structure Shaped (h : AlertHost) (first groups fraction digits : List Char) : Prop where
  first_ne : first ≠ []
  first_digits : ∀ c ∈ first, c.isDigit
  thousands : Thousands (fun c ↦ isGroupSeparator c) groups digits
  short : groups ≠ [] → first.length ≤ 3
  matches_fraction : matchesFraction h fraction = true

theorem shaped_of_amountShape (hshape : amountShape h text)
    (hascii : ∀ c ∈ text, h.isDecimalDigit c → c.isDigit) :
    ∃ first groups fraction digits, text = first ++ groups ++ fraction ∧
      Shaped h first groups fraction digits := by
  rw [amountShape, decide_eq_true_eq] at hshape
  obtain ⟨hne, hrest⟩ := hshape
  have hsplit := List.takeWhile_append_dropWhile (p := h.isDecimalDigit) (l := text)
  have hfirst : ∀ c ∈ text.takeWhile h.isDecimalDigit, c.isDigit :=
    fun c hc ↦ hascii c ((List.takeWhile_prefix _).subset hc) (List.mem_takeWhile_imp hc)
  rcases hrest with ⟨hlength, hgroups⟩ | hfraction
  · obtain ⟨groups, fraction, digits, hdrop, hthousands, hfraction⟩ := matchesGroups_split hgroups
      fun c hc ↦ hascii c ((List.dropWhile_suffix _).subset hc)
    refine ⟨_, groups, fraction, digits, ?_, hne, hfirst, hthousands, fun _ ↦ hlength, hfraction⟩
    rw [List.append_assoc, ← hdrop, hsplit]
  · refine ⟨_, [], _, [], ?_, hne, hfirst, .nil, fun hnil ↦ absurd rfl hnil, hfraction⟩
    rw [List.append_nil, hsplit]

theorem fraction_of_matches (hfraction : matchesFraction h fraction)
    (hascii : ∀ c ∈ fraction, h.isDecimalDigit c → c.isDigit) :
    fraction = [] ∨ ∃ sep cents, isSeparator sep ∧ Fraction sep fraction cents ∧ fraction ≠ [] := by
  rw [matchesFraction.eq_def] at hfraction
  split at hfraction
  · exact .inl rfl
  · rename_i sep a
    rw [Bool.and_eq_true] at hfraction
    refine .inr ⟨sep, _, hfraction.1, .tenths (hascii a (by simp) hfraction.2), by simp⟩
  · rename_i sep a b
    rw [Bool.and_eq_true, Bool.and_eq_true] at hfraction
    refine .inr ⟨sep, _, hfraction.1.1, .hundredths (hascii a (by simp) hfraction.1.2)
      (hascii b (by simp) hfraction.2), by simp⟩
  · cases hfraction

/-- A separator that groups nothing can be the decimal one. -/
theorem numeral_of_shaped {cents : ℕ} (hshaped : Shaped h first groups fraction digits)
    (hnotMem : decimal ∉ groups) (hfraction : Fraction decimal fraction cents) :
    ∃ value, Numeral decimal (first ++ groups ++ fraction) value := by
  have hgroups : Thousands (GroupMark decimal) groups digits := by
    refine hshaped.thousands.mono fun c hc hmark ↦ ⟨fun heq ↦ hnotMem (heq ▸ hc), ?_⟩
    rw [isGroupSeparator, Bool.or_eq_true, decide_eq_true_eq] at hmark
    rcases hmark with rfl | hsep
    · exact .inr rfl
    · exact .inl hsep
  exact ⟨_, first ++ groups, first ++ digits, fraction, cents, rfl, ⟨first, groups, digits, rfl, rfl,
    hshaped.first_ne, hshaped.first_digits, hgroups, hshaped.short⟩, hfraction, rfl⟩

end Shapes

section Exactness

theorem utf8Len_of_digits (hdigits : ∀ c ∈ frac, c.isDigit) :
    String.utf8Len frac = frac.length := by
  induction frac with
  | nil => rfl
  | cons c frac ih =>
    rw [List.forall_mem_cons] at hdigits
    have hsize : c.utf8Size = 1 := by
      have hdigit := hdigits.1
      rw [Char.isDigit, Bool.and_eq_true, decide_eq_true_eq, decide_eq_true_eq] at hdigit
      exact Char.utf8Size_eq_one_iff.2 (UInt32.le_trans hdigit.2 (by decide))
    rw [String.utf8Len_cons, ih hdigits.2, hsize, List.length_cons]

theorem impliedDecimalSeparator_of_endsIn (hends : EndsIn text before sep frac) :
    impliedDecimalSeparator text = some sep := by
  have hlength := hends.length
  have hdigits : frac.all Char.isDigit := List.all_eq_true.2 hends.digits
  simp only [impliedDecimalSeparator, endsIn_splitLast hends, utf8Len_of_digits hends.digits]
  rw [if_pos ⟨hlength.1, hlength.2, hdigits⟩, hends.split, List.getElem?_append_right le_rfl,
    Nat.sub_self, List.getElem?_cons_zero]

/-- A decimal separator that is used is one that the style allows. -/
theorem isNumeral_of_endsIn (hends : EndsIn text before sep frac)
    (hcheck : checkDecimalSeparator raw text style = .ok ()) (htext : Numeral sep text value) :
    IsNumeral style.decimalStyle text value := by
  rw [checkDecimalSeparator, impliedDecimalSeparator_of_endsIn hends] at hcheck
  have hseparator := hends.separator
  rw [isSeparator, Bool.or_eq_true, decide_eq_true_eq, decide_eq_true_eq] at hseparator
  cases style with
  | auto =>
    rcases hseparator with rfl | rfl
    · exact .inl htext
    · exact .inr htext
  | point =>
    rcases hseparator with rfl | rfl
    · exact htext
    · cases hcheck
  | comma =>
    rcases hseparator with rfl | rfl
    · cases hcheck
    · exact htext

/-- A text without a fraction in which one separator groups at most. -/
theorem isNumeral_of_whole (hshaped : Shaped h first groups [] digits)
    (hnotBoth : ¬('.' ∈ first ++ groups ∧ ',' ∈ first ++ groups))
    (hparse : parseAmountMinorStyled (String.ofList (first ++ groups)) style.decimalStyle =
      .ok minor) : ∃ value, IsNumeral style.decimalStyle (first ++ groups) value := by
  have hnumeral : ∀ sep, sep ∉ first ++ groups → ∃ value, Numeral sep (first ++ groups) value := by
    intro sep hnotMem
    obtain ⟨value, hvalue⟩ := numeral_of_shaped hshaped
      (fun hmem ↦ hnotMem (List.mem_append_right _ hmem)) .none
    rw [List.append_nil] at hvalue
    exact ⟨value, hvalue⟩
  have hopposed : ∀ {style : DecimalStyle} {declared other : Char}, Opposed style declared other →
      (other ∉ first ++ groups ∨ declared ∉ first ++ groups) →
      parseAmountMinorStyled (String.ofList (first ++ groups)) style = .ok minor →
      declared ∉ first ++ groups := by
    rintro style declared other hstyle (hother | hdeclared) hparse
    · obtain ⟨value, hvalue⟩ := hnumeral other hother
      exact notMem_of_parse hstyle hvalue hparse
    · exact hdeclared
  rw [not_and_or] at hnotBoth
  cases style with
  | auto =>
    rcases hnotBoth with hpoint | hcomma
    · exact (hnumeral _ hpoint).imp fun _ ↦ .inl
    · exact (hnumeral _ hcomma).imp fun _ ↦ .inr
  | point => exact hnumeral _ (hopposed .point hnotBoth.symm hparse)
  | comma => exact hnumeral _ (hopposed .comma hnotBoth hparse)

theorem isNumeral_of_clean (haccepted : Accepted h raw style minor)
    (hclean : Clean h (strippedOf h raw)) :
    ∃ value, IsNumeral style.decimalStyle (strippedOf h raw) value := by
  obtain ⟨first, groups, fraction, digits, hsplit, hshaped⟩ :=
    shaped_of_amountShape haccepted.shape hclean.ascii
  have hascii : ∀ c ∈ fraction, h.isDecimalDigit c → c.isDigit := by
    intro c hc
    refine hclean.ascii c ?_
    rw [hsplit]
    exact List.mem_append_right _ hc
  rcases fraction_of_matches hshaped.matches_fraction hascii with
    rfl | ⟨sep, cents, hsep, hfraction, hne⟩
  · rw [List.append_nil] at hsplit
    have hnone : ∀ before sep frac, ¬EndsIn (strippedOf h raw) before sep frac := by
      rw [hsplit]
      refine fun _ _ _ ↦ not_endsIn (fun c hc ↦ ?_) hshaped.first_digits hshaped.thousands
      rw [isGroupSeparator, Bool.or_eq_true, decide_eq_true_eq] at hc
      rcases hc with rfl | hc
      · rfl
      · exact isSeparator_not_digit hc
    have hnotBoth := hclean.grouping hnone
    have hparse := haccepted.parsed
    rw [hsplit] at hnotBoth hparse ⊢
    exact isNumeral_of_whole hshaped hnotBoth hparse
  · rcases endsIn_fraction (first ++ groups) hsep hfraction with rfl | ⟨frac, hends⟩
    · exact absurd rfl hne
    · rw [← hsplit] at hends
      have hnotMem := hclean.decimal _ _ _ hends
      obtain ⟨value, hvalue⟩ := numeral_of_shaped hshaped
        (fun hmem ↦ hnotMem (List.mem_append_right _ hmem)) hfraction
      rw [← hsplit] at hvalue
      exact ⟨value, isNumeral_of_endsIn hends haccepted.declared hvalue⟩

/-- A text that says two amounts, as a numeral of either style or to a rule that declares it. -/
def ReadsTwice (h : AlertHost) (raw : String) : Prop :=
  (∃ v w, v ≠ w ∧ Numeral '.' (strippedOf h raw) v ∧ Numeral ',' (strippedOf h raw) w) ∨
    ∃ m n, m ≠ n ∧ parseAlertAmount h raw .point = .ok m ∧ parseAlertAmount h raw .comma = .ok n

/-- The amount is what the text says as a numeral of the style, and a text that says two amounts is
read in a declared style only. -/
structure Exact (h : AlertHost) (raw : String) (style : AmountStyle) (minor : ℤ) : Prop where
  numeral : ∃ value : ℕ, IsNumeral style.decimalStyle (strippedOf h raw) value ∧ minor = value
  bounds : 0 < minor ∧ minor ≤ maxAlertAmountMinor
  declared : ReadsTwice h raw → style ≠ .auto

theorem numeral_of_clean (hclean : Clean h (strippedOf h raw))
    (hparse : parseAlertAmount h raw style = .ok minor) :
    ∃ value : ℕ, IsNumeral style.decimalStyle (strippedOf h raw) value ∧ minor = value := by
  have haccepted := accepted_of_parse hparse
  obtain ⟨value, hvalue⟩ := isNumeral_of_clean haccepted hclean
  exact ⟨value, hvalue, parse_isNumeral hvalue haccepted.parsed⟩

theorem not_readsTwice (hclean : Clean h (strippedOf h raw)) : ¬ReadsTwice h raw := by
  rintro (⟨v, w, hne, hpoint, hcomma⟩ | ⟨m, n, hne, hpoint, hcomma⟩)
  · exact hne (Numeral.unique rfl rfl hpoint hcomma)
  · obtain ⟨v, hv, rfl⟩ := numeral_of_clean hclean hpoint
    obtain ⟨w, hw, rfl⟩ := numeral_of_clean hclean hcomma
    exact hne (congrArg Nat.cast (Numeral.unique rfl rfl hv hw))

theorem exact_iff (htable : DigitTable h) (hparse : parseAlertAmount h raw style = .ok minor) :
    Exact h raw style minor ↔ Clean h (strippedOf h raw) := by
  constructor
  · intro hexact
    obtain ⟨value, hvalue, -⟩ := hexact.numeral
    cases style with
    | auto => exact hvalue.elim (clean_of_numeral htable rfl) (clean_of_numeral htable rfl)
    | point => exact clean_of_numeral htable rfl hvalue
    | comma => exact clean_of_numeral htable rfl hvalue
  · intro hclean
    have haccepted := accepted_of_parse hparse
    exact ⟨numeral_of_clean hclean hparse, ⟨haccepted.positive, haccepted.bounded⟩,
      fun htwice ↦ absurd htwice (not_readsTwice hclean)⟩

def arabicHost : AlertHost where
  isAlphabetic := Char.isAlpha
  isAlphanumeric c := c.isAlphanum || c = '٣'
  isDecimalDigit c := c.isDigit || c = '٣'

theorem digitTable_arabic : DigitTable arabicHost := by
  refine ⟨fun c hc ↦ by simp [arabicHost, hc], fun c hc ↦ ?_⟩
  rw [arabicHost, Bool.or_eq_true, decide_eq_true_eq] at hc
  rcases hc with hdigit | rfl
  · exact ⟨isWhitespace_of_digit hdigit, isSeparator_of_digit hdigit⟩
  · decide

theorem exact_rand : parseAlertAmount arabicHost "R 1 234,50" .comma = .ok 123450 ∧
    (Exact arabicHost "R 1 234,50" .comma 123450 ↔
      Clean arabicHost (strippedOf arabicHost "R 1 234,50")) := by
  have hparse : parseAlertAmount arabicHost "R 1 234,50" .comma = .ok 123450 := by decide
  exact ⟨hparse, exact_iff digitTable_arabic hparse⟩

/-- A digit is dropped, and the amount is ten times too small. -/
theorem not_exact_dropped : parseAlertAmount arabicHost "1٣4.50" .auto = .ok 1450 ∧
    ¬Exact arabicHost "1٣4.50" .auto 1450 := by
  refine ⟨by decide, fun hexact ↦ ?_⟩
  have hstripped : strippedOf arabicHost "1٣4.50" = "1٣4.50".toList := by decide
  obtain ⟨value, hvalue, -⟩ := hexact.numeral
  have hclean : Clean arabicHost (strippedOf arabicHost "1٣4.50") :=
    hvalue.elim (clean_of_numeral digitTable_arabic rfl) (clean_of_numeral digitTable_arabic rfl)
  rw [hstripped] at hclean
  exact absurd (hclean.ascii '٣' (by decide) (by decide)) (by decide)

end Exactness

end SlipScan.Ingest.AlertAmounts
