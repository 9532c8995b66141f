import SlipScan.Ingest.Numerals

namespace SlipScan.Ingest.Amounts

open Model.Database Model.Amounts Numerals

section Dressing

structure Sign where
  minusBefore : Bool
  minusAfter : Bool
  parentheses : Bool
  /-- Blanks, and then the letters Cr or Dr. -/
  marker : Option (List Char × List Char)

def Sign.negative (sign : Sign) : Bool :=
  sign.minusBefore || sign.minusAfter || sign.parentheses ||
    sign.marker.any fun m ↦ m.2.map Char.toLower = "dr".toList

def Sign.markerText (sign : Sign) : List Char :=
  (sign.marker.map fun m ↦ m.1 ++ m.2).getD []

def Sign.IsWritten (sign : Sign) : Prop :=
  ∀ m ∈ sign.marker, (∀ c ∈ m.1, isWhitespace c) ∧
    (m.2.map Char.toLower = "cr".toList ∨ m.2.map Char.toLower = "dr".toList)

def Sign.signed (sign : Sign) (body : List Char) : List Char :=
  (if sign.minusBefore then ['-'] else []) ++ body ++ (if sign.minusAfter then ['-'] else [])

def Sign.enclosed (sign : Sign) (body : List Char) : List Char :=
  if sign.parentheses then '(' :: (sign.signed body ++ [')']) else sign.signed body

def Sign.dress (sign : Sign) (body : List Char) : List Char :=
  sign.enclosed body ++ sign.markerText

variable {sign : Sign} {body pad pad' : List Char} {style : DecimalStyle} {raw : String}

/-- What the parser needs to know of a numeral to get at it. -/
structure IsBody (body : List Char) : Prop where
  head : ∃ c ∈ body.head?, c.isDigit
  last : ∃ c ∈ body.getLast?, c.isDigit
  noMinus : '-' ∉ body

theorem IsBody.ne_nil (hbody : IsBody body) : body ≠ [] := by
  rintro rfl
  obtain ⟨c, hc, -⟩ := hbody.head
  cases hc

theorem toLower_of_digit {c : Char} (hc : c.isDigit) : c.toLower = c := by
  refine dif_neg fun hupper ↦ ?_
  rw [Char.isDigit, Bool.and_eq_true, decide_eq_true_eq, decide_eq_true_eq] at hc
  have hlow : 65 ≤ c.val.toNat := hupper.1
  have hhigh : c.val.toNat ≤ 57 := hc.2
  omega

/-- A text that begins and ends with no blank and does not end in a marker. -/
structure Bounded (l : List Char) : Prop where
  ne_nil : l ≠ []
  head : ∀ c ∈ l.head?, isWhitespace c = false
  last : ∀ c ∈ l.getLast?, isWhitespace c = false ∧ c.toLower ≠ 'r'

theorem IsBody.signed_ends (hbody : IsBody body) (sign : Sign) :
    (∃ c ∈ (sign.signed body).head?, c.isDigit ∨ c = '-') ∧
      ∃ c ∈ (sign.signed body).getLast?, c.isDigit ∨ c = '-' := by
  obtain ⟨c, hc, hdigit⟩ := hbody.head
  obtain ⟨d, hd, hdigit'⟩ := hbody.last
  constructor
  · rw [Sign.signed]
    cases sign.minusBefore with
    | true => exact ⟨'-', rfl, .inr rfl⟩
    | false => exact ⟨c, by simpa using .inl hc, .inl hdigit⟩
  · rw [Sign.signed]
    cases sign.minusAfter with
    | true => exact ⟨'-', by simp, .inr rfl⟩
    | false => exact ⟨d, by simpa using .inl hd, .inl hdigit'⟩

theorem getLast?_enclosed (l : List Char) : ('(' :: (l ++ [')'])).getLast? = some ')' := by
  rw [← List.cons_append]
  exact List.getLast?_concat ..

theorem bounded_enclosed (hbody : IsBody body) (sign : Sign) : Bounded (sign.enclosed body) := by
  obtain ⟨⟨c, hc, hfirst⟩, d, hd, hlast⟩ := hbody.signed_ends sign
  rw [Sign.enclosed]
  split
  · refine ⟨List.cons_ne_nil _ _, fun c' hc' ↦ ?_, fun d' hd' ↦ ?_⟩
    · obtain rfl := Option.some.inj hc'
      rfl
    · rw [getLast?_enclosed] at hd'
      obtain rfl := Option.some.inj hd'
      exact ⟨rfl, by decide⟩
  · refine ⟨fun hnil ↦ ?_, fun c' hc' ↦ ?_, fun d' hd' ↦ ?_⟩
    · rw [hnil] at hc
      cases hc
    · obtain rfl := Option.mem_unique hc hc'
      rcases hfirst with hdigit | rfl
      · exact isWhitespace_of_digit hdigit
      · rfl
    · obtain rfl := Option.mem_unique hd hd'
      rcases hlast with hdigit | rfl
      · refine ⟨isWhitespace_of_digit hdigit, ?_⟩
        rw [toLower_of_digit hdigit]
        rintro rfl
        cases hdigit
      · exact ⟨rfl, by decide⟩

theorem stripParentheses_enclosed (hbody : IsBody body) :
    stripParentheses (sign.enclosed body) = (sign.signed body, sign.parentheses) := by
  rw [Sign.enclosed, stripParentheses]
  cases sign.parentheses with
  | true => simp [getLast?_enclosed]
  | false =>
    obtain ⟨⟨c, hc, hfirst⟩, -⟩ := hbody.signed_ends sign
    simp only [Bool.false_eq_true, if_false]
    rw [if_neg]
    rintro ⟨hopen, -⟩
    obtain rfl := Option.mem_unique hc hopen
    rcases hfirst with hdigit | hminus
    · cases hdigit
    · cases hminus

theorem contains_signed (hbody : IsBody body) :
    (sign.signed body).contains '-' = (sign.minusBefore || sign.minusAfter) := by
  have hno := hbody.noMinus
  rw [Sign.signed]
  cases sign.minusBefore <;> cases sign.minusAfter <;> simp [hno]

theorem cleaned_signed (sign : Sign) (body : List Char) :
    cleaned (sign.signed body) = cleaned body := by
  rw [Sign.signed, cleaned, List.filter_append, List.filter_append]
  cases sign.minusBefore <;> cases sign.minusAfter <;> simp [cleaned, isSeparator]

theorem stripMarker_dress (hsign : sign.IsWritten) (hbody : IsBody body) :
    ∃ gap, (∀ c ∈ gap, isWhitespace c) ∧ stripMarker (sign.dress body) =
      (sign.enclosed body ++ gap, sign.marker.any fun m ↦ m.2.map Char.toLower = "dr".toList) := by
  rw [Sign.dress, Sign.markerText]
  cases hmarker : sign.marker with
  | none =>
    have hlast : ∀ marker : List Char, marker.getLast? = some 'r' →
        ¬marker <:+ (sign.enclosed body).map Char.toLower := by
      rintro marker hmarker ⟨before, hbefore⟩
      have hr : ((sign.enclosed body).map Char.toLower).getLast? = some 'r' := by
        rw [← hbefore, List.getLast?_append, hmarker]
        rfl
      rw [List.getLast?_map] at hr
      obtain ⟨c, hc, hlower⟩ := Option.map_eq_some_iff.1 hr
      exact ((bounded_enclosed hbody sign).last c hc).2 hlower
    refine ⟨[], nofun, ?_⟩
    simp only [Option.map_none, Option.getD_none, List.append_nil, Option.any_none, stripMarker]
    rw [if_neg (hlast _ rfl), if_neg (hlast _ rfl)]
  | some m =>
    obtain ⟨gap, letters⟩ := m
    obtain ⟨hgap, hletters⟩ := hsign _ hmarker
    refine ⟨gap, hgap, ?_⟩
    have hlength : letters.length = 2 := by
      rcases hletters with hcr | hdr
      · simpa using congrArg List.length hcr
      · simpa using congrArg List.length hdr
    have htake : (sign.enclosed body ++ (gap ++ letters)).take
        ((sign.enclosed body ++ (gap ++ letters)).length - 2) = sign.enclosed body ++ gap := by
      rw [← List.append_assoc, List.length_append, hlength, Nat.add_sub_cancel, List.take_left]
    have hsuffix : letters.map Char.toLower <:+
        (sign.enclosed body ++ (gap ++ letters)).map Char.toLower := by
      simp only [List.map_append, ← List.append_assoc]
      exact List.suffix_append ..
    simp only [Option.map_some, Option.getD_some, Option.any_some, stripMarker, htake]
    rcases hletters with hcr | hdr
    · rw [hcr] at hsuffix ⊢
      rw [if_pos hsuffix]
      rfl
    · rw [hdr] at hsuffix ⊢
      rw [if_neg, if_pos hsuffix]
      · rfl
      · intro hcr
        have heq := List.suffix_of_suffix_length_le hcr hsuffix le_rfl
        exact absurd (heq.eq_of_length rfl) (by decide)

theorem blank_marker {marker : List Char × List Char}
    (hletters : marker.2.map Char.toLower = "cr".toList ∨ marker.2.map Char.toLower = "dr".toList) :
    ∃ c ∈ marker.2.getLast?, isWhitespace c = false := by
  have hr : (marker.2.map Char.toLower).getLast? = some 'r' := by
    rcases hletters with hcr | hdr
    · rw [hcr]
      rfl
    · rw [hdr]
      rfl
  rw [List.getLast?_map] at hr
  obtain ⟨c, hc, hlower⟩ := Option.map_eq_some_iff.1 hr
  refine ⟨c, hc, ?_⟩
  unfold Char.toLower at hlower
  split at hlower
  · rename_i hupper
    have hlow : 65 ≤ c.toNat := hupper.1
    have hhigh : c.toNat ≤ 90 := hupper.2
    simp only [isWhitespace, Bool.or_eq_false_iff, Bool.and_eq_false_iff, decide_eq_false_iff_not]
    omega
  · rw [hlower]
    rfl

theorem trimmed_dress (hsign : sign.IsWritten) (hbody : IsBody body)
    (hpad : ∀ c ∈ pad, isWhitespace c) (hpad' : ∀ c ∈ pad', isWhitespace c) :
    trimmed (pad ++ (sign.dress body ++ pad')) = sign.dress body := by
  have hbounded := bounded_enclosed hbody sign
  have hne : sign.dress body ≠ [] := by simp [Sign.dress, hbounded.ne_nil]
  refine trimmed_append hpad hpad' (fun c hc ↦ ?_) (fun c hc ↦ ?_) hne
  · rw [Sign.dress, List.head?_append_of_ne_nil _ hbounded.ne_nil] at hc
    exact hbounded.head c hc
  · rw [Sign.dress, Sign.markerText] at hc
    cases hmarker : sign.marker with
    | none =>
      rw [hmarker, Option.map_none, Option.getD_none, List.append_nil] at hc
      exact (hbounded.last c hc).1
    | some m =>
      obtain ⟨d, hd, hblank⟩ := blank_marker (hsign m hmarker).2
      have hlast : (sign.enclosed body ++ (m.1 ++ m.2)).getLast? = some d := by
        rw [← List.append_assoc, List.getLast?_append, hd, Option.some_or]
      rw [hmarker, Option.map_some, Option.getD_some, hlast] at hc
      obtain rfl := Option.some.inj hc
      exact hblank

/-- The parser gets at the numeral through whatever is written around it. -/
theorem parse_dress (hsign : sign.IsWritten) (hbody : IsBody body)
    (hpad : ∀ c ∈ pad, isWhitespace c) (hpad' : ∀ c ∈ pad', isWhitespace c)
    (hraw : raw.toList = pad ++ (sign.dress body ++ pad')) :
    parseAmountMinorStyled raw style = (splitAmount (cleaned body) style raw).bind fun parts ↦
      (toMinor parts.1 parts.2 raw).map fun minor : ℕ ↦
        if sign.negative then -(minor : ℤ) else (minor : ℤ) := by
  obtain ⟨gap, hgap, hmarker⟩ := stripMarker_dress hsign hbody
  have hne : sign.dress body ≠ [] := by simp [Sign.dress, (bounded_enclosed hbody sign).ne_nil]
  have hbounded := bounded_enclosed hbody sign
  have htrimmed : trimmed ([] ++ (sign.enclosed body ++ gap)) = sign.enclosed body :=
    trimmed_append nofun hgap hbounded.head (fun c hc ↦ (hbounded.last c hc).1) hbounded.ne_nil
  rw [List.nil_append] at htrimmed
  have hdigits : (cleaned body).filter Char.isDigit ≠ [] := by
    obtain ⟨c, hc, hdigit⟩ := hbody.head
    rw [filter_isDigit_cleaned]
    exact List.ne_nil_of_mem (List.mem_filter.2 ⟨List.mem_of_mem_head? hc, hdigit⟩)
  have hcleaned := cleaned_signed sign body
  rw [cleaned] at hcleaned
  rw [parseAmountMinorStyled, hraw, trimmed_dress hsign hbody hpad hpad']
  simp only [hne, if_false, hmarker, htrimmed, stripParentheses_enclosed hbody,
    contains_signed hbody, hcleaned, hdigits]
  have hnegative : (sign.marker.any (fun m ↦ m.2.map Char.toLower = "dr".toList) ||
      sign.parentheses || (sign.minusBefore || sign.minusAfter)) = sign.negative := by
    rw [Sign.negative]
    ac_rfl
  rw [hnegative]
  cases splitAmount (cleaned body) style raw with
  | error e => rfl
  | ok parts =>
    change (toMinor parts.1 parts.2 raw).bind _ = (toMinor parts.1 parts.2 raw).map _
    cases toMinor parts.1 parts.2 raw <;> rfl

end Dressing

section Renderings

variable {decimal : Char} {body : List Char} {value : ℕ} {style : DecimalStyle} {n : ℤ} {raw : String}

theorem isBody_of_numeral (hdecimal : isSeparator decimal) (hbody : Numeral decimal body value) :
    IsBody body := by
  obtain ⟨whole, digits, fraction, cents, rfl, hwhole, hfraction, -⟩ := hbody.split
  obtain ⟨⟨c, hc, hfirst⟩, d, hd, hlast⟩ := hwhole.ends
  have hhead : (whole ++ fraction).head? = some c := by
    rw [List.head?_append, hc, Option.some_or]
  have hminus : '-' ∉ whole := by
    intro hmem
    rcases hwhole.mem _ hmem with hdigit | ⟨-, hsep | hblank⟩
    · cases hdigit
    · cases hsep
    · cases hblank
  have hne : '-' ≠ decimal := by
    rintro rfl
    cases hdecimal
  have hdigits : ∀ a : Char, a.isDigit → '-' ≠ a := by
    rintro a ha rfl
    cases ha
  cases hfraction with
  | none => exact ⟨⟨c, hhead, hfirst⟩, ⟨d, by rwa [List.append_nil], hlast⟩, by simpa using hminus⟩
  | @tenths a ha =>
    exact ⟨⟨c, hhead, hfirst⟩, ⟨a, by simp, ha⟩, by simp [hminus, hne, hdigits a ha]⟩
  | @hundredths a b ha hb =>
    exact ⟨⟨c, hhead, hfirst⟩, ⟨b, by simp, hb⟩, by simp [hminus, hne, hdigits a ha, hdigits b hb]⟩

theorem isBody_of_isNumeral (hbody : IsNumeral style body value) : IsBody body := by
  cases style with
  | auto => exact hbody.elim (isBody_of_numeral rfl) (isBody_of_numeral rfl)
  | point => exact isBody_of_numeral rfl hbody
  | comma => exact isBody_of_numeral rfl hbody

/-- A numeral is read as what it says in its style. -/
theorem splitAmount_of_isNumeral (hbody : IsNumeral style body value) (original : String) :
    ∃ parts, splitAmount (cleaned body) style original = .ok parts ∧ value = amountOf parts := by
  cases style with
  | auto =>
    rcases hbody with hbody | hbody
    · obtain ⟨parts, hauto, -, hvalue⟩ := hbody.parts rfl
      exact ⟨parts, congrArg Except.ok hauto, hvalue⟩
    · obtain ⟨parts, hauto, -, hvalue⟩ := hbody.parts rfl
      exact ⟨parts, congrArg Except.ok hauto, hvalue⟩
  | point =>
    obtain ⟨parts, -, hstyled, hvalue⟩ := Numeral.parts rfl hbody
    exact ⟨parts, hstyled original, hvalue⟩
  | comma =>
    obtain ⟨parts, -, hstyled, hvalue⟩ := Numeral.parts rfl hbody
    exact ⟨parts, hstyled original, hvalue⟩

/-- A way to write an amount in a style. -/
structure Renders (style : DecimalStyle) (n : ℤ) (raw : String) : Prop where
  written : ∃ body sign pad pad', IsNumeral style body n.natAbs ∧ sign.IsWritten ∧
    (∀ c ∈ pad, isWhitespace c) ∧ (∀ c ∈ pad', isWhitespace c) ∧
    raw.toList = pad ++ (Sign.dress sign body ++ pad') ∧
    (n < 0 → sign.negative = true) ∧ (0 < n → sign.negative = false)

theorem parse_renders (hn : |n| < 2 ^ 63) (hraw : Renders style n raw) :
    parseAmountMinorStyled raw style = .ok n := by
  obtain ⟨body, sign, pad, pad', hbody, hsign, hpad, hpad', htext, hneg, hpos⟩ := hraw.written
  obtain ⟨parts, hparts, hvalue⟩ := splitAmount_of_isNumeral hbody raw
  have hfits : amountOf parts < 2 ^ 63 := by
    have habs : (n.natAbs : ℤ) = |n| := Int.natCast_natAbs n
    omega
  rw [parse_dress hsign (isBody_of_isNumeral hbody) hpad hpad' htext, hparts, Except.bind, toMinor_eq,
    if_pos hfits, ← hvalue, Except.map, Except.ok.injEq]
  rcases lt_trichotomy n 0 with hlt | rfl | hgt
  · rw [if_pos (hneg hlt)]
    omega
  · simp
  · rw [hpos hgt, if_neg Bool.false_ne_true]
    omega

/-- An amount in parentheses, with thousands grouping and with a fraction of one digit. -/
theorem parse_parentheses : parseAmountMinorStyled "(1.234,5)" .comma = .ok (-123450) := by
  have hnumeral : IsNumeral .comma "1.234,5".toList 123450 := by
    refine ⟨"1.234".toList, "1234".toList, ",5".toList, 50, rfl, ⟨"1".toList, ".234".toList,
      "234".toList, rfl, rfl, by decide, List.all_eq_true.1 rfl, ?_, by decide⟩, .tenths rfl, rfl⟩
    exact .cons ⟨by decide, .inl rfl⟩ rfl rfl rfl .nil
  refine parse_renders (by decide) ⟨"1.234,5".toList, ⟨false, false, true, none⟩, [], [], hnumeral,
    nofun, nofun, nofun, rfl, fun _ ↦ rfl, nofun⟩

end Renderings

section Opposite

variable {decimal declared other : Char} {body pad pad' : List Char} {value : ℕ}
  {style : DecimalStyle} {raw : String} {sign : Sign}

inductive Opposed : DecimalStyle → Char → Char → Prop
  | point : Opposed .point '.' ','
  | comma : Opposed .comma ',' '.'

theorem Opposed.separators (hstyle : Opposed style declared other) :
    isSeparator declared ∧ isSeparator other ∧ declared ≠ other := by
  cases hstyle <;> decide

theorem Opposed.splitAmount_eq (hstyle : Opposed style declared other) (text : List Char)
    (original : String) :
    splitAmount text style original = splitOnDecimalSep text declared original := by
  cases hstyle <;> rfl

/-- A grouping separator is taken for the decimal one, and too many digits follow it. -/
theorem splitOnDecimalSep_isError (hstyle : Opposed style declared other)
    (hbody : Numeral other body value) (hmem : declared ∈ body) (original : String) :
    ∃ e, splitOnDecimalSep (cleaned body) declared original = .error e := by
  obtain ⟨hdeclared, hother, hne⟩ := hstyle.separators
  obtain ⟨whole, digits, fraction, cents, rfl, hwhole, hfraction, -⟩ := hbody.split
  have hfractionMem : ∀ c ∈ fraction, decide (c = declared) = false := by
    have hdigits : ∀ a : Char, a.isDigit → a ≠ declared := by
      rintro a ha rfl
      rw [isSeparator_not_digit hdeclared] at ha
      cases ha
    cases hfraction with
    | none => exact nofun
    | tenths ha => simp [hne.symm, hdigits _ ha]
    | hundredths ha hb => simp [hne.symm, hdigits _ ha, hdigits _ hb]
  have hwholeMem : declared ∈ cleaned whole := by
    rcases List.mem_append.1 hmem with hin | hin
    · exact List.mem_filter.2 ⟨hin, by simp [hdeclared]⟩
    · exact absurd rfl (of_decide_eq_false (hfractionMem _ hin))
  rcases splitLast_cases (· = declared) (cleaned whole) with
    ⟨-, hnone⟩ | ⟨before, sep, after, hsplit, hsep, hafter, -⟩
  · exact absurd rfl (of_decide_eq_false (hnone _ hwholeMem))
  · obtain rfl := of_decide_eq_true hsep
    have hspaced := hwhole.spaced hdeclared (hsplit ▸ List.suffix_append ..)
    have hlast : splitLast (· = sep) (cleaned (whole ++ fraction)) =
        some (before, after ++ cleaned fraction) := by
      have hjoin : cleaned (whole ++ fraction) = before ++ sep :: (after ++ cleaned fraction) := by
        rw [cleaned, List.filter_append, ← cleaned, ← cleaned, hsplit, List.append_assoc]
        rfl
      rw [hjoin]
      refine splitLast_append (List.forall_mem_append.2 ⟨hafter, fun c hc ↦ ?_⟩) hsep
      exact hfractionMem c (List.mem_of_mem_filter hc)
    simp only [splitOnDecimalSep, hlast]
    rw [if_pos (.inl (by rw [List.length_append]; omega))]
    exact ⟨_, rfl⟩

theorem parse_opposite_iff (hstyle : Opposed style declared other) (hsign : sign.IsWritten)
    (hpad : ∀ c ∈ pad, isWhitespace c) (hpad' : ∀ c ∈ pad', isWhitespace c)
    (hraw : raw.toList = pad ++ (sign.dress body ++ pad')) (hbody : Numeral other body value) :
    (∃ e, parseAmountMinorStyled raw style = .error e) ↔
      declared ∈ body ∨ 2 ^ 63 ≤ 100 * Nat.ofDigitChars 10 (body.filter Char.isDigit) 0 := by
  obtain ⟨hdeclared, hother, -⟩ := hstyle.separators
  rw [parse_dress hsign (isBody_of_numeral hother hbody) hpad hpad' hraw, hstyle.splitAmount_eq]
  by_cases hmem : declared ∈ body
  · obtain ⟨e, he⟩ := splitOnDecimalSep_isError hstyle hbody hmem raw
    rw [he]
    exact ⟨fun _ ↦ .inl hmem, fun _ ↦ ⟨e, rfl⟩⟩
  · have hamount : amountOf (cleaned body, []) =
        100 * Nat.ofDigitChars 10 (body.filter Char.isDigit) 0 := by
      rw [amountOf, filter_isDigit_cleaned]
      rfl
    have hnotMem : declared ∉ cleaned body := fun hin ↦ hmem (List.mem_of_mem_filter hin)
    rw [splitOnDecimalSep_of_notMem hnotMem, Except.bind, toMinor_eq, hamount, or_iff_right hmem]
    by_cases hfits : 100 * Nat.ofDigitChars 10 (body.filter Char.isDigit) 0 < 2 ^ 63
    · rw [if_pos hfits]
      refine ⟨?_, fun hle ↦ absurd hfits (Nat.not_lt.2 hle)⟩
      rintro ⟨e, he⟩
      cases he
    · rw [if_neg hfits]
      exact ⟨fun _ ↦ Nat.not_lt.1 hfits, fun _ ↦ ⟨_, rfl⟩⟩

def unsigned : Sign :=
  ⟨false, false, false, none⟩

theorem parse_grouped_point : ∃ e, parseAmountMinorStyled "1.234,56" .point = .error e := by
  have hnumeral : Numeral ',' "1.234,56".toList 123456 := by
    refine ⟨"1.234".toList, "1234".toList, ",56".toList, 56, rfl, ⟨"1".toList, ".234".toList,
      "234".toList, rfl, rfl, by decide, List.all_eq_true.1 rfl, ?_, by decide⟩, .hundredths rfl rfl, rfl⟩
    exact .cons ⟨by decide, .inl rfl⟩ rfl rfl rfl .nil
  have hraw : "1.234,56".toList = [] ++ (unsigned.dress "1.234,56".toList ++ []) := rfl
  have hwritten : unsigned.IsWritten := nofun
  have hpad : ∀ c ∈ ([] : List Char), isWhitespace c := nofun
  exact (parse_opposite_iff .point hwritten hpad hpad hraw hnumeral).2 (.inl (by decide))

theorem numeral_plain : Numeral ',' "1234,56".toList 123456 :=
  ⟨"1234".toList, "1234".toList, ",56".toList, 56, rfl, ⟨"1234".toList, [], [], rfl, rfl, by decide,
    List.all_eq_true.1 rfl, .nil, fun hne ↦ absurd rfl hne⟩, .hundredths rfl rfl, rfl⟩

/-- The comma is dropped, and the amount is a hundred times too large. -/
theorem parse_plain_point : Numeral ',' "1234,56".toList 123456 ∧
    (∀ value, ¬Numeral '.' "1234,56".toList value) ∧
    parseAmountMinorStyled "1234,56" .point = .ok 12345600 := by
  refine ⟨numeral_plain, fun value hvalue ↦ ?_, by decide⟩
  have hsame := Numeral.unique rfl rfl hvalue numeral_plain
  obtain ⟨parts, -, hstyled, hparts⟩ := hvalue.parts rfl
  have hread : parts = ("1234,56".toList, []) :=
    Except.ok.inj ((hstyled "").symm.trans (by decide))
  rw [hread, hsame] at hparts
  exact absurd hparts (by decide)

end Opposite

end SlipScan.Ingest.Amounts
