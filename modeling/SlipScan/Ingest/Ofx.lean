import SlipScan.Ingest.OfxLayout
import SlipScan.Ingest.StatementDates

namespace SlipScan.Ingest.Ofx

open Model.Database Model.Amounts Model.StatementImport Model.CsvStatement Model.Ofx Numerals
  Ledger.Dates StatementDates Foundation.Escapes Foundation.Transaction Foundation.Calendar
open Model.Assets (zeroPad)

section Texts

variable {text : List Char}

def codes : Codes :=
  [('<', "&lt;".toList), ('>', "&gt;".toList), ('\'', "&apos;".toList), ('"', "&quot;".toList),
    ('&', "&amp;".toList)]

def escape (text : List Char) : List Char :=
  escapeBy codes text

/-- Each round of the decoder undoes one code. -/
theorem unescapeXml_escape (text : List Char) : unescapeXml (escape text) = text := by
  have hcoding : ∀ n < 5, Coding '&' (codes.drop n) := by
    refine fun n hn ↦ ⟨?_, ?_, ?_, ?_⟩ <;> revert n <;> decide
  have hlt : replace "&lt;" "<" (escape text) = escapeBy (codes.drop 1) text :=
    replaceAfter_escapeBy (hcoding 0 (by decide)) text
  have hgt : replace "&gt;" ">" (escapeBy (codes.drop 1) text) = escapeBy (codes.drop 2) text :=
    replaceAfter_escapeBy (hcoding 1 (by decide)) text
  have hapos : replace "&apos;" "'" (escapeBy (codes.drop 2) text) = escapeBy (codes.drop 3) text :=
    replaceAfter_escapeBy (hcoding 2 (by decide)) text
  have hquot : replace "&quot;" "\"" (escapeBy (codes.drop 3) text) = escapeBy (codes.drop 4) text :=
    replaceAfter_escapeBy (hcoding 3 (by decide)) text
  have hamp : replace "&amp;" "&" (escapeBy (codes.drop 4) text) = escapeBy [] text :=
    replaceAfter_escapeBy (hcoding 4 (by decide)) text
  rw [unescapeXml, hlt, hgt, hapos, hquot, hamp, escapeBy_nil]

theorem bare_escapeChar {c : Char} (hc : isWhitespace c = false) :
    Bare (escapeChar codes c) ∧ escapeChar codes c ≠ [] := by
  have hcodes : ∀ p ∈ codes, p.2.all (!isWhitespace ·) ∧ p.2 ≠ [] := by decide
  rcases escapeChar_cases codes c with ⟨-, hplain⟩ | hcode
  · rw [hplain]
    exact ⟨.of_forall (by simpa using hc), List.cons_ne_nil _ _⟩
  · exact (hcodes _ hcode).imp_left fun hall ↦ .of_forall (by simpa using hall)

theorem bare_escape (htext : Bare text) : Bare (escape text) := by
  constructor
  · intro c hc
    cases text with
    | nil => cases hc
    | cons d text =>
      obtain ⟨hbare, hne⟩ := bare_escapeChar (htext.head d rfl)
      rw [escape, escapeBy_cons, List.head?_append_of_ne_nil _ hne] at hc
      exact hbare.head c hc
  · intro c hc
    rcases List.eq_nil_or_concat text with rfl | ⟨text, d, rfl⟩
    · cases hc
    · obtain ⟨hbare, hne⟩ := bare_escapeChar (htext.last d (by simp))
      rw [escape, List.concat_eq_append, escapeBy_append, escapeBy_cons, List.getLast?_append, escapeBy,
        List.flatMap_nil, List.append_nil, List.getLast?_eq_some_getLast hne, Option.some_or] at hc
      exact hbare.last c ((List.getLast?_eq_some_getLast hne).trans hc)

theorem escape_of_blank (htext : ∀ c ∈ text, isWhitespace c) : escape text = text := by
  have hcodes : ∀ p ∈ codes, isWhitespace p.1 = false := by decide
  induction text with
  | nil => rfl
  | cons c text ih =>
    rw [List.forall_mem_cons] at htext
    rcases escapeChar_cases codes c with ⟨-, hplain⟩ | hcode
    · rw [escape, escapeBy_cons, hplain, ← escape, ih htext.2]
      rfl
    · have hblank := hcodes _ hcode
      rw [htext.1] at hblank
      cases hblank

theorem trimmed_escape (text : List Char) : trimmed (escape text) = escape (trimmed text) := by
  obtain ⟨before, after, hsplit, hbefore, hafter, hbare⟩ := trimmed_split text
  have hescape : escape text = before ++ (escape (trimmed text) ++ after) := by
    conv_lhs => rw [hsplit, escape, escapeBy_append, escapeBy_append]
    rw [← escape, ← escape, ← escape, escape_of_blank hbefore, escape_of_blank hafter]
  rw [hescape, trimmed_around hbefore hafter (bare_escape hbare)]

theorem escape_eq_nil : escape text = [] ↔ text = [] := by
  refine ⟨fun hnil ↦ ?_, fun hnil ↦ by rw [hnil]; rfl⟩
  rw [← unescapeXml_escape text, hnil]
  rfl

theorem length_unescapeXml_le (text : List Char) : (unescapeXml text).length ≤ text.length := by
  have hround : ∀ (pattern replacement : String) (l : List Char),
      replacement.toList.length ≤ pattern.toList.length → l.length ≤ text.length →
      (replace pattern replacement l).length ≤ text.length :=
    fun _ _ l hlength hl ↦ (length_replaceAfter_le hlength 0 l).trans hl
  rw [unescapeXml]
  refine hround _ _ _ (by decide) (hround _ _ _ (by decide) (hround _ _ _ (by decide)
    (hround _ _ _ (by decide) (hround _ _ _ (by decide) le_rfl))))

end Texts

section Amounts

def amountText (n : ℤ) : List Char :=
  (if n < 0 then ['-'] else []) ++
    (Nat.toDigits 10 (n.natAbs / 100) ++ '.' :: (zeroPad 2 (n.natAbs % 100)).toList)

theorem bare_amountText (n : ℤ) : Bare (amountText n) := by
  have hdigits := isDigit_toDigits (n.natAbs / 100)
  refine .of_forall ?_
  rw [amountText, List.forall_mem_append, List.forall_mem_append, List.forall_mem_cons]
  refine ⟨?_, fun c hc ↦ isWhitespace_of_digit (hdigits c hc), rfl,
    fun c hc ↦ isWhitespace_of_digit (isDigit_zeroPad _ _ c hc)⟩
  split
  · exact List.forall_mem_singleton.2 rfl
  · exact nofun

theorem takeSign_amountText (n : ℤ) : takeSign (amountText n) = (decide (n < 0),
    Nat.toDigits 10 (n.natAbs / 100) ++ '.' :: (zeroPad 2 (n.natAbs % 100)).toList) := by
  rw [amountText]
  by_cases hn : n < 0
  · rw [if_pos hn, decide_eq_true hn]
    rfl
  · rw [if_neg hn, decide_eq_false hn, List.nil_append, takeSign.eq_def]
    have hhead : ∀ c ∈ (Nat.toDigits 10 (n.natAbs / 100) ++
        '.' :: (zeroPad 2 (n.natAbs % 100)).toList).head?, c.isDigit := by
      rw [List.head?_append_of_ne_nil _ Nat.toDigits_ne_nil]
      exact fun c hc ↦ isDigit_toDigits _ c (List.mem_of_mem_head? hc)
    split
    · rename_i hsplit
      rw [hsplit] at hhead
      cases hhead _ rfl
    · rename_i hsplit
      rw [hsplit] at hhead
      cases hhead _ rfl
    · rfl

theorem centsOf_zeroPad {n : ℕ} (hn : n < 100) : centsOf (zeroPad 2 n).toList = n := by
  have hlength : (zeroPad 2 n).toList.length = 2 := length_zeroPad (by decide) hn
  obtain ⟨a, b, hpad⟩ := List.length_eq_two.1 hlength
  have hdigits := isDigit_zeroPad 2 n
  have hvalue := ofDigitChars_zeroPad 2 n
  rw [hpad] at hdigits hvalue ⊢
  rw [centsOf_two (hdigits a (by simp)) (hdigits b (by simp)), hvalue]

theorem parseOfxAmountMinor_amountText {n m : ℤ} :
    parseOfxAmountMinor (amountText n) = .ok m ↔ |n| < 2 ^ 63 ∧ n = m := by
  have hne : amountText n ≠ [] := by simp [amountText]
  have hsign := takeSign_amountText n
  have hmajor := isDigit_toDigits (n.natAbs / 100)
  have hminor := isDigit_zeroPad 2 (n.natAbs % 100)
  have hlength : (zeroPad 2 (n.natAbs % 100)).toList.length = 2 :=
    length_zeroPad (by decide) (by omega)
  have hcents : centsOf (zeroPad 2 (n.natAbs % 100)).toList = n.natAbs % 100 :=
    centsOf_zeroPad (by omega)
  have hvalue : parseI64 (Nat.toDigits 10 (n.natAbs / 100)) =
      if n.natAbs / 100 < 2 ^ 63 then some (n.natAbs / 100) else none := by
    rw [parseI64_eq, Nat.ofDigitChars_toDigits (by decide) (by decide)]
  have hmajorNe : Nat.toDigits 10 (n.natAbs / 100) ≠ [] := Nat.toDigits_ne_nil
  generalize Nat.toDigits 10 (n.natAbs / 100) = major at *
  generalize (zeroPad 2 (n.natAbs % 100)).toList = minor at *
  have hpoint : '.' ∉ major := fun hmem ↦ by cases hmajor _ hmem
  have htake : (major ++ '.' :: minor).takeWhile (· ≠ '.') = major :=
    (takeWhile_ne_append hpoint _).trans (List.append_nil major)
  have hdrop : (major ++ '.' :: minor).dropWhile (· ≠ '.') = '.' :: minor :=
    dropWhile_ne_append hpoint _
  rw [parseOfxAmountMinor]
  dsimp only
  rw [trimmed_eq_self.2 (bare_amountText n), hsign]
  dsimp only
  rw [except_guard_eq_ok, except_guard_eq_ok, except_guard_eq_ok, except_guard_eq_ok,
    except_guard_eq_ok, htake, hdrop, List.tail_cons, hcents, hvalue, hlength]
  have habs : (n.natAbs : ℤ) = |n| := Int.natCast_natAbs n
  by_cases hfits : n.natAbs / 100 < 2 ^ 63
  · rw [if_pos hfits]
    dsimp only
    have hresult : (if decide (n < 0) = true then -(n.natAbs : ℤ) else n.natAbs) = n := by
      by_cases hn : n < 0
      · rw [if_pos (decide_eq_true hn)]
        omega
      · rw [if_neg (by simpa using hn)]
        omega
    rw [except_guard_eq_ok, except_pure_eq_ok, Nat.div_add_mod', hresult]
    constructor
    · rintro ⟨-, -, -, -, -, hbound, hm⟩
      exact ⟨by omega, hm⟩
    · rintro ⟨hbound, hm⟩
      exact ⟨hne, by simp, not_not.2 ⟨List.all_eq_true.2 hmajor, List.all_eq_true.2 hminor⟩,
        fun hnil ↦ hmajorNe hnil.1, by decide, by omega, hm⟩
  · rw [if_neg hfits]
    constructor
    · rintro ⟨-, -, -, -, -, hthrow⟩
      cases hthrow
    · rintro ⟨hbound, -⟩
      omega

def dateText (d : Date) : List Char :=
  (zeroPad 4 d.year.toNat).toList ++ ((zeroPad 2 d.month).toList ++ (zeroPad 2 d.day).toList)

theorem isDigit_dateText (d : Date) : ∀ c ∈ dateText d, c.isDigit := by
  rw [dateText, List.forall_mem_append, List.forall_mem_append]
  exact ⟨isDigit_zeroPad _ _, isDigit_zeroPad _ _, isDigit_zeroPad _ _⟩

theorem bare_dateText (d : Date) : Bare (dateText d) :=
  .of_forall fun c hc ↦ isWhitespace_of_digit (isDigit_dateText d c hc)

theorem day_le (d : Date) : d.day ≤ 31 := by
  have hday := d.day_mem.2
  rw [daysInMonth] at hday
  split_ifs at hday <;> omega

theorem stamp_dateText {d : Date} {year : ℤ} {month day : ℕ} :
    Stamp (dateText d) year month day ↔ year = d.year.toNat ∧ month = d.month ∧ day = d.day := by
  have hdays := day_le d
  have hmonths := d.month_mem
  have hyears := d.year_mem
  have hy : (zeroPad 4 d.year.toNat).toList.length = 4 := length_zeroPad (by decide) (by omega)
  have hm : (zeroPad 2 d.month).toList.length = 2 := length_zeroPad (by decide) (by omega)
  have hd : (zeroPad 2 d.day).toList.length = 2 := length_zeroPad (by decide) (by omega)
  have hyear : (dateText d).take 4 = (zeroPad 4 d.year.toNat).toList := List.take_left' hy
  have hrest : (dateText d).drop 4 = (zeroPad 2 d.month).toList ++ (zeroPad 2 d.day).toList :=
    List.drop_left' hy
  have hmonth : ((dateText d).drop 4).take 2 = (zeroPad 2 d.month).toList := by
    rw [hrest, List.take_left' hm]
  have hday : (dateText d).drop 6 = (zeroPad 2 d.day).toList := by
    rw [← List.drop_drop (i := 2) (j := 4), hrest, List.drop_left' hm]
  constructor
  · intro hstamp
    rw [hstamp.year_eq, hstamp.month_eq, hstamp.day_eq, hyear, hmonth, hday, ofDigitChars_zeroPad,
      ofDigitChars_zeroPad, ofDigitChars_zeroPad]
    exact ⟨rfl, rfl, rfl⟩
  · rintro ⟨rfl, rfl, rfl⟩
    refine ⟨?_, List.all_eq_true.2 (isDigit_dateText d), ?_, ?_, ?_⟩
    · rw [dateText, List.length_append, List.length_append, hy, hm, hd]
    · rw [hyear, ofDigitChars_zeroPad]
    · rw [hmonth, ofDigitChars_zeroPad]
    · rw [hday, ofDigitChars_zeroPad]

theorem length_dateText (d : Date) : (dateText d).length = 8 :=
  (stamp_dateText.2 ⟨rfl, rfl, rfl⟩).length

theorem parseOfxDate_dateText {d : Date} {date : String} : parseOfxDate (dateText d) = .ok date ↔
    (1900 ≤ d.year ∧ d.year ≤ 2200) ∧ isoDate d.year d.month d.day = date := by
  have hdays := day_le d
  have hmonths := d.month_mem
  have hday := d.day_mem.1
  have hlength := length_dateText d
  rw [parseOfxDate_eq_ok, trimmed_eq_self.2 (bare_dateText d), List.take_of_length_le hlength.le]
  constructor
  · rintro ⟨year, month, day, hstamp, hrange, hiso⟩
    obtain ⟨rfl, rfl, rfl⟩ := stamp_dateText.1 hstamp
    have hyears := hrange.1
    have hnonneg : (d.year.toNat : ℤ) = d.year := by omega
    rw [hnonneg] at hyears hiso
    exact ⟨hyears, hiso⟩
  · rintro ⟨hyears, hiso⟩
    have hnonneg : (d.year.toNat : ℤ) = d.year := by omega
    refine ⟨d.year, d.month, d.day, stamp_dateText.2 ⟨hnonneg.symm, rfl, rfl⟩, ?_, hiso⟩
    exact ⟨hyears, hmonths, hday, hdays⟩

end Amounts

section Statements

structure CurrencyCode where
  code : List Char
  length_eq : code.length = 3
  upper : ∀ c ∈ code, c.isUpper

structure Txn where
  date : Date
  amountMinor : ℤ
  id : Option (List Char)
  description : List Char

/-- Transactions with the currency of the account and its balance at a date. -/
structure Statement where
  txns : List Txn
  currency : CurrencyCode
  balanceMinor : ℤ
  asOf : Date

def Dialect.write : Dialect → List Char → List Char
  | .sgml, text => text
  | _, text => escape text

def Txn.elements (dialect : Dialect) (txn : Txn) : List Element :=
  [.opening "STMTTRN", .leaf "TRNTYPE" (if txn.amountMinor < 0 then "DEBIT" else "CREDIT").toList,
    .leaf "DTPOSTED" (dateText txn.date), .leaf "TRNAMT" (amountText txn.amountMinor)] ++
  (txn.id.map fun id ↦ Element.leaf "FITID" (dialect.write id)).toList ++
  [.leaf "NAME" (dialect.write txn.description), .closing "STMTTRN"]

def Statement.elements (dialect : Dialect) (statement : Statement) : List Element :=
  [.opening "OFX", .opening "BANKMSGSRSV1", .opening "STMTTRNRS", .opening "STMTRS",
    .leaf "CURDEF" statement.currency.code, .opening "BANKTRANLIST"] ++
  statement.txns.flatMap (Txn.elements dialect) ++
  [.closing "BANKTRANLIST", .opening "LEDGERBAL", .leaf "BALAMT" (amountText statement.balanceMinor),
    .leaf "DTASOF" (dateText statement.asOf), .closing "LEDGERBAL", .closing "STMTRS",
    .closing "STMTTRNRS", .closing "BANKMSGSRSV1", .closing "OFX"]

def iso (d : Date) : String :=
  isoDate d.year d.month d.day

def Txn.line (txn : Txn) : FetchedLine where
  postedDate := iso txn.date
  description := String.ofList txn.description
  amountMinor := txn.amountMinor
  providerTxnId := txn.id.map String.ofList
  currency := none
  balanceMinor := none

def Statement.expected (statement : Statement) : OfxStatement where
  lines := statement.txns.map fun txn ↦
    { txn.line with currency := some (String.ofList statement.currency.code) }
  currency := some (String.ofList statement.currency.code)
  ledgerBalanceMinor := some statement.balanceMinor
  ledgerBalanceDate := some (iso statement.asOf)

variable {dialect : Dialect} {txn : Txn} {statement : Statement} {text : List Char} {s : ParseState}

/-- In OFX 1 a text that stands as it is has no less-than sign, which would begin a tag. -/
def Dialect.Writable (dialect : Dialect) (text : List Char) : Prop :=
  dialect = .sgml → '<' ∉ text

structure Txn.Writable (dialect : Dialect) (txn : Txn) : Prop where
  id : ∀ id ∈ txn.id, dialect.Writable id
  description : dialect.Writable txn.description

def Txn.fields (dialect : Dialect) (txn : Txn) : PartialTxn where
  dtposted := some (trimmed (dateText txn.date))
  trnamt := some (trimmed (amountText txn.amountMinor))
  name := some (trimmed (dialect.write txn.description))
  memo := none
  fitid := txn.id.map fun id ↦ trimmed (dialect.write id)

theorem readElement_opening (hcurrent : s.current = none) :
    readElement s (.opening "STMTTRN") = .ok { s with current := some {} } := by
  obtain ⟨statement, inLedgerbal, current⟩ := s
  obtain rfl : current = none := hcurrent
  rfl

theorem readElement_leaf {fields : PartialTxn} (hcurrent : s.current = some fields)
    {name : String} (hname : name ∈ ["TRNTYPE", "DTPOSTED", "TRNAMT", "FITID", "NAME"]) :
    readElement s (.leaf name text) =
      .ok { s with current := some (fields.set name (trimmed text)) } := by
  obtain ⟨statement, inLedgerbal, current⟩ := s
  obtain rfl : current = some fields := hcurrent
  simp only [List.mem_cons, List.not_mem_nil, or_false] at hname
  rcases hname with rfl | rfl | rfl | rfl | rfl <;> rfl

theorem readElement_closing {fields : PartialTxn} (hcurrent : s.current = some fields) :
    readElement s (.closing "STMTTRN") = fields.finish.bind fun line ↦ .ok { s with
      statement := { s.statement with lines := s.statement.lines ++ [line] }
      current := none } := by
  obtain ⟨statement, inLedgerbal, current⟩ := s
  obtain rfl : current = some fields := hcurrent
  rfl

theorem readElements_txn (hcurrent : s.current = none) :
    (txn.elements dialect).foldlM readElement s = (txn.fields dialect).finish.bind fun line ↦
      .ok { s with
        statement := { s.statement with lines := s.statement.lines ++ [line] }
        current := none } := by
  rw [Txn.elements, List.foldlM_append, List.foldlM_append]
  simp only [List.foldlM_cons, List.foldlM_nil, readElement_opening hcurrent, except_ok_bind]
  rw [readElement_leaf rfl (by decide), except_ok_bind, readElement_leaf rfl (by decide),
    except_ok_bind, readElement_leaf rfl (by decide), except_ok_bind]
  cases hid : txn.id with
  | none =>
    rw [Txn.fields, hid]
    simp only [Option.map_none, Option.toList_none, List.foldlM_nil, pure_bind]
    rw [readElement_leaf rfl (by decide), except_ok_bind, readElement_closing rfl, bind_pure]
    rfl
  | some id =>
    rw [Txn.fields, hid]
    simp only [Option.map_some, Option.toList_some, List.foldlM_cons, List.foldlM_nil, pure_bind]
    rw [readElement_leaf rfl (by decide), except_ok_bind, pure_bind, readElement_leaf rfl (by decide),
      except_ok_bind, readElement_closing rfl, bind_pure]
    rfl

/-- The transactions are read one after the other. -/
theorem readElements_txns (txns : List Txn) (hcurrent : s.current = none) :
    (txns.flatMap (Txn.elements dialect)).foldlM readElement s =
      (txns.mapM fun txn : Txn ↦ (txn.fields dialect).finish).bind fun lines ↦
        .ok { s with
          statement := { s.statement with lines := s.statement.lines ++ lines }
          current := none } := by
  induction txns generalizing s with
  | nil =>
    obtain ⟨statement, inLedgerbal, current⟩ := s
    obtain rfl : current = none := hcurrent
    simp [pure, Except.pure, Except.bind]
  | cons txn txns ih =>
    rw [List.flatMap_cons, List.foldlM_append, readElements_txn hcurrent, List.mapM_cons]
    cases (txn.fields dialect).finish with
    | error e => rfl
    | ok line =>
      change List.foldlM readElement _ _ = _
      rw [ih rfl]
      cases txns.mapM fun txn : Txn ↦ (txn.fields dialect).finish with
      | error e => rfl
      | ok lines =>
        change Except.ok _ = Except.ok _
        simp

theorem CurrencyCode.toUpper_eq (currency : CurrencyCode) :
    currency.code.map Char.toUpper = currency.code := by
  refine (List.map_congr_left fun c hc ↦ ?_).trans (List.map_id _)
  have hupper : c.toNat ≤ 90 := (of_decide_eq_true (currency.upper c hc)).2
  refine dif_neg fun hlower ↦ ?_
  have hlow : 97 ≤ c.toNat := hlower.1
  omega

theorem CurrencyCode.bare (currency : CurrencyCode) : Bare currency.code := by
  refine .of_forall fun c hc ↦ ?_
  have hupper : 65 ≤ c.toNat ∧ c.toNat ≤ 90 := of_decide_eq_true (currency.upper c hc)
  simp only [isWhitespace, Bool.or_eq_false_iff, Bool.and_eq_false_iff, decide_eq_false_iff_not]
  omega

theorem CurrencyCode.ne_nil (currency : CurrencyCode) : currency.code ≠ [] := by
  intro hnil
  have hlength := currency.length_eq
  rw [hnil] at hlength
  cases hlength

theorem readElement_skip {name : String} (hidle : Idle ⟨name.toList, false, []⟩) (s : ParseState) :
    readElement s (.opening name) = .ok s :=
  step_of_idle hidle s

theorem readElement_skipClosing {name : String} (hidle : Idle ⟨name.toList, true, []⟩)
    (s : ParseState) : readElement s (.closing name) = .ok s :=
  step_of_idle hidle s

theorem readElements_opening (currency : CurrencyCode) :
    [.opening "OFX", .opening "BANKMSGSRSV1", .opening "STMTTRNRS", .opening "STMTRS",
      .leaf "CURDEF" currency.code, .opening "BANKTRANLIST"].foldlM readElement {} =
    .ok { statement := { currency := some (String.ofList currency.code) } } := by
  have hcurdef : readElement {} (.leaf "CURDEF" currency.code) =
      .ok { statement := { currency := some (String.ofList currency.code) } } := by
    rw [readElement, trimmed_eq_self.2 currency.bare]
    change setField {} "CURDEF" currency.code = _
    simp only [setField]
    rw [if_pos ⟨rfl, currency.ne_nil⟩, currency.toUpper_eq]
    rfl
  simp only [List.foldlM_cons, List.foldlM_nil]
  rw [readElement_skip (by decide), except_ok_bind, readElement_skip (by decide), except_ok_bind,
    readElement_skip (by decide), except_ok_bind, readElement_skip (by decide), except_ok_bind,
    hcurdef, except_ok_bind, readElement_skip (by decide), except_ok_bind]
  rfl

theorem readElement_balance (lines : List FetchedLine) (currency : Option String)
    (text : List Char) :
    readElement ⟨{ lines, currency }, true, none⟩ (.leaf "BALAMT" text) =
      within s!"LEDGERBAL BALAMT {repr (String.ofList (trimmed text))}"
        (parseOfxAmountMinor (trimmed text)) >>= fun balance ↦
          .ok ⟨⟨lines, currency, some balance, none⟩, true, none⟩ :=
  rfl

theorem readElement_asOf (lines : List FetchedLine) (currency : Option String) (balance : ℤ)
    (text : List Char) :
    readElement ⟨⟨lines, currency, some balance, none⟩, true, none⟩ (.leaf "DTASOF" text) =
      within s!"LEDGERBAL DTASOF {repr (String.ofList (trimmed text))}"
        (parseOfxDate (trimmed text)) >>= fun date ↦
          .ok ⟨⟨lines, currency, some balance, some date⟩, true, none⟩ :=
  rfl

theorem readElements_closing (lines : List FetchedLine) (currency : Option String)
    (balanceMinor : ℤ) (asOf : Date) {s' : ParseState} :
    [.closing "BANKTRANLIST", .opening "LEDGERBAL", .leaf "BALAMT" (amountText balanceMinor),
      .leaf "DTASOF" (dateText asOf), .closing "LEDGERBAL", .closing "STMTRS",
      .closing "STMTTRNRS", .closing "BANKMSGSRSV1", .closing "OFX"].foldlM readElement
        ⟨{ lines, currency }, false, none⟩ = .ok s' ↔
      (|balanceMinor| < 2 ^ 63 ∧ 1900 ≤ asOf.year ∧ asOf.year ≤ 2200) ∧
        s' = ⟨⟨lines, currency, some balanceMinor, some (iso asOf)⟩, false, none⟩ := by
  have hledger : readElement ⟨{ lines, currency }, false, none⟩ (.opening "LEDGERBAL") =
      .ok ⟨{ lines, currency }, true, none⟩ := rfl
  have hamount : trimmed (amountText balanceMinor) = amountText balanceMinor :=
    trimmed_eq_self.2 (bare_amountText _)
  have hdate : trimmed (dateText asOf) = dateText asOf := trimmed_eq_self.2 (bare_dateText _)
  simp only [List.foldlM_cons, List.foldlM_nil]
  rw [readElement_skipClosing (by decide), except_ok_bind, hledger, except_ok_bind,
    readElement_balance, hamount]
  have hrest : ∀ date, ([.closing "LEDGERBAL", .closing "STMTRS", .closing "STMTTRNRS",
      .closing "BANKMSGSRSV1", .closing "OFX"] : List Element).foldlM readElement
        ⟨⟨lines, currency, some balanceMinor, some date⟩, true, none⟩ =
      .ok ⟨⟨lines, currency, some balanceMinor, some date⟩, false, none⟩ := fun _ ↦ rfl
  simp only [List.foldlM_cons, List.foldlM_nil] at hrest
  constructor
  · intro hread
    obtain ⟨s₁, hfirst, hafter⟩ := except_bind_eq_ok.1 hread
    obtain ⟨balance, hbalance, hs₁⟩ := except_bind_eq_ok.1 hfirst
    obtain ⟨hfits, rfl⟩ := parseOfxAmountMinor_amountText.1 (except_mapError_eq_ok.1 hbalance)
    obtain ⟨s₂, hsecond, hend⟩ := except_bind_eq_ok.1 hafter
    rw [← Except.ok.inj hs₁, readElement_asOf, hdate] at hsecond
    obtain ⟨date, hasOf, hs₂⟩ := except_bind_eq_ok.1 hsecond
    obtain ⟨hyears, rfl⟩ := parseOfxDate_dateText.1 (except_mapError_eq_ok.1 hasOf)
    rw [← Except.ok.inj hs₂] at hend
    exact ⟨⟨hfits, hyears⟩, (Except.ok.inj ((hrest _).symm.trans hend)).symm⟩
  · rintro ⟨⟨hfits, hyears⟩, rfl⟩
    have hbalance := parseOfxAmountMinor_amountText.2 ⟨hfits, rfl⟩
    have hasOf := parseOfxDate_dateText.2 ⟨hyears, rfl⟩
    rw [within, hbalance, Except.mapError, except_ok_bind, except_ok_bind, readElement_asOf, hdate,
      within, hasOf, Except.mapError, except_ok_bind, except_ok_bind]
    exact hrest _

structure Dialect.KeepsText (dialect : Dialect) (text : List Char) : Prop where
  ne_nil : text ≠ []
  bare : Bare text
  plain : dialect = .sgml → unescapeXml text = text

/-- An identifier that is read as it was. Entities in it are not decoded. -/
structure Dialect.KeepsId (dialect : Dialect) (id : List Char) : Prop where
  ne_nil : id ≠ []
  bare : Bare id
  plain : dialect ≠ .sgml → escape id = id

theorem trimmed_of_length (hlength : text.length ≤ (trimmed text).length) :
    trimmed text = text := by
  obtain ⟨before, after, hsplit, -⟩ := trimmed_split text
  have hsum := congrArg List.length hsplit
  rw [List.length_append, List.length_append] at hsum
  obtain rfl : before = [] := List.length_eq_zero_iff.1 (by omega)
  obtain rfl : after = [] := List.length_eq_zero_iff.1 (by omega)
  rw [List.nil_append, List.append_nil] at hsplit
  exact hsplit.symm

theorem write_of_ne (hdialect : dialect ≠ .sgml) (text : List Char) :
    dialect.write text = escape text := by
  cases dialect with
  | sgml => exact absurd rfl hdialect
  | escapedSgml => rfl
  | xml => rfl

theorem keepsText_iff : dialect.KeepsText text ↔
    trimmed (dialect.write text) ≠ [] ∧ unescapeXml (trimmed (dialect.write text)) = text := by
  by_cases hdialect : dialect = .sgml
  · subst hdialect
    rw [Dialect.write]
    constructor
    · rintro ⟨hne, hbare, hplain⟩
      rw [trimmed_eq_self.2 hbare]
      exact ⟨hne, hplain rfl⟩
    · rintro ⟨hne, hread⟩
      have htrimmed : trimmed text = text := by
        refine trimmed_of_length ?_
        conv_lhs => rw [← hread]
        exact length_unescapeXml_le _
      rw [htrimmed] at hne hread
      exact ⟨hne, trimmed_eq_self.1 htrimmed, fun _ ↦ hread⟩
  · rw [write_of_ne hdialect, trimmed_escape, unescapeXml_escape, trimmed_eq_self, ne_eq,
      escape_eq_nil]
    constructor
    · rintro ⟨hne, hbare, -⟩
      rw [trimmed_eq_self.2 hbare]
      exact ⟨hne, hbare⟩
    · rintro ⟨hne, hbare⟩
      rw [trimmed_eq_self.2 hbare] at hne
      exact ⟨hne, hbare, fun hsgml ↦ absurd hsgml hdialect⟩

theorem keepsId_iff : dialect.KeepsId text ↔
    trimmed (dialect.write text) ≠ [] ∧ trimmed (dialect.write text) = text := by
  by_cases hdialect : dialect = .sgml
  · subst hdialect
    rw [Dialect.write, trimmed_eq_self]
    constructor
    · rintro ⟨hne, hbare, -⟩
      rw [trimmed_eq_self.2 hbare]
      exact ⟨hne, hbare⟩
    · rintro ⟨hne, hbare⟩
      rw [trimmed_eq_self.2 hbare] at hne
      exact ⟨hne, hbare, fun hsgml ↦ absurd rfl hsgml⟩
  · rw [write_of_ne hdialect]
    constructor
    · rintro ⟨hne, hbare, hplain⟩
      rw [hplain hdialect, trimmed_eq_self.2 hbare]
      exact ⟨hne, rfl⟩
    · rintro ⟨hne, hread⟩
      have hbare : Bare text := hread ▸ bare_trimmed _
      rw [hread] at hne
      rw [trimmed_escape, trimmed_eq_self.2 hbare] at hread
      exact ⟨hne, hbare, fun _ ↦ hread⟩

/-- A transaction that is read as it was. -/
structure Txn.Kept (dialect : Dialect) (txn : Txn) : Prop where
  years : 1900 ≤ txn.date.year ∧ txn.date.year ≤ 2200
  fits : |txn.amountMinor| < 2 ^ 63
  description : dialect.KeepsText txn.description
  id : ∀ id ∈ txn.id, dialect.KeepsId id

structure Statement.Kept (dialect : Dialect) (statement : Statement) : Prop where
  txns : ∀ txn ∈ statement.txns, txn.Kept dialect
  balance : |statement.balanceMinor| < 2 ^ 63
  years : 1900 ≤ statement.asOf.year ∧ statement.asOf.year ≤ 2200

theorem filter_ne_nil {l l' : List Char} :
    (some l).filter (· ≠ []) = some l' ↔ l ≠ [] ∧ l = l' := by
  rw [Option.filter_some]
  split
  · rename_i hl
    simpa using fun _ ↦ of_decide_eq_true hl
  · rename_i hl
    simp at hl
    simp [hl]

theorem keepsIds_iff : (txn.id.map fun id ↦ trimmed (dialect.write id)).filter (· ≠ []) = txn.id ↔
    ∀ id ∈ txn.id, dialect.KeepsId id := by
  cases txn.id with
  | none => simp
  | some id =>
    rw [Option.map_some, filter_ne_nil, ← keepsId_iff]
    simp

/-- Closing a transaction gives its line exactly when all of its fields are kept. -/
theorem finish_fields : (txn.fields dialect).finish = .ok txn.line ↔ txn.Kept dialect := by
  have hamount : trimmed (amountText txn.amountMinor) = amountText txn.amountMinor :=
    trimmed_eq_self.2 (bare_amountText _)
  have hdate : trimmed (dateText txn.date) = dateText txn.date :=
    trimmed_eq_self.2 (bare_dateText _)
  have hids : ((txn.id.map fun id ↦ trimmed (dialect.write id)).filter (· ≠ [])).map String.ofList =
      txn.id.map String.ofList ↔ ∀ id ∈ txn.id, dialect.KeepsId id := by
    rw [← keepsIds_iff]
    exact (Option.map_injective fun _ _ ↦ String.ofList_inj.1).eq_iff
  rw [finish_eq_ok, Txn.fields, hamount, hdate]
  simp only [filter_ne_nil, Option.filter_none, Option.or_none]
  constructor
  · rintro ⟨_, _, _, ⟨-, rfl⟩, ⟨-, rfl⟩, ⟨hne, rfl⟩, hposted, hminor, hline⟩
    injection hline with hfetched
    injection hfetched with _ hdescription _ hid
    exact ⟨(parseOfxDate_dateText.1 hposted).1, (parseOfxAmountMinor_amountText.1 hminor).1,
      keepsText_iff.2 ⟨hne, (String.ofList_inj.1 hdescription).symm⟩, hids.1 hid.symm⟩
  · rintro ⟨hyears, hfits, hdescription, hid⟩
    obtain ⟨hne, hread⟩ := keepsText_iff.1 hdescription
    refine ⟨dateText txn.date, amountText txn.amountMinor, _, ⟨?_, rfl⟩, ⟨?_, rfl⟩, ⟨hne, rfl⟩,
      parseOfxDate_dateText.2 ⟨hyears, rfl⟩, parseOfxAmountMinor_amountText.2 ⟨hfits, rfl⟩, ?_⟩
    · exact List.ne_nil_of_length_eq_add_one (length_dateText _)
    · simp [amountText]
    · rw [hread, hids.2 hid]
      rfl

theorem notMem_write (hwritable : dialect.Writable text) : '<' ∉ dialect.write text := by
  by_cases hdialect : dialect = .sgml
  · subst hdialect
    exact hwritable rfl
  · rw [write_of_ne hdialect]
    exact notMem_escapeBy (by decide) (by decide) text

theorem notMem_amountText (n : ℤ) : '<' ∉ amountText n := by
  rw [amountText, List.mem_append, List.mem_append, List.mem_cons]
  rintro (hmem | hmem | hmem | hmem)
  · split at hmem <;> simp at hmem
  · cases isDigit_toDigits _ _ hmem
  · cases hmem
  · cases isDigit_zeroPad _ _ _ hmem

theorem notMem_dateText (d : Date) : '<' ∉ dateText d := by
  intro hmem
  cases isDigit_dateText d _ hmem

theorem CurrencyCode.notMem (currency : CurrencyCode) : '<' ∉ currency.code := by
  intro hmem
  cases currency.upper _ hmem

theorem wellFormed_txn (hwritable : txn.Writable dialect) :
    ∀ element ∈ txn.elements dialect, element.WellFormed := by
  have htype : '<' ∉ (if txn.amountMinor < 0 then "DEBIT" else "CREDIT").toList := by
    split <;> decide
  simp only [Txn.elements, List.forall_mem_append, List.forall_mem_cons, List.not_mem_nil,
    IsEmpty.forall_iff, implies_true, and_true, Element.WellFormed]
  refine ⟨⟨⟨by decide, ⟨by decide, htype, by decide⟩, ⟨by decide, notMem_dateText _, by decide⟩,
    by decide, notMem_amountText _, by decide⟩, ?_⟩,
    ⟨by decide, notMem_write hwritable.description, by decide⟩, by decide⟩
  intro element helement
  rw [Option.mem_toList, Option.map_eq_some_iff] at helement
  obtain ⟨id, hid, rfl⟩ := helement
  exact ⟨by decide, notMem_write (hwritable.id id hid), by decide⟩

theorem wellFormed_elements (hwritable : ∀ txn ∈ statement.txns, txn.Writable dialect) :
    ∀ element ∈ statement.elements dialect, element.WellFormed := by
  simp only [Statement.elements, List.forall_mem_append, List.forall_mem_cons, List.not_mem_nil,
    IsEmpty.forall_iff, implies_true, and_true, Element.WellFormed]
  refine ⟨⟨⟨by decide, by decide, by decide, by decide,
    ⟨by decide, statement.currency.notMem, by decide⟩, by decide⟩, ?_⟩,
    by decide, by decide, ⟨by decide, notMem_amountText _, by decide⟩,
    ⟨by decide, notMem_dateText _, by decide⟩, by decide⟩
  intro element helement
  obtain ⟨txn, htxn, hmem⟩ := List.mem_flatMap.1 helement
  exact wellFormed_txn (hwritable txn htxn) element hmem

theorem readElements_statement {s' : ParseState} :
    (statement.elements dialect).foldlM readElement {} = .ok s' ↔
      ∃ lines, (statement.txns.mapM fun txn : Txn ↦ (txn.fields dialect).finish) = .ok lines ∧
        (|statement.balanceMinor| < 2 ^ 63 ∧ 1900 ≤ statement.asOf.year ∧
          statement.asOf.year ≤ 2200) ∧
        s' = ⟨⟨lines, some (String.ofList statement.currency.code), some statement.balanceMinor,
          some (iso statement.asOf)⟩, false, none⟩ := by
  rw [Statement.elements, List.foldlM_append, List.foldlM_append, readElements_opening,
    except_ok_bind, readElements_txns _ rfl]
  cases statement.txns.mapM fun txn : Txn ↦ (txn.fields dialect).finish with
  | error e =>
    refine ⟨fun hread ↦ ?_, fun ⟨_, hlines, _⟩ ↦ ?_⟩
    · cases hread
    · cases hlines
  | ok lines =>
    refine (readElements_closing lines _ _ _).trans ⟨fun hread ↦ ⟨lines, rfl, hread⟩, ?_⟩
    rintro ⟨_, hlines, hread⟩
    rw [← Except.ok.inj hlines] at hread
    exact hread

/-- The lines of the transactions, before they have a currency. -/
theorem finish_all : (statement.txns.mapM fun txn : Txn ↦ (txn.fields dialect).finish) =
    .ok (statement.txns.map Txn.line) ↔ ∀ txn ∈ statement.txns, txn.Kept dialect := by
  rw [except_mapM_eq_ok, List.forall₂_map_right_iff, List.forall₂_same]
  simp only [finish_fields]

/-- The stamp hides no difference, since no line has a currency before it. -/
theorem stamp_inj {txns : List Txn} {lines : List FetchedLine} {currency : String}
    (hlines : (txns.mapM fun txn : Txn ↦ (txn.fields dialect).finish) = .ok lines)
    (hstamp : (lines.map fun line ↦ { line with currency := some currency }) =
      txns.map fun txn ↦ { txn.line with currency := some currency }) :
    lines = txns.map Txn.line := by
  rw [except_mapM_eq_ok] at hlines
  induction hlines with
  | nil => rfl
  | @cons txn line txns lines hline _ ih =>
    rw [List.map_cons, List.map_cons, List.cons.injEq] at hstamp
    obtain ⟨hfirst, hrest⟩ := hstamp
    have hnone : line.currency = none := by
      obtain ⟨_, _, _, -, -, -, -, -, hline⟩ := finish_eq_ok.1 hline
      rw [hline]
    have hline : line = txn.line := calc
      line = { line with currency := none } := by rw [← hnone]
      _ = txn.line := congrArg (fun line ↦ ({ line with currency := none } : FetchedLine)) hfirst
    rw [hline, ih hrest, List.map_cons]

theorem parse_rendered (hwritable : ∀ txn ∈ statement.txns, txn.Writable dialect)
    (hlaid : Laid Quiet dialect (statement.elements dialect) text) :
    parseOfx (String.ofList (header dialect ++ text)) = .ok statement.expected ↔
      statement.Kept dialect := by
  rw [parseOfx_laid hlaid (wellFormed_elements hwritable) List.mem_cons_self, except_bind_eq_ok]
  constructor
  · rintro ⟨s, hread, hend⟩
    obtain ⟨lines, hlines, ⟨hbalance, hyears⟩, rfl⟩ := readElements_statement.1 hread
    rw [except_guard_eq_ok, except_pure_eq_ok] at hend
    have hstamp := congrArg OfxStatement.lines hend.2
    rw [stamp_inj hlines hstamp] at hlines
    exact ⟨finish_all.1 hlines, hbalance, hyears⟩
  · rintro ⟨htxns, hbalance, hyears⟩
    refine ⟨_, readElements_statement.2 ⟨_, finish_all.2 htxns, ⟨hbalance, hyears⟩, rfl⟩, ?_⟩
    rw [except_guard_eq_ok, except_pure_eq_ok]
    exact ⟨by simp, congrArg (fun lines ↦ { statement.expected with lines }) List.map_map⟩

/-- A statement is read back exactly when each of its texts and numbers is, whatever stands between
the elements if nothing in it counts. Only such comments are skipped from every state. -/
theorem parse_rendered_iff (hwritable : ∀ txn ∈ statement.txns, txn.Writable dialect)
    (hlaid : Laid Quiet dialect (statement.elements dialect) text) :
    (parseOfx (String.ofList (header dialect ++ text)) = .ok statement.expected ↔
      statement.Kept dialect) ∧
    (∀ text', Laid Quiet dialect (statement.elements dialect) text' →
      parseOfx (String.ofList (header dialect ++ text')) =
        parseOfx (String.ofList (header dialect ++ text))) ∧
    ∀ comment, (∀ s, (tokenize (commentText comment)).foldlM step s = .ok s) ↔ Quiet comment := by
  have hwellFormed := wellFormed_elements hwritable
  have hroot : .opening "OFX" ∈ statement.elements dialect := List.mem_cons_self
  refine ⟨parse_rendered hwritable hlaid, fun text' hlaid' ↦ ?_, fun _ ↦ foldlM_iff_idle⟩
  rw [parseOfx_laid hlaid hwellFormed hroot, parseOfx_laid hlaid' hwellFormed hroot]

def rand : CurrencyCode :=
  ⟨"ZAR".toList, rfl, List.all_eq_true.1 rfl⟩

def lastOfJune : Date :=
  ⟨2026, 6, 30, by decide, by decide, by decide⟩

def teaStatement (id : String) : Statement where
  txns := [⟨lastOfJune, -1250, some id.toList, "Tea & cake".toList⟩]
  currency := rand
  balanceMinor := 100000
  asOf := lastOfJune

def teaText (id comment : String) : List Char :=
  commentText comment.toList ++ ((teaStatement id).elements .xml).flatMap (Element.written .xml)

theorem laid_teaText {quiet : List Char → Prop} (id : String) {comment : String}
    (hquiet : quiet comment.toList) :
    Laid quiet .xml ((teaStatement id).elements .xml) (teaText id comment) :=
  .commented hquiet _

theorem writable_xml (txn : Txn) : txn.Writable .xml :=
  ⟨fun _ _ ↦ nofun, nofun⟩

theorem parse_rendered_tea : (teaStatement "T1").Kept .xml ∧
    parseOfx (String.ofList (header .xml ++ teaText "T1" " exported ")) =
      .ok (teaStatement "T1").expected := by
  have hkept : (teaStatement "T1").Kept .xml := by
    refine ⟨List.forall_mem_singleton.2 ⟨by decide, by decide, ⟨by decide, ?_, nofun⟩, ?_⟩, by decide,
      by decide⟩
    · exact trimmed_eq_self.1 (by decide)
    · intro id hid
      obtain rfl := Option.some.inj hid
      exact ⟨by decide, trimmed_eq_self.1 (by decide), fun _ ↦ by decide⟩
  have hquiet : Quiet " exported ".toList := by decide
  have hlaid := laid_teaText "T1" hquiet
  exact ⟨hkept, (parse_rendered_iff (fun txn _ ↦ writable_xml txn) hlaid).1.2 hkept⟩

/-- What follows the first greater-than sign of a comment is read, and entities of an identifier are
not decoded. -/
theorem not_parse_commented :
    (Laid (fun _ ↦ True) .xml ((teaStatement "T1").elements .xml) (teaText "T1" " > <STMTTRN> ") ∧
      parseOfx (String.ofList (header .xml ++ teaText "T1" " > <STMTTRN> ")) =
        .error (.parse "<STMTTRN> opened again before the previous one closed")) ∧
    parseOfx (String.ofList (header .xml ++ teaText "a&b" " exported ")) ≠
      .ok (teaStatement "a&b").expected := by
  refine ⟨⟨laid_teaText _ trivial, ?_⟩, fun hparse ↦ ?_⟩
  · have hcomment : (tokenize (commentText " > <STMTTRN> ".toList)).foldlM step {} =
        .ok { current := some {} } := by decide
    rw [teaText, parseOfx_commented _ (wellFormed_elements fun txn _ ↦ writable_xml txn)
      List.mem_cons_self, hcomment]
    rfl
  · have hquiet : Quiet " exported ".toList := by decide
    have hkept := (parse_rendered (fun txn _ ↦ writable_xml txn) (laid_teaText _ hquiet)).1 hparse
    have hid := ((List.forall_mem_singleton.1 hkept.txns).id _ rfl).plain (by decide)
    exact absurd hid (by decide)

end Statements

end SlipScan.Ingest.Ofx
