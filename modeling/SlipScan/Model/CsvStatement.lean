import SlipScan.Model.Amounts
import SlipScan.Model.Assets
import SlipScan.Model.StatementImport

namespace SlipScan.Model.CsvStatement

open Model.Database Model.Amounts Model.StatementImport
open Model.Assets (zeroPad)

section Integers

def digitsValue (digits : List Char) : Option ℕ :=
  if digits ≠ [] ∧ digits.all Char.isDigit then some (Nat.ofDigitChars 10 digits 0) else none

def parseI32 (text : List Char) : Option ℤ :=
  let value : Option ℤ := match text with
    | '-' :: digits => (digitsValue digits).map fun n ↦ -(n : ℤ)
    | '+' :: digits => (digitsValue digits).map fun n ↦ (n : ℤ)
    | digits => (digitsValue digits).map fun n ↦ (n : ℤ)
  value.filter fun n ↦ -2 ^ 31 ≤ n ∧ n < 2 ^ 31

def parseU32 (text : List Char) : Option ℕ :=
  let value := match text with
    | '+' :: digits => digitsValue digits
    | digits => digitsValue digits
  value.filter fun n ↦ n < 2 ^ 32

def asI32 (n : ℕ) : ℤ :=
  if n < 2 ^ 31 then n else (n : ℤ) - 2 ^ 32

def asU32 (n : ℤ) : ℕ :=
  (n % 2 ^ 32).toNat

end Integers

section Dates

inductive DateFormat
  | isoYmd | slashYmd | slashDmy | dashDmy | dotDmy | slashMdy | dashMdy | compactYmd
  | dayMonthNameYear
  deriving DecidableEq, Repr

def split3 (raw : List Char) (sep : Char) : Option (ℤ × ℕ × ℕ) :=
  match raw.splitOn sep with
  | [a, b, c] => do return (← parseI32 (trimmed a), ← parseU32 (trimmed b), ← parseU32 (trimmed c))
  | _ => none

def months : List (List Char) :=
  ["jan", "feb", "mar", "apr", "may", "jun", "jul", "aug", "sep", "oct", "nov", "dec"].map
    String.toList

def monthFromName (name : List Char) : Option ℕ :=
  let lower := name.map Char.toLower
  (months.findIdx? fun m ↦ m.isPrefixOf lower).map (· + 1)

def splitWhitespace (text : List Char) : List (List Char) :=
  (text.splitOnP isWhitespace).filter (· ≠ [])

def dateParts (raw : List Char) : DateFormat → Option (ℤ × ℕ × ℕ)
  | .isoYmd => split3 raw '-'
  | .slashYmd => split3 raw '/'
  | .slashDmy => (split3 raw '/').map fun (d, m, y) ↦ (asI32 y, m, asU32 d)
  | .dashDmy => (split3 raw '-').map fun (d, m, y) ↦ (asI32 y, m, asU32 d)
  | .dotDmy => (split3 raw '.').map fun (d, m, y) ↦ (asI32 y, m, asU32 d)
  | .slashMdy => (split3 raw '/').map fun (m, d, y) ↦ (asI32 y, asU32 m, d)
  | .dashMdy => (split3 raw '-').map fun (m, d, y) ↦ (asI32 y, asU32 m, d)
  | .compactYmd => do
    if raw.length ≠ 8 ∨ ¬raw.all Char.isDigit then none
    return (← parseI32 (raw.take 4), ← parseU32 ((raw.drop 4).take 2), ← parseU32 (raw.drop 6))
  | .dayMonthNameYear =>
    match splitWhitespace raw with
    | [day, month, year] => do
      let day ← parseU32 day
      let month ← monthFromName month
      return (← parseI32 year, month, day)
    | _ => none

def InRange (year : ℤ) (month day : ℕ) : Prop :=
  (1900 ≤ year ∧ year ≤ 2200) ∧ (1 ≤ month ∧ month ≤ 12) ∧ (1 ≤ day ∧ day ≤ 31)

instance (year : ℤ) (month day : ℕ) : Decidable (InRange year month day) :=
  inferInstanceAs (Decidable (_ ∧ _))

/-- A date in the form 2026-06-01. -/
def isoDate (year : ℤ) (month day : ℕ) : String :=
  s!"{zeroPad 4 year.toNat}-{zeroPad 2 month}-{zeroPad 2 day}"

def parseStatementDate (raw : String) (format : DateFormat) : Except IngestError String := do
  let raw := trimmed raw.toList
  let bad := IngestError.parse s!"unparseable date {repr (String.ofList raw)}"
  let some (year, month, day) := dateParts raw format | throw bad
  if InRange year month day then return isoDate year month day else throw bad

end Dates

section Rows

inductive AmountMapping
  | signed (col : ℕ)
  | debitCredit (debitCol creditCol : ℕ)
  deriving DecidableEq, Repr

structure CsvMapping where
  delimiter : UInt8
  skipRows : ℕ
  hasHeader : Bool
  dateCol : ℕ
  dateFormat : DateFormat
  descriptionCol : ℕ
  amount : AmountMapping
  balanceCol : Option ℕ
  referenceCol : Option ℕ
  currency : Option String
  decimal : DecimalStyle
  deriving DecidableEq, Repr

variable (mapping : CsvMapping)

def field (record : List String) (col : ℕ) : String :=
  trim (record[col]?.getD "")

/-- The amount of a row, or nothing for a row that is skipped. -/
def rowAmount (record : List String) (postedDate : String) : Except IngestError (Option ℤ) :=
  let parseAmount (raw : String) := parseAmountMinorStyled raw mapping.decimal
  match mapping.amount with
  | .signed col =>
    let raw := field record col
    if raw = "" then return none else return some (← parseAmount raw)
  | .debitCredit debitCol creditCol =>
    let debit := field record debitCol
    let credit := field record creditCol
    if debit = "" ∧ credit = "" then return none
    else if credit = "" then return some (-|← parseAmount debit|)
    else if debit = "" then return some |← parseAmount credit|
    else do
      let d ← parseAmount debit
      let c ← parseAmount credit
      if d = 0 ∧ c = 0 then return none
      else if d = 0 then return some |c|
      else if c = 0 then return some (-|d|)
      else throw (.parse s!"row {postedDate}: both debit and credit set")

/-- The line of a row. A row without a date or an amount has none. -/
def rowLine (record : List String) : Except IngestError (Option FetchedLine) :=
  match parseStatementDate (field record mapping.dateCol) mapping.dateFormat with
  | .error _ => return none
  | .ok postedDate => do
    let some amountMinor ← rowAmount mapping record postedDate | return none
    let balance := mapping.balanceCol.bind fun col ↦
      (parseAmountMinorStyled (field record col) mapping.decimal).toOption
    return some
      { postedDate
        description := field record mapping.descriptionCol
        amountMinor
        providerTxnId := (mapping.referenceCol.map (field record)).filter (· ≠ "")
        currency := mapping.currency
        balanceMinor := balance }

end Rows

section Tables

/-- The records of a table, by delimiter and whether the first one is a header. -/
abbrev CsvReader := UInt8 → Bool → String → List (Except String (List String))

def textLines (text : List Char) : List (List Char) :=
  let parts := text.splitOn '\n'
  let last := parts.getLast?.getD []
  (parts.dropLast.map fun line ↦ if line.getLast? = some '\r' then line.dropLast else line) ++
    if last = [] then [] else [last]

def tableOf (mapping : CsvMapping) (text : String) : String :=
  String.ofList (['\n'].intercalate ((textLines text.toList).drop mapping.skipRows))

def recordLine (mapping : CsvMapping) (record : Except String (List String)) :
    Except IngestError (Option FetchedLine) := do
  let record ← record.mapError fun e ↦ .parse s!"csv: {e}"
  rowLine mapping record

def parseAll (reader : CsvReader) (mapping : CsvMapping) (text : String) :
    Except IngestError (List FetchedLine) := do
  let records := reader mapping.delimiter mapping.hasHeader (tableOf mapping text)
  let lines ← records.mapM (recordLine mapping)
  return lines.reduceOption

end Tables

end SlipScan.Model.CsvStatement
