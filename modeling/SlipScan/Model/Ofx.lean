import SlipScan.Foundation.Escapes
import SlipScan.Model.CsvStatement

namespace SlipScan.Model.Ofx

open Model.Database Model.Amounts Model.StatementImport Model.CsvStatement Foundation.Escapes

section Tokens

structure Token where
  name : List Char
  closing : Bool
  value : List Char
  deriving DecidableEq, Repr

def trimEnd (c : Char) (text : List Char) : List Char :=
  (text.reverse.dropWhile (· = c)).reverse

/-- The token of a tag. Declarations, comments and tags without a name have none. -/
def tokenOf (raw value : List Char) : Option Token :=
  match raw with
  | '?' :: _ => none
  | '!' :: _ => none
  | '/' :: name => if trimmed name = [] then none else some ⟨trimmed name, true, value⟩
  | _ =>
    let name := trimmed (trimEnd '/' raw)
    if name = [] then none else some ⟨name, false, value⟩

def readTag (body : List Char) : Option (Option Token × List Char) :=
  match body.dropWhile (· ≠ '<') with
  | [] => none
  | _ :: tag =>
    match tag.dropWhile (· ≠ '>') with
    | [] => none
    | _ :: rest =>
      let raw := trimmed (tag.takeWhile (· ≠ '>'))
      let value := trimmed (rest.takeWhile (· ≠ '<'))
      some (tokenOf raw value, rest.dropWhile (· ≠ '<'))

/-- Every round reads a tag, so that there are fewer rounds than characters. -/
def tokenizeWith : ℕ → List Char → List Token
  | 0, _ => []
  | fuel + 1, body =>
    match readTag body with
    | none => []
    | some (token, rest) => token.toList ++ tokenizeWith fuel rest

def tokenize (body : List Char) : List Token :=
  tokenizeWith (body.length + 1) body

end Tokens

section Values

def takeSign (raw : List Char) : Bool × List Char :=
  match raw with
  | '-' :: rest => (true, rest)
  | '+' :: rest => (false, rest)
  | _ => (false, raw)

def parseOfxAmountMinor (raw : List Char) : Except IngestError ℤ := do
  let raw := trimmed raw
  let shown := repr (String.ofList raw)
  if raw = [] then throw (.parse "empty amount")
  let (negative, rest) := takeSign raw
  if rest = [] then throw (.parse s!"{shown} has no digits")
  let majorRaw := rest.takeWhile (· ≠ '.')
  let minorRaw := (rest.dropWhile (· ≠ '.')).tail
  if ¬(majorRaw.all Char.isDigit ∧ minorRaw.all Char.isDigit) then
    throw (.parse s!"{shown} is not a plain decimal amount")
  if majorRaw = [] ∧ minorRaw = [] then throw (.parse s!"{shown} has no digits")
  if minorRaw.length > 2 then
    throw (.parse (s!"{shown} has more than 2 fractional digits; cannot represent exactly in " ++
      "minor units"))
  let some major := parseI64 majorRaw | throw (.parse s!"{shown} overflows i64")
  let minor := major * 100 + centsOf minorRaw
  if 2 ^ 63 ≤ minor then throw (.parse s!"{shown} overflows i64")
  return if negative then -(minor : ℤ) else minor

def parseOfxDate (raw : List Char) : Except IngestError String := do
  let raw := trimmed raw
  let digits := raw.take 8
  let shown := repr (String.ofList raw)
  if ¬(digits.length = 8 ∧ digits.all Char.isDigit) then
    throw (.parse s!"{shown} is not YYYYMMDD or YYYYMMDDHHMMSS[.XXX][TZ]")
  let year := Nat.ofDigitChars 10 (digits.take 4) 0
  let month := Nat.ofDigitChars 10 ((digits.drop 4).take 2) 0
  let day := Nat.ofDigitChars 10 (digits.drop 6) 0
  if InRange year month day then return isoDate year month day
  throw (.parse s!"{shown} is not a real date")

def replace (pattern replacement : String) (text : List Char) : List Char :=
  replaceAfter pattern.toList replacement.toList 0 text

/-- The ampersand is decoded last, so that nothing is decoded twice. -/
def unescapeXml (s : List Char) : List Char :=
  replace "&amp;" "&" (replace "&quot;" "\"" (replace "&apos;" "'" (replace "&gt;" ">"
    (replace "&lt;" "<" s))))

end Values

section Statements

structure PartialTxn where
  dtposted : Option (List Char) := none
  trnamt : Option (List Char) := none
  name : Option (List Char) := none
  memo : Option (List Char) := none
  fitid : Option (List Char) := none
  deriving DecidableEq, Repr

structure OfxStatement where
  lines : List FetchedLine := []
  currency : Option String := none
  ledgerBalanceMinor : Option ℤ := none
  ledgerBalanceDate : Option String := none
  deriving DecidableEq, Repr

def PartialTxn.label (txn : PartialTxn) : String :=
  match txn.fitid with
  | some (c :: id) => s!"<STMTTRN> FITID {repr (String.ofList (c :: id))}"
  | _ => "a <STMTTRN> with no FITID"

def within {α : Type} (context : String) (r : Except IngestError α) : Except IngestError α :=
  r.mapError fun e ↦ .parse (context ++ ": " ++ ingestErrorText e)

def PartialTxn.finish (txn : PartialTxn) : Except IngestError FetchedLine := do
  let label := txn.label
  let some dtposted := txn.dtposted.filter (· ≠ []) | throw (.parse (label ++ ": missing DTPOSTED"))
  let postedDate ← within (label ++ s!": DTPOSTED {repr (String.ofList dtposted)}")
    (parseOfxDate dtposted)
  let some trnamt := txn.trnamt.filter (· ≠ []) | throw (.parse (label ++ ": missing TRNAMT"))
  let amountMinor ← within (label ++ s!": TRNAMT {repr (String.ofList trnamt)}")
    (parseOfxAmountMinor trnamt)
  let some description := (txn.name.filter (· ≠ [])).or (txn.memo.filter (· ≠ []))
    | throw (.parse (label ++ ": neither NAME nor MEMO is present"))
  return {
    postedDate
    description := String.ofList (unescapeXml description)
    amountMinor
    balanceMinor := none
    providerTxnId := (txn.fitid.filter (· ≠ [])).map String.ofList
    currency := none }

structure ParseState where
  statement : OfxStatement := {}
  inLedgerbal : Bool := false
  current : Option PartialTxn := none
  deriving DecidableEq, Repr

/-- A field inside a transaction. The last one of a name counts. -/
def PartialTxn.set (txn : PartialTxn) (name : String) (value : List Char) : PartialTxn :=
  match name with
  | "DTPOSTED" => { txn with dtposted := some value }
  | "TRNAMT" => { txn with trnamt := some value }
  | "NAME" => { txn with name := some value }
  | "MEMO" => { txn with memo := some value }
  | "FITID" => { txn with fitid := some value }
  | _ => txn

/-- A field of the statement itself. The first one of a name counts. -/
def setField (s : ParseState) (name : String) (value : List Char) :
    Except IngestError ParseState := do
  let shown := repr (String.ofList value)
  match name with
  | "CURDEF" =>
    if s.statement.currency.isNone ∧ value ≠ [] then
      let currency := String.ofList (value.map Char.toUpper)
      return { s with statement := { s.statement with currency := some currency } }
    else return s
  | "BALAMT" =>
    if s.inLedgerbal ∧ s.statement.ledgerBalanceMinor.isNone then
      let balance ← within s!"LEDGERBAL BALAMT {shown}" (parseOfxAmountMinor value)
      return { s with statement := { s.statement with ledgerBalanceMinor := some balance } }
    else return s
  | "DTASOF" =>
    if s.inLedgerbal ∧ s.statement.ledgerBalanceDate.isNone then
      let date ← within s!"LEDGERBAL DTASOF {shown}" (parseOfxDate value)
      return { s with statement := { s.statement with ledgerBalanceDate := some date } }
    else return s
  | _ => return s

def upperName (token : Token) : String :=
  String.ofList (token.name.map Char.toUpper)

def step (s : ParseState) (token : Token) : Except IngestError ParseState :=
  match upperName token with
  | "STMTTRN" =>
    match token.closing, s.current with
    | true, none => throw (.parse "</STMTTRN> without a matching open tag")
    | true, some txn => do
      let line ← txn.finish
      let statement := { s.statement with lines := s.statement.lines ++ [line] }
      return { s with statement, current := none }
    | false, some _ => throw (.parse "<STMTTRN> opened again before the previous one closed")
    | false, none => return { s with current := some {} }
  | "LEDGERBAL" => return { s with inLedgerbal := !token.closing }
  | name =>
    if token.closing then return s
    else
      match s.current with
      | some txn => return { s with current := some (txn.set name token.value) }
      | none => setField s name token.value

/-- Every line has the currency of the statement, if there is one. -/
def OfxStatement.stamped (statement : OfxStatement) : OfxStatement :=
  match statement.currency with
  | none => statement
  | some currency =>
    { statement with
      lines := statement.lines.map fun line ↦ { line with currency := some currency } }

def parseOfx (text : String) : Except IngestError OfxStatement := do
  let tokens := tokenize text.toList
  if !tokens.any (fun token ↦ !token.closing && upperName token = "OFX") then
    throw (.parse "not an OFX file: no <OFX> element found")
  let s ← tokens.foldlM step {}
  if s.current.isSome then throw (.parse "<STMTTRN> was never closed")
  return s.statement.stamped

end Statements

end SlipScan.Model.Ofx
