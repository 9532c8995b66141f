import SlipScan.Foundation.KeyedTable
import SlipScan.Model.Amounts
import SlipScan.Model.Mail
import SlipScan.Model.StatementImport

namespace SlipScan.Model.Alerts

open Model.Domain Model.Database Model.StatementImport Model.Amounts Foundation.Table
  Foundation.Interleaving

section Money

/-- The tables of Unicode: letters, letters and numbers, and the digits of a regular expression. -/
structure AlertHost where
  isAlphabetic : Char → Bool
  isAlphanumeric : Char → Bool
  isDecimalDigit : Char → Bool

variable (h : AlertHost)

def maxAlertAmountMinor : ℤ := 1000000000000000

def maxDeclineSnippetChars : ℕ := 80

inductive AmountStyle
  | auto | point | comma
  deriving DecidableEq, Repr

def AmountStyle.decimalStyle : AmountStyle → DecimalStyle
  | .auto => .auto
  | .point => .point
  | .comma => .comma

def normalizeSpaces (text : List Char) : List Char :=
  text.map fun c ↦
    if c ∈ ['\u00a0', '\u202f', '\u2007', '\u2009', '\u2002', '\u2003', '\ufeff'] then ' ' else c

def snippet (raw : String) : String :=
  let trimmed := (trim raw).toList
  if trimmed.length ≤ maxDeclineSnippetChars then String.ofList trimmed
  else String.ofList (trimmed.take maxDeclineSnippetChars) ++ "…"

def isCurrencySymbol (c : Char) : Bool :=
  !h.isAlphanumeric c && !isWhitespace c && c ∉ ['.', ',', '-', '+', '(', ')']

/-- How many characters at the start of a text are a currency marker: a word of at most three
letters, or one or two symbols. -/
def markerLength (s : List Char) : ℕ :=
  let letters := (s.takeWhile h.isAlphabetic).length
  if letters > 0 then if letters ≤ 3 then letters else 0
  else
    let symbols := (s.takeWhile (isCurrencySymbol h)).length
    if 1 ≤ symbols ∧ symbols ≤ 2 then symbols else 0

def stripCurrencyMarkers (text : List Char) : List Char :=
  let text := trimmed text
  let text := trimmed (text.drop (markerLength h text))
  let cut := markerLength h text.reverse
  trimmed (text.take (text.length - cut))

def isGroupSeparator (c : Char) : Bool :=
  c = ' ' || isSeparator c

/-- `(?:[.,]\d{1,2})?` up to the end. -/
def matchesFraction : List Char → Bool
  | [] => true
  | [sep, a] => isSeparator sep && h.isDecimalDigit a
  | [sep, a, b] => isSeparator sep && h.isDecimalDigit a && h.isDecimalDigit b
  | _ => false

/-- `(?:[ .,]\d{3})*(?:[.,]\d{1,2})?` up to the end. -/
def matchesGroups : List Char → Bool
  | sep :: a :: b :: c :: rest =>
    isGroupSeparator sep && h.isDecimalDigit a && h.isDecimalDigit b && h.isDecimalDigit c &&
      matchesGroups rest
  | rest => matchesFraction h rest

/-- `^(?:\d{1,3}(?:[ .,]\d{3})+(?:[.,]\d{1,2})?|\d+(?:[.,]\d{1,2})?)$` -/
def amountShape (amount : List Char) : Bool :=
  let first := amount.takeWhile h.isDecimalDigit
  let rest := amount.dropWhile h.isDecimalDigit
  first ≠ [] ∧ (first.length ≤ 3 ∧ matchesGroups h rest ∨ matchesFraction h rest)

def impliedDecimalSeparator (amount : List Char) : Option Char :=
  match splitLast isSeparator amount with
  | none => none
  | some (before, frac) =>
    let bytes := String.utf8Len frac
    if 1 ≤ bytes ∧ bytes ≤ 2 ∧ frac.all Char.isDigit then amount[before.length]? else none

def styleName : AmountStyle → String
  | .auto => "Auto"
  | .point => "Point"
  | .comma => "Comma"

def checkDecimalSeparator (raw : String) (stripped : List Char) (style : AmountStyle) :
    Except String Unit :=
  match impliedDecimalSeparator stripped with
  | none => .ok ()
  | some used =>
    let declared := match style with
      | .auto => used
      | .point => '.'
      | .comma => ','
    if used = declared then .ok ()
    else .error (s!"captured {repr (snippet raw)}, whose decimal separator is {repr used}, " ++
      s!"but the rule declares {styleName style}")

def parseAlertAmount (raw : String) (style : AmountStyle) : Except String ℤ := do
  let captured := s!"captured {repr (snippet raw)}"
  let stripped := stripCurrencyMarkers h (trimmed (normalizeSpaces raw.toList))
  if stripped = [] then throw (captured ++ ", which holds no digits")
  if stripped.any h.isAlphabetic then
    throw (captured ++ ": an amount must be digits and separators only, so this is prose the " ++
      "pattern swept up")
  if !amountShape h stripped then throw (captured ++ ", which is not a well-formed amount")
  checkDecimalSeparator raw stripped style
  let minor ← (parseAmountMinorStyled (String.ofList stripped) style.decimalStyle).mapError fun e ↦
    captured ++ ": " ++ ingestErrorText e
  if minor ≤ 0 then
    throw (captured ++ ", which is not a positive amount; direction comes from the rule, never " ++
      "from the text")
  if minor > maxAlertAmountMinor then
    throw (captured ++ ", which exceeds the maximum bookable amount")
  return minor

end Money

section Hints

inductive Direction
  | debit | credit
  deriving DecidableEq, Repr

structure MaskedAccount extends Account where
  accountNumberMasked : Option String
  deriving DecidableEq, Repr

structure ParsedAlert where
  packId : String
  ruleId : String
  messageId : String
  line : StatementLine
  direction : Direction
  reference : Option String
  accountHint : Option String
  deriving DecidableEq, Repr

def asciiDigits (s : String) : List Char :=
  s.toList.filter Char.isDigit

def tail (take : ℕ) (digits : List Char) : List Char :=
  digits.drop (digits.length - take)

/-- Whether a hint contradicts the number of an account. What is not known contradicts nothing. -/
def accountHintConflicts (hint : String) (account : MaskedAccount) : Bool :=
  let hintDigits := asciiDigits hint
  match account.accountNumberMasked with
  | none => false
  | some masked =>
    let accountDigits := asciiDigits masked
    if hintDigits.isEmpty || accountDigits.isEmpty then false
    else
      let take := min hintDigits.length accountDigits.length
      tail take hintDigits ≠ tail take accountDigits

abbrev AlertGroups := Keyed fun group : String × List ParsedAlert ↦ group.1

def pushAlert (grouped : AlertGroups) (id : String) (alert : ParsedAlert) : AlertGroups :=
  grouped.upsert (id, [alert]) (fun group ↦ (group.1, group.2 ++ [alert])) fun _ ↦ rfl

def candidates (accounts : List MaskedAccount) (hint : String) : List MaskedAccount :=
  accounts.filter fun account ↦
    !accountHintConflicts hint account && account.accountNumberMasked.isSome

def routeAlert (accounts : List MaskedAccount) (acc : AlertGroups × List ParsedAlert)
    (alert : ParsedAlert) : AlertGroups × List ParsedAlert :=
  match alert.accountHint with
  | none => (acc.1, acc.2 ++ [alert])
  | some hint =>
    match candidates accounts hint with
    | [only] => (pushAlert acc.1 only.id alert, acc.2)
    | _ => (acc.1, acc.2 ++ [alert])

/-- The alerts for each account, and the alerts whose hint does not single one out. -/
def groupByAccountHint (accounts : List MaskedAccount) (alerts : List ParsedAlert) :
    AlertGroups × List ParsedAlert :=
  alerts.foldl (routeAlert accounts) (∅, [])

end Hints

section Import

inductive AlertField
  | amount | currency | date | merchant | reference | direction | accountHint
  deriving DecidableEq, Repr

inductive AlertDecline
  | noRuleForSender
  | gatesDidNotMatch (ruleId : String)
  | field (ruleId : String) (field : AlertField) (detail : String)
  deriving DecidableEq, Repr

structure AlertImportOutcome where
  statement : StatementImportOutcome := {}
  declined : List AlertDecline := []

def hintDecline (account : MaskedAccount) (alert : ParsedAlert) : Option AlertDecline :=
  (alert.accountHint.filter (accountHintConflicts · account)).map fun hint ↦
    .field alert.ruleId .accountHint
      s!"alert is about account {repr (snippet hint)}, which is not the account it would be imported into"

variable (h : Host) (maskedNumber : String → Option String)

def maskedAccount (account : Account) : MaskedAccount :=
  { account with accountNumberMasked := maskedNumber account.id }

def importAlerts (bookId accountId : String) (alerts : List ParsedAlert) :
    Service AlertImportOutcome := do
  if alerts = [] then return {}
  else
    let account ← Reads.query (Banking.accountGet · accountId)
    let account ← Reads.ofExcept account
    let account := maskedAccount maskedNumber account
    let lines := alerts.filter fun alert ↦ (hintDecline account alert).isNone
    let statement ← importStatementLines h bookId accountId .email (lines.map ParsedAlert.line)
    return ⟨statement, alerts.filterMap (hintDecline account)⟩

/-- What a sync does with the alert that the rules read out of a message, if they read one. -/
def alertSync (rules : Mail.InboundMessage → Except AlertDecline ParsedAlert)
    (coreError : Fault → Mail.CoreError) (bookId accountId : String) : Mail.AlertSync Db :=
  fun message db ↦
    match rules message with
    | .error _ => .ok ((), db)
    | .ok parsed =>
      match (importAlerts h maskedNumber bookId accountId [parsed]).run db with
      | (.ok _, db) => .ok ((), db)
      | (.error e, _) => .error (.core (coreError e))

end Import

end SlipScan.Model.Alerts
