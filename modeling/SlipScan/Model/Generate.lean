import SlipScan.Model.Ledger
import SlipScan.Model.Slip

namespace SlipScan.Model.Generate

open Model.Domain Model.Database Model.Ledger Model.Money Model.Slip Foundation.Transaction
  Foundation.Interleaving Foundation.Table

def coaCodeBank : String := "1000"
def coaCodeAr : String := "1100"
def coaCodeInventory : String := "1200"
def coaCodeVatInput : String := "1400"
def coaCodeAccumDepreciation : String := "1600"
def coaCodeAp : String := "2000"
def coaCodeVatOutput : String := "2100"
def coaCodeRevenue : String := "4000"
def coaCodeCogs : String := "5000"
def coaCodeDepreciationExpense : String := "6250"

def fallbackExpenseCode : BookKind → String
  | .personal => "6000"
  | .business => "6900"

def fallbackIncomeCode : BookKind → String
  | .personal => "4100"
  | .business => "4200"

def coaOrSeedFirst (db : Db) (bookId code : String) : Except Fault CoaAccount :=
  match getCoaByCode db bookId code with
  | some coa => .ok coa
  | none => .error (.validation s!"chart-of-accounts code {code} not found — run coa_seed first")

def coaByCode (bookId code : String) : Service CoaAccount := do
  Process.ofExcept (← Process.query fun db ↦ coaOrSeedFirst db bookId code)

def getCoaMap (db : Db) (bookId : String) (entityType : CoaMapEntity) (entityId : String) :
    Option CoaMapEntry :=
  db.coaMap.find? fun e ↦ e.bookId = bookId ∧ e.entityType = entityType ∧ e.entityId = entityId

/-- The account mapped to an entity, or else the one with a well-known seed code. -/
def mappedOrFallbackCoa (bookId : String) (entityType : CoaMapEntity)
    (entityId fallbackCode : String) : Service CoaAccount := do
  let entry ← Process.query fun db ↦ getCoaMap db bookId entityType entityId
  match entry with
  | some entry =>
    match ← Process.query fun db ↦ getCoa db entry.coaId with
    | some coa => return coa
    | none => coaByCode bookId fallbackCode
  | none => coaByCode bookId fallbackCode

def journalLine (currency : String) (description : Option String) (coa : CoaAccount)
    (debit credit : ℤ) (rate : Option VatRate) (role : Option VatRole) : NewJournalLine :=
  { coaId := coa.id
    debitMinor := debit
    creditMinor := credit
    currency
    description
    vatRateId := rate.map VatRate.id
    vatRole := role }

section Transactions

variable (h : Host)

/-- The fallback follows the kind of the category. Only a transfer or a transaction without
category follows the direction of the cash. -/
def counterFallback (kind : BookKind) (isOutflow : Bool) : Option CategoryKind → String
  | some .income => fallbackIncomeCode kind
  | some .expense => fallbackExpenseCode kind
  | some .transfer | none => if isOutflow then fallbackExpenseCode kind else fallbackIncomeCode kind

def checkRateActive (rate : VatRate) : Except Fault Unit :=
  if !rate.isActive then .error (.validation s!"VAT rate {rate.code} is inactive") else .ok ()

def checkCounterKind (rate : VatRate) (counter : CoaAccount) : Except Fault Unit :=
  if counter.kind = .expense ∨ counter.kind = .income then .ok ()
  else .error (.validation s!"cannot apply VAT rate {rate.code} to this transaction: its counter account {counter.code} ({counter.name}) is {counter.kind.asStr}, not an income or expense account — transfer-like movements carry no VAT supply or purchase")

def untaxedLines (line : CoaAccount → ℤ → ℤ → Option VatRate → Option VatRole → NewJournalLine)
    (bank counter : CoaAccount) (isOutflow : Bool) (gross : ℤ) : List NewJournalLine :=
  if isOutflow then [line counter gross 0 none none, line bank 0 gross none none]
  else [line bank gross 0 none none, line counter 0 gross none none]

def vatLines (line : CoaAccount → ℤ → ℤ → Option VatRate → Option VatRole → NewJournalLine)
    (bookId controlCode : String) (isOutflow : Bool) (vat : ℤ) (rate : VatRate) (role : VatRole) :
    Service (List NewJournalLine) :=
  if vat > 0 then do
    let control ← coaByCode bookId controlCode
    return if isOutflow then [line control vat 0 (some rate) (some role)]
      else [line control 0 vat (some rate) (some role)]
  else return []

/-- The lines of a taxed transaction. The side of the tax follows the kind of the counter
account, not the direction of the cash. -/
def taxedLines (line : CoaAccount → ℤ → ℤ → Option VatRate → Option VatRole → NewJournalLine)
    (bookId : String) (bank counter : CoaAccount) (isOutflow : Bool) (gross : ℤ) (rate : VatRate) :
    Service (List NewJournalLine) := do
  Process.ofExcept (checkCounterKind rate counter)
  let (net, vat) := splitInclusive gross rate.rateBps
  let (baseRole, vatRole, controlCode) :=
    if counter.kind = .expense then (VatRole.inputBase, VatRole.inputVat, coaCodeVatInput)
    else (VatRole.outputBase, VatRole.outputVat, coaCodeVatOutput)
  let vatLines ← vatLines line bookId controlCode isOutflow vat rate vatRole
  return if isOutflow then
      line counter net 0 (some rate) (some baseRole) :: vatLines ++ [line bank 0 gross none none]
    else
      line bank gross 0 none none :: line counter 0 net (some rate) (some baseRole) :: vatLines

def counterAccount (book : Book) (txn : Transaction) (isOutflow : Bool) : Service CoaAccount := do
  let categoryKind ← Process.query fun db ↦
    txn.categoryId.bind fun id ↦ (lookup Category.id db.categories id).map Category.kind
  let fallback := counterFallback book.kind isOutflow categoryKind
  match txn.categoryId with
  | some categoryId => mappedOrFallbackCoa book.id .category categoryId fallback
  | none => coaByCode book.id fallback

def transactionLines (book : Book) (txn : Transaction) (bank counter : CoaAccount)
    (isOutflow : Bool) (gross : ℤ) (vatRateId : Option String) : Service (List NewJournalLine) :=
  let line := journalLine txn.currency none
  match vatRateId with
  | none => return untaxedLines line bank counter isOutflow gross
  | some rateId => do
    let rates ← Process.query fun db ↦ listVatRates db book.id
    let rate ← Process.ofExcept
      (orNotFound "vat_rate" rateId (rates.find? fun r ↦ r.id = rateId))
    Process.ofExcept (checkRateActive rate)
    taxedLines line book.id bank counter isOutflow gross rate

def journalGenerateForTransaction (transactionId : String) (vatRateId : Option String) :
    Service PostedJournal := do
  let txn ← Process.ofExcept (← Process.query fun db ↦
    orNotFound "transaction" transactionId
      (lookup Transaction.id db.transactions transactionId))
  let book ← bookGet txn.bookId
  let gross := asI64 |txn.amountMinor|
  Process.ofExcept
    (require (gross ≠ 0) "cannot generate a journal for a zero-amount transaction")
  let isOutflow : Bool := txn.amountMinor < 0
  let bank ← mappedOrFallbackCoa book.id .account txn.accountId coaCodeBank
  let counter ← counterAccount book txn isOutflow
  let lines ← transactionLines book txn bank counter isOutflow gross vatRateId
  Process.atomically [.book book] (postJournalInTx h book
    { bookId := book.id
      postedDate := txn.postedDate
      narrative := txn.merchant.or txn.description
      reference := txn.providerTxnId
      sourceType := .transaction
      sourceId := some txn.id
      lines } none)

end Transactions

section Documents

variable (h : Host) (parseSlip : String → Except Fault SlipPayload)

/-- The active rate with these basis points, an exempt one only when there is no other. -/
def rateFor (rates : List VatRate) (bps : ℤ) : Option VatRate :=
  (rates.filter fun r ↦ r.isActive ∧ r.rateBps = bps).foldl (fun best r ↦
    match best with
    | none => some r
    | some b =>
      if toLex (decide (r.code = "EXE"), r.code) < toLex (decide (b.code = "EXE"), b.code) then some r
      else some b) none

def splitSides (amount : ℤ) : ℤ × ℤ :=
  if amount > 0 then (amount, 0) else (0, asI64 (-amount))

def signedLine (line : CoaAccount → ℤ → ℤ → Option VatRate → Option VatRole → NewJournalLine)
    (coa : CoaAccount) (amount : ℤ) (rate : Option VatRate) (role : Option VatRole) :
    List NewJournalLine :=
  if amount ≠ 0 then [line coa (splitSides amount).1 (splitSides amount).2 rate role] else []

/-- The lines of the expense side. What the groups leave of the total goes untagged to expenses. -/
def documentLines (line : CoaAccount → ℤ → ℤ → Option VatRate → Option VatRole → NewJournalLine)
    (slip : SlipPayload) (expense : CoaAccount) (vatInput : Option CoaAccount)
    (rates : List VatRate) : List NewJournalLine :=
  match vatInput with
  | some vatInput =>
    let groups := slip.vatGroups
    let groupNet := sumI64 (groups.flatMap fun g ↦ [g.baseMinor, g.vatMinor])
    groups.flatMap (fun g ↦
      let rate := g.rateBps.bind (rateFor rates)
      signedLine line expense g.baseMinor rate (some .inputBase) ++
        signedLine line vatInput g.vatMinor rate (some .inputVat)) ++
      signedLine line expense (asI64 (slip.totalMinor - groupNet)) none none
  | none => [line expense slip.totalMinor 0 none none]

def currentExtraction (db : Db) (documentId : String) : Option DocumentExtraction :=
  db.documentExtractions.find? fun e ↦ e.documentId = documentId ∧ e.isCurrent

def currencyOr (book : Book) : Option String → Except Fault String
  | some raw => normalizeCurrencyCode raw
  | none => .ok book.currency

/-- The account for the tax on purchases. A personal book has none. -/
def vatInputAccount (db : Db) (book : Book) : Option CoaAccount :=
  match book.kind with
  | .business => getCoaByCode db book.id coaCodeVatInput
  | .personal => none

def currentPayload (db : Db) (documentId : String) : Except Fault String :=
  match (currentExtraction db documentId).bind DocumentExtraction.payload with
  | some payload => .ok payload
  | none => .error (.validation "document has no current extraction payload")

def journalGenerateForDocument (documentId : String) : Service PostedJournal := do
  let document ← Process.ofExcept (← Process.query fun db ↦
    orNotFound "document" documentId (lookup Document.id db.documents documentId))
  let book ← bookGet document.bookId
  let payload ← Process.ofExcept (← Process.query fun db ↦ currentPayload db documentId)
  let slip ← Process.ofExcept (parseSlip payload)
  Process.ofExcept
    (require (slip.totalMinor > 0) "slip total must be positive to generate a journal")
  let currency ← Process.ofExcept (currencyOr book slip.currency)
  let postedDate := (slip.purchaseDate h).getD (datePart document.createdAt)
  let expense ← coaByCode book.id (fallbackExpenseCode book.kind)
  let bank ← coaByCode book.id coaCodeBank
  let vatInput ← Process.query fun db ↦ vatInputAccount db book
  let rates ← Process.query fun db ↦ listVatRates db book.id
  let line := journalLine currency slip.merchantName
  Process.atomically [.book book] (postJournalInTx h book
    { bookId := book.id
      postedDate
      narrative := slip.merchantName
      reference := none
      sourceType := .document
      sourceId := some document.id
      lines := documentLines line slip expense vatInput rates ++
        [line bank 0 slip.totalMinor none none] } none)

end Documents

end SlipScan.Model.Generate
