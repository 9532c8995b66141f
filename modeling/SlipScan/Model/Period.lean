import SlipScan.Model.Ledger
import SlipScan.Model.Money
import SlipScan.Model.Region

namespace SlipScan.Model.Period

open Model.Domain Model.Database Model.Ledger Model.Money Model.Region Foundation.Transaction
  Foundation.Interleaving Foundation.Table Foundation.Calendar

variable (h : Host)

section Accounts

def insertCoa (coa : CoaAccount) : Action Bool := do
  let db ← get
  if db.coa.any fun a ↦ a.bookId = coa.bookId ∧ a.code = coa.code then return false
  constraint (∀ a ∈ db.coa, a.id ≠ coa.id) "UNIQUE constraint failed: chart_of_accounts.id"
  constraint (references Book.id db.books coa.bookId) "FOREIGN KEY constraint failed"
  modify fun db ↦ { db with coa := db.coa ++ [coa] }
  return true

def insertVatRate (rate : VatRate) : Action Unit := do
  let db ← get
  if db.vatRates.any fun r ↦ r.bookId = rate.bookId ∧ r.code = rate.code then return ()
  constraint (∀ r ∈ db.vatRates, r.id ≠ rate.id) "UNIQUE constraint failed: vat_rates.id"
  constraint (references Book.id db.books rate.bookId) "FOREIGN KEY constraint failed"
  modify fun db ↦ { db with vatRates := db.vatRates ++ [rate] }

def setCoaArchived (id : String) (isArchived : Bool) : Action Unit :=
  modify fun db ↦ { db with coa := update CoaAccount.id db.coa id fun a ↦ { a with isArchived } }

def setVatRateBps (rateId : String) (rateBps : ℤ) : Action Unit :=
  modify fun db ↦
    { db with vatRates := update VatRate.id db.vatRates rateId fun r ↦ { r with rateBps } }

def checkAccountNames (new : NewCoaAccount) : Except Fault Unit :=
  if (trim new.code).isEmpty ∨ (trim new.name).isEmpty then
    .error (.validation "account code and name must not be empty")
  else .ok ()

def coaCreate (new : NewCoaAccount) : Service CoaAccount := do
  let _ ← bookGet new.bookId
  Process.ofExcept (checkAccountNames new)
  let currency ← Process.ofExcept (new.currency.mapM normalizeCurrencyCode)
  Process.atomically [] do
    let account : CoaAccount :=
      { id := ← newId h
        bookId := new.bookId
        code := trim new.code
        name := trim new.name
        kind := new.kind
        currency
        isArchived := false }
    if !(← insertCoa account) then
      throw (.validation s!"account code {account.code} already exists in this book")
    return account

def coaArchive (id : String) : Service CoaAccount := do
  let before ← Process.ofExcept
    (← Process.query fun db ↦ orNotFound "chart_of_accounts" id (getCoa db id))
  Process.atomically [] (setCoaArchived id true)
  return { before with isArchived := true }

/-- Seeds the chart and the tax rates of the book's region. Codes that exist are left alone. -/
def coaSeed (bookId : String) : Service Unit := do
  let book ← bookGet bookId
  let profile := profileOrGeneric book.region
  let seeds := match book.kind with
    | .personal => profile.personalCoa
    | .business => profile.businessCoa
  Process.atomically [] do
    seeds.forM fun (code, name, kind) ↦ do
      let _ ← insertCoa
        { id := ← newId h, bookId, code, name, kind, currency := none, isArchived := false }
    profile.taxRates.forM fun seed ↦ do
      insertVatRate
        { id := ← newId h
          bookId
          code := seed.code
          name := seed.label
          rateBps := seed.rateBps.getD 0
          isActive := true }

def checkRateBps (rateBps : ℤ) : Except Fault Unit :=
  if ¬(0 ≤ rateBps ∧ rateBps ≤ 10000) then
    .error (.validation s!"rate_bps must be between 0 and 10000 (0%..100%), got {rateBps}")
  else .ok ()

def vatRateSetBps (bookId code : String) (rateBps : ℤ) : Service VatRate := do
  Process.ofExcept (checkRateBps rateBps)
  let rates ← Process.query fun db ↦ listVatRates db bookId
  let before ← Process.ofExcept
    (orNotFound "vat_rate" s!"{bookId}/{code}" (rates.find? fun r ↦ r.code = code))
  Process.atomically [] (setVatRateBps before.id rateBps)
  return { before with rateBps }

end Accounts

section Lock

def setLockDate (bookId : String) (lockDate : Option String) : Action Unit :=
  modify fun db ↦
    { db with
      books := update Book.id db.books bookId fun b ↦ { b with financialLockDate := lockDate } }

/-- Sets or clears the lock date. Nothing is checked but the form of the date. -/
def bookSetLockDate (bookId : String) (lockDate : Option String) : Service Book := do
  let before ← bookGet bookId
  let _ ← Process.ofExcept (lockDate.mapM (parseDate h))
  Process.atomically [] (setLockDate bookId lockDate)
  return { before with financialLockDate := lockDate }

structure ClosePeriodCurrencyBalance where
  currency : String
  debitMinor : ℤ
  creditMinor : ℤ
  deriving DecidableEq, Repr

structure ClosePeriodReport where
  bookId : String
  toDate : String
  previousLockDate : Option String
  balance : List ClosePeriodCurrencyBalance
  balanced : Bool
  uncategorisedTransactionCount : ℕ
  unreconciledStatementLineCount : ℕ
  draftSalesOrderCount : ℕ
  unpaidInvoiceDueCount : ℕ
  blockingReasons : List String
  warnings : List String
  closeable : Bool
  closed : Bool
  deriving DecidableEq, Repr

section Queries

variable (db : Db) (bookId fromDate toDate : String)

def linesAsOf (asOf : String) : List JournalLine :=
  db.journalLines.filter fun l ↦ l.bookId = bookId ∧
    ∃ j ∈ db.journals, j.id = l.journalId ∧ j.postedDate ≤ asOf

def balanceAsOf (asOf : String) : Except Fault (List ClosePeriodCurrencyBalance) :=
  let lines := linesAsOf db bookId asOf
  ((lines.map JournalLine.currency).dedup.insertionSort (· ≤ ·)).mapM fun currency ↦ do
    let rows := lines.filter fun l ↦ l.currency = currency
    return { currency
             debitMinor := ← sqlSum (rows.map JournalLine.debitMinor)
             creditMinor := ← sqlSum (rows.map JournalLine.creditMinor) }

def uncategorisedCount : ℕ :=
  db.transactions.countP fun t ↦ t.bookId = bookId ∧ t.categoryId = none ∧ t.status ≠ .rejected ∧
    fromDate ≤ t.postedDate ∧ t.postedDate ≤ toDate

def unreconciledCount : ℕ :=
  db.transactions.countP fun t ↦ t.bookId = bookId ∧ t.status ≠ .rejected ∧
    fromDate ≤ t.postedDate ∧ t.postedDate ≤ toDate ∧
    ¬∃ m ∈ db.reconMatches, m.transactionId = t.id ∧ (m.state = .auto ∨ m.state = .confirmed)

def draftSalesOrderCount : ℕ :=
  db.salesOrders.countP fun o ↦ o.bookId = bookId ∧ o.status = .draft ∧
    fromDate ≤ o.orderDate ∧ o.orderDate ≤ toDate

def unpaidInvoiceDueCount : ℕ :=
  db.invoices.countP fun i ↦ i.bookId = bookId ∧ fromDate ≤ i.dueDate ∧ i.dueDate ≤ toDate ∧
    ¬∃ p ∈ db.invoicePayments, p.invoiceId = i.id

end Queries

def dayAfter (s : String) : Except Fault String := do
  match (← parseDate h s).addDays? 1 with
  | some d => .ok (h.formatDate d)
  | none => .error (.panic "overflow adding duration to date")

def lockReason (previous : Option String) (toDate : String) : List String :=
  match previous with
  | some prev =>
    if toDate ≤ prev then
      [s!"book is already closed through {prev}; reopen the period first to move the close date backward, or close through a later date"]
    else []
  | none => []

/-- The first date that a close through `toDate` newly covers. -/
def closeFrom (previous : Option String) (toDate : String) : Except Fault String :=
  match previous with
  | some prev => if prev < toDate then dayAfter h prev else .ok toDate
  | none => .ok "0001-01-01"

def balanceReason (balance : List ClosePeriodCurrencyBalance) (toDate : String) : List String :=
  let unbalanced := balance.filter fun b ↦ b.debitMinor ≠ b.creditMinor
  if unbalanced.isEmpty then []
  else
    let detail := String.intercalate ", " (unbalanced.map fun b ↦
      s!"{b.currency} debit {b.debitMinor} != credit {b.creditMinor}")
    [s!"trial balance does not balance as of {toDate}: {detail}"]

def warningIf (count : ℕ) (text : String) : List String :=
  if count > 0 then [s!"{count} {text}"] else []

def buildCloseReport (bookId toDate : String) : Service ClosePeriodReport := do
  let book ← bookGet bookId
  let _ ← Process.ofExcept (parseDate h toDate)
  let fromDate ← Process.ofExcept (closeFrom h book.financialLockDate toDate)
  let balance ← Process.ofExcept (← Process.query fun db ↦ balanceAsOf db bookId toDate)
  let uncategorised ← Process.query fun db ↦ uncategorisedCount db bookId fromDate toDate
  let unreconciled ← Process.query fun db ↦ unreconciledCount db bookId fromDate toDate
  let drafts ← Process.query fun db ↦ draftSalesOrderCount db bookId fromDate toDate
  let unpaid ← Process.query fun db ↦ unpaidInvoiceDueCount db bookId fromDate toDate
  let blockingReasons :=
    lockReason book.financialLockDate toDate ++ balanceReason balance toDate
  return {
    bookId
    toDate
    previousLockDate := book.financialLockDate
    balance
    balanced := balance.all fun b ↦ b.debitMinor = b.creditMinor
    uncategorisedTransactionCount := uncategorised
    unreconciledStatementLineCount := unreconciled
    draftSalesOrderCount := drafts
    unpaidInvoiceDueCount := unpaid
    blockingReasons
    warnings :=
      warningIf uncategorised "uncategorised transaction(s) in this period" ++
        warningIf unreconciled "unreconciled statement line(s) in this period" ++
        warningIf drafts "draft sales order(s) dated in this period" ++
        warningIf unpaid "invoice(s) due in this period with no payment recorded against them"
    closeable := blockingReasons.isEmpty
    closed := false }

def checkCloseable (report : ClosePeriodReport) : Except Fault Unit :=
  if !report.closeable then .error (.closeBlocked report.blockingReasons) else .ok ()

def closePeriod (bookId toDate : String) : Service ClosePeriodReport := do
  let report ← buildCloseReport h bookId toDate
  Process.ofExcept (checkCloseable report)
  let _ ← bookGet bookId
  Process.atomically [] (setLockDate bookId (some toDate))
  return { report with closed := true }

def checkReopen (before : Book) (toDate : Option String) (reason : String) :
    Except Fault Unit := do
  match before.financialLockDate with
  | none => .error .notClosed
  | some currentLock =>
    if (trim reason).isEmpty then
      .error (.validation "reopening a closed period needs a reason")
    else
      match toDate with
      | none => .ok ()
      | some date =>
        let _ ← parseDate h date
        if date ≥ currentLock then
          .error (.validation s!"reopening to {date} does not move the lock date backward from {currentLock}")
        else .ok ()

/-- Moves the lock date back to an earlier date, or clears it. -/
def reopenPeriod (bookId : String) (toDate : Option String) (reason : String) : Service Book := do
  let before ← bookGet bookId
  Process.ofExcept (checkReopen h before toDate reason)
  Process.atomically [.book before] (setLockDate bookId toDate)
  return { before with financialLockDate := toDate }

end Lock

end SlipScan.Model.Period
