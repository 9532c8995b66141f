import SlipScan.Model.Ledger

namespace SlipScan.Model.Banking

open Model.Domain Model.Database Model.Ledger Foundation.Transaction Foundation.Interleaving
  Foundation.Table

variable (h : Host)

def accountGet (db : Db) (id : String) : Except Fault Account :=
  orNotFound "account" id (lookup Account.id db.accounts id)

/-- The absolute value does not exist for the least 64-bit integer, which is out of range too. -/
def checkAmount (amountMinor : ℤ) : Except Fault Unit :=
  require (|amountMinor| ≤ maxLineAmountMinor)
    s!"transaction amount {amountMinor} out of range: |amount| must be at most {maxLineAmountMinor} minor units"

def findByProviderTxnId (db : Db) (accountId providerTxnId : String) : Option String :=
  (db.transactions.find? fun t ↦
    t.accountId = accountId ∧ t.providerTxnId = some providerTxnId).map Transaction.id

def findByDedupeHash (db : Db) (accountId dedupeHash : String) : Option String :=
  (db.transactions.find? fun t ↦
    t.accountId = accountId ∧ t.dedupeHash = dedupeHash).map Transaction.id

def checkDuplicate : Option String → Except Fault Unit
  | some existingId => .error (.duplicateTransaction existingId)
  | none => .ok ()

def insertTransaction (txn : Transaction) : Action Unit := do
  let db ← get
  constraint (∀ t ∈ db.transactions, t.id ≠ txn.id) "UNIQUE constraint failed: transactions.id"
  constraint (references Book.id db.books txn.bookId ∧
    references Account.id db.accounts txn.accountId ∧
    ∀ c ∈ txn.categoryId, references Category.id db.categories c) "FOREIGN KEY constraint failed"
  constraint (txn.currency.length = 3) "CHECK constraint failed: length(currency) = 3"
  modify fun db ↦ { db with transactions := db.transactions ++ [txn] }

def createTransactionInTx (new : NewTransaction) : Action Transaction := do
  let account ← check (accountGet (← get) new.accountId)
  check (require (account.bookId = new.bookId) "account does not belong to this book")
  let currency ← check (normalizeCurrencyCode new.currency)
  let _ ← check (parseDate h new.postedDate)
  check (checkAmount new.amountMinor)
  let dedupeHash := h.dedupeHash { new with currency }
  let db ← get
  check (checkDuplicate (new.providerTxnId.bind (findByProviderTxnId db new.accountId)))
  check (checkDuplicate (findByDedupeHash db new.accountId dedupeHash))
  let merchantCategory := h.merchantCategory db new
  let txn : Transaction :=
    { id := ← newId h
      bookId := new.bookId
      accountId := new.accountId
      categoryId := new.categoryId.or merchantCategory
      source := new.source
      providerTxnId := new.providerTxnId
      dedupeHash
      postedDate := new.postedDate
      amountMinor := new.amountMinor
      currency
      merchant := new.merchant
      description := new.description
      notes := new.notes
      status := .pending }
  insertTransaction txn
  check (h.detectPaymentMatches (← get) txn)
  return txn

def transactionCreate (new : NewTransaction) : Service Transaction :=
  Process.atomically [] (createTransactionInTx h new)

end SlipScan.Model.Banking
