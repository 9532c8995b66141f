import SlipScan.Model.Banking

namespace SlipScan.Model.StatementImport

open Model.Domain Model.Database Model.Banking Foundation.Interleaving

structure StatementLine where
  postedDate : String
  description : String
  amountMinor : ℤ
  providerTxnId : Option String
  /-- Missing for the currency of the account. -/
  currency : Option String
  deriving DecidableEq, Repr

/-- A line as an adapter fetches it, with the running balance after it. -/
structure FetchedLine extends StatementLine where
  balanceMinor : Option ℤ
  deriving DecidableEq, Repr

structure StatementImportOutcome where
  imported : List Transaction := []
  duplicates : ℕ := 0
  contentDuplicates : ℕ := 0

abbrev LineKey := String × ℤ × String × String

def occurrenceKey (account : Account) (line : StatementLine) : LineKey :=
  (line.postedDate, line.amountMinor, line.currency.getD account.currency, line.description)

def newTransaction (account : Account) (bookId accountId : String) (source : TransactionSource)
    (line : StatementLine) (occurrence : UInt32) : NewTransaction where
  bookId
  accountId
  source
  providerTxnId := line.providerTxnId
  postedDate := line.postedDate
  amountMinor := line.amountMinor
  currency := line.currency.getD account.currency
  merchant := none
  description := some line.description
  notes := none
  categoryId := none
  dedupeOccurrence := occurrence.toNat

variable (h : Host)

/-- Imports the lines one after the other. Equal lines without a provider's id are numbered by a
counter of 32 bits that wraps around. -/
def importLines (account : Account) (bookId accountId : String) (source : TransactionSource) :
    List StatementLine → (LineKey → UInt32) → StatementImportOutcome →
      Service StatementImportOutcome
  | [], _, outcome => return outcome
  | line :: lines, occurrences, outcome => do
    let key := occurrenceKey account line
    let contentHashed := line.providerTxnId.isNone
    let occurrence := if contentHashed then occurrences key else 0
    let occurrences :=
      if contentHashed then Function.update occurrences key (occurrence + 1) else occurrences
    match ← (transactionCreate h
        (newTransaction account bookId accountId source line occurrence)).attempt with
    | .ok txn =>
      importLines account bookId accountId source lines occurrences
        { outcome with imported := outcome.imported ++ [txn] }
    | .error (.duplicateTransaction _) =>
      importLines account bookId accountId source lines occurrences
        { outcome with
          duplicates := outcome.duplicates + 1
          contentDuplicates := outcome.contentDuplicates + contentHashed.toNat }
    | .error e => Process.fail e

def importStatementLines (bookId accountId : String) (source : TransactionSource)
    (lines : List StatementLine) : Service StatementImportOutcome := do
  let account ← Reads.query (accountGet · accountId)
  let account ← Reads.ofExcept account
  importLines h account bookId accountId source lines (fun _ ↦ 0) {}

def importBatches (bookId accountId : String) (source : TransactionSource) :
    List (List StatementLine) → Service Unit
  | [] => return ()
  | lines :: batches => do
    let _ ← importStatementLines h bookId accountId source lines
    importBatches bookId accountId source batches

end SlipScan.Model.StatementImport
