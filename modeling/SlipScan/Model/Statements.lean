import SlipScan.Model.Reports

namespace SlipScan.Model.Statements

open Model.Domain Model.Database Model.Ledger Model.Money Model.Reports Foundation.Transaction
  Foundation.Interleaving Foundation.Table

structure StatementRow where
  coaId : String
  code : String
  name : String
  kind : CoaKind
  amountMinor : ℤ
  deriving DecidableEq, Repr

structure IncomeStatement where
  bookId : String
  fromDate : String
  toDate : String
  currency : String
  income : List StatementRow
  expenses : List StatementRow
  incomeTotalMinor : ℤ
  expenseTotalMinor : ℤ
  netProfitMinor : ℤ
  deriving DecidableEq, Repr

structure BalanceSheet where
  bookId : String
  asOfDate : String
  currency : String
  assets : List StatementRow
  liabilities : List StatementRow
  equity : List StatementRow
  retainedEarningsMinor : ℤ
  assetsTotalMinor : ℤ
  liabilitiesTotalMinor : ℤ
  equityTotalMinor : ℤ
  deriving DecidableEq, Repr

section Queries

def accountLines (db : Db) (currency : String) (P : Journal → Bool) (coaId : String) :
    List JournalLine :=
  db.journalLines.filter fun l ↦ l.coaId = coaId ∧ l.currency = currency ∧
    ∃ j ∈ db.journals, j.id = l.journalId ∧ P j = true

def sides (lines : List JournalLine) : Except Fault (ℤ × ℤ) := do
  return (← sqlSum (lines.map JournalLine.debitMinor), ← sqlSum (lines.map JournalLine.creditMinor))

def inRange (fromDate toDate : String) (j : Journal) : Bool :=
  fromDate ≤ j.postedDate && j.postedDate ≤ toDate

def asOf (date : String) (j : Journal) : Bool :=
  j.postedDate ≤ date

def byCode (a b : StatementRow) : Prop := a.code ≤ b.code

instance : DecidableRel byCode := fun a b ↦ inferInstanceAs (Decidable (a.code ≤ b.code))

/-- Income is a credit, everything else on the statement a debit. -/
def movement (kind : CoaKind) (debit credit : ℤ) : ℤ :=
  match kind with
  | .income => asI64 (credit - debit)
  | _ => asI64 (debit - credit)

def incomeRow (db : Db) (fromDate toDate currency : String) (a : CoaAccount) :
    Except Fault (Option StatementRow) := do
  let (debit, credit) ← sides (accountLines db currency (inRange fromDate toDate) a.id)
  return if debit = 0 ∧ credit = 0 then none
    else some ⟨a.id, a.code, a.name, a.kind, movement a.kind debit credit⟩

def incomeStatement (db : Db) (bookId fromDate toDate currency : String) :
    Except Fault IncomeStatement := do
  let accounts := db.coa.filter fun a ↦
    a.bookId = bookId ∧ (a.kind = .income ∨ a.kind = .expense)
  let rows ← accounts.mapM (incomeRow db fromDate toDate currency)
  let rows := rows.reduceOption.insertionSort byCode
  let income := rows.filter fun r ↦ r.kind = .income
  let expenses := rows.filter fun r ↦ r.kind ≠ .income
  let incomeTotalMinor := sumI64 (income.map StatementRow.amountMinor)
  let expenseTotalMinor := sumI64 (expenses.map StatementRow.amountMinor)
  return {
    bookId
    fromDate
    toDate
    currency
    income
    expenses
    incomeTotalMinor
    expenseTotalMinor
    netProfitMinor := asI64 (incomeTotalMinor - expenseTotalMinor) }

/-- Assets are debits, everything else on the sheet a credit. -/
def balance (kind : CoaKind) (debit credit : ℤ) : ℤ :=
  match kind with
  | .asset => asI64 (debit - credit)
  | _ => asI64 (credit - debit)

def balanceRow (db : Db) (asOfDate currency : String) (a : CoaAccount) :
    Except Fault StatementRow := do
  let (debit, credit) ← sides (accountLines db currency (asOf asOfDate) a.id)
  return ⟨a.id, a.code, a.name, a.kind, balance a.kind debit credit⟩

def rowsOfKind (kind : CoaKind) (rows : List StatementRow) : List StatementRow :=
  rows.filter fun r ↦ r.kind = kind ∧ r.amountMinor ≠ 0

def isMovement (r : StatementRow) : Bool :=
  r.kind = .income || r.kind = .expense

/-- Income and expenses roll into equity as retained earnings. -/
def balanceSheet (db : Db) (bookId asOfDate currency : String) : Except Fault BalanceSheet := do
  let accounts := db.coa.filter fun a ↦ a.bookId = bookId
  let rows ← accounts.mapM (balanceRow db asOfDate currency)
  let rows := rows.insertionSort byCode
  let assets := rowsOfKind .asset rows
  let liabilities := rowsOfKind .liability rows
  let equity := rowsOfKind .equity rows
  let retainedEarningsMinor := sumI64 ((rows.filter isMovement).map StatementRow.amountMinor)
  return {
    bookId
    asOfDate
    currency
    assets
    liabilities
    equity
    retainedEarningsMinor
    assetsTotalMinor := sumI64 (assets.map StatementRow.amountMinor)
    liabilitiesTotalMinor := sumI64 (liabilities.map StatementRow.amountMinor)
    equityTotalMinor :=
      asI64 (sumI64 (equity.map StatementRow.amountMinor) + retainedEarningsMinor) }

end Queries

end SlipScan.Model.Statements
