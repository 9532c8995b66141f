import SlipScan.Model.Ledger
import SlipScan.Model.Money
import SlipScan.Model.Region

namespace SlipScan.Model.Reports

open Model.Domain Model.Database Model.Ledger Model.Money Model.Region Foundation.Transaction
  Foundation.Interleaving Foundation.Table

section TrialBalance

structure TrialBalanceRow where
  coaId : String
  code : String
  name : String
  kind : CoaKind
  currency : String
  debitMinor : ℤ
  creditMinor : ℤ
  deriving DecidableEq, Repr

def trialBalanceRow (account : CoaAccount) (currency : String) (lines : List JournalLine) :
    Except Fault TrialBalanceRow := do
  return { coaId := account.id
           code := account.code
           name := account.name
           kind := account.kind
           currency
           debitMinor := ← sqlSum (lines.map JournalLine.debitMinor)
           creditMinor := ← sqlSum (lines.map JournalLine.creditMinor) }

/-- The rows of an account: one for each currency of its lines, or a single empty one. -/
def accountRows (db : Db) (bookCurrency : String) (account : CoaAccount) :
    Except Fault (List TrialBalanceRow) := do
  let lines := db.journalLines.filter fun l ↦ l.coaId = account.id
  if lines.isEmpty then return [← trialBalanceRow account bookCurrency []]
  else
    (lines.map JournalLine.currency).dedup.mapM fun currency ↦
      trialBalanceRow account currency (lines.filter fun l ↦ l.currency = currency)

def trialBalance (db : Db) (bookId bookCurrency : String) : Except Fault (List TrialBalanceRow) := do
  let rows ← (db.coa.filter fun a ↦ a.bookId = bookId).mapM (accountRows db bookCurrency)
  return rows.flatten.insertionSort fun a b ↦
    a.code < b.code ∨ a.code = b.code ∧ a.currency ≤ b.currency

end TrialBalance

section TaxSummary

structure TaxSummaryRow where
  vatRateId : Option String
  code : String
  name : String
  rateBps : ℤ
  outputBaseMinor : ℤ
  outputVatMinor : ℤ
  inputBaseMinor : ℤ
  inputVatMinor : ℤ
  deriving DecidableEq, Repr

structure TaxPeriodSummary where
  bookId : String
  fromDate : String
  toDate : String
  currency : String
  reportName : String
  labels : TaxBoxLabels
  rows : List TaxSummaryRow
  standardRatedSuppliesMinor : ℤ
  zeroRatedSuppliesMinor : ℤ
  exemptSuppliesMinor : ℤ
  outputVatMinor : ℤ
  inputVatMinor : ℤ
  netVatMinor : ℤ
  deriving DecidableEq, Repr

/-- The totals of the tax lines of one rate and one role, with the rate as it is now. -/
structure TaxSlice where
  vatRateId : Option String
  code : String
  name : String
  rateBps : ℤ
  role : VatRole
  debitMinor : ℤ
  creditMinor : ℤ
  deriving DecidableEq, Repr

def taxLines (db : Db) (bookId fromDate toDate currency : String) : List JournalLine :=
  db.journalLines.filter fun l ↦ l.bookId = bookId ∧ l.vatRole ≠ none ∧ l.currency = currency ∧
    ∃ j ∈ db.journals, j.id = l.journalId ∧ fromDate ≤ j.postedDate ∧ j.postedDate ≤ toDate

def taxSlice (db : Db) (lines : List JournalLine) (vatRateId : Option String) (role : VatRole) :
    Except Fault TaxSlice := do
  let rate := vatRateId.bind (lookup VatRate.id db.vatRates)
  let group := lines.filter fun l ↦ l.vatRateId = vatRateId ∧ l.vatRole = some role
  return { vatRateId
           code := (rate.map VatRate.code).getD ""
           name := (rate.map VatRate.name).getD "Unspecified rate"
           rateBps := (rate.map VatRate.rateBps).getD 0
           role
           debitMinor := ← sqlSum (group.map JournalLine.debitMinor)
           creditMinor := ← sqlSum (group.map JournalLine.creditMinor) }

/-- The rate and the role of the lines, each pair once and in the order of their texts. -/
def taxGroups (lines : List JournalLine) : List (Option String × VatRole) :=
  (lines.filterMap fun l ↦ l.vatRole.map fun role ↦ (l.vatRateId, role)).dedup.insertionSort
    fun a b ↦ a.1.getD "" < b.1.getD "" ∨ a.1.getD "" = b.1.getD "" ∧ a.2.asStr ≤ b.2.asStr

def taxSlices (db : Db) (lines : List JournalLine) : Except Fault (List TaxSlice) := do
  let slices ← (taxGroups lines).mapM fun (vatRateId, role) ↦ taxSlice db lines vatRateId role
  return slices.insertionSort fun a b ↦
    b.rateBps < a.rateBps ∨ a.rateBps = b.rateBps ∧ a.code ≤ b.code

/-- Output amounts are natural credits, input amounts natural debits. -/
def addSlice (row : TaxSummaryRow) (s : TaxSlice) : TaxSummaryRow :=
  match s.role with
  | .outputVat =>
    { row with outputVatMinor := asI64 (row.outputVatMinor + (s.creditMinor - s.debitMinor)) }
  | .outputBase =>
    { row with outputBaseMinor := asI64 (row.outputBaseMinor + (s.creditMinor - s.debitMinor)) }
  | .inputVat =>
    { row with inputVatMinor := asI64 (row.inputVatMinor + (s.debitMinor - s.creditMinor)) }
  | .inputBase =>
    { row with inputBaseMinor := asI64 (row.inputBaseMinor + (s.debitMinor - s.creditMinor)) }

def addToRows (s : TaxSlice) : List TaxSummaryRow → List TaxSummaryRow
  | [] => [addSlice ⟨s.vatRateId, s.code, s.name, s.rateBps, 0, 0, 0, 0⟩ s]
  | row :: rows =>
    if row.vatRateId = s.vatRateId then addSlice row s :: rows else row :: addToRows s rows

def outputBaseOf (rows : List TaxSummaryRow) (c : TaxSummaryRow → Bool) : ℤ :=
  sumI64 ((rows.filter c).map TaxSummaryRow.outputBaseMinor)

def taxPeriodSummary (db : Db) (bookId fromDate toDate currency : String)
    (profile : RegionProfile) : Except Fault TaxPeriodSummary := do
  let slices ← taxSlices db (taxLines db bookId fromDate toDate currency)
  let rows := slices.foldl (fun rows s ↦ addToRows s rows) []
  let outputVatMinor := sumI64 (rows.map TaxSummaryRow.outputVatMinor)
  let inputVatMinor := sumI64 (rows.map TaxSummaryRow.inputVatMinor)
  return {
    bookId
    fromDate
    toDate
    currency
    reportName := profile.reportName
    labels := profile.boxLabels
    rows
    standardRatedSuppliesMinor := outputBaseOf rows fun r ↦ r.rateBps > 0
    zeroRatedSuppliesMinor := outputBaseOf rows fun r ↦
      r.rateBps = 0 && !profile.isExemptCode r.code
    exemptSuppliesMinor := outputBaseOf rows fun r ↦ profile.isExemptCode r.code
    outputVatMinor
    inputVatMinor
    netVatMinor := asI64 (outputVatMinor - inputVatMinor) }

end TaxSummary

section Reconciliation

structure BankSideJournalLine where
  journalId : String
  coaId : String
  postedDate : String
  narrative : Option String
  debitMinor : ℤ
  creditMinor : ℤ
  currency : String
  deriving DecidableEq, Repr

/-- The rows that follow the given rows of the chain query. A row is a root and a journal of its
chain. -/
def nextLevel (db : Db) (rows : List (String × String)) : List (String × String) :=
  rows.flatMap fun (root, id) ↦
    (db.journals.filter fun r ↦ r.reversalOf = some id).map fun r ↦ (root, r.id)

/-- The rows of the chain query from a level on. A chain with more levels than there are journals
runs in a circle. -/
def chainRows (db : Db) : ℕ → List (String × String) → Except Fault (List (String × String))
  | _, [] => .ok []
  | 0, _ :: _ => .error .diverges
  | levels + 1, rows => do return rows ++ (← chainRows db levels (nextLevel db rows))

/-- The chain query. It starts with the roots of a book and then takes reversals of any book. -/
def reversalChain (db : Db) (bookId : String) : Except Fault (List (String × String)) :=
  let roots := db.journals.filter fun j ↦ j.bookId = bookId ∧ j.reversalOf = none
  chainRows db (db.journals.length + 1) (roots.map fun j ↦ (j.id, j.id))

def netCancelled (chain : List (String × String)) (id : String) : Bool :=
  let rows := chain.countP fun row ↦ row.1 = id
  rows > 0 && (rows - 1) % 2 = 1

def bankSideLinesOf (db : Db) (j : Journal) : List BankSideJournalLine :=
  (db.journalLines.filter fun l ↦ l.journalId = j.id).flatMap fun l ↦
    (db.coa.filter fun a ↦ a.id = l.coaId ∧ a.kind = .asset).map fun _ ↦
      { journalId := j.id
        coaId := l.coaId
        postedDate := j.postedDate
        narrative := j.narrative
        debitMinor := l.debitMinor
        creditMinor := l.creditMinor
        currency := l.currency }

/-- The lines on asset accounts of the manual root journals that are not cancelled. -/
def bankSideJournalLines (db : Db) (bookId : String) : Except Fault (List BankSideJournalLine) := do
  let chain ← reversalChain db bookId
  let journals := db.journals.filter fun j ↦ j.bookId = bookId ∧ j.sourceType = .manual ∧
    j.reversalOf = none ∧ ¬netCancelled chain j.id
  return journals.flatMap (bankSideLinesOf db)

end Reconciliation

end SlipScan.Model.Reports
