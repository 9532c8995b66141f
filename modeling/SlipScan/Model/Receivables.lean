import SlipScan.Model.Ledger
import SlipScan.Model.Money

namespace SlipScan.Model.Receivables

open Model.Domain Model.Database Model.Ledger Model.Money Foundation.Calendar
  Foundation.Interleaving Foundation.Table

structure SalesOrderTotals where
  subtotalMinor : ℤ
  taxMinor : ℤ
  totalMinor : ℤ
  deriving DecidableEq, Repr

inductive InvoicePaymentStatus
  | unpaid | partlyPaid | paid
  deriving DecidableEq, Repr

structure InvoiceTotals extends SalesOrderTotals where
  paidMinor : ℤ
  dueMinor : ℤ
  status : InvoicePaymentStatus
  deriving DecidableEq, Repr

structure AgedBucket where
  currentMinor : ℤ := 0
  overdue1To30Minor : ℤ := 0
  overdue31To60Minor : ℤ := 0
  overdue61To90Minor : ℤ := 0
  overdue90PlusMinor : ℤ := 0
  totalMinor : ℤ := 0
  deriving DecidableEq, Repr

structure AgedReceivablesRow where
  contactId : String
  contactName : String
  buckets : AgedBucket
  deriving DecidableEq, Repr

structure AgedReceivables where
  asOf : String
  rows : List AgedReceivablesRow
  totals : AgedBucket
  deriving DecidableEq, Repr

section Invoices

variable (db : Db)

/-- The totals of some lines. A line is a quantity, a unit price and a rate. -/
def lineTotals (lines : List (ℤ × ℤ × ℤ)) : SalesOrderTotals :=
  let (subtotalMinor, taxMinor) := lines.foldl
    (fun (subtotalMinor, taxMinor) (quantity, price, rate) ↦
      let lineSubtotal := asI64 (quantity * price)
      (asI64 (subtotalMinor + lineSubtotal), asI64 (taxMinor + vatOnNet lineSubtotal rate))) (0, 0)
  ⟨subtotalMinor, taxMinor, asI64 (subtotalMinor + taxMinor)⟩

def invoiceItemList (invoiceId : String) : List InvoiceItem :=
  (db.invoiceItems.filter fun i ↦ i.invoiceId = invoiceId).insertionSort fun a b ↦
    a.lineOrder < b.lineOrder ∨ a.lineOrder = b.lineOrder ∧ a.id ≤ b.id

/-- Everything paid on an invoice, whenever it was paid. -/
def invoicePaidMinor (invoiceId : String) : Except Fault ℤ :=
  let payments := db.invoicePayments.filter fun p ↦ p.invoiceId = invoiceId
  sqlSum (payments.map InvoicePayment.amountMinor)

def invoiceTotals (invoiceId : String) : Except Fault InvoiceTotals := do
  let totals := lineTotals
    ((invoiceItemList db invoiceId).map fun i ↦ (i.quantity, i.unitPriceMinor, i.taxRateBps))
  let paidMinor ← invoicePaidMinor db invoiceId
  let dueMinor := asI64 (totals.totalMinor - paidMinor)
  return {
    toSalesOrderTotals := totals
    paidMinor
    dueMinor
    status :=
      if paidMinor ≤ 0 then .unpaid
      else if dueMinor ≤ 0 then .paid
      else .partlyPaid }

end Invoices

section Ageing

variable (h : Host)

def AgedBucket.add (bucket : AgedBucket) (ageDays dueMinor : ℤ) : AgedBucket :=
  let bucket := { bucket with totalMinor := asI64 (bucket.totalMinor + dueMinor) }
  if ageDays ≤ 0 then { bucket with currentMinor := asI64 (bucket.currentMinor + dueMinor) }
  else if ageDays ≤ 30 then
    { bucket with overdue1To30Minor := asI64 (bucket.overdue1To30Minor + dueMinor) }
  else if ageDays ≤ 60 then
    { bucket with overdue31To60Minor := asI64 (bucket.overdue31To60Minor + dueMinor) }
  else if ageDays ≤ 90 then
    { bucket with overdue61To90Minor := asI64 (bucket.overdue61To90Minor + dueMinor) }
  else { bucket with overdue90PlusMinor := asI64 (bucket.overdue90PlusMinor + dueMinor) }

def addToContact (contactId : String) (ageDays dueMinor : ℤ) :
    List (String × AgedBucket) → List (String × AgedBucket)
  | [] => [(contactId, AgedBucket.add {} ageDays dueMinor)]
  | (id, bucket) :: byContact =>
    if id = contactId then (id, bucket.add ageDays dueMinor) :: byContact
    else (id, bucket) :: addToContact contactId ageDays dueMinor byContact

/-- The invoices of a book with something due, by contact. Those without are passed over. -/
def ageInvoices (db : Db) (asOfDate : Date) :
    List (String × AgedBucket) → List Invoice → Except Fault (List (String × AgedBucket))
  | byContact, [] => return byContact
  | byContact, invoice :: invoices => do
    let totals ← invoiceTotals db invoice.id
    if totals.dueMinor ≤ 0 then ageInvoices db asOfDate byContact invoices
    else
      let dueDate ← parseDate h invoice.dueDate
      let ageDays := asOfDate.number - dueDate.number
      ageInvoices db asOfDate (addToContact invoice.contactId ageDays totals.dueMinor byContact)
        invoices

def AgedBucket.plus (a b : AgedBucket) : AgedBucket where
  currentMinor := asI64 (a.currentMinor + b.currentMinor)
  overdue1To30Minor := asI64 (a.overdue1To30Minor + b.overdue1To30Minor)
  overdue31To60Minor := asI64 (a.overdue31To60Minor + b.overdue31To60Minor)
  overdue61To90Minor := asI64 (a.overdue61To90Minor + b.overdue61To90Minor)
  overdue90PlusMinor := asI64 (a.overdue90PlusMinor + b.overdue90PlusMinor)
  totalMinor := asI64 (a.totalMinor + b.totalMinor)

def contactName (db : Db) (contactId : String) : String :=
  ((lookup Contact.id db.contacts contactId).map Contact.name).getD "(unknown contact)"

def agedReceivables (db : Db) (bookId asOf : String) : Except Fault AgedReceivables := do
  let outstanding := (db.invoices.filter fun i ↦ i.bookId = bookId).insertionSort
    fun a b ↦ a.dueDate ≤ b.dueDate
  let asOfDate ← parseDate h asOf
  let byContact ← ageInvoices h db asOfDate [] outstanding
  -- the contacts come in the order of their identifiers, and those of one name stay in it
  let byContact := byContact.insertionSort fun a b ↦ a.1 ≤ b.1
  return {
    asOf
    rows := (byContact.map fun (contactId, buckets) ↦
      ⟨contactId, contactName db contactId, buckets⟩).insertionSort fun a b ↦
        a.contactName ≤ b.contactName
    totals := byContact.foldl (fun totals entry ↦ totals.plus entry.2) {} }

end Ageing

end SlipScan.Model.Receivables
