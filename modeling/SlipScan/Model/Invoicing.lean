import SlipScan.Model.Sales

namespace SlipScan.Model.Invoicing

open Model.Domain Model.Database Model.Ledger Model.Money Model.Generate Model.Trade Model.Sales
  Foundation.Transaction Foundation.Interleaving Foundation.Table

variable (h : Host)

/-- Everything that issuing an invoice writes. A line is a variant, a description, a quantity, a
unit price and a rate. -/
structure ResolvedInvoice where
  issueDate : String
  dueDate : String
  series : String
  contactId : String
  currency : String
  salesOrderId : Option String
  notes : Option String
  lines : List (Option String × String × ℤ × ℤ × ℤ)

def normalizeOptional (raw : Option String) : Option String :=
  (raw.map trim).filter fun s ↦ ¬s.isEmpty

def resolveInvoiceLine (db : Db) (bookId : String) (item : NewInvoiceItemInput) :
    Except Fault (Option String × String × ℤ × ℤ × ℤ) := do
  let (variantId, description, unitPriceMinor) ← resolveSalesOrderLine db bookId item.variantId
    (some item.description) (some item.unitPriceMinor)
  require (item.quantity > 0) "invoice line quantity must be positive"
  require (unitPriceMinor ≥ 0) "invoice line unit price must not be negative"
  let taxRateBps := item.taxRateBps.getD 0
  require (0 ≤ taxRateBps ∧ taxRateBps ≤ 10000)
    "invoice line tax rate must be between 0 and 10000 basis points"
  return (variantId, description, item.quantity, unitPriceMinor, taxRateBps)

section Resolve

variable {m : Type → Type*} [Monad m] [Reads m]

def resolveFromOrder (book : Book) (orderId : String) :
    m (String × String × Option String × List (Option String × String × ℤ × ℤ × ℤ)) := do
  let order ← Reads.ofExcept (← Reads.query fun db ↦ orderGet db orderId)
  Reads.ofExcept
    (require (order.bookId = book.id) "invoice sales order belongs to a different book")
  Reads.ofExcept (require (order.status = .confirmed ∨ order.status = .paid)
    "cannot issue an invoice from a sales order that is not confirmed or paid")
  let items ← Reads.query fun db ↦ orderItemList db orderId
  Reads.ofExcept (require (¬items.isEmpty) "cannot issue an invoice with no line items")
  return (order.contactId, order.currency, some order.id, items.map fun i ↦
    (i.variantId, i.description, i.quantity, i.unitPriceMinor, i.taxRateBps))

def resolveStandalone (book : Book) (new : NewInvoice) :
    m (String × String × Option String × List (Option String × String × ℤ × ℤ × ℤ)) := do
  let contactId ← Reads.ofExcept (match new.contactId with
    | some contactId => .ok contactId
    | none => .error (.validation "a standalone invoice needs a contact_id"))
  let contact ← Reads.ofExcept (← Reads.query fun db ↦ contactGet db contactId)
  Reads.ofExcept
    (require (contact.bookId = book.id) "invoice contact belongs to a different book")
  let currency ← Reads.ofExcept (currencyOr book new.currency)
  Reads.ofExcept
    (require (¬new.items.isEmpty) "a standalone invoice needs at least one line item")
  let lines ← Reads.ofExcept
    (← Reads.query fun db ↦ new.items.mapM (resolveInvoiceLine db book.id))
  return (contact.id, currency, none, lines)

def resolveLines (book : Book) (new : NewInvoice) :
    m (String × String × Option String × List (Option String × String × ℤ × ℤ × ℤ)) :=
  match new.salesOrderId with
  | some orderId => resolveFromOrder book orderId
  | none => resolveStandalone book new

/-- What an invoice issue reads, before its transaction or inside the one of its caller. -/
def resolveInvoice (book : Book) (new : NewInvoice) : m ResolvedInvoice := do
  let today ← Reads.query fun db ↦ datePart (h.nowIso db.minted)
  let issueDate := new.issueDate.getD today
  let _ ← Reads.ofExcept (parseDate h issueDate)
  let _ ← Reads.ofExcept (parseDate h new.dueDate)
  Reads.ofExcept
    (require (issueDate ≤ new.dueDate) "invoice due date must not be before its issue date")
  let series := trim (new.series.getD "invoice")
  Reads.ofExcept (require (¬series.isEmpty) "invoice numbering series must not be empty")
  let (contactId, currency, salesOrderId, lines) ← resolveLines book new
  return {
    issueDate
    dueDate := new.dueDate
    series
    contactId
    currency
    salesOrderId
    notes := normalizeOptional new.notes
    lines }

end Resolve

def invoiceInsert (invoice : Invoice) : Action Unit := do
  let db ← get
  constraint (∀ i ∈ db.invoices, i.id ≠ invoice.id) "UNIQUE constraint failed: invoices.id"
  constraint (∀ i ∈ db.invoices, ¬(i.bookId = invoice.bookId ∧ i.series = invoice.series ∧
    i.number = invoice.number))
    "UNIQUE constraint failed: invoices.book_id, invoices.series, invoices.number"
  constraint (references Book.id db.books invoice.bookId ∧
    references Contact.id db.contacts invoice.contactId ∧
    ∀ o ∈ invoice.salesOrderId, references SalesOrder.id db.salesOrders o)
    "FOREIGN KEY constraint failed"
  modify fun db ↦ { db with invoices := db.invoices ++ [invoice] }

def invoiceItemInsert (item : InvoiceItem) : Action Unit := do
  let db ← get
  constraint (∀ i ∈ db.invoiceItems, i.id ≠ item.id) "UNIQUE constraint failed: invoice_items.id"
  constraint (references Invoice.id db.invoices item.invoiceId ∧
    references Book.id db.books item.bookId ∧
    ∀ v ∈ item.variantId, references ProductVariant.id db.productVariants v)
    "FOREIGN KEY constraint failed"
  constraint (item.quantity > 0 ∧ item.unitPriceMinor ≥ 0 ∧ 0 ≤ item.taxRateBps ∧
    item.taxRateBps ≤ 10000) "CHECK constraint failed: invoice_items"
  modify fun db ↦ { db with invoiceItems := db.invoiceItems ++ [item] }

def storeInvoiceItems (invoice : Invoice) :
    ℕ → List (Option String × String × ℤ × ℤ × ℤ) → Action Unit
  | _, [] => return ()
  | lineOrder, (variantId, description, quantity, unitPriceMinor, taxRateBps) :: lines => do
    let id ← newId h
    invoiceItemInsert
      { id
        invoiceId := invoice.id
        bookId := invoice.bookId
        variantId
        description
        quantity
        unitPriceMinor
        taxRateBps
        lineOrder }
    storeInvoiceItems invoice (lineOrder + 1) lines

/-- Numbers and inserts an invoice. Revenue is recognised here only when no order did. -/
def issueInvoiceInTx (book : Book) (resolved : ResolvedInvoice) : Action Invoice := do
  let number ← allocateNumber book.id resolved.series
  let invoice : Invoice :=
    { id := ← newId h
      bookId := book.id
      contactId := resolved.contactId
      salesOrderId := resolved.salesOrderId
      series := resolved.series
      number
      issueDate := resolved.issueDate
      dueDate := resolved.dueDate
      currency := resolved.currency
      notes := resolved.notes }
  invoiceInsert invoice
  storeInvoiceItems h invoice 0 resolved.lines
  if invoice.salesOrderId = none then
    postRevenueArJournal h book invoice.currency (resolved.lines.map fun l ↦ l.2.2)
      invoice.issueDate s!"Invoice {invoice.series}-{invoice.number}" invoice.id .salesRevenue
      invoice.id
  return invoice

def invoiceIssue (new : NewInvoice) : Service Invoice := do
  let book ← bookGet new.bookId
  let resolved ← resolveInvoice h book new
  Process.atomically [.book book] (issueInvoiceInTx h book resolved)

def invoicePaymentInsert (payment : InvoicePayment) : Action Unit := do
  let db ← get
  constraint (∀ p ∈ db.invoicePayments, p.id ≠ payment.id)
    "UNIQUE constraint failed: invoice_payments.id"
  constraint (references Invoice.id db.invoices payment.invoiceId ∧
    references Book.id db.books payment.bookId) "FOREIGN KEY constraint failed"
  constraint (payment.amountMinor > 0) "CHECK constraint failed: amount_minor > 0"
  modify fun db ↦ { db with invoicePayments := db.invoicePayments ++ [payment] }

def postInvoicePaymentJournal (book : Book) (invoice : Invoice) (payment : InvoicePayment) :
    Action Unit := do
  if payment.amountMinor = 0 then return ()
  let db ← get
  match getCoaByCode db book.id coaCodeBank, getCoaByCode db book.id coaCodeAr with
  | some bank, some ar =>
    let currency ← check (normalizeCurrencyCode invoice.currency)
    let _ ← postJournalInTx h book
      { bookId := book.id
        postedDate := payment.paidAt
        narrative := some s!"Payment received: invoice #{invoice.number}"
        reference := some payment.id
        sourceType := .invoicePayment
        sourceId := some payment.id
        lines :=
          [journalLine currency payment.method bank payment.amountMinor 0 none none,
            journalLine currency payment.method ar 0 payment.amountMinor none none] } none
  | _, _ => return ()

def invoicePaymentRecord (new : NewInvoicePayment) : Service InvoicePayment := do
  let invoice ← Process.ofExcept (← Process.query fun db ↦
    orNotFound "invoice" new.invoiceId (lookup Invoice.id db.invoices new.invoiceId))
  Process.ofExcept (require (new.amountMinor > 0) "invoice payment amount must be positive")
  let book ← bookGet invoice.bookId
  let today ← Process.query fun db ↦ datePart (h.nowIso db.minted)
  let paidAt := new.paidAt.getD today
  let _ ← Process.ofExcept (parseDate h paidAt)
  Process.atomically [.book book] do
    let payment : InvoicePayment :=
      { id := ← newId h
        invoiceId := invoice.id
        bookId := invoice.bookId
        amountMinor := new.amountMinor
        paidAt
        method := normalizeOptional new.method
        note := normalizeOptional new.note }
    invoicePaymentInsert payment
    postInvoicePaymentJournal h book invoice payment
    return payment

end SlipScan.Model.Invoicing
