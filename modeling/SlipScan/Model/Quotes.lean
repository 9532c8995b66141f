import SlipScan.Model.Sales

namespace SlipScan.Model.Quotes

open Model.Domain Model.Database Model.Ledger Model.Generate Model.Sales Foundation.Transaction
  Foundation.Interleaving Foundation.Table

variable (h : Host)

section Repository

def quoteInsert (quote : Quote) : Action Unit := do
  let db ← get
  constraint (∀ q ∈ db.quotes, q.id ≠ quote.id) "UNIQUE constraint failed: quotes.id"
  constraint (∀ q ∈ db.quotes, ¬(q.bookId = quote.bookId ∧ q.number = quote.number))
    "UNIQUE constraint failed: quotes.book_id, quotes.number"
  constraint (references Book.id db.books quote.bookId ∧
    references Contact.id db.contacts quote.contactId ∧
    ∀ o ∈ quote.convertedSalesOrderId, references SalesOrder.id db.salesOrders o)
    "FOREIGN KEY constraint failed"
  modify fun db ↦ { db with quotes := db.quotes ++ [quote] }

def quoteGet (db : Db) (id : String) : Except Fault Quote :=
  orNotFound "quote" id (lookup Quote.id db.quotes id)

/-- Writes the whole header of a quote but its book and its number. -/
def quoteUpdate (quote : Quote) : Action Unit := do
  let db ← get
  constraint ((lookup Quote.id db.quotes quote.id).isSome →
    references Contact.id db.contacts quote.contactId ∧
    ∀ o ∈ quote.convertedSalesOrderId, references SalesOrder.id db.salesOrders o)
    "FOREIGN KEY constraint failed"
  modify fun db ↦
    { db with
      quotes := update Quote.id db.quotes quote.id fun q ↦
        { q with
          contactId := quote.contactId
          quoteDate := quote.quoteDate
          expiryDate := quote.expiryDate
          status := quote.status
          currency := quote.currency
          convertedSalesOrderId := quote.convertedSalesOrderId } }

def quoteItemList (db : Db) (quoteId : String) : List QuoteItem :=
  (db.quoteItems.filter fun i ↦ i.quoteId = quoteId).insertionSort fun a b ↦
    a.lineOrder < b.lineOrder ∨ a.lineOrder = b.lineOrder ∧
      (a.createdAt < b.createdAt ∨ a.createdAt = b.createdAt ∧ a.id ≤ b.id)

def quoteItemInsert (item : QuoteItem) : Action Unit := do
  let db ← get
  constraint (∀ i ∈ db.quoteItems, i.id ≠ item.id) "UNIQUE constraint failed: quote_items.id"
  constraint (references Quote.id db.quotes item.quoteId ∧ references Book.id db.books item.bookId ∧
    ∀ v ∈ item.variantId, references ProductVariant.id db.productVariants v)
    "FOREIGN KEY constraint failed"
  constraint (item.quantity > 0 ∧ item.unitPriceMinor ≥ 0 ∧ 0 ≤ item.taxRateBps ∧
    item.taxRateBps ≤ 10000) "CHECK constraint failed: quote_items"
  modify fun db ↦ { db with quoteItems := db.quoteItems ++ [item] }

end Repository

section Service

def serviceQuoteGet (id : String) : Service Quote := do
  Process.ofExcept (← Process.query fun db ↦ quoteGet db id)

def createInTx (book : Book) (contactId quoteDate : String) (expiryDate : Option String)
    (currency : String) : Action Quote := do
  let number ← allocateNumber book.id "quote"
  let quote : Quote :=
    { id := ← newId h
      bookId := book.id
      contactId
      number
      quoteDate
      expiryDate
      status := .draft
      currency
      convertedSalesOrderId := none }
  quoteInsert quote
  return quote

def quoteCreate (new : NewQuote) : Service Quote := do
  let book ← bookGet new.bookId
  let contact ← Process.ofExcept (← Process.query fun db ↦ contactGet db new.contactId)
  Process.ofExcept (require (contact.bookId = book.id) "quote contact belongs to a different book")
  let today ← Process.query fun db ↦ datePart (h.nowIso db.minted)
  let quoteDate := new.quoteDate.getD today
  let _ ← Process.ofExcept (parseDate h quoteDate)
  let _ ← Process.ofExcept (new.expiryDate.mapM (parseDate h))
  let currency ← Process.ofExcept (currencyOr book new.currency)
  Process.atomically [.book book] (createInTx h book contact.id quoteDate new.expiryDate currency)

def quoteItemAdd (new : NewQuoteItem) : Service QuoteItem := do
  let quote ← serviceQuoteGet new.quoteId
  Process.ofExcept (require (quote.status = .draft) "cannot add a line to a non-draft quote")
  Process.ofExcept (require (new.quantity > 0) "quote line quantity must be positive")
  let (variantId, description, unitPriceMinor) ← Process.ofExcept (← Process.query fun db ↦
    resolveSalesOrderLine db quote.bookId new.variantId new.description new.unitPriceMinor)
  Process.ofExcept (require (unitPriceMinor ≥ 0) "quote line unit price must not be negative")
  let taxRateBps := new.taxRateBps.getD 0
  Process.ofExcept (require (0 ≤ taxRateBps ∧ taxRateBps ≤ 10000)
    "quote line tax rate must be between 0 and 10000 basis points")
  Process.atomically [] do
    let lineOrder := (quoteItemList (← get) quote.id).length
    let createdAt ← nowIso h
    let item : QuoteItem :=
      { id := ← newId h
        quoteId := quote.id
        bookId := quote.bookId
        variantId
        description
        quantity := new.quantity
        unitPriceMinor
        taxRateBps
        lineOrder
        createdAt }
    quoteItemInsert item
    return item

def checkTransition (before : Quote) (fromStatus toStatus : QuoteStatus) : Except Fault Unit :=
  if before.status ≠ fromStatus then
    .error (.invalidStatusTransition before.status.asStr toStatus.asStr)
  else .ok ()

def quoteSend (id : String) : Service Quote := do
  let before ← serviceQuoteGet id
  Process.ofExcept (checkTransition before .draft .sent)
  let items ← Process.query fun db ↦ quoteItemList db id
  Process.ofExcept (require (¬items.isEmpty) "cannot send a quote with no line items")
  let after := { before with status := .sent }
  Process.atomically [.quote before] (quoteUpdate after)
  return after

/-- Ends a sent quote that became no order. -/
def quoteLapse (id : String) (toStatus : QuoteStatus) : Service Quote := do
  let before ← serviceQuoteGet id
  Process.ofExcept (checkTransition before .sent toStatus)
  let after := { before with status := toStatus }
  Process.atomically [.quote before] (quoteUpdate after)
  return after

def quoteDecline (id : String) : Service Quote :=
  quoteLapse id .declined

def quoteExpire (id : String) : Service Quote :=
  quoteLapse id .expired

def copyItems (order : SalesOrder) (createdAt : String) : ℕ → List QuoteItem → Action Unit
  | _, [] => return ()
  | lineOrder, item :: items => do
    orderItemInsert
      { id := ← newId h
        salesOrderId := order.id
        bookId := order.bookId
        variantId := item.variantId
        description := item.description
        quantity := item.quantity
        unitPriceMinor := item.unitPriceMinor
        taxRateBps := item.taxRateBps
        lineOrder
        createdAt }
    copyItems order createdAt (lineOrder + 1) items

def acceptInTx (before : Quote) (items : List QuoteItem) : Action SalesOrder := do
  let now ← nowIso h
  let number ← allocateNumber before.bookId "sales_order"
  let order : SalesOrder :=
    { id := ← newId h
      bookId := before.bookId
      contactId := before.contactId
      locationId := none
      number
      orderDate := datePart now
      status := .draft
      currency := before.currency }
  orderInsert order
  copyItems h order now 0 items
  quoteUpdate { before with status := .accepted, convertedSalesOrderId := some order.id }
  return order

def quoteAccept (id : String) : Service SalesOrder := do
  let before ← serviceQuoteGet id
  Process.ofExcept (checkTransition before .sent .accepted)
  let items ← Process.query fun db ↦ quoteItemList db id
  Process.ofExcept (require (¬items.isEmpty) "cannot accept a quote with no line items")
  Process.atomically [.quote before] (acceptInTx h before items)

end Service

end SlipScan.Model.Quotes
