import SlipScan.Model.Sales

namespace SlipScan.Model.SalesPosting

open Model.Domain Model.Database Model.Ledger Model.Money Model.Generate Model.Trade Model.Sales
  Foundation.Transaction Foundation.Interleaving Foundation.Table

variable (h : Host)

def stockItems (items : List SalesOrderItem) : List SalesOrderItem :=
  items.filter fun i ↦ i.variantId.isSome

def totalCost (db : Db) (items : List SalesOrderItem) : Except Fault ℤ :=
  (stockItems items).foldlM (fun total item ↦ do
    let variant ← getVariant db (item.variantId.getD "")
    return asI64 (total + asI64 (variant.costPriceMinor * item.quantity))) 0

def postCostJournal (book : Book) (order : SalesOrder) (currency : String) (cost : ℤ) :
    Action Unit := do
  if cost = 0 then return ()
  let db ← get
  match getCoaByCode db book.id coaCodeCogs, getCoaByCode db book.id coaCodeInventory with
  | some cogs, some inventory =>
    let text := s!"Cost of sale: order #{order.number}"
    let _ ← postJournalInTx h book
      { bookId := book.id
        postedDate := order.orderDate
        narrative := some text
        reference := some order.id
        sourceType := .salesCogs
        sourceId := some order.id
        lines :=
          [journalLine currency (some text) cogs cost 0 none none,
            journalLine currency (some text) inventory 0 cost none none] } none
  | _, _ => return ()

/-- The two journals of a confirmed order: cost against inventory, and receivable against revenue
and tax. Either is left out when the book lacks its accounts. -/
def postSalesConfirmJournals (book : Book) (order : SalesOrder) (items : List SalesOrderItem) :
    Action Unit := do
  let currency ← check (normalizeCurrencyCode order.currency)
  let cost ← check (totalCost (← get) items)
  postCostJournal h book order currency cost
  postRevenueArJournal h book currency
    (items.map fun i ↦ (i.quantity, i.unitPriceMinor, i.taxRateBps)) order.orderDate
    s!"Sale: order #{order.number}" order.id .salesRevenue order.id

def checkConfirmable (before : SalesOrder) : Except Fault Unit :=
  if before.status ≠ .draft then
    .error (.invalidStatusTransition before.status.asStr SalesOrderStatus.confirmed.asStr)
  else .ok ()

def checkConfirmItems (before : SalesOrder) (items : List SalesOrderItem) : Except Fault Unit := do
  require (¬items.isEmpty) "cannot confirm a sales order with no line items"
  require ((stockItems items).isEmpty ∨ before.locationId ≠ none)
    "cannot confirm: this order has stock-tracked line items but no location set"

/-- Moves the stock of every stock-tracked line, out of the location for the sign -1. -/
def moveStock (order : SalesOrder) (items : List SalesOrderItem) (locationId : String) (sign : ℤ)
    (note : String) : Action Unit :=
  (stockItems items).forM fun item ↦
    insertMovementInTx h order.bookId (item.variantId.getD "") locationId
      (asI64 (sign * item.quantity)) .sale (some "sales_order") (some order.id) (some note)

def moveOut (before : SalesOrder) (items : List SalesOrderItem) : Action Unit :=
  match before.locationId with
  | some locationId => moveStock h before items locationId (-1) s!"sale: order #{before.number}"
  | none => pure ()

def salesOrderConfirm (id : String) : Service SalesOrder := do
  let before ← salesOrderGet id
  Process.ofExcept (checkConfirmable before)
  let items ← Process.query fun db ↦ orderItemList db id
  Process.ofExcept (checkConfirmItems before items)
  let book ← bookGet before.bookId
  let after := { before with status := .confirmed }
  Process.atomically [.book book, .order before] do
    moveOut h before items
    postSalesConfirmJournals h book before items
    orderUpdate after
  return after

def reverseLive (book : Book) (ids : List String) (reversalDate narrative : String) :
    Action Unit :=
  ids.forM fun id ↦ do
    if !(← check (isNetReversed (← get) id)) then
      let _ ← reverseJournalInTx h book id (some reversalDate) (some narrative)

def reverseSalesConfirmJournals (book : Book) (order : SalesOrder) (reversalDate : String) :
    Action Unit :=
  [JournalSourceType.salesCogs, JournalSourceType.salesRevenue].forM fun sourceType ↦ do
    reverseLive h book (findJournalsBySource (← get) book.id sourceType order.id) reversalDate
      s!"Cancelled: reversing sale order #{order.number}"

def checkCancellable (before : SalesOrder) : Except Fault Unit :=
  if before.status = .draft ∨ before.status = .confirmed then .ok ()
  else .error (.invalidStatusTransition before.status.asStr SalesOrderStatus.cancelled.asStr)

def moveBack (before : SalesOrder) (items : List SalesOrderItem) : Action Unit :=
  if ¬(stockItems items).isEmpty then
    match before.locationId with
    | some locationId =>
      moveStock h before items locationId 1 s!"cancelled: reversing sales_order {before.id}"
    | none => throw (.panic "a confirmed order with stock lines always has a location")
  else pure ()

def undoConfirm (book : Book) (before : SalesOrder) : Action Unit := do
  let now ← nowIso h
  let items := orderItemList (← get) before.id
  moveBack h before items
  reverseSalesConfirmJournals h book before (datePart now)

def cancelInTx (book : Book) (before : SalesOrder) : Action Unit :=
  if before.status = .confirmed then undoConfirm h book before else pure ()

def salesOrderCancel (id : String) : Service SalesOrder := do
  let before ← salesOrderGet id
  Process.ofExcept (checkCancellable before)
  let book ← bookGet before.bookId
  let after := { before with status := .cancelled }
  Process.atomically [.book book] do
    cancelInTx h book before
    orderUpdate after
  return after

def checkPayable (before : SalesOrder) : Except Fault Unit :=
  if before.status ≠ .confirmed then
    .error (.invalidStatusTransition before.status.asStr SalesOrderStatus.paid.asStr)
  else .ok ()

def salesOrderMarkPaid (id : String) : Service SalesOrder := do
  let before ← salesOrderGet id
  Process.ofExcept (checkPayable before)
  let after := { before with status := .paid }
  Process.atomically [] (orderUpdate after)
  return after

end SlipScan.Model.SalesPosting
