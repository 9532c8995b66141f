import SlipScan.Model.Trade

namespace SlipScan.Model.Sales

open Model.Domain Model.Database Model.Ledger Model.Money Model.Generate Model.Trade
  Foundation.Transaction Foundation.Interleaving Foundation.Table

variable (h : Host)

section Repository

def allocateNumber (bookId series : String) : Action ℤ := do
  let db ← get
  constraint (references Book.id db.books bookId) "FOREIGN KEY constraint failed"
  match db.numberSequences.find? fun n ↦ n.1 = bookId ∧ n.2.1 = series with
  | some (_, _, next) =>
    modify fun db ↦
      { db with
        numberSequences := db.numberSequences.map fun n ↦
          if n.1 = bookId ∧ n.2.1 = series then (n.1, n.2.1, next + 1) else n }
    return next
  | none =>
    modify fun db ↦ { db with numberSequences := db.numberSequences ++ [(bookId, series, 2)] }
    return 1

def orderInsert (order : SalesOrder) : Action Unit := do
  let db ← get
  constraint (∀ o ∈ db.salesOrders, o.id ≠ order.id) "UNIQUE constraint failed: sales_orders.id"
  constraint (∀ o ∈ db.salesOrders, ¬(o.bookId = order.bookId ∧ o.number = order.number))
    "UNIQUE constraint failed: sales_orders.book_id, sales_orders.number"
  constraint (references Book.id db.books order.bookId ∧
    references Contact.id db.contacts order.contactId ∧
    ∀ l ∈ order.locationId, references Location.id db.locations l) "FOREIGN KEY constraint failed"
  modify fun db ↦ { db with salesOrders := db.salesOrders ++ [order] }

/-- Writes the whole header of an order but its book and its number. -/
def orderUpdate (order : SalesOrder) : Action Unit := do
  let db ← get
  constraint ((lookup SalesOrder.id db.salesOrders order.id).isSome →
    references Contact.id db.contacts order.contactId ∧
    ∀ l ∈ order.locationId, references Location.id db.locations l) "FOREIGN KEY constraint failed"
  modify fun db ↦
    { db with
      salesOrders := update SalesOrder.id db.salesOrders order.id fun o ↦
        { o with
          contactId := order.contactId
          locationId := order.locationId
          orderDate := order.orderDate
          status := order.status
          currency := order.currency } }

/-- Deletes an order and its lines. A quote forgets it; an invoice would have to change. -/
def orderDelete (id : String) : Action Unit := do
  let db ← get
  constraint (∀ i ∈ db.invoices, i.salesOrderId ≠ some id) "issued invoices are immutable"
  modify fun db ↦
    { db with
      salesOrders := db.salesOrders.filter fun o ↦ o.id ≠ id
      salesOrderItems := db.salesOrderItems.filter fun i ↦ i.salesOrderId ≠ id
      quotes := db.quotes.map fun q ↦
        if q.convertedSalesOrderId = some id then { q with convertedSalesOrderId := none }
        else q }

def contactGet (db : Db) (id : String) : Except Fault Contact :=
  orNotFound "contact" id (lookup Contact.id db.contacts id)

def orderGet (db : Db) (id : String) : Except Fault SalesOrder :=
  orNotFound "sales_order" id (lookup SalesOrder.id db.salesOrders id)

def orderItemGet (db : Db) (id : String) : Except Fault SalesOrderItem :=
  orNotFound "sales_order_item" id (lookup SalesOrderItem.id db.salesOrderItems id)

def orderItemList (db : Db) (orderId : String) : List SalesOrderItem :=
  (db.salesOrderItems.filter fun i ↦ i.salesOrderId = orderId).insertionSort fun a b ↦
    a.lineOrder < b.lineOrder ∨ a.lineOrder = b.lineOrder ∧
      (a.createdAt < b.createdAt ∨ a.createdAt = b.createdAt ∧ a.id ≤ b.id)

def orderItemInsert (item : SalesOrderItem) : Action Unit := do
  let db ← get
  constraint (∀ i ∈ db.salesOrderItems, i.id ≠ item.id)
    "UNIQUE constraint failed: sales_order_items.id"
  constraint (references SalesOrder.id db.salesOrders item.salesOrderId ∧
    references Book.id db.books item.bookId ∧
    ∀ v ∈ item.variantId, references ProductVariant.id db.productVariants v)
    "FOREIGN KEY constraint failed"
  constraint (item.quantity > 0 ∧ item.unitPriceMinor ≥ 0 ∧ 0 ≤ item.taxRateBps ∧
    item.taxRateBps ≤ 10000) "CHECK constraint failed: sales_order_items"
  modify fun db ↦ { db with salesOrderItems := db.salesOrderItems ++ [item] }

def orderItemUpdate (item : SalesOrderItem) : Action Unit :=
  modify fun db ↦
    { db with
      salesOrderItems := update SalesOrderItem.id db.salesOrderItems item.id fun i ↦
        { i with
          description := item.description
          quantity := item.quantity
          unitPriceMinor := item.unitPriceMinor
          taxRateBps := item.taxRateBps } }

def orderItemDelete (id : String) : Action Unit :=
  modify fun db ↦ { db with salesOrderItems := db.salesOrderItems.filter fun i ↦ i.id ≠ id }

end Repository

section Drafts

def checkLocationBook (db : Db) (bookId : String) (locationId : String) : Except Fault String := do
  let location ← getLocation db locationId
  require (location.bookId = bookId) "sales order location belongs to a different book"
  return location.id

def salesOrderCreate (new : NewSalesOrder) : Service SalesOrder := do
  let book ← bookGet new.bookId
  let contact ← Process.ofExcept (← Process.query fun db ↦ contactGet db new.contactId)
  Process.ofExcept
    (require (contact.bookId = book.id) "sales order contact belongs to a different book")
  let locationId ← Process.ofExcept
    (← Process.query fun db ↦ new.locationId.mapM (checkLocationBook db book.id))
  let today ← Process.query fun db ↦ datePart (h.nowIso db.minted)
  let orderDate := new.orderDate.getD today
  let _ ← Process.ofExcept (parseDate h orderDate)
  let currency ← Process.ofExcept (currencyOr book new.currency)
  Process.atomically [.book book] do
    let number ← allocateNumber book.id "sales_order"
    let order : SalesOrder :=
      { id := ← newId h
        bookId := book.id
        contactId := contact.id
        locationId
        number
        orderDate
        status := .draft
        currency }
    orderInsert order
    return order

def salesOrderGet (id : String) : Service SalesOrder := do
  Process.ofExcept (← Process.query fun db ↦ orderGet db id)

def patchLocation (db : Db) (before : SalesOrder) (patch : SalesOrderPatch) :
    Except Fault (Option String) :=
  match patch.locationId with
  | some locationId => locationId.mapM (checkLocationBook db before.bookId)
  | none => .ok before.locationId

def salesOrderUpdate (id : String) (patch : SalesOrderPatch) : Service SalesOrder := do
  let before ← salesOrderGet id
  Process.ofExcept (require (before.status = .draft)
    "only a draft sales order can be edited; a confirmed one can be cancelled")
  let locationId ← Process.ofExcept (← Process.query fun db ↦ patchLocation db before patch)
  let _ ← Process.ofExcept (patch.orderDate.mapM (parseDate h))
  let after := { before with locationId, orderDate := patch.orderDate.getD before.orderDate }
  Process.atomically [] (orderUpdate after)
  return after

def salesOrderDelete (id : String) : Service Unit := do
  let before ← salesOrderGet id
  Process.ofExcept (require (before.status = .draft)
    "only a draft sales order can be deleted; cancel a confirmed one instead")
  Process.atomically [] (orderDelete id)

def resolveSalesOrderLine (db : Db) (orderBookId : String) (variantId description : Option String)
    (unitPriceMinor : Option ℤ) : Except Fault (Option String × String × ℤ) := do
  let described := (description.map trim).filter fun d ↦ ¬d.isEmpty
  match variantId with
  | some vid =>
    let variant ← getVariant db vid
    require (variant.bookId = orderBookId) "sales order line variant belongs to a different book"
    return (some variant.id, described.getD variant.name, unitPriceMinor.getD variant.priceMinor)
  | none =>
    match described, unitPriceMinor with
    | none, _ => .error (.validation "a free-text sales order line needs a description")
    | some _, none => .error (.validation "a free-text sales order line needs a unit price")
    | some d, some price => return (none, d, price)

def checkQuantity (quantity : ℤ) : Except Fault Unit :=
  require (quantity > 0) "sales order line quantity must be positive"

def checkUnitPrice (unitPriceMinor : ℤ) : Except Fault Unit :=
  require (unitPriceMinor ≥ 0) "sales order line unit price must not be negative"

def checkTaxRate (taxRateBps : ℤ) : Except Fault Unit :=
  require (0 ≤ taxRateBps ∧ taxRateBps ≤ 10000)
    "sales order line tax rate must be between 0 and 10000 basis points"

def salesOrderItemAdd (new : NewSalesOrderItem) : Service SalesOrderItem := do
  let order ← salesOrderGet new.salesOrderId
  Process.ofExcept
    (require (order.status = .draft) "cannot add a line to a non-draft sales order")
  Process.ofExcept (checkQuantity new.quantity)
  let (variantId, description, unitPriceMinor) ← Process.ofExcept (← Process.query fun db ↦
    resolveSalesOrderLine db order.bookId new.variantId new.description new.unitPriceMinor)
  Process.ofExcept (checkUnitPrice unitPriceMinor)
  let taxRateBps := new.taxRateBps.getD 0
  Process.ofExcept (checkTaxRate taxRateBps)
  Process.atomically [] do
    let lineOrder := (orderItemList (← get) order.id).length
    let createdAt ← nowIso h
    let item : SalesOrderItem :=
      { id := ← newId h
        salesOrderId := order.id
        bookId := order.bookId
        variantId
        description
        quantity := new.quantity
        unitPriceMinor
        taxRateBps
        lineOrder
        createdAt }
    orderItemInsert item
    return item

def patchItem (before : SalesOrderItem) (patch : SalesOrderItemPatch) :
    Except Fault SalesOrderItem := do
  let description := (patch.description.map trim).getD before.description
  require (patch.description = none ∨ ¬description.isEmpty)
    "sales order line description must not be empty"
  let _ ← patch.quantity.mapM checkQuantity
  let _ ← patch.unitPriceMinor.mapM checkUnitPrice
  let _ ← patch.taxRateBps.mapM checkTaxRate
  return { before with
    description
    quantity := patch.quantity.getD before.quantity
    unitPriceMinor := patch.unitPriceMinor.getD before.unitPriceMinor
    taxRateBps := patch.taxRateBps.getD before.taxRateBps }

def salesOrderItemUpdate (id : String) (patch : SalesOrderItemPatch) : Service SalesOrderItem := do
  let before ← Process.ofExcept (← Process.query fun db ↦ orderItemGet db id)
  let order ← salesOrderGet before.salesOrderId
  Process.ofExcept
    (require (order.status = .draft) "cannot edit a line on a non-draft sales order")
  let after ← Process.ofExcept (patchItem before patch)
  Process.atomically [] (orderItemUpdate after)
  return after

def salesOrderItemRemove (id : String) : Service Unit := do
  let before ← Process.ofExcept (← Process.query fun db ↦ orderItemGet db id)
  let order ← salesOrderGet before.salesOrderId
  Process.ofExcept
    (require (order.status = .draft) "cannot remove a line from a non-draft sales order")
  Process.atomically [] (orderItemDelete id)

end Drafts

end SlipScan.Model.Sales
