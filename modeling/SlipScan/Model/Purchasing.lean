import SlipScan.Foundation.Connections
import SlipScan.Model.Scheduling

namespace SlipScan.Model.Purchasing

open Model.Domain Model.Database Model.Money Model.Invoicing Model.Scheduling Foundation.Transaction
  Foundation.Interleaving Foundation.Table

inductive ContactRole
  | customer | supplier | both
  deriving DecidableEq, Repr

structure TradingContact extends Contact where
  role : ContactRole
  deriving DecidableEq, Repr

structure PurchaseOrderHeader extends PurchaseOrder where
  supplierId : String
  locationId : String
  poNumber : String
  orderDate : String
  expectedDelivery : Option String
  subtotalMinor : ℤ
  taxMinor : ℤ
  totalMinor : ℤ
  notes : Option String
  updatedAt : String
  deriving DecidableEq, Repr

structure PurchaseOrderLine extends PurchaseOrderItem where
  qtyOrdered : ℤ
  totalMinor : ℤ
  createdAt : String
  updatedAt : String
  deriving DecidableEq, Repr

/-- A field of a patch is `none` where the row keeps what it has. -/
structure PurchaseOrderPatch where
  supplierId : Option String := none
  locationId : Option String := none
  poNumber : Option String := none
  orderDate : Option String := none
  expectedDelivery : Option (Option String) := none
  taxMinor : Option ℤ := none
  notes : Option (Option String) := none

structure NewPurchaseOrderItem where
  purchaseOrderId : String
  variantId : String
  qtyOrdered : ℤ
  unitPriceMinor : Option ℤ

structure PurchaseOrderItemPatch where
  qtyOrdered : Option ℤ := none
  unitPriceMinor : Option ℤ := none

structure PurchasingDb where
  contacts : List TradingContact := []
  locations : List Location := []
  productVariants : List ProductVariant := []
  orders : List PurchaseOrderHeader := []
  items : List PurchaseOrderLine := []
  receipts : List PoReceipt := []
  minted : ℕ := 0

abbrev PurchasingTx := Tx PurchasingDb Fault

/-- The rows held are the headers that are written back. -/
abbrev PurchasingService := Process PurchasingDb PurchaseOrderHeader Fault

variable (h : Host)

section Queries

variable (db : PurchasingDb)

def getOrder (id : String) : Except Fault PurchaseOrderHeader :=
  orNotFound "purchase_order" id (lookup (fun o ↦ o.id) db.orders id)

def getItem (id : String) : Except Fault PurchaseOrderLine :=
  orNotFound "purchase_order_item" id (lookup (fun i ↦ i.id) db.items id)

def itemListForPo (purchaseOrderId : String) : List PurchaseOrderLine :=
  (db.items.filter fun i ↦ i.purchaseOrderId = purchaseOrderId).insertionSort fun a b ↦
    toLex (a.createdAt, a.id) ≤ toLex (b.createdAt, b.id)

def receivedQtyForItem (itemId : String) : Except Fault ℤ :=
  sqlSum ((db.receipts.filter fun r ↦ r.purchaseOrderItemId = itemId).map PoReceipt.qty)

end Queries

section Writes

def newRowId : PurchasingTx String := do
  let n := (← get).minted
  modify fun db ↦ { db with minted := n + 1 }
  return h.newId n

def enforce (c : Prop) [Decidable c] (message : String) : PurchasingTx Unit :=
  if c then pure () else throw (.sqlite message)

/-- The row as an update leaves it: the book, the currency and the identifier stay. -/
def overwriteOrder (po row : PurchaseOrderHeader) : PurchaseOrderHeader :=
  { row with
    supplierId := po.supplierId
    locationId := po.locationId
    poNumber := po.poNumber
    orderDate := po.orderDate
    expectedDelivery := po.expectedDelivery
    status := po.status
    subtotalMinor := po.subtotalMinor
    taxMinor := po.taxMinor
    totalMinor := po.totalMinor
    notes := po.notes
    updatedAt := po.updatedAt }

def updateOrder (po : PurchaseOrderHeader) : PurchasingTx Unit := do
  let db ← get
  let stored := db.orders.filter fun o ↦ o.id = po.id
  enforce (∀ _ ∈ stored, references (fun c : TradingContact ↦ c.id) db.contacts po.supplierId ∧
    references Location.id db.locations po.locationId) "FOREIGN KEY constraint failed"
  enforce (∀ row ∈ stored, ∀ o ∈ db.orders,
      o.id ≠ po.id → ¬(o.bookId = row.bookId ∧ o.poNumber = po.poNumber))
    "UNIQUE constraint failed: purchase_orders.book_id, purchase_orders.po_number"
  enforce (∀ _ ∈ stored, 0 ≤ po.subtotalMinor ∧ 0 ≤ po.taxMinor ∧ 0 ≤ po.totalMinor)
    "CHECK constraint failed: purchase_orders"
  modify fun db ↦ { db with orders := update (fun o ↦ o.id) db.orders po.id (overwriteOrder po) }

def insertItem (item : PurchaseOrderLine) : PurchasingTx Unit := do
  let db ← get
  enforce (∀ i ∈ db.items, i.id ≠ item.id) "UNIQUE constraint failed: purchase_order_items.id"
  enforce (references (fun o : PurchaseOrderHeader ↦ o.id) db.orders item.purchaseOrderId ∧
    references ProductVariant.id db.productVariants item.variantId) "FOREIGN KEY constraint failed"
  enforce (0 < item.qtyOrdered ∧ 0 ≤ item.unitPriceMinor ∧ 0 ≤ item.totalMinor)
    "CHECK constraint failed: purchase_order_items"
  modify fun db ↦ { db with items := db.items ++ [item] }

def overwriteItem (item row : PurchaseOrderLine) : PurchaseOrderLine :=
  { row with
    qtyOrdered := item.qtyOrdered
    unitPriceMinor := item.unitPriceMinor
    totalMinor := item.totalMinor
    updatedAt := item.updatedAt }

def updateItem (item : PurchaseOrderLine) : PurchasingTx Unit := do
  let db ← get
  enforce (∀ row ∈ db.items, row.id = item.id →
    0 < item.qtyOrdered ∧ 0 ≤ item.unitPriceMinor ∧ 0 ≤ item.totalMinor)
    "CHECK constraint failed: purchase_order_items"
  modify fun db ↦ { db with items := update (fun i ↦ i.id) db.items item.id (overwriteItem item) }

def deleteItem (id : String) : PurchasingTx Unit := do
  let db ← get
  enforce (∀ row ∈ db.items, row.id = id → ∀ r ∈ db.receipts, r.purchaseOrderItemId ≠ id)
    "FOREIGN KEY constraint failed"
  modify fun db ↦ { db with items := db.items.filter fun i ↦ i.id ≠ id }

/-- Writes back the header with the totals of the lines that are stored now. -/
def recalcPoTotalsInTx (purchaseOrderId : String) : PurchasingTx Unit := do
  let db ← get
  let subtotalMinor := sumI64 ((itemListForPo db purchaseOrderId).map fun i ↦ i.totalMinor)
  let po ← check (getOrder db purchaseOrderId)
  updateOrder { po with
    subtotalMinor
    totalMinor := asI64 (subtotalMinor + po.taxMinor)
    updatedAt := h.nowIso db.minted }

end Writes

section Service

def clock : PurchasingService String :=
  Process.query fun db ↦ h.nowIso db.minted

def poGet (id : String) : PurchasingService PurchaseOrderHeader := do
  Process.ofExcept (← Process.query fun db ↦ getOrder db id)

def poItemGet (id : String) : PurchasingService PurchaseOrderLine := do
  Process.ofExcept (← Process.query fun db ↦ getItem db id)

def contactGet (id : String) : PurchasingService TradingContact := do
  Process.ofExcept (← Process.query fun db ↦
    orNotFound "contact" id (lookup (fun c ↦ c.id) db.contacts id))

def locationGet (id : String) : PurchasingService Location := do
  Process.ofExcept (← Process.query fun db ↦
    orNotFound "location" id (lookup Location.id db.locations id))

def productVariantGet (id : String) : PurchasingService ProductVariant := do
  Process.ofExcept (← Process.query fun db ↦
    orNotFound "product_variant" id (lookup ProductVariant.id db.productVariants id))

def patchSupplier (before : PurchaseOrderHeader) : Option String → PurchasingService String
  | some supplierId => do
    let supplier ← contactGet supplierId
    Process.ofExcept (require (supplier.bookId = before.bookId)
      "purchase order supplier belongs to a different book")
    Process.ofExcept (require (supplier.role ≠ .customer)
      "contact is not marked as a supplier (role customer)")
    return supplier.id
  | none => return before.supplierId

def patchLocation (before : PurchaseOrderHeader) : Option String → PurchasingService String
  | some locationId => do
    let location ← locationGet locationId
    Process.ofExcept (require (location.bookId = before.bookId)
      "purchase order location belongs to a different book")
    return location.id
  | none => return before.locationId

/-- The other fields of a patch. A new tax gives a new total, over the subtotal that was read. -/
def patchFields (before : PurchaseOrderHeader) (patch : PurchaseOrderPatch) :
    Except Fault PurchaseOrderHeader := do
  let poNumber ← patched patch.poNumber (fun poNumber ↦ do
    require (¬(trim poNumber).isEmpty) "purchase order number must not be empty"
    return trim poNumber) before.poNumber
  let orderDate ← patched patch.orderDate (fun orderDate ↦ do
    let _ ← parseDate h orderDate
    return orderDate) before.orderDate
  let expectedDelivery ← patched patch.expectedDelivery (fun expectedDelivery ↦ do
    let _ ← expectedDelivery.mapM (parseDate h)
    return expectedDelivery) before.expectedDelivery
  let (taxMinor, totalMinor) ← patched patch.taxMinor (fun taxMinor ↦ do
    require (¬taxMinor < 0) "purchase order tax must not be negative"
    return (taxMinor, asI64 (before.subtotalMinor + taxMinor))) (before.taxMinor, before.totalMinor)
  let notes ← patched patch.notes (.ok ∘ normalizeOptional) before.notes
  return { before with poNumber, orderDate, expectedDelivery, taxMinor, totalMinor, notes }

/-- Edits the header. The row was read before the transaction and is written back whole. -/
def poUpdate (id : String) (patch : PurchaseOrderPatch) :
    PurchasingService PurchaseOrderHeader := do
  let before ← poGet id
  let supplierId ← patchSupplier before patch.supplierId
  let locationId ← patchLocation before patch.locationId
  let after ← Process.ofExcept (patchFields h { before with supplierId, locationId } patch)
  let updatedAt ← clock h
  let after := { after with updatedAt }
  Process.atomically [before] do
    updateOrder after
    return after

def poStatusTransitionAllowed : PurchaseOrderStatus → PurchaseOrderStatus → Bool
  | .draft, .ordered | .draft, .cancelled | .ordered, .cancelled => true
  | _, _ => false

def poStatusAsStr : PurchaseOrderStatus → String
  | .draft => "draft"
  | .ordered => "ordered"
  | .cancelled => "cancelled"

def poSetStatus (id : String) (toStatus : PurchaseOrderStatus) :
    PurchasingService PurchaseOrderHeader := do
  let before ← poGet id
  Process.ofExcept (if poStatusTransitionAllowed before.status toStatus then .ok ()
    else .error (.invalidStatusTransition (poStatusAsStr before.status) (poStatusAsStr toStatus)))
  let updatedAt ← clock h
  let after := { before with status := toStatus, updatedAt }
  Process.atomically [before] do
    updateOrder after
    return after

def poItemAdd (new : NewPurchaseOrderItem) : PurchasingService PurchaseOrderLine := do
  let po ← poGet new.purchaseOrderId
  Process.ofExcept (require (po.status ≠ .cancelled)
    "cannot add a line to a cancelled purchase order")
  let variant ← productVariantGet new.variantId
  Process.ofExcept (require (variant.bookId = po.bookId)
    "purchase order line variant belongs to a different book")
  Process.ofExcept (require (¬new.qtyOrdered ≤ 0) "purchase order line quantity must be positive")
  let unitPriceMinor := new.unitPriceMinor.getD 0
  Process.ofExcept (require (¬unitPriceMinor < 0)
    "purchase order line unit price must not be negative")
  let now ← clock h
  Process.atomically [] do
    let item : PurchaseOrderLine :=
      { id := ← newRowId h
        purchaseOrderId := po.id
        bookId := po.bookId
        variantId := variant.id
        qtyOrdered := new.qtyOrdered
        unitPriceMinor
        totalMinor := asI64 (new.qtyOrdered * unitPriceMinor)
        createdAt := now
        updatedAt := now }
    insertItem item
    recalcPoTotalsInTx h po.id
    return item

/-- The quantity that a patch names must cover what has arrived. -/
def patchQty (before : PurchaseOrderLine) : Option ℤ → PurchasingService ℤ
  | some qtyOrdered => do
    Process.ofExcept (require (¬qtyOrdered ≤ 0) "purchase order line quantity must be positive")
    let received ← Process.ofExcept (← Process.query fun db ↦ receivedQtyForItem db before.id)
    Process.ofExcept (require (¬qtyOrdered < received)
      (s!"cannot reduce ordered quantity to {qtyOrdered}; " ++
        s!"{received} has already been received against this line"))
    return qtyOrdered
  | none => return before.qtyOrdered

def patchUnitPrice (before : PurchaseOrderLine) : Option ℤ → Except Fault ℤ
  | some unitPriceMinor => do
    require (¬unitPriceMinor < 0) "purchase order line unit price must not be negative"
    return unitPriceMinor
  | none => return before.unitPriceMinor

def poItemUpdate (id : String) (patch : PurchaseOrderItemPatch) :
    PurchasingService PurchaseOrderLine := do
  let before ← poItemGet id
  let po ← poGet before.purchaseOrderId
  Process.ofExcept (require (po.status ≠ .cancelled)
    "cannot edit a line on a cancelled purchase order")
  let qtyOrdered ← patchQty before patch.qtyOrdered
  let unitPriceMinor ← Process.ofExcept (patchUnitPrice before patch.unitPriceMinor)
  let updatedAt ← clock h
  let after := { before with
    qtyOrdered, unitPriceMinor, totalMinor := asI64 (qtyOrdered * unitPriceMinor), updatedAt }
  Process.atomically [] do
    updateItem after
    recalcPoTotalsInTx h after.purchaseOrderId
    return after

def poItemDelete (id : String) : PurchasingService Unit := do
  let before ← poItemGet id
  Process.atomically [] do
    deleteItem id
    recalcPoTotalsInTx h before.purchaseOrderId

end Service

section Runs

inductive PurchasingCall
  | poUpdate (id : String) (patch : PurchaseOrderPatch)
  | poSetStatus (id : String) (toStatus : PurchaseOrderStatus)
  | poItemAdd (new : NewPurchaseOrderItem)
  | poItemUpdate (id : String) (patch : PurchaseOrderItemPatch)
  | poItemDelete (id : String)

def PurchasingCall.program : PurchasingCall → PurchasingService Unit
  | poUpdate id patch => do
    let _ ← Purchasing.poUpdate h id patch
    return ()
  | poSetStatus id toStatus => do
    let _ ← Purchasing.poSetStatus h id toStatus
    return ()
  | poItemAdd new => do
    let _ ← Purchasing.poItemAdd h new
    return ()
  | poItemUpdate id patch => do
    let _ ← Purchasing.poItemUpdate h id patch
    return ()
  | poItemDelete id => Purchasing.poItemDelete h id

def purchasing {ι : Type} (s : PurchasingDb) (calls : ι → List PurchasingCall) :
    Config ι PurchasingDb PurchaseOrderHeader Fault Unit :=
  ⟨s, fun i ↦ Process.inTurn ((calls i).map fun c ↦ c.program h)⟩

end Runs

end SlipScan.Model.Purchasing
