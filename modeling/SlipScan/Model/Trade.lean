import SlipScan.Model.Generate

namespace SlipScan.Model.Trade

open Model.Domain Model.Database Model.Ledger Model.Money Model.Generate Foundation.Transaction
  Foundation.Interleaving Foundation.Table

variable (h : Host)

section Stock

def getVariant (db : Db) (id : String) : Except Fault ProductVariant :=
  orNotFound "product_variant" id (lookup ProductVariant.id db.productVariants id)

def getLocation (db : Db) (id : String) : Except Fault Location :=
  orNotFound "location" id (lookup Location.id db.locations id)

def insertMovementInTx (bookId variantId locationId : String) (qtyDelta : ℤ)
    (kind : StockMovementKind) (refKind refId note : Option String) : Action Unit := do
  let id ← newId h
  let db ← get
  constraint (∀ m ∈ db.stockMovements, m.id ≠ id) "UNIQUE constraint failed: stock_movements.id"
  constraint (references Book.id db.books bookId ∧
    references ProductVariant.id db.productVariants variantId ∧
    references Location.id db.locations locationId) "FOREIGN KEY constraint failed"
  constraint (qtyDelta ≠ 0) "CHECK constraint failed: qty_delta != 0"
  modify fun db ↦
    { db with
      stockMovements := db.stockMovements ++
        [{ id, bookId, variantId, locationId, qtyDelta, kind, refKind, refId, note }] }

end Stock

section Purchasing

def insertReceipt (receipt : PoReceipt) : Action Unit := do
  let db ← get
  constraint (∀ r ∈ db.poReceipts, r.id ≠ receipt.id) "UNIQUE constraint failed: po_receipts.id"
  constraint (references Book.id db.books receipt.bookId ∧
    references PurchaseOrderItem.id db.purchaseOrderItems receipt.purchaseOrderItemId ∧
    references Location.id db.locations receipt.locationId) "FOREIGN KEY constraint failed"
  constraint (receipt.qty ≠ 0) "CHECK constraint failed: qty != 0"
  modify fun db ↦ { db with poReceipts := db.poReceipts ++ [receipt] }

/-- The lines of a goods receipt. A correction swaps the sides. -/
def receiptLines (currency : String) (note : Option String) (inventory ap : CoaAccount)
    (costMinor : ℤ) : List NewJournalLine :=
  let amount := asI64 |costMinor|
  if costMinor > 0 then
    [journalLine currency note inventory amount 0 none none,
      journalLine currency note ap 0 amount none none]
  else
    [journalLine currency note inventory 0 amount none none,
      journalLine currency note ap amount 0 none none]

/-- A book without the accounts posts nothing. -/
def postPoReceiptJournal (book : Book) (receipt : PoReceipt) (item : PurchaseOrderItem)
    (poCurrency : String) : Action Unit := do
  let costMinor := asI64 (item.unitPriceMinor * receipt.qty)
  if costMinor = 0 then return ()
  let db ← get
  match getCoaByCode db book.id coaCodeInventory, getCoaByCode db book.id coaCodeAp with
  | some inventory, some ap =>
    let currency ← check (normalizeCurrencyCode poCurrency)
    let _ ← postJournalInTx h book
      { bookId := book.id
        postedDate := datePart receipt.createdAt
        narrative := some "Goods receipt"
        reference := some receipt.id
        sourceType := .poReceipt
        sourceId := some receipt.id
        lines := receiptLines currency receipt.note inventory ap costMinor } none
  | _, _ => return ()

def checkReceipt (item : PurchaseOrderItem) (po : PurchaseOrder) (location : Location) (qty : ℤ) :
    Except Fault Unit :=
  if po.status = .cancelled then
    .error (.validation "cannot receive against a cancelled purchase order")
  else if location.bookId ≠ item.bookId then
    .error (.validation "goods receipt location belongs to a different book")
  else if qty = 0 then .error (.validation "goods receipt quantity must not be zero")
  else .ok ()

def poReceive (new : NewPoReceipt) : Service PoReceipt := do
  let item ← Process.ofExcept (← Process.query fun db ↦
    orNotFound "purchase_order_item" new.purchaseOrderItemId
      (lookup PurchaseOrderItem.id db.purchaseOrderItems new.purchaseOrderItemId))
  let po ← Process.ofExcept (← Process.query fun db ↦
    orNotFound "purchase_order" item.purchaseOrderId
      (lookup PurchaseOrder.id db.purchaseOrders item.purchaseOrderId))
  let book ← bookGet item.bookId
  let location ← Process.ofExcept (← Process.query fun db ↦ getLocation db new.locationId)
  Process.ofExcept (checkReceipt item po location new.qty)
  Process.atomically [.book book] do
    let createdAt ← nowIso h
    let receipt : PoReceipt :=
      { id := ← newId h
        bookId := item.bookId
        purchaseOrderItemId := item.id
        locationId := location.id
        qty := new.qty
        note := new.note
        createdAt }
    insertReceipt receipt
    insertMovementInTx h receipt.bookId item.variantId receipt.locationId receipt.qty .receipt
      (some "po_receipt") (some receipt.id) receipt.note
    postPoReceiptJournal h book receipt item po.currency
    return receipt

end Purchasing

section Revenue

/-- The net and tax totals of the lines for each rate, in the order of the rates. A line is a
quantity, a unit price and a rate. -/
def revenueGroups (lines : List (ℤ × ℤ × ℤ)) : List (ℤ × ℤ × ℤ) :=
  ((lines.map fun l ↦ l.2.2).dedup.insertionSort (· ≤ ·)).map fun bps ↦
    let nets := (lines.filter fun l ↦ l.2.2 = bps).map fun l ↦ asI64 (l.1 * l.2.1)
    (bps, sumI64 nets, sumI64 (nets.map fun net ↦ vatOnNet net bps))

def revenueRateFor (rates : List VatRate) (bps : ℤ) : Option VatRate :=
  if bps ≤ 0 then none else rateFor rates bps

def revenueLines (currency narrative : String) (ar revenue : CoaAccount)
    (vatControl : Option CoaAccount) (rates : List VatRate) (gross : ℤ)
    (groups : List (ℤ × ℤ × ℤ)) : List NewJournalLine :=
  journalLine currency (some narrative) ar gross 0 none none ::
    groups.flatMap fun (bps, net, vat) ↦
      (if net ≠ 0 then
        [journalLine currency none revenue 0 net (revenueRateFor rates bps) (some .outputBase)]
      else []) ++
      (match vatControl with
      | some control =>
        if vat ≠ 0 then
          [journalLine currency none control 0 vat (revenueRateFor rates bps) (some .outputVat)]
        else []
      | none => [])

/-- The tax control account, looked up only when there is tax. -/
def vatControlFor (db : Db) (bookId : String) (totalVat : ℤ) : Option CoaAccount :=
  if totalVat ≠ 0 then getCoaByCode db bookId coaCodeVatOutput else none

def checkVatControl (vatControl : Option CoaAccount) (groups : List (ℤ × ℤ × ℤ)) :
    Except Fault Unit :=
  if vatControl = none ∧ ∃ g ∈ groups, g.2.2 ≠ 0 then
    .error (.panic "need_vat_control guaranteed Some above")
  else .ok ()

/-- The receivable, the revenue and the output tax of a sale. A book without the accounts posts
nothing, and so does a sale of nothing. -/
def postRevenueArJournal (book : Book) (currency : String) (linesIn : List (ℤ × ℤ × ℤ))
    (postedDate narrative reference : String) (sourceType : JournalSourceType)
    (sourceId : String) : Action Unit := do
  let groups := revenueGroups linesIn
  let totalVat := sumI64 (groups.map fun g ↦ g.2.2)
  let gross := asI64 (sumI64 (groups.map fun g ↦ g.2.1) + totalVat)
  if gross = 0 then return ()
  let db ← get
  let vatControl := vatControlFor db book.id totalVat
  match getCoaByCode db book.id coaCodeAr, getCoaByCode db book.id coaCodeRevenue with
  | some ar, some revenue =>
    if totalVat ≠ 0 ∧ vatControl = none then return ()
    check (checkVatControl vatControl groups)
    let _ ← postJournalInTx h book
      { bookId := book.id
        postedDate
        narrative := some narrative
        reference := some reference
        sourceType
        sourceId := some sourceId
        lines := revenueLines currency narrative ar revenue vatControl (listVatRates db book.id)
          gross groups } none
  | _, _ => return ()

end Revenue

end SlipScan.Model.Trade
