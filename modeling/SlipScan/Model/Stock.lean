import SlipScan.Model.Service

namespace SlipScan.Model.Stock

open Model.Domain Model.Database Model.Ledger Model.Money Model.Trade Model.Service
  Foundation.Transaction Foundation.Interleaving Foundation.Table

variable (h : Host)

structure NewStockMovement where
  variantId : String
  locationId : String
  qtyDelta : ℤ
  kind : StockMovementKind
  refKind : Option String
  refId : Option String
  note : Option String
  deriving DecidableEq, Repr

section Movements

def variantGet (id : String) : Service ProductVariant := do
  Process.ofExcept (← Process.query fun db ↦ getVariant db id)

def locationGet (id : String) : Service Location := do
  Process.ofExcept (← Process.query fun db ↦ getLocation db id)

def checkMovement (variant : ProductVariant) (location : Location) (new : NewStockMovement) :
    Except Fault Unit := do
  require (location.bookId = variant.bookId)
    "stock movement location and variant belong to different books"
  require (new.qtyDelta ≠ 0) "stock movement qty_delta must not be zero"
  require (new.refId = none ∨ new.refKind ≠ none)
    "stock movement has a ref_id but no ref_kind to name what it refers to"

/-- Records one movement by hand. What it refers to is up to the caller. -/
def stockMovementRecord (new : NewStockMovement) : Service Unit := do
  let variant ← variantGet new.variantId
  let location ← locationGet new.locationId
  Process.ofExcept (checkMovement variant location new)
  Process.atomically [] (insertMovementInTx h variant.bookId variant.id location.id new.qtyDelta
    new.kind new.refKind new.refId new.note)

structure StockTransfer where
  variantId : String
  fromLocationId : String
  toLocationId : String
  qty : ℤ
  note : Option String
  deriving DecidableEq, Repr

def checkTransfer (transfer : StockTransfer) : Except Fault Unit := do
  require (0 < transfer.qty) "transfer quantity must be positive"
  require (transfer.fromLocationId ≠ transfer.toLocationId)
    "transfer source and destination locations must differ"

def checkTransferBooks (variant : ProductVariant) (source destination : Location) :
    Except Fault Unit :=
  require (source.bookId = variant.bookId ∧ destination.bookId = variant.bookId)
    "stock transfer location and variant belong to different books"

/-- Moves stock between two locations by two movements with a reference of their own. -/
def stockTransfer (transfer : StockTransfer) : Service Unit := do
  Process.ofExcept (checkTransfer transfer)
  let variant ← variantGet transfer.variantId
  let source ← locationGet transfer.fromLocationId
  let destination ← locationGet transfer.toLocationId
  Process.ofExcept (checkTransferBooks variant source destination)
  Process.atomically [] do
    let refId ← newId h
    insertMovementInTx h variant.bookId variant.id source.id (-transfer.qty) .transfer
      (some "transfer") (some refId) transfer.note
    insertMovementInTx h variant.bookId variant.id destination.id transfer.qty .transfer
      (some "transfer") (some refId) transfer.note

end Movements

section Receipts

def poItemReceivedQty (db : Db) (itemId : String) : Except Fault ℤ :=
  sqlSum ((db.poReceipts.filter fun r ↦ r.purchaseOrderItemId = itemId).map PoReceipt.qty)

end Receipts

section Runs

inductive TradeCall
  | service (c : Call)
  | stockMovementRecord (new : NewStockMovement)
  | stockTransfer (transfer : StockTransfer)

variable (parseSlip : String → Except Fault Slip.SlipPayload)

def TradeCall.program : TradeCall → Service Unit
  | service c => c.program h parseSlip
  | stockMovementRecord new => Stock.stockMovementRecord h new
  | stockTransfer transfer => Stock.stockTransfer h transfer

def TradeCall.run (c : TradeCall) (s : Db) : Db :=
  ((c.program h parseSlip).run s).2

end Runs

end SlipScan.Model.Stock
