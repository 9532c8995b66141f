import Mathlib.Data.Int.Notation
import Mathlib.Data.Nat.Notation

namespace SlipScan.Model.Domain

/-! Identifiers are strings, money is in minor units, dates are `YYYY-MM-DD` texts. Fields that no
modelled function uses are left out of the records. -/

inductive BookKind
  | personal | business
  deriving DecidableEq, Repr

inductive CategoryKind
  | income | expense | transfer
  deriving DecidableEq, Repr

inductive TransactionSource
  | scraper | email | import | manual | recurring
  deriving DecidableEq, Repr

inductive TransactionStatus
  | pending | verified | rejected
  deriving DecidableEq, Repr

inductive DocumentStatus
  | pending | processing | extracted | reviewed | failed
  deriving DecidableEq, Repr

inductive CoaKind
  | asset | liability | equity | income | expense
  deriving DecidableEq, Repr

def CoaKind.asStr : CoaKind → String
  | asset => "asset"
  | liability => "liability"
  | equity => "equity"
  | income => "income"
  | expense => "expense"

inductive JournalSourceType
  | manual | transaction | document | openingBalance | poReceipt | salesCogs | salesRevenue
  | invoicePayment | depreciation
  deriving DecidableEq, Repr

def JournalSourceType.asStr : JournalSourceType → String
  | manual => "manual"
  | transaction => "transaction"
  | document => "document"
  | openingBalance => "opening_balance"
  | poReceipt => "po_receipt"
  | salesCogs => "sales_cogs"
  | salesRevenue => "sales_revenue"
  | invoicePayment => "invoice_payment"
  | depreciation => "depreciation"

inductive ReconState
  | auto | suggested | confirmed | rejected
  deriving DecidableEq, Repr

inductive VatRole
  | outputVat | inputVat | outputBase | inputBase
  deriving DecidableEq, Repr

def VatRole.asStr : VatRole → String
  | outputVat => "output_vat"
  | inputVat => "input_vat"
  | outputBase => "output_base"
  | inputBase => "input_base"

inductive CoaMapEntity
  | account | category
  deriving DecidableEq, Repr

inductive StockMovementKind
  | receipt | sale | adjustment | transfer | count
  deriving DecidableEq, Repr

inductive SalesOrderStatus
  | draft | confirmed | paid | cancelled
  deriving DecidableEq, Repr

def SalesOrderStatus.asStr : SalesOrderStatus → String
  | draft => "draft"
  | confirmed => "confirmed"
  | paid => "paid"
  | cancelled => "cancelled"

inductive DepreciationMethod
  | straightLine | reducingBalance
  deriving DecidableEq, Repr

inductive AssetStatus
  | active | disposed
  deriving DecidableEq, Repr

inductive RecurringScheduleKind
  | invoice | transaction
  deriving DecidableEq, Repr

inductive RecurringScheduleStatus
  | active | paused | ended
  deriving DecidableEq, Repr

inductive RecurringFrequency
  | daily | weekly | monthly | yearly
  deriving DecidableEq, Repr

inductive RecurringRunOutcome
  | generated | skipped
  deriving DecidableEq, Repr

structure Book where
  id : String
  kind : BookKind
  currency : String
  region : String
  financialLockDate : Option String
  deriving DecidableEq, Repr

structure CoaAccount where
  id : String
  bookId : String
  code : String
  name : String
  kind : CoaKind
  /-- The currency the account is fixed to, if any. -/
  currency : Option String
  isArchived : Bool
  deriving DecidableEq, Repr

structure CoaMapEntry where
  id : String
  bookId : String
  entityType : CoaMapEntity
  entityId : String
  coaId : String
  deriving DecidableEq, Repr

structure VatRate where
  id : String
  bookId : String
  code : String
  name : String
  rateBps : ℤ
  isActive : Bool
  deriving DecidableEq, Repr

structure Journal where
  id : String
  bookId : String
  postedDate : String
  narrative : Option String
  reference : Option String
  sourceType : JournalSourceType
  sourceId : Option String
  /-- The journal that this one reverses. -/
  reversalOf : Option String
  createdAt : String
  deriving DecidableEq, Repr

structure JournalLine where
  id : String
  journalId : String
  bookId : String
  coaId : String
  debitMinor : ℤ
  creditMinor : ℤ
  currency : String
  description : Option String
  lineOrder : ℕ
  vatRateId : Option String
  vatRole : Option VatRole
  deriving DecidableEq, Repr

structure NewJournalLine where
  coaId : String
  debitMinor : ℤ
  creditMinor : ℤ
  currency : String
  description : Option String
  vatRateId : Option String
  vatRole : Option VatRole
  deriving DecidableEq, Repr

structure NewJournal where
  bookId : String
  postedDate : String
  narrative : Option String
  reference : Option String
  sourceType : JournalSourceType
  sourceId : Option String
  lines : List NewJournalLine
  deriving DecidableEq, Repr

structure PostedJournal where
  journal : Journal
  lines : List JournalLine
  deriving DecidableEq, Repr

structure NewCoaAccount where
  bookId : String
  code : String
  name : String
  kind : CoaKind
  currency : Option String
  deriving DecidableEq, Repr

structure Transaction where
  id : String
  bookId : String
  accountId : String
  categoryId : Option String
  source : TransactionSource
  providerTxnId : Option String
  dedupeHash : String
  postedDate : String
  amountMinor : ℤ
  currency : String
  merchant : Option String
  description : Option String
  notes : Option String
  status : TransactionStatus
  deriving DecidableEq, Repr

structure NewTransaction where
  bookId : String
  accountId : String
  source : TransactionSource
  providerTxnId : Option String
  postedDate : String
  amountMinor : ℤ
  currency : String
  merchant : Option String
  description : Option String
  notes : Option String
  categoryId : Option String
  /-- Tells identical lines of one import apart. -/
  dedupeOccurrence : ℕ
  deriving DecidableEq, Repr

structure Account where
  id : String
  bookId : String
  currency : String
  deriving DecidableEq, Repr

structure Category where
  id : String
  bookId : String
  kind : CategoryKind
  deriving DecidableEq, Repr

structure Document where
  id : String
  bookId : String
  createdAt : String
  deriving DecidableEq, Repr

structure DocumentExtraction where
  documentId : String
  payload : Option String
  isCurrent : Bool
  deriving DecidableEq, Repr

structure ReconMatch where
  id : String
  bookId : String
  transactionId : String
  state : ReconState
  deriving DecidableEq, Repr

structure Contact where
  id : String
  bookId : String
  name : String
  deriving DecidableEq, Repr

structure Location where
  id : String
  bookId : String
  deriving DecidableEq, Repr

structure ProductVariant where
  id : String
  bookId : String
  name : String
  priceMinor : ℤ
  costPriceMinor : ℤ
  deriving DecidableEq, Repr

structure StockMovement where
  id : String
  bookId : String
  variantId : String
  locationId : String
  /-- Positive for units that arrived, negative for units that left. -/
  qtyDelta : ℤ
  kind : StockMovementKind
  refKind : Option String
  refId : Option String
  note : Option String
  deriving DecidableEq, Repr

inductive PurchaseOrderStatus
  | draft | ordered | cancelled
  deriving DecidableEq, Repr

structure PurchaseOrder where
  id : String
  bookId : String
  status : PurchaseOrderStatus
  currency : String
  deriving DecidableEq, Repr

structure PurchaseOrderItem where
  id : String
  purchaseOrderId : String
  bookId : String
  variantId : String
  unitPriceMinor : ℤ
  deriving DecidableEq, Repr

structure PoReceipt where
  id : String
  bookId : String
  purchaseOrderItemId : String
  locationId : String
  qty : ℤ
  note : Option String
  createdAt : String
  deriving DecidableEq, Repr

structure NewPoReceipt where
  purchaseOrderItemId : String
  locationId : String
  qty : ℤ
  note : Option String
  deriving DecidableEq, Repr

structure SalesOrder where
  id : String
  bookId : String
  contactId : String
  locationId : Option String
  number : ℤ
  orderDate : String
  status : SalesOrderStatus
  currency : String
  deriving DecidableEq, Repr

structure NewSalesOrder where
  bookId : String
  contactId : String
  locationId : Option String
  orderDate : Option String
  currency : Option String
  deriving DecidableEq, Repr

/-- A field left `none` is not changed; the location can also be cleared. -/
structure SalesOrderPatch where
  locationId : Option (Option String)
  orderDate : Option String
  deriving DecidableEq, Repr

structure SalesOrderItem where
  id : String
  salesOrderId : String
  bookId : String
  /-- The stock-tracked variant of the line, `none` for a free-text line. -/
  variantId : Option String
  description : String
  quantity : ℤ
  unitPriceMinor : ℤ
  taxRateBps : ℤ
  lineOrder : ℕ
  createdAt : String
  deriving DecidableEq, Repr

structure NewSalesOrderItem where
  salesOrderId : String
  variantId : Option String
  description : Option String
  quantity : ℤ
  unitPriceMinor : Option ℤ
  taxRateBps : Option ℤ
  deriving DecidableEq, Repr

structure SalesOrderItemPatch where
  description : Option String
  quantity : Option ℤ
  unitPriceMinor : Option ℤ
  taxRateBps : Option ℤ
  deriving DecidableEq, Repr

inductive QuoteStatus
  | draft | sent | accepted | declined | expired
  deriving DecidableEq, Repr

def QuoteStatus.asStr : QuoteStatus → String
  | draft => "draft"
  | sent => "sent"
  | accepted => "accepted"
  | declined => "declined"
  | expired => "expired"

structure Quote where
  id : String
  bookId : String
  contactId : String
  number : ℤ
  quoteDate : String
  expiryDate : Option String
  status : QuoteStatus
  currency : String
  /-- The order that an accepted quote became. -/
  convertedSalesOrderId : Option String
  deriving DecidableEq, Repr

structure NewQuote where
  bookId : String
  contactId : String
  quoteDate : Option String
  expiryDate : Option String
  currency : Option String
  deriving DecidableEq, Repr

structure QuoteItem where
  id : String
  quoteId : String
  bookId : String
  variantId : Option String
  description : String
  quantity : ℤ
  unitPriceMinor : ℤ
  taxRateBps : ℤ
  lineOrder : ℕ
  createdAt : String
  deriving DecidableEq, Repr

structure NewQuoteItem where
  quoteId : String
  variantId : Option String
  description : Option String
  quantity : ℤ
  unitPriceMinor : Option ℤ
  taxRateBps : Option ℤ
  deriving DecidableEq, Repr

structure Invoice where
  id : String
  bookId : String
  contactId : String
  salesOrderId : Option String
  series : String
  number : ℤ
  issueDate : String
  dueDate : String
  currency : String
  notes : Option String
  deriving DecidableEq, Repr

structure NewInvoiceItemInput where
  variantId : Option String
  description : String
  quantity : ℤ
  unitPriceMinor : ℤ
  taxRateBps : Option ℤ
  deriving DecidableEq, Repr

structure NewInvoice where
  bookId : String
  contactId : Option String
  salesOrderId : Option String
  series : Option String
  issueDate : Option String
  dueDate : String
  currency : Option String
  notes : Option String
  items : List NewInvoiceItemInput
  deriving DecidableEq, Repr

structure InvoiceItem where
  id : String
  invoiceId : String
  bookId : String
  variantId : Option String
  description : String
  quantity : ℤ
  unitPriceMinor : ℤ
  taxRateBps : ℤ
  lineOrder : ℕ
  deriving DecidableEq, Repr

structure InvoicePayment where
  id : String
  invoiceId : String
  bookId : String
  amountMinor : ℤ
  paidAt : String
  method : Option String
  note : Option String
  deriving DecidableEq, Repr

structure NewInvoicePayment where
  invoiceId : String
  amountMinor : ℤ
  paidAt : Option String
  method : Option String
  note : Option String
  deriving DecidableEq, Repr

structure Asset where
  id : String
  bookId : String
  name : String
  acquiredDate : String
  costMinor : ℤ
  residualMinor : ℤ
  currency : String
  usefulLifeMonths : ℤ
  method : DepreciationMethod
  reducingBalanceRateBps : Option ℤ
  status : AssetStatus
  disposedDate : Option String
  disposalProceedsMinor : Option ℤ
  deriving DecidableEq, Repr

structure AssetDisposal where
  disposedDate : String
  proceedsMinor : Option ℤ
  deriving DecidableEq, Repr

structure AssetDepreciationRun where
  id : String
  bookId : String
  assetId : String
  period : String
  /-- Periods since acquisition, the month of acquisition being the first. -/
  periodIndex : ℤ
  depreciationMinor : ℤ
  journalId : String
  deriving DecidableEq, Repr

structure RecurringSchedule where
  id : String
  bookId : String
  kind : RecurringScheduleKind
  status : RecurringScheduleStatus
  name : String
  frequency : RecurringFrequency
  intervalCount : ℤ
  startDate : String
  endDate : Option String
  maxOccurrences : Option ℤ
  occurrencesProcessed : ℤ
  nextRunDate : String
  contactId : Option String
  series : Option String
  dueDays : Option ℤ
  accountId : Option String
  categoryId : Option String
  amountMinor : Option ℤ
  merchant : Option String
  description : Option String
  currency : Option String
  notes : Option String
  deriving DecidableEq, Repr

structure RecurringScheduleItem where
  id : String
  scheduleId : String
  bookId : String
  variantId : Option String
  description : String
  quantity : ℤ
  unitPriceMinor : ℤ
  taxRateBps : ℤ
  lineOrder : ℕ
  createdAt : String
  deriving DecidableEq, Repr

structure RecurringRun where
  id : String
  scheduleId : String
  bookId : String
  occurrenceIndex : ℤ
  occurrenceDate : String
  outcome : RecurringRunOutcome
  /-- The table of the generated record, `none` for a skipped occurrence. -/
  generatedTable : Option String
  generatedId : Option String
  deriving DecidableEq, Repr

structure NewRecurringSchedule where
  bookId : String
  kind : RecurringScheduleKind
  name : String
  frequency : RecurringFrequency
  intervalCount : Option ℤ
  startDate : Option String
  endDate : Option String
  maxOccurrences : Option ℤ
  contactId : Option String
  series : Option String
  dueDays : Option ℤ
  items : List NewInvoiceItemInput
  accountId : Option String
  categoryId : Option String
  amountMinor : Option ℤ
  merchant : Option String
  description : Option String
  currency : Option String
  notes : Option String
  deriving DecidableEq, Repr

/-- A field left `none` is not changed; a field with two layers can also be cleared. -/
structure RecurringSchedulePatch where
  name : Option String
  endDate : Option (Option String)
  maxOccurrences : Option (Option ℤ)
  contactId : Option String
  series : Option (Option String)
  dueDays : Option (Option ℤ)
  accountId : Option String
  categoryId : Option (Option String)
  amountMinor : Option ℤ
  merchant : Option (Option String)
  description : Option (Option String)
  currency : Option (Option String)
  notes : Option (Option String)
  deriving DecidableEq, Repr

structure NewRecurringScheduleItem where
  scheduleId : String
  variantId : Option String
  description : Option String
  quantity : ℤ
  unitPriceMinor : Option ℤ
  taxRateBps : Option ℤ
  deriving DecidableEq, Repr

structure RecurringScheduleItemPatch where
  description : Option String
  quantity : Option ℤ
  unitPriceMinor : Option ℤ
  taxRateBps : Option ℤ
  deriving DecidableEq, Repr

structure RecurringOccurrencePreview where
  scheduleId : String
  occurrenceIndex : ℤ
  occurrenceDate : String
  kind : RecurringScheduleKind
  summary : String
  deriving DecidableEq, Repr

end SlipScan.Model.Domain
