import SlipScan.Foundation.Connections
import SlipScan.Model.Assets
import SlipScan.Model.Period
import SlipScan.Model.Reports
import SlipScan.Model.SalesPosting
import SlipScan.Model.Scheduling

namespace SlipScan.Model.Service

open Model.Domain Model.Database Model.Ledger Model.Money Model.Region Model.Period Model.Slip
  Model.Generate Model.Trade Model.Sales Model.SalesPosting Model.Invoicing Model.Banking
  Model.Recurring Model.Scheduling Model.Assets Foundation.Transaction Foundation.Interleaving
  Foundation.Table Relation

/-- The calls of the service that write to the modelled tables. -/
inductive Call
  | journalPost (new : NewJournal)
  | journalReverse (journalId : String) (postedDate narrative : Option String)
  | journalGenerateForTransaction (transactionId : String) (vatRateId : Option String)
  | journalGenerateForDocument (documentId : String)
  | coaCreate (new : NewCoaAccount)
  | coaArchive (id : String)
  | coaSeed (bookId : String)
  | vatRateSetBps (bookId code : String) (rateBps : ℤ)
  | bookSetLockDate (bookId : String) (lockDate : Option String)
  | closePeriod (bookId toDate : String)
  | reopenPeriod (bookId : String) (toDate : Option String) (reason : String)
  | transactionCreate (new : NewTransaction)
  | poReceive (new : NewPoReceipt)
  | salesOrderCreate (new : NewSalesOrder)
  | salesOrderUpdate (id : String) (patch : SalesOrderPatch)
  | salesOrderDelete (id : String)
  | salesOrderItemAdd (new : NewSalesOrderItem)
  | salesOrderItemUpdate (id : String) (patch : SalesOrderItemPatch)
  | salesOrderItemRemove (id : String)
  | salesOrderConfirm (id : String)
  | salesOrderCancel (id : String)
  | salesOrderMarkPaid (id : String)
  | invoiceIssue (new : NewInvoice)
  | invoicePaymentRecord (new : NewInvoicePayment)
  | depreciationRun (assetId period : String)
  | assetDispose (id : String) (disposal : AssetDisposal)
  | recurringScheduleCreate (new : NewRecurringSchedule)
  | recurringScheduleUpdate (id : String) (patch : RecurringSchedulePatch)
  | recurringSchedulePause (id : String)
  | recurringScheduleResume (id : String)
  | recurringScheduleDelete (id : String)
  | recurringScheduleItemAdd (new : NewRecurringScheduleItem)
  | recurringScheduleItemUpdate (id : String) (patch : RecurringScheduleItemPatch)
  | recurringScheduleItemRemove (id : String)
  | recurringScheduleSkipNext (id : String)
  | recurringRunDue (rounds : ℕ) (bookId : String) (asOf : Option String)

def dropResult {α : Type} (p : Service α) : Service Unit := do
  let _ ← p
  return ()

section Calls

variable (h : Host) (parseSlip : String → Except Fault SlipPayload)

def Call.program : Call → Service Unit
  | journalPost new => dropResult (Ledger.journalPost h new)
  | journalReverse journalId postedDate narrative =>
    dropResult (Ledger.journalReverse h journalId postedDate narrative)
  | journalGenerateForTransaction transactionId vatRateId =>
    dropResult (Generate.journalGenerateForTransaction h transactionId vatRateId)
  | journalGenerateForDocument documentId =>
    dropResult (Generate.journalGenerateForDocument h parseSlip documentId)
  | coaCreate new => dropResult (Period.coaCreate h new)
  | coaArchive id => dropResult (Period.coaArchive id)
  | coaSeed bookId => Period.coaSeed h bookId
  | vatRateSetBps bookId code rateBps => dropResult (Period.vatRateSetBps bookId code rateBps)
  | bookSetLockDate bookId lockDate => dropResult (Period.bookSetLockDate h bookId lockDate)
  | closePeriod bookId toDate => dropResult (Period.closePeriod h bookId toDate)
  | reopenPeriod bookId toDate reason => dropResult (Period.reopenPeriod h bookId toDate reason)
  | transactionCreate new => dropResult (Banking.transactionCreate h new)
  | poReceive new => dropResult (Trade.poReceive h new)
  | salesOrderCreate new => dropResult (Sales.salesOrderCreate h new)
  | salesOrderUpdate id patch => dropResult (Sales.salesOrderUpdate h id patch)
  | salesOrderDelete id => Sales.salesOrderDelete id
  | salesOrderItemAdd new => dropResult (Sales.salesOrderItemAdd h new)
  | salesOrderItemUpdate id patch => dropResult (Sales.salesOrderItemUpdate id patch)
  | salesOrderItemRemove id => Sales.salesOrderItemRemove id
  | salesOrderConfirm id => dropResult (SalesPosting.salesOrderConfirm h id)
  | salesOrderCancel id => dropResult (SalesPosting.salesOrderCancel h id)
  | salesOrderMarkPaid id => dropResult (SalesPosting.salesOrderMarkPaid id)
  | invoiceIssue new => dropResult (Invoicing.invoiceIssue h new)
  | invoicePaymentRecord new => dropResult (Invoicing.invoicePaymentRecord h new)
  | depreciationRun assetId period => dropResult (Assets.depreciationRun h assetId period)
  | assetDispose id disposal => dropResult (Assets.assetDispose h id disposal)
  | recurringScheduleCreate new => dropResult (Scheduling.recurringScheduleCreate h new)
  | recurringScheduleUpdate id patch => dropResult (Scheduling.recurringScheduleUpdate h id patch)
  | recurringSchedulePause id => dropResult (Scheduling.recurringSchedulePause id)
  | recurringScheduleResume id => dropResult (Scheduling.recurringScheduleResume id)
  | recurringScheduleDelete id => Scheduling.recurringScheduleDelete id
  | recurringScheduleItemAdd new => dropResult (Scheduling.recurringScheduleItemAdd h new)
  | recurringScheduleItemUpdate id patch =>
    dropResult (Scheduling.recurringScheduleItemUpdate id patch)
  | recurringScheduleItemRemove id => Scheduling.recurringScheduleItemRemove id
  | recurringScheduleSkipNext id => dropResult (Scheduling.recurringScheduleSkipNext h id)
  | recurringRunDue rounds bookId asOf => dropResult (Scheduling.recurringRunDue h rounds bookId asOf)

end Calls

/-- What the other calls of the service may do to the modelled tables. They create books without
a lock date, orders in draft (from accepted quotes), bank transactions and stock movements, and
they write what the modelled calls only read, but nothing that another row refers to goes away. -/
structure Elsewhere (h : Host) (s s' : Db) : Prop where
  minted : s.minted ≤ s'.minted
  books : ∀ id b, getBook s id = some b → ∃ kind, getBook s' id = some { b with kind }
  newBooks : ∀ id b, getBook s' id = some b → getBook s id = none → b.financialLockDate = none
  coa : s'.coa = s.coa
  vatRates : s'.vatRates = s.vatRates
  journals : s'.journals = s.journals
  journalLines : s'.journalLines = s.journalLines
  transactions : ∃ added,
    s'.transactions.map Transaction.id = s.transactions.map Transaction.id ++ added ∧
      ∀ id ∈ added, ∃ n, s.minted ≤ n ∧ n < s'.minted ∧ id = h.newId n
  stockMovements : ∃ added, s'.stockMovements = s.stockMovements ++ added ∧ ∀ m ∈ added,
    references ProductVariant.id s'.productVariants m.variantId ∧
      references Location.id s'.locations m.locationId ∧
      ∃ n, s.minted ≤ n ∧ n < s'.minted ∧ m.id = h.newId n
  poReceipts : s'.poReceipts = s.poReceipts
  salesOrders : ∃ added, s'.salesOrders = s.salesOrders ++ added ∧ ∀ o ∈ added,
    o.status = .draft ∧ references Contact.id s'.contacts o.contactId ∧
      (∀ l ∈ o.locationId, references Location.id s'.locations l) ∧
      ∃ n, s.minted ≤ n ∧ n < s'.minted ∧ o.id = h.newId n
  salesOrderItems : ∃ added, s'.salesOrderItems = s.salesOrderItems ++ added ∧ ∀ i ∈ added,
    (∀ o ∈ s.salesOrders, o.id ≠ i.salesOrderId) ∧ 0 < i.quantity ∧
      (∀ v ∈ i.variantId, references ProductVariant.id s'.productVariants v) ∧
      ∃ n, s.minted ≤ n ∧ n < s'.minted ∧ i.id = h.newId n
  invoices : s'.invoices = s.invoices
  invoiceItems : s'.invoiceItems = s.invoiceItems
  invoicePayments : s'.invoicePayments = s.invoicePayments
  depreciationRuns : s'.depreciationRuns = s.depreciationRuns
  recurringSchedules : ∃ category : RecurringSchedule → Option String,
    s'.recurringSchedules = s.recurringSchedules.map fun r ↦ { r with categoryId := category r }
  recurringScheduleItems : s'.recurringScheduleItems = s.recurringScheduleItems
  recurringRuns : s'.recurringRuns = s.recurringRuns
  contacts : ∀ o ∈ s.salesOrders, references Contact.id s'.contacts o.contactId
  locations : (∀ o ∈ s.salesOrders, ∀ l ∈ o.locationId, references Location.id s'.locations l) ∧
    ∀ m ∈ s.stockMovements, references Location.id s'.locations m.locationId
  productVariants : (∀ i ∈ s.salesOrderItems, ∀ v ∈ i.variantId,
      references ProductVariant.id s'.productVariants v) ∧
    ∀ m ∈ s.stockMovements, references ProductVariant.id s'.productVariants m.variantId

section Runs

variable (h : Host) (parseSlip : String → Except Fault SlipPayload)

def Call.run (c : Call) (s : Db) : Db :=
  ((c.program h parseSlip).run s).2

/-- One step of a run on one connection: a call that `C` allows, or some other call. -/
inductive Step (C : Call → Db → Prop) (s : Db) : Db → Prop
  | call (c : Call) (hc : C c s) : Step C s (c.run h parseSlip s)
  | elsewhere {s' : Db} (he : Elsewhere h s s') : Step C s s'

def Reachable (C : Call → Db → Prop) (s : Db) : Prop :=
  ReflTransGen (Step h parseSlip C) {} s

variable {h parseSlip} in
theorem Step.mono {C C' : Call → Db → Prop} {s s' : Db} (hstep : Step h parseSlip C s s')
    (hC : ∀ c s, C c s → C' c s) : Step h parseSlip C' s s' := by
  cases hstep with
  | call c hc => exact .call c (hC c s hc)
  | elsewhere he => exact .elsewhere he

abbrev anyCall (_ : Call) (_ : Db) : Prop := True

/-- Connections to a database, each with its calls one after the other. -/
def calling {ι : Type} (s : Db) (calls : ι → List Call) : Config ι Db Held Fault Unit :=
  ⟨s, fun i ↦ Process.inTurn ((calls i).map fun c ↦ c.program h parseSlip)⟩

variable {h parseSlip} in
theorem supported_calling {ι : Type} {E : Db → Db → Prop} [IsPreorder Db E]
    {R : List Held → Db → Db → Prop} {s : Db} {calls : ι → List Call}
    (hcalls : ∀ i, ∀ c ∈ calls i, ∀ t, (c.program h parseSlip).Since E R t) :
    (calling h parseSlip s calls).Supported E R := by
  refine supported_of_since fun i ↦ since_inTurn fun p hp t ↦ ?_
  obtain ⟨c, hc, rfl⟩ := List.mem_map.1 hp
  exact hcalls i c hc t

end Runs

end SlipScan.Model.Service
