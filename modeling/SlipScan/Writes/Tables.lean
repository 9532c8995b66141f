import SlipScan.Model.Service

namespace SlipScan.Writes.Tables

open Model.Domain Model.Database Model.Service

inductive Table
  | books
  | coa
  | vatRates
  | journals
  | transactions
  | stockMovements
  | poReceipts
  | numberSequences
  | quotes
  | salesOrders
  | salesOrderItems
  | invoices
  | invoiceItems
  | invoicePayments
  | assets
  | depreciationRuns
  | recurringSchedules
  | recurringScheduleItems
  | recurringRuns
  deriving DecidableEq

variable {V : Type}

/-- What `keep` shows of the database does not depend on a table. -/
def Hides (keep : Db → V) : Table → Prop
  | .books => ∀ s x, keep { s with books := x } = keep s
  | .coa => ∀ s x, keep { s with coa := x } = keep s
  | .vatRates => ∀ s x, keep { s with vatRates := x } = keep s
  | .journals => ∀ s x y, keep { s with journals := x, journalLines := y } = keep s
  | .transactions => ∀ s x, keep { s with transactions := x } = keep s
  | .stockMovements => ∀ s x, keep { s with stockMovements := x } = keep s
  | .poReceipts => ∀ s x, keep { s with poReceipts := x } = keep s
  | .numberSequences => ∀ s x, keep { s with numberSequences := x } = keep s
  | .quotes => ∀ s x, keep { s with quotes := x } = keep s
  | .salesOrders => ∀ s x, keep { s with salesOrders := x } = keep s
  | .salesOrderItems => ∀ s x, keep { s with salesOrderItems := x } = keep s
  | .invoices => ∀ s x, keep { s with invoices := x } = keep s
  | .invoiceItems => ∀ s x, keep { s with invoiceItems := x } = keep s
  | .invoicePayments => ∀ s x, keep { s with invoicePayments := x } = keep s
  | .assets => ∀ s x, keep { s with assets := x } = keep s
  | .depreciationRuns => ∀ s x, keep { s with depreciationRuns := x } = keep s
  | .recurringSchedules => ∀ s x, keep { s with recurringSchedules := x } = keep s
  | .recurringScheduleItems => ∀ s x, keep { s with recurringScheduleItems := x } = keep s
  | .recurringRuns => ∀ s x, keep { s with recurringRuns := x } = keep s

/-- The tables that a call writes. Skipping an occurrence generates nothing. -/
def writtenBy : Call → List Table
  | .journalPost _ | .journalReverse .. | .journalGenerateForTransaction ..
  | .journalGenerateForDocument _ => [.journals]
  | .coaCreate _ | .coaArchive _ => [.coa]
  | .coaSeed _ => [.coa, .vatRates]
  | .vatRateSetBps .. => [.vatRates]
  | .bookSetLockDate .. | .closePeriod .. | .reopenPeriod .. => [.books]
  | .transactionCreate _ => [.transactions]
  | .poReceive _ => [.poReceipts, .stockMovements, .journals]
  | .salesOrderCreate _ => [.numberSequences, .salesOrders]
  | .salesOrderUpdate .. | .salesOrderMarkPaid _ => [.salesOrders]
  | .salesOrderDelete _ => [.salesOrders, .salesOrderItems, .quotes]
  | .salesOrderItemAdd _ | .salesOrderItemUpdate .. | .salesOrderItemRemove _ => [.salesOrderItems]
  | .salesOrderConfirm _ | .salesOrderCancel _ => [.stockMovements, .journals, .salesOrders]
  | .invoiceIssue _ => [.numberSequences, .invoices, .invoiceItems, .journals]
  | .invoicePaymentRecord _ => [.invoicePayments, .journals]
  | .depreciationRun .. => [.journals, .depreciationRuns]
  | .assetDispose .. => [.journals, .assets]
  | .recurringScheduleCreate _ | .recurringScheduleDelete _ =>
    [.recurringSchedules, .recurringScheduleItems]
  | .recurringScheduleUpdate .. | .recurringSchedulePause _ | .recurringScheduleResume _ =>
    [.recurringSchedules]
  | .recurringScheduleItemAdd _ | .recurringScheduleItemUpdate .. | .recurringScheduleItemRemove _ =>
    [.recurringScheduleItems]
  | .recurringScheduleSkipNext _ => [.recurringRuns, .recurringSchedules]
  | .recurringRunDue .. => [.numberSequences, .invoices, .invoiceItems, .journals, .transactions,
    .recurringRuns, .recurringSchedules]

/-- A view that shows nothing hides every table. -/
theorem hides_const {v : V} (t : Table) : Hides (fun _ ↦ v) t := by
  cases t with
  | journals => exact fun _ _ _ ↦ rfl
  | _ => exact fun _ _ ↦ rfl

end SlipScan.Writes.Tables
