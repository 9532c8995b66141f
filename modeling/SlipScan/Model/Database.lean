import SlipScan.Foundation.Calendar
import SlipScan.Foundation.Interleaving
import SlipScan.Foundation.Table
import SlipScan.Model.Domain
import Mathlib.Data.String.Basic

namespace SlipScan.Model.Database

open Model.Domain Foundation.Transaction Foundation.Interleaving Foundation.Table
  Foundation.Calendar

/-- The errors of the service, and the panics of the arithmetic it calls. -/
inductive Fault
  | sqlite (message : String)
  | notFound (entity id : String)
  | duplicateTransaction (existingId : String)
  | unbalancedJournal (debitMinor creditMinor : ℤ)
  | duplicateJournal (sourceType sourceId : String)
  | duplicateRecurringRun (scheduleId : String) (occurrenceIndex : ℤ)
  | invalidStatusTransition (fromStatus toStatus : String)
  | closeBlocked (reasons : List String)
  | notClosed
  | validation (message : String)
  | panic (message : String)
  /-- A loop of the source that does not end. -/
  | diverges
  deriving DecidableEq, Repr

/-- The tables, each with its rows in the order of insertion. -/
structure Db where
  books : List Book := []
  coa : List CoaAccount := []
  coaMap : List CoaMapEntry := []
  vatRates : List VatRate := []
  journals : List Journal := []
  journalLines : List JournalLine := []
  accounts : List Account := []
  categories : List Category := []
  transactions : List Transaction := []
  documents : List Document := []
  documentExtractions : List DocumentExtraction := []
  reconMatches : List ReconMatch := []
  contacts : List Contact := []
  locations : List Location := []
  productVariants : List ProductVariant := []
  stockMovements : List StockMovement := []
  purchaseOrders : List PurchaseOrder := []
  purchaseOrderItems : List PurchaseOrderItem := []
  poReceipts : List PoReceipt := []
  numberSequences : List (String × String × ℤ) := []
  quotes : List Quote := []
  quoteItems : List QuoteItem := []
  salesOrders : List SalesOrder := []
  salesOrderItems : List SalesOrderItem := []
  invoices : List Invoice := []
  invoiceItems : List InvoiceItem := []
  invoicePayments : List InvoicePayment := []
  assets : List Asset := []
  depreciationRuns : List AssetDepreciationRun := []
  recurringSchedules : List RecurringSchedule := []
  recurringScheduleItems : List RecurringScheduleItem := []
  recurringRuns : List RecurringRun := []
  /-- How many identifiers have been handed out. -/
  minted : ℕ := 0

/-- What the service gets from its host: fresh identifiers, the readings of the clock, and the
texts of dates. The clock is read once for each identifier. For a new bank transaction also its
dedupe hash, the category that the merchant rules give it, and what the payment watches say. -/
structure Host where
  newId : ℕ → String
  nowIso : ℕ → String
  parseDate : String → Option Date
  formatDate : Date → String
  dedupeHash : NewTransaction → String
  merchantCategory : Db → NewTransaction → Option String
  detectPaymentMatches : Db → Transaction → Except Fault Unit

/-- A row that a connection read before its transaction and that the transaction still uses. -/
inductive Held
  | book (b : Book)
  | schedule (s : RecurringSchedule)
  | quote (q : Quote)
  | order (o : SalesOrder)
  deriving DecidableEq

abbrev Action := Tx Db Fault

abbrev Service := Process Db Held Fault

class Reads (m : Type → Type*) where
  query {β : Type} (f : Db → β) : m β
  ofExcept {α : Type} (r : Except Fault α) : m α

instance : Reads Action where
  query f := fun db ↦ .ok (f db, db)
  ofExcept := check

instance : Reads Service where
  query := Process.query
  ofExcept := Process.ofExcept

@[simp]
theorem query_service {β : Type} (f : Db → β) : (Reads.query f : Service β) = Process.query f :=
  rfl

@[simp]
theorem ofExcept_service {α : Type} (r : Except Fault α) :
    (Reads.ofExcept r : Service α) = Process.ofExcept r :=
  rfl

@[simp]
theorem ofExcept_action {α : Type} (r : Except Fault α) : (Reads.ofExcept r : Action α) = check r :=
  rfl

@[simp]
theorem ensures_query {β : Type} {s : Db} {Q : β → Db → Prop} (f : Db → β) :
    Ensures (Reads.query f : Action β) s Q ↔ Q (f s) s :=
  ⟨fun hq ↦ hq _ _ rfl, fun hq _ _ hm ↦ by cases hm; exact hq⟩

def datePart (stamp : String) : String :=
  String.ofList (stamp.toList.take 10)

variable (h : Host)

def newId : Action String := do
  let n := (← get).minted
  modify fun db ↦ { db with minted := n + 1 }
  return h.newId n

def nowIso : Action String :=
  return h.nowIso (← get).minted

def isWhitespace (c : Char) : Bool :=
  let n := c.toNat
  (9 ≤ n && n ≤ 13) || n = 0x20 || n = 0x85 || n = 0xA0 || n = 0x1680 ||
    (0x2000 ≤ n && n ≤ 0x200A) || n = 0x2028 || n = 0x2029 || n = 0x202F || n = 0x205F || n = 0x3000

def trim (s : String) : String :=
  String.ofList ((s.toList.dropWhile isWhitespace).reverse.dropWhile isWhitespace).reverse

def isAsciiAlphabetic (c : Char) : Bool :=
  ('a' ≤ c && c ≤ 'z') || ('A' ≤ c && c ≤ 'Z')

def normalizeCurrencyCode (raw : String) : Except Fault String :=
  let trimmed := (trim raw).toList
  if trimmed.length = 3 ∧ trimmed.all isAsciiAlphabetic then
    .ok (String.ofList (trimmed.map Char.toUpper))
  else .error (.validation s!"invalid currency code {repr raw} (expected 3 letters, e.g. \"ZAR\")")

def parseDate (s : String) : Except Fault Date :=
  match h.parseDate s with
  | some d => .ok d
  | none => .error (.validation s!"invalid date {repr s}")

def orNotFound {α : Type} (entity id : String) : Option α → Except Fault α
  | some a => .ok a
  | none => .error (.notFound entity id)

def require (c : Prop) [Decidable c] (message : String) : Except Fault Unit :=
  if c then .ok () else .error (.validation message)

/-- A constraint of the schema, checked when a row is written. -/
def constraint (c : Prop) [Decidable c] (message : String) : Action Unit :=
  if c then pure () else throw (.sqlite message)

def references {ρ : Type} (key : ρ → String) (rows : List ρ) (id : String) : Prop :=
  (lookup key rows id).isSome

instance {ρ : Type} (key : ρ → String) (rows : List ρ) (id : String) :
    Decidable (references key rows id) :=
  inferInstanceAs (Decidable (_ = true))

end SlipScan.Model.Database
