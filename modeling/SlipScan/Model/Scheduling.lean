import SlipScan.Model.Recurring

namespace SlipScan.Model.Scheduling

open Model.Domain Model.Database Model.Ledger Model.Money Model.Banking Model.Sales Model.Invoicing
  Model.Recurring Foundation.Transaction Foundation.Interleaving Foundation.Table

variable (h : Host)

def scheduleService (id : String) : Service RecurringSchedule := do
  Process.ofExcept (← Process.query fun db ↦ scheduleGet db id)

section Create

structure KindFields where
  contactId : Option String := none
  series : Option String := none
  dueDays : Option ℤ := none
  accountId : Option String := none
  categoryId : Option String := none
  amountMinor : Option ℤ := none
  merchant : Option String := none
  description : Option String := none
  items : List NewInvoiceItemInput := []

def needed {α : Type} (message : String) : Option α → Except Fault α
  | some a => .ok a
  | none => .error (.validation message)

def invoiceFields (db : Db) (book : Book) (new : NewRecurringSchedule) :
    Except Fault KindFields := do
  let contactId ← needed "an invoice schedule needs a contact_id" new.contactId
  let contact ← contactGet db contactId
  require (contact.bookId = book.id) "recurring schedule contact belongs to a different book"
  require (¬new.items.isEmpty) "an invoice schedule needs at least one line item"
  require (∀ n ∈ new.dueDays, 0 ≤ n) "due_days must not be negative"
  return {
    contactId := some contact.id
    series := normalizeOptional new.series
    dueDays := new.dueDays
    items := new.items }

def transactionFields (db : Db) (book : Book) (new : NewRecurringSchedule) :
    Except Fault KindFields := do
  require new.items.isEmpty "a transaction schedule does not take line items"
  let accountId ← needed "a transaction schedule needs an account_id" new.accountId
  let account ← accountGet db accountId
  require (account.bookId = book.id) "recurring schedule account belongs to a different book"
  let amountMinor ← needed "a transaction schedule needs an amount_minor" new.amountMinor
  require (amountMinor ≠ 0) "a transaction schedule amount must not be zero"
  return {
    accountId := some account.id
    categoryId := new.categoryId
    amountMinor := some amountMinor
    merchant := normalizeOptional new.merchant
    description := normalizeOptional new.description }

def kindFields (db : Db) (book : Book) (new : NewRecurringSchedule) : Except Fault KindFields :=
  match new.kind with
  | .invoice => invoiceFields db book new
  | .transaction => transactionFields db book new

def checkEndDate (startDate endDate : String) : Except Fault Unit := do
  let _ ← parseDate h endDate
  require (startDate ≤ endDate) "end date must not be before the start date"

def checkMaxOccurrences (n : ℤ) : Except Fault Unit :=
  require (n > 0) "max_occurrences must be a positive number"

def checkItemQuantity (quantity : ℤ) : Except Fault Unit :=
  require (quantity > 0) "recurring schedule line quantity must be positive"

def checkItemPrice (unitPriceMinor : ℤ) : Except Fault Unit :=
  require (unitPriceMinor ≥ 0) "recurring schedule line unit price must not be negative"

def checkItemTaxRate (taxRateBps : ℤ) : Except Fault Unit :=
  require (0 ≤ taxRateBps ∧ taxRateBps ≤ 10000)
    "recurring schedule line tax rate must be between 0 and 10000 basis points"

def storeItems (schedule : RecurringSchedule) (now : String) :
    ℕ → List NewInvoiceItemInput → Action Unit
  | _, [] => return ()
  | lineOrder, item :: items => do
    let (variantId, description, unitPriceMinor) ← check (resolveSalesOrderLine (← get)
      schedule.bookId item.variantId (some item.description) (some item.unitPriceMinor))
    check (checkItemQuantity item.quantity)
    check (checkItemPrice unitPriceMinor)
    let taxRateBps := item.taxRateBps.getD 0
    check (checkItemTaxRate taxRateBps)
    itemInsert
      { id := ← newId h
        scheduleId := schedule.id
        bookId := schedule.bookId
        variantId
        description
        quantity := item.quantity
        unitPriceMinor
        taxRateBps
        lineOrder
        createdAt := now }
    storeItems schedule now (lineOrder + 1) items

def recurringScheduleCreate (new : NewRecurringSchedule) : Service RecurringSchedule := do
  let book ← bookGet new.bookId
  let name := trim new.name
  Process.ofExcept (require (¬name.isEmpty) "a recurring schedule needs a name")
  let intervalCount := new.intervalCount.getD 1
  Process.ofExcept (require (intervalCount > 0) "interval_count must be a positive number")
  let today ← Process.query fun db ↦ datePart (h.nowIso db.minted)
  let startDate := new.startDate.getD today
  let _ ← Process.ofExcept (parseDate h startDate)
  let _ ← Process.ofExcept (new.endDate.mapM (checkEndDate h startDate))
  let _ ← Process.ofExcept (new.maxOccurrences.mapM checkMaxOccurrences)
  let currency ← Process.ofExcept (new.currency.mapM normalizeCurrencyCode)
  let nextRunDate ← Process.ofExcept (occurrenceDate h startDate new.frequency intervalCount 0)
  let fields ← Process.ofExcept (← Process.query fun db ↦ kindFields db book new)
  Process.atomically [.book book] do
    let now ← nowIso h
    let schedule : RecurringSchedule :=
      { id := ← newId h
        bookId := book.id
        kind := new.kind
        status := .active
        name
        frequency := new.frequency
        intervalCount
        startDate
        endDate := normalizeOptional new.endDate
        maxOccurrences := new.maxOccurrences
        occurrencesProcessed := 0
        nextRunDate
        contactId := fields.contactId
        series := fields.series
        dueDays := fields.dueDays
        accountId := fields.accountId
        categoryId := fields.categoryId
        amountMinor := fields.amountMinor
        merchant := fields.merchant
        description := fields.description
        currency
        notes := normalizeOptional new.notes }
    scheduleInsert schedule
    storeItems h schedule now 0 fields.items
    return schedule

end Create

section Edit

def asStr : RecurringScheduleKind → String
  | .invoice => "an invoice"
  | .transaction => "a transaction"

/-- The new value of a field, `none` when the patch leaves the field alone. -/
def patched {α β : Type} (new : Option α) (check : α → Except Fault β) (old : β) :
    Except Fault β :=
  match new with
  | some a => check a
  | none => .ok old

def patchedOf {α β : Type} (before : RecurringSchedule) (kind : RecurringScheduleKind)
    (field : String) (new : Option α) (check : α → Except Fault β) (old : β) : Except Fault β :=
  patched new (fun a ↦ do
    require (before.kind = kind) s!"{field} only applies to {asStr kind} schedule"
    check a) old

def patchName (name : String) : Except Fault String := do
  let name := trim name
  require (¬name.isEmpty) "a recurring schedule needs a name"
  return name

def patchEndDate (startDate : String) : Option String → Except Fault (Option String)
  | some d => do
    checkEndDate h startDate d
    return some d
  | none => .ok none

def patchMaxOccurrences : Option ℤ → Except Fault (Option ℤ)
  | some n => do
    checkMaxOccurrences n
    return some n
  | none => .ok none

def patchContact (db : Db) (book : Book) (contactId : String) : Except Fault (Option String) := do
  let contact ← contactGet db contactId
  require (contact.bookId = book.id) "recurring schedule contact belongs to a different book"
  return some contact.id

def patchDueDays (dueDays : Option ℤ) : Except Fault (Option ℤ) := do
  require (∀ n ∈ dueDays, 0 ≤ n) "due_days must not be negative"
  return dueDays

def patchAccount (db : Db) (book : Book) (accountId : String) : Except Fault (Option String) := do
  let account ← accountGet db accountId
  require (account.bookId = book.id) "recurring schedule account belongs to a different book"
  return some account.id

def patchAmount (amountMinor : ℤ) : Except Fault (Option ℤ) := do
  require (amountMinor ≠ 0) "a transaction schedule amount must not be zero"
  return some amountMinor

/-- The schedule after an edit. The bounds change, and what they say about the next occurrence
is not looked at. -/
def applyPatch (db : Db) (book : Book) (before : RecurringSchedule) (patch : RecurringSchedulePatch) :
    Except Fault RecurringSchedule := do
  let name ← patched patch.name patchName before.name
  let endDate ← patched patch.endDate (patchEndDate h before.startDate) before.endDate
  let maxOccurrences ← patched patch.maxOccurrences patchMaxOccurrences before.maxOccurrences
  let contactId ← patchedOf before .invoice "contact_id" patch.contactId (patchContact db book)
    before.contactId
  let series ← patchedOf before .invoice "series" patch.series (.ok ∘ normalizeOptional)
    before.series
  let dueDays ← patchedOf before .invoice "due_days" patch.dueDays patchDueDays before.dueDays
  let accountId ← patchedOf before .transaction "account_id" patch.accountId
    (patchAccount db book) before.accountId
  let categoryId ← patchedOf before .transaction "category_id" patch.categoryId .ok
    before.categoryId
  let amountMinor ← patchedOf before .transaction "amount_minor" patch.amountMinor patchAmount
    before.amountMinor
  let merchant ← patchedOf before .transaction "merchant" patch.merchant
    (.ok ∘ normalizeOptional) before.merchant
  let description ← patchedOf before .transaction "description" patch.description
    (.ok ∘ normalizeOptional) before.description
  let currency ← patched patch.currency (·.mapM normalizeCurrencyCode) before.currency
  let notes ← patched patch.notes (.ok ∘ normalizeOptional) before.notes
  return { before with
    name, endDate, maxOccurrences, contactId, series, dueDays, accountId, categoryId,
    amountMinor, merchant, description, currency, notes }

/-- The row that is written is the copy read before the transaction, with the changes. -/
def recurringScheduleUpdate (id : String) (patch : RecurringSchedulePatch) :
    Service RecurringSchedule := do
  let before ← scheduleService id
  let book ← bookGet before.bookId
  let after ← Process.ofExcept (← Process.query fun db ↦ applyPatch h db book before patch)
  Process.atomically [.schedule before] (scheduleUpdate after)
  return after

def statusText : RecurringScheduleStatus → String
  | .active => "active"
  | .paused => "paused"
  | .ended => "ended"

def checkStatus (schedule : RecurringSchedule) (fromStatus toStatus : RecurringScheduleStatus) :
    Except Fault Unit :=
  if schedule.status ≠ fromStatus then
    .error (.invalidStatusTransition (statusText schedule.status) (statusText toStatus))
  else .ok ()

def setStatus (id : String) (fromStatus toStatus : RecurringScheduleStatus) :
    Service RecurringSchedule := do
  let before ← scheduleService id
  Process.ofExcept (checkStatus before fromStatus toStatus)
  let after := { before with status := toStatus }
  Process.atomically [.schedule before] (scheduleUpdate after)
  return after

def recurringSchedulePause (id : String) : Service RecurringSchedule :=
  setStatus id .active .paused

def recurringScheduleResume (id : String) : Service RecurringSchedule :=
  setStatus id .paused .active

def recurringScheduleDelete (id : String) : Service Unit := do
  let before ← scheduleService id
  Process.ofExcept (require (before.occurrencesProcessed ≤ 0)
    "a schedule that has already run cannot be deleted; pause it instead")
  Process.atomically [.schedule before] (scheduleDelete id)

def recurringScheduleItemAdd (new : NewRecurringScheduleItem) : Service RecurringScheduleItem := do
  let schedule ← scheduleService new.scheduleId
  Process.ofExcept
    (require (schedule.kind = .invoice) "only an invoice schedule has line items")
  Process.ofExcept (checkItemQuantity new.quantity)
  let (variantId, description, unitPriceMinor) ← Process.ofExcept (← Process.query fun db ↦
    resolveSalesOrderLine db schedule.bookId new.variantId new.description new.unitPriceMinor)
  Process.ofExcept (checkItemPrice unitPriceMinor)
  let taxRateBps := new.taxRateBps.getD 0
  Process.ofExcept (checkItemTaxRate taxRateBps)
  Process.atomically [] do
    let createdAt ← nowIso h
    let lineOrder := (itemList (← get) schedule.id).length
    let item : RecurringScheduleItem :=
      { id := ← newId h
        scheduleId := schedule.id
        bookId := schedule.bookId
        variantId
        description
        quantity := new.quantity
        unitPriceMinor
        taxRateBps
        lineOrder
        createdAt }
    itemInsert item
    return item

def itemGet (db : Db) (id : String) : Except Fault RecurringScheduleItem :=
  orNotFound "recurring_schedule_item" id
    (lookup RecurringScheduleItem.id db.recurringScheduleItems id)

def patchItem (before : RecurringScheduleItem) (patch : RecurringScheduleItemPatch) :
    Except Fault RecurringScheduleItem := do
  let description := (patch.description.map trim).getD before.description
  require (patch.description = none ∨ ¬description.isEmpty)
    "recurring schedule line description must not be empty"
  let _ ← patch.quantity.mapM checkItemQuantity
  let _ ← patch.unitPriceMinor.mapM checkItemPrice
  let _ ← patch.taxRateBps.mapM checkItemTaxRate
  return { before with
    description
    quantity := patch.quantity.getD before.quantity
    unitPriceMinor := patch.unitPriceMinor.getD before.unitPriceMinor
    taxRateBps := patch.taxRateBps.getD before.taxRateBps }

def recurringScheduleItemUpdate (id : String) (patch : RecurringScheduleItemPatch) :
    Service RecurringScheduleItem := do
  let before ← Process.ofExcept (← Process.query fun db ↦ itemGet db id)
  let after ← Process.ofExcept (patchItem before patch)
  Process.atomically [] (itemUpdate after)
  return after

def recurringScheduleItemRemove (id : String) : Service Unit := do
  let _ ← Process.ofExcept (← Process.query fun db ↦ itemGet db id)
  Process.atomically [] (itemDelete id)

end Edit

section Preview

def lineTotals (lines : List (ℤ × ℤ × ℤ)) : ℤ :=
  let nets := lines.map fun l ↦ asI64 (l.1 * l.2.1)
  let taxes := lines.map fun l ↦ vatOnNet (asI64 (l.1 * l.2.1)) l.2.2
  asI64 (sumI64 nets + sumI64 taxes)

def previewSummary (schedule : RecurringSchedule) (occurrenceDate : String)
    (items : List RecurringScheduleItem) : Service String := do
  let currency := schedule.currency.getD "book currency"
  match schedule.kind with
  | .invoice =>
    let contact ← Process.query fun db ↦
      schedule.contactId.bind fun id ↦ lookup Contact.id db.contacts id
    let contactName := (contact.map Contact.name).getD "an unknown contact"
    let total := lineTotals (items.map fun i ↦ (i.quantity, i.unitPriceMinor, i.taxRateBps))
    let dueDate ← Process.ofExcept (dueDate h occurrenceDate (schedule.dueDays.getD 0))
    return s!"Invoice for {contactName} — {total} {currency} due {dueDate}"
  | .transaction =>
    let amount := schedule.amountMinor.getD 0
    let label := (schedule.merchant.or schedule.description).getD schedule.name
    return s!"Transaction: {label} — {amount} {currency}"

def pastCount (schedule : RecurringSchedule) (occurrenceIndex : ℤ) : Prop :=
  ∃ max ∈ schedule.maxOccurrences, max ≤ occurrenceIndex

def pastEnd (schedule : RecurringSchedule) (occurrenceDate : String) : Prop :=
  ∃ endDate ∈ schedule.endDate, endDate < occurrenceDate

instance (schedule : RecurringSchedule) (occurrenceIndex : ℤ) :
    Decidable (pastCount schedule occurrenceIndex) :=
  inferInstanceAs (Decidable (∃ max ∈ schedule.maxOccurrences, _))

instance (schedule : RecurringSchedule) (occurrenceDate : String) :
    Decidable (pastEnd schedule occurrenceDate) :=
  inferInstanceAs (Decidable (∃ endDate ∈ schedule.endDate, _))

/-- The occurrences from an index on, at most `count` of them. -/
def previewFrom (schedule : RecurringSchedule) (items : List RecurringScheduleItem) :
    ℕ → ℤ → Service (List RecurringOccurrencePreview)
  | 0, _ => return []
  | count + 1, occurrenceIndex => do
    if pastCount schedule occurrenceIndex then return []
    else
      let occurrenceDate ← Process.ofExcept (occurrenceDate h schedule.startDate
        schedule.frequency schedule.intervalCount occurrenceIndex)
      if pastEnd schedule occurrenceDate then return []
      else
        let summary ← previewSummary h schedule occurrenceDate items
        let rest ← previewFrom schedule items count (occurrenceIndex + 1)
        return { scheduleId := schedule.id
                 occurrenceIndex
                 occurrenceDate
                 kind := schedule.kind
                 summary } :: rest

def recurringSchedulePreview (id : String) (count : Option ℕ) :
    Service (List RecurringOccurrencePreview) := do
  let schedule ← scheduleService id
  let items ← match schedule.kind with
    | .invoice => Process.query fun db ↦ itemList db schedule.id
    | .transaction => pure []
  previewFrom h schedule items (max 1 (min (count.getD 1) 60)) schedule.occurrencesProcessed

end Preview

section Run

def invoiceOf (schedule : RecurringSchedule) (contactId occurrenceDate dueDate : String)
    (items : List RecurringScheduleItem) : NewInvoice :=
  { bookId := schedule.bookId
    contactId := some contactId
    salesOrderId := none
    series := schedule.series
    issueDate := some occurrenceDate
    dueDate
    currency := schedule.currency
    notes := schedule.notes
    items := items.map fun i ↦
      { variantId := i.variantId
        description := i.description
        quantity := i.quantity
        unitPriceMinor := i.unitPriceMinor
        taxRateBps := some i.taxRateBps } }

def generateInvoice (book : Book) (schedule : RecurringSchedule) (occurrenceDate : String) :
    Action String := do
  let contactId ← check (needed "invoice schedule has no contact_id" schedule.contactId)
  let items := itemList (← get) schedule.id
  check (require (¬items.isEmpty) "cannot generate an invoice with no line items")
  let dueDate ← check (dueDate h occurrenceDate (schedule.dueDays.getD 0))
  let resolved ← resolveInvoice h book (invoiceOf schedule contactId occurrenceDate dueDate items)
  return (← issueInvoiceInTx h book resolved).id

def transactionOf (book : Book) (schedule : RecurringSchedule) (accountId occurrenceDate : String)
    (amountMinor : ℤ) : NewTransaction :=
  { bookId := schedule.bookId
    accountId
    source := .recurring
    providerTxnId := some s!"recurring:{schedule.id}:{schedule.occurrencesProcessed}"
    postedDate := occurrenceDate
    amountMinor
    currency := schedule.currency.getD book.currency
    merchant := schedule.merchant
    description := schedule.description
    notes := schedule.notes
    categoryId := schedule.categoryId
    dedupeOccurrence := 0 }

def generateTransaction (book : Book) (schedule : RecurringSchedule) (occurrenceDate : String) :
    Action String := do
  let accountId ← check (needed "transaction schedule has no account_id" schedule.accountId)
  let amountMinor ← check (needed "transaction schedule has no amount_minor" schedule.amountMinor)
  return (← createTransactionInTx h
    (transactionOf book schedule accountId occurrenceDate amountMinor)).id

def generate (book : Book) (schedule : RecurringSchedule) (occurrenceDate : String) :
    Action (String × String) := do
  match schedule.kind with
  | .invoice => return ("invoices", ← generateInvoice h book schedule occurrenceDate)
  | .transaction => return ("transactions", ← generateTransaction h book schedule occurrenceDate)

/-- The schedule after its next occurrence. It ends when the one after that is past a bound. -/
def advance (schedule : RecurringSchedule) : Except Fault RecurringSchedule := do
  let occurrencesProcessed := schedule.occurrencesProcessed + 1
  let nextRunDate ← occurrenceDate h schedule.startDate schedule.frequency schedule.intervalCount
    occurrencesProcessed
  return { schedule with
    occurrencesProcessed
    nextRunDate
    status := if pastCount schedule occurrencesProcessed ∨ pastEnd schedule nextRunDate then .ended
      else schedule.status }

/-- A skipped occurrence has no record. -/
def generateUnless (skip : Bool) (book : Book) (schedule : RecurringSchedule)
    (occurrenceDate : String) : Action (Option (String × String)) :=
  if skip then pure none else some <$> generate h book schedule occurrenceDate

def checkNewRun (db : Db) (schedule : RecurringSchedule) : Except Fault Unit :=
  if runExists db schedule.id schedule.occurrencesProcessed then
    .error (.duplicateRecurringRun schedule.id schedule.occurrencesProcessed)
  else .ok ()

/-- The transaction of one occurrence. The bounds are looked at for the next occurrence only. -/
def processInTx (book : Book) (schedule : RecurringSchedule) (occurrenceDate : String)
    (skip : Bool) : Action RecurringRun := do
  check (checkNewRun (← get) schedule)
  let generated ← generateUnless h skip book schedule occurrenceDate
  let run : RecurringRun :=
    { id := ← newId h
      scheduleId := schedule.id
      bookId := schedule.bookId
      occurrenceIndex := schedule.occurrencesProcessed
      occurrenceDate
      outcome := if skip then .skipped else .generated
      generatedTable := generated.map Prod.fst
      generatedId := generated.map Prod.snd }
  runInsert run
  scheduleUpdate (← check (advance h schedule))
  return run

def recurringProcessOccurrence (schedule : RecurringSchedule) (skip : Bool) :
    Service RecurringRun := do
  let book ← bookGet schedule.bookId
  let occurrenceDate ← Process.ofExcept (occurrenceDate h schedule.startDate schedule.frequency
    schedule.intervalCount schedule.occurrencesProcessed)
  Process.atomically [.schedule schedule, .book book]
    (processInTx h book schedule occurrenceDate skip)

def recurringScheduleSkipNext (id : String) : Service RecurringRun := do
  let schedule ← scheduleService id
  Process.ofExcept (require (schedule.status ≠ .ended)
    "this schedule has already ended; there is no occurrence left to skip")
  recurringProcessOccurrence h schedule true

def aborts : Fault → Bool
  | .panic _ | .diverges => true
  | _ => false

/-- Catches one schedule up, in at most `rounds` rounds. A failed occurrence stops it. -/
def runSchedule : ℕ → String → RecurringSchedule → Service (List RecurringRun)
  | 0, _, _ => Process.fail .diverges
  | rounds + 1, asOf, schedule => do
    if schedule.status ≠ .active ∨ asOf < schedule.nextRunDate then return []
    else
      match ← (recurringProcessOccurrence h schedule false).attempt with
      | .ok run =>
        let next ← scheduleService schedule.id
        return run :: (← runSchedule rounds asOf next)
      | .error e => if aborts e then Process.fail e else return []

def runSchedules (rounds : ℕ) (asOf : String) :
    List RecurringSchedule → Service (List RecurringRun)
  | [] => return []
  | schedule :: due => do
    let runs ← runSchedule h rounds asOf schedule
    return runs ++ (← runSchedules rounds asOf due)

def dueDateOr (db : Db) : Option String → Except Fault String
  | some d => do
    let _ ← parseDate h d
    return d
  | none => .ok (datePart (h.nowIso db.minted))

def recurringRunDue (rounds : ℕ) (bookId : String) (asOf : Option String) :
    Service (List RecurringRun) := do
  let book ← bookGet bookId
  let asOf ← Process.ofExcept (← Process.query fun db ↦ dueDateOr h db asOf)
  let due ← Process.query fun db ↦ scheduleListDue db book.id asOf
  runSchedules h rounds asOf due

end Run

end SlipScan.Model.Scheduling
