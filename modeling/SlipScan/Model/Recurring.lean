import SlipScan.Model.Banking
import SlipScan.Model.Invoicing

namespace SlipScan.Model.Recurring

open Model.Domain Model.Database Model.Ledger Model.Money Model.Banking Model.Sales Model.Invoicing
  Foundation.Transaction Foundation.Interleaving Foundation.Table Foundation.Calendar

variable (h : Host)

section Recurrence

def recurrenceOverflow : Fault :=
  .validation "recurrence date arithmetic overflowed"

/-- A duration is kept in seconds, and one that does not fit 64 bits panics. -/
def addDays (start : Date) (days : ℤ) : Except Fault Date :=
  if ¬(-2 ^ 63 ≤ days * 86400 ∧ days * 86400 < 2 ^ 63) then
    .error (.panic "overflow constructing time::Duration")
  else
    match start.addDays? days with
    | some date => .ok date
    | none => .error recurrenceOverflow

/-- The day of the month is always the one of `start`, cut down where the month is too short. -/
def addMonths (start : Date) (months : ℤ) : Except Fault Date :=
  let target := start.monthNumber + months
  if ¬(-2 ^ 63 ≤ target ∧ target < 2 ^ 63) then .error recurrenceOverflow
  else if ¬(-2 ^ 31 ≤ target / 12 ∧ target / 12 < 2 ^ 31) then .error recurrenceOverflow
  else
    match start.addMonths? months with
    | some date => .ok date
    | none =>
      .error (.validation "recurrence date arithmetic: year must be in the range -9999..=9999")

/-- The days or months from the start of a schedule to an occurrence, as 64-bit arithmetic
gives them. -/
def step (frequency : RecurringFrequency) (intervalCount occurrenceIndex : ℤ) : ℤ :=
  let count := asI64 (intervalCount * occurrenceIndex)
  match frequency with
  | .daily | .monthly => count
  | .weekly => asI64 (count * 7)
  | .yearly => asI64 (count * 12)

def occurrence (start : Date) (frequency : RecurringFrequency)
    (intervalCount occurrenceIndex : ℤ) : Except Fault Date :=
  match frequency with
  | .daily | .weekly => addDays start (step frequency intervalCount occurrenceIndex)
  | .monthly | .yearly => addMonths start (step frequency intervalCount occurrenceIndex)

/-- The date of an occurrence depends on the start of the schedule only, never on the date of
the occurrence before. -/
def occurrenceDate (startDate : String) (frequency : RecurringFrequency)
    (intervalCount occurrenceIndex : ℤ) : Except Fault String := do
  let start ← parseDate h startDate
  return h.formatDate (← occurrence start frequency intervalCount occurrenceIndex)

def checkedMul (a b : ℤ) : Except Fault ℤ :=
  if -2 ^ 63 ≤ a * b ∧ a * b < 2 ^ 63 then .ok (a * b)
  else .error (.panic "attempt to multiply with overflow")

def checkedStep (frequency : RecurringFrequency) (intervalCount occurrenceIndex : ℤ) :
    Except Fault ℤ := do
  let count ← checkedMul intervalCount occurrenceIndex
  match frequency with
  | .daily | .monthly => return count
  | .weekly => checkedMul count 7
  | .yearly => checkedMul count 12

/-- The date of an occurrence in a build that checks its arithmetic, as debug builds do. -/
def checkedOccurrenceDate (startDate : String) (frequency : RecurringFrequency)
    (intervalCount occurrenceIndex : ℤ) : Except Fault String := do
  let start ← parseDate h startDate
  let step ← checkedStep frequency intervalCount occurrenceIndex
  let date ← match frequency with
    | .daily | .weekly => addDays start step
    | .monthly | .yearly => addMonths start step
  return h.formatDate date

def dueDate (occurrenceDate : String) (dueDays : ℤ) : Except Fault String := do
  return h.formatDate (← addDays (← parseDate h occurrenceDate) dueDays)

end Recurrence

section Repository

def scheduleGet (db : Db) (id : String) : Except Fault RecurringSchedule :=
  orNotFound "recurring_schedule" id (lookup RecurringSchedule.id db.recurringSchedules id)

def scheduleListDue (db : Db) (bookId asOf : String) : List RecurringSchedule :=
  (db.recurringSchedules.filter fun s ↦
    s.bookId = bookId ∧ s.status = .active ∧ s.nextRunDate ≤ asOf).insertionSort fun a b ↦
      a.nextRunDate < b.nextRunDate ∨ a.nextRunDate = b.nextRunDate ∧ a.id ≤ b.id

def itemList (db : Db) (scheduleId : String) : List RecurringScheduleItem :=
  (db.recurringScheduleItems.filter fun i ↦ i.scheduleId = scheduleId).insertionSort fun a b ↦
    a.lineOrder < b.lineOrder ∨ a.lineOrder = b.lineOrder ∧
      (a.createdAt < b.createdAt ∨ a.createdAt = b.createdAt ∧ a.id ≤ b.id)

def runExists (db : Db) (scheduleId : String) (occurrenceIndex : ℤ) : Bool :=
  db.recurringRuns.any fun r ↦ r.scheduleId = scheduleId ∧ r.occurrenceIndex = occurrenceIndex

def scheduleConstraints (s : RecurringSchedule) : Action Unit := do
  let db ← get
  constraint ((∀ c ∈ s.contactId, references Contact.id db.contacts c) ∧
    (∀ a ∈ s.accountId, references Account.id db.accounts a) ∧
    ∀ c ∈ s.categoryId, references Category.id db.categories c) "FOREIGN KEY constraint failed"
  constraint ((∀ n ∈ s.maxOccurrences, n > 0) ∧ s.occurrencesProcessed ≥ 0 ∧
    (∀ n ∈ s.dueDays, n ≥ 0) ∧ ∀ c ∈ s.currency, c.length = 3)
    "CHECK constraint failed: recurring_schedules"

def scheduleInsert (s : RecurringSchedule) : Action Unit := do
  let db ← get
  constraint (∀ x ∈ db.recurringSchedules, x.id ≠ s.id)
    "UNIQUE constraint failed: recurring_schedules.id"
  constraint (references Book.id db.books s.bookId) "FOREIGN KEY constraint failed"
  constraint (s.intervalCount > 0) "CHECK constraint failed: interval_count > 0"
  scheduleConstraints s
  modify fun db ↦ { db with recurringSchedules := db.recurringSchedules ++ [s] }

/-- Writes the whole row but what is fixed for the life of a schedule: its book, its kind and its
recurrence. -/
def scheduleUpdate (s : RecurringSchedule) : Action Unit := do
  if (lookup RecurringSchedule.id (← get).recurringSchedules s.id).isSome then
    scheduleConstraints s
    modify fun db ↦
      { db with
        recurringSchedules := update RecurringSchedule.id db.recurringSchedules s.id fun r ↦
          { s with
            id := r.id
            bookId := r.bookId
            kind := r.kind
            frequency := r.frequency
            intervalCount := r.intervalCount
            startDate := r.startDate } }

/-- Deletes a schedule and its lines. Its runs would have to go too, and they cannot. -/
def scheduleDelete (id : String) : Action Unit := do
  let db ← get
  constraint (∀ r ∈ db.recurringRuns, r.scheduleId ≠ id)
    "a recurring run is an immutable fact; record a compensating action instead"
  modify fun db ↦
    { db with
      recurringSchedules := db.recurringSchedules.filter fun s ↦ s.id ≠ id
      recurringScheduleItems := db.recurringScheduleItems.filter fun i ↦ i.scheduleId ≠ id }

def itemInsert (item : RecurringScheduleItem) : Action Unit := do
  let db ← get
  constraint (∀ i ∈ db.recurringScheduleItems, i.id ≠ item.id)
    "UNIQUE constraint failed: recurring_schedule_items.id"
  constraint (references RecurringSchedule.id db.recurringSchedules item.scheduleId ∧
    references Book.id db.books item.bookId ∧
    ∀ v ∈ item.variantId, references ProductVariant.id db.productVariants v)
    "FOREIGN KEY constraint failed"
  constraint (item.quantity > 0 ∧ item.unitPriceMinor ≥ 0 ∧ 0 ≤ item.taxRateBps ∧
    item.taxRateBps ≤ 10000) "CHECK constraint failed: recurring_schedule_items"
  modify fun db ↦ { db with recurringScheduleItems := db.recurringScheduleItems ++ [item] }

def itemUpdate (item : RecurringScheduleItem) : Action Unit :=
  modify fun db ↦
    { db with
      recurringScheduleItems :=
        update RecurringScheduleItem.id db.recurringScheduleItems item.id fun i ↦
          { i with
            description := item.description
            quantity := item.quantity
            unitPriceMinor := item.unitPriceMinor
            taxRateBps := item.taxRateBps } }

def itemDelete (id : String) : Action Unit :=
  modify fun db ↦
    { db with
      recurringScheduleItems := db.recurringScheduleItems.filter fun i ↦ i.id ≠ id }

def runInsert (run : RecurringRun) : Action Unit := do
  let db ← get
  constraint (∀ r ∈ db.recurringRuns, r.id ≠ run.id) "UNIQUE constraint failed: recurring_runs.id"
  constraint (∀ r ∈ db.recurringRuns,
    ¬(r.scheduleId = run.scheduleId ∧ r.occurrenceIndex = run.occurrenceIndex))
    "UNIQUE constraint failed: recurring_runs.schedule_id, recurring_runs.occurrence_index"
  constraint (references RecurringSchedule.id db.recurringSchedules run.scheduleId ∧
    references Book.id db.books run.bookId) "FOREIGN KEY constraint failed"
  constraint (run.occurrenceIndex ≥ 0) "CHECK constraint failed: occurrence_index >= 0"
  modify fun db ↦ { db with recurringRuns := db.recurringRuns ++ [run] }

end Repository

end SlipScan.Model.Recurring
