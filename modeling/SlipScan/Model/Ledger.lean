import SlipScan.Foundation.Chain
import SlipScan.Model.Database
import Mathlib.Data.List.Dedup
import Mathlib.Data.List.Sort
import Mathlib.Algebra.Ring.Int.Defs

namespace SlipScan.Model.Ledger

open Model.Domain Model.Database Foundation.Transaction Foundation.Interleaving Foundation.Table
  Foundation.Chain

def maxLineAmountMinor : ℤ := 1000000000000000

section Queries

variable (db : Db)

def getBook (id : String) : Option Book :=
  lookup Book.id db.books id

def getCoa (id : String) : Option CoaAccount :=
  lookup CoaAccount.id db.coa id

def getCoaByCode (bookId code : String) : Option CoaAccount :=
  db.coa.find? fun a ↦ a.bookId = bookId ∧ a.code = code

def getJournal (id : String) : Option Journal :=
  lookup Journal.id db.journals id

def linesForJournal (journalId : String) : List JournalLine :=
  (db.journalLines.filter fun l ↦ l.journalId = journalId).insertionSort
    fun a b ↦ a.lineOrder ≤ b.lineOrder

def findReversal (journalId : String) : Option String :=
  successor Journal.id Journal.reversalOf db.journals journalId

def findJournalsBySource (bookId : String) (sourceType : JournalSourceType) (sourceId : String) :
    List String :=
  ((db.journals.filter fun j ↦
      j.bookId = bookId ∧ j.sourceType = sourceType ∧ j.sourceId = some sourceId).insertionSort
    fun a b ↦ a.createdAt < b.createdAt ∨ a.createdAt = b.createdAt ∧ a.id ≤ b.id).map Journal.id

/-- The walk up the reversals of a journal, for at most `n` rounds. -/
def netReversedWalk : ℕ → Bool → String → Option Bool
  | 0, _, _ => none
  | n + 1, cancelled, current =>
    match findReversal db current with
    | none => some cancelled
    | some reversal => netReversedWalk n (!cancelled) reversal

/-- Whether the effect of a journal is currently cancelled by reversal. A walk that meets more
reversals than there are journals runs in a circle. -/
def isNetReversed (journalId : String) : Except Fault Bool :=
  match netReversedWalk db (db.journals.length + 1) false journalId with
  | some cancelled => .ok cancelled
  | none => .error .diverges

def listVatRates (bookId : String) : List VatRate :=
  (db.vatRates.filter fun r ↦ r.bookId = bookId).insertionSort fun a b ↦ a.code ≤ b.code

end Queries

section Inserts

def insertJournal (j : Journal) : Action Unit := do
  let db ← get
  constraint (∀ x ∈ db.journals, x.id ≠ j.id) "UNIQUE constraint failed: journals.id"
  constraint (references Book.id db.books j.bookId) "FOREIGN KEY constraint failed"
  constraint (∀ k, j.reversalOf = some k → ∀ x ∈ db.journals, x.reversalOf ≠ some k)
    "UNIQUE constraint failed: journals.reversal_of"
  constraint (∀ k, j.reversalOf = some k → references Journal.id db.journals k)
    "FOREIGN KEY constraint failed"
  modify fun db ↦ { db with journals := db.journals ++ [j] }

def insertLine (l : JournalLine) : Action Unit := do
  let db ← get
  constraint (∀ x ∈ db.journalLines, x.id ≠ l.id) "UNIQUE constraint failed: journal_lines.id"
  constraint (references Journal.id db.journals l.journalId ∧ references Book.id db.books l.bookId ∧
    references CoaAccount.id db.coa l.coaId) "FOREIGN KEY constraint failed"
  constraint (∀ k ∈ l.vatRateId, references VatRate.id db.vatRates k)
    "FOREIGN KEY constraint failed"
  constraint (l.currency.length = 3) "CHECK constraint failed: length(currency) = 3"
  constraint (l.debitMinor = 0 ∧ l.creditMinor > 0 ∨ l.creditMinor = 0 ∧ l.debitMinor > 0)
    "CHECK constraint failed: journal_lines"
  modify fun db ↦ { db with journalLines := db.journalLines ++ [l] }

end Inserts

section Posting

variable (h : Host)

def checkLineCount (lines : List NewJournalLine) : Except Fault Unit :=
  if lines.length < 2 then .error (.validation "a journal needs at least two lines") else .ok ()

/-- The lock date is compared as a text, and so is everything that follows from it. -/
def checkLock (book : Book) (postedDate : String) : Except Fault Unit :=
  match book.financialLockDate with
  | some lock =>
    if postedDate ≤ lock then
      .error (.validation s!"book is locked up to {lock}; cannot post on {postedDate}")
    else .ok ()
  | none => .ok ()

/-- A non-manual source may have at most one net-live generated journal. -/
def checkSource (db : Db) (book : Book) (new : NewJournal) : Except Fault Unit :=
  match new.sourceId with
  | some sourceId =>
    if new.sourceType ≠ .manual then
      (findJournalsBySource db book.id new.sourceType sourceId).forM fun existing ↦ do
        if !(← isNetReversed db existing) then
          .error (.duplicateJournal new.sourceType.asStr existing)
    else .ok ()
  | none => .ok ()

def normalizeLine (line : NewJournalLine) : Except Fault NewJournalLine := do
  return { line with currency := ← normalizeCurrencyCode line.currency }

def checkSides (line : NewJournalLine) : Except Fault Unit :=
  if ¬(line.debitMinor = 0 ∧ line.creditMinor > 0 ∨
      line.creditMinor = 0 ∧ line.debitMinor > 0) then
    .error (.validation "each journal line must have exactly one positive side")
  else
    let amount := max line.debitMinor line.creditMinor
    if amount > maxLineAmountMinor then
      .error (.validation s!"journal line amount {amount} exceeds the maximum of {maxLineAmountMinor} minor units")
    else .ok ()

def currencies (lines : List NewJournalLine) : List String :=
  (lines.map NewJournalLine.currency).dedup.insertionSort (· ≤ ·)

def sideTotal (side : NewJournalLine → ℤ) (lines : List NewJournalLine) (currency : String) : ℤ :=
  ((lines.filter fun l ↦ l.currency = currency).map side).sum

def clampI64 (v : ℤ) : ℤ :=
  max (-2 ^ 63) (min v (2 ^ 63 - 1))

def checkBalance (lines : List NewJournalLine) : Except Fault Unit :=
  (currencies lines).forM fun currency ↦
    let debitTotal := sideTotal NewJournalLine.debitMinor lines currency
    let creditTotal := sideTotal NewJournalLine.creditMinor lines currency
    if debitTotal ≠ creditTotal then
      .error (.unbalancedJournal (clampI64 debitTotal) (clampI64 creditTotal))
    else .ok ()

def checkFixedCurrency (coa : CoaAccount) (line : NewJournalLine) : Except Fault Unit :=
  match coa.currency with
  | some fixed =>
    if fixed ≠ line.currency then
      .error (.validation s!"account {coa.code} is fixed to {fixed}; line is in {line.currency}")
    else .ok ()
  | none => .ok ()

def checkAccount (db : Db) (book : Book) (line : NewJournalLine) : Except Fault Unit := do
  let coa ← orNotFound "chart_of_accounts" line.coaId (getCoa db line.coaId)
  if coa.bookId ≠ book.id then
    .error (.validation "journal line references an account from another book")
  else if coa.isArchived then
    .error (.validation s!"account {coa.code} ({coa.name}) is archived")
  else checkFixedCurrency coa line

/-- Every check that comes before the first write, in the order of the source. The result is the
lines with their currency codes in upper case. -/
def validateJournal (db : Db) (book : Book) (new : NewJournal) :
    Except Fault (List NewJournalLine) := do
  checkLineCount new.lines
  let _ ← parseDate h new.postedDate
  checkLock book new.postedDate
  checkSource db book new
  let lines ← new.lines.mapM normalizeLine
  lines.forM checkSides
  checkBalance lines
  lines.forM (checkAccount db book)
  return lines

def storeLines (journal : Journal) : ℕ → List NewJournalLine → Action (List JournalLine)
  | _, [] => return []
  | order, line :: lines => do
    let stored : JournalLine :=
      { id := ← newId h
        journalId := journal.id
        bookId := journal.bookId
        coaId := line.coaId
        debitMinor := line.debitMinor
        creditMinor := line.creditMinor
        currency := line.currency
        description := line.description
        lineOrder := order
        vatRateId := line.vatRateId
        vatRole := line.vatRole }
    insertLine stored
    return stored :: (← storeLines journal (order + 1) lines)

def postJournalInTx (book : Book) (new : NewJournal) (reversalOf : Option String) :
    Action PostedJournal := do
  let lines ← check (validateJournal h (← get) book new)
  let createdAt ← nowIso h
  let journal : Journal :=
    { id := ← newId h
      bookId := book.id
      postedDate := new.postedDate
      narrative := new.narrative
      reference := new.reference
      sourceType := new.sourceType
      sourceId := new.sourceId
      reversalOf
      createdAt }
  insertJournal journal
  return ⟨journal, ← storeLines h journal 0 lines⟩

/-- A line with its sides swapped. The VAT tags stay, so that the tax summary nets out. -/
def swapLine (line : JournalLine) : NewJournalLine :=
  { coaId := line.coaId
    debitMinor := line.creditMinor
    creditMinor := line.debitMinor
    currency := line.currency
    description := line.description
    vatRateId := line.vatRateId
    vatRole := line.vatRole }

def journalWithLines (db : Db) (id : String) : Except Fault PostedJournal := do
  return ⟨← orNotFound "journal" id (getJournal db id), linesForJournal db id⟩

def checkNotReversed (db : Db) (journalId : String) : Except Fault Unit :=
  match findReversal db journalId with
  | some reversalId => .error (.duplicateJournal "reversal" reversalId)
  | none => .ok ()

def reversalOfJournal (book : Book) (original : PostedJournal) (postedDate narrative : Option String) :
    NewJournal :=
  { bookId := book.id
    postedDate := postedDate.getD original.journal.postedDate
    narrative := some (narrative.getD
      s!"Reversal of {original.journal.reference.getD original.journal.id}")
    reference := original.journal.reference
    sourceType := .manual
    sourceId := none
    lines := original.lines.map swapLine }

def reverseJournalInTx (book : Book) (journalId : String) (postedDate narrative : Option String) :
    Action PostedJournal := do
  let original ← check (journalWithLines (← get) journalId)
  check (checkNotReversed (← get) journalId)
  postJournalInTx h book (reversalOfJournal book original postedDate narrative) (some journalId)

end Posting

section Service

variable (h : Host)

def bookGet (id : String) : Service Book := do
  Process.ofExcept (← Process.query fun db ↦ orNotFound "book" id (getBook db id))

def journalGet (id : String) : Service PostedJournal := do
  Process.ofExcept (← Process.query fun db ↦ journalWithLines db id)

def journalPost (new : NewJournal) : Service PostedJournal := do
  let book ← bookGet new.bookId
  Process.atomically [.book book] (postJournalInTx h book new none)

def journalReverse (journalId : String) (postedDate narrative : Option String) :
    Service PostedJournal := do
  let original ← journalGet journalId
  let book ← bookGet original.journal.bookId
  Process.atomically [.book book] (reverseJournalInTx h book journalId postedDate narrative)

end Service

end SlipScan.Model.Ledger
