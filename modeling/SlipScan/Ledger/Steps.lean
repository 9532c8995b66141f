import SlipScan.Model.Service
import SlipScan.Writes.Frames

namespace SlipScan.Ledger.Steps

open Model.Domain Model.Database Model.Ledger Model.Period Model.Service Foundation.Transaction
  Foundation.Interleaving Foundation.Table Posting Writes.Frames Relation

/-- The journals are untouched, the books keep everything but their kind, the accounts everything
but their archive mark, and the rates everything. -/
structure Preserves (s s' : Db) : Prop where
  books : ∀ id b, getBook s id = some b → ∃ kind, getBook s' id = some { b with kind }
  newBooks : ∀ id b, getBook s' id = some b → getBook s id = none → b.financialLockDate = none
  coa : ∀ id a, getCoa s id = some a → ∃ isArchived, getCoa s' id = some { a with isArchived }
  coaNodup : (s.coa.map CoaAccount.id).Nodup → (s'.coa.map CoaAccount.id).Nodup
  vatRates : ∀ id r, lookup VatRate.id s.vatRates id = some r →
    lookup VatRate.id s'.vatRates id = some r
  rateNodup : (s.vatRates.map VatRate.id).Nodup → (s'.vatRates.map VatRate.id).Nodup
  journals : s'.journals = s.journals
  journalLines : s'.journalLines = s.journalLines
  runs : ∀ run ∈ s'.depreciationRuns, run ∈ s.depreciationRuns ∨
    ∃ j ∈ s.journals, j.id = run.journalId ∧ j.sourceType ≠ .manual
  minted : s.minted ≤ s'.minted

def ledgerTables (s : Db) : List Book × List CoaAccount × List VatRate × List Journal ×
    List JournalLine × List AssetDepreciationRun :=
  (s.books, s.coa, s.vatRates, s.journals, s.journalLines, s.depreciationRuns)

theorem preserves_of_keeps {s s' : Db} (hs : Keeps ledgerTables s s') : Preserves s s' := by
  obtain ⟨htables, hminted⟩ := hs
  simp only [ledgerTables, Prod.mk.injEq] at htables
  obtain ⟨hbooks, hcoa, hrates, hjournals, hlines, hruns⟩ := htables
  exact {
    books := fun id b hb ↦ ⟨b.kind, by simpa only [getBook, hbooks] using hb⟩
    newBooks := fun id b hb hnone ↦ by
      rw [getBook, hbooks] at hb
      simp [getBook, hb] at hnone
    coa := fun id a ha ↦ ⟨a.isArchived, by simpa only [getCoa, hcoa] using ha⟩
    coaNodup := fun hn ↦ by rwa [hcoa]
    vatRates := fun id r hr ↦ by simpa only [hrates] using hr
    rateNodup := fun hn ↦ by rwa [hrates]
    journals := hjournals
    journalLines := hlines
    runs := fun run hr ↦ .inl (hruns ▸ hr)
    minted := hminted }

/-- Which journals a call may reverse: the one it was asked to, a generated one, or one that a
depreciation run points at. -/
def MayReverse (c : Call) (s : Db) (id : String) : Prop :=
  (∃ date narrative, c = .journalReverse id date narrative) ∨
    (∃ j ∈ s.journals, j.id = id ∧ j.sourceType ≠ .manual) ∨
    ∃ run ∈ s.depreciationRuns, run.journalId = id

inductive LedgerStep (h : Host) (c : Call) (held : List Held) (s : Db) : Db → Prop
  | post {book : Book} {new : NewJournal} {lines : List NewJournalLine}
      (hbook : .book book ∈ held) (hposts : Posts h s book new none lines) :
      LedgerStep h c held s (withPosted s (postedJournal h s book new none lines))
  | reverse {book : Book} {id : String} {date narrative : Option String}
      {original : PostedJournal} {lines : List NewJournalLine} (hbook : .book book ∈ held)
      (hid : MayReverse c s id) (horiginal : journalWithLines s id = .ok original)
      (hnone : findReversal s id = none)
      (hposts : Posts h s book (reversalOfJournal book original date narrative) (some id) lines) :
      LedgerStep h c held s
        (withPosted s (postedJournal h s book (reversalOfJournal book original date narrative)
          (some id) lines))
  | other {s' : Db} (hother : Preserves s s') : LedgerStep h c held s s'

abbrev LedgerSteps (h : Host) (c : Call) (held : List Held) : Db → Db → Prop :=
  ReflTransGen (LedgerStep h c held)

def Seen (E : Db → Db → Prop) (held : List Held) (s : Db) : Prop :=
  ∀ b, .book b ∈ held → ∃ s₀, E s₀ s ∧ getBook s₀ b.id = some b

/-- The calls that move a lock date, with what they found when they read the book. -/
inductive Locks (h : Host) (E : Db → Db → Prop) (s : Db) : Call → String → Option String → Prop
  | close {s₀ : Db} {bookId toDate : String} {b : Book} (hseen : E s₀ s)
      (hb : getBook s₀ bookId = some b)
      (hlater : ∀ prev, b.financialLockDate = some prev → prev < toDate)
      (hdate : (h.parseDate toDate).isSome) :
      Locks h E s (.closePeriod bookId toDate) bookId (some toDate)
  | reopen {s₀ : Db} {bookId current reason : String} {toDate : Option String} {b : Book}
      (hseen : E s₀ s) (hb : getBook s₀ bookId = some b)
      (hlock : b.financialLockDate = some current) (hearlier : ∀ d ∈ toDate, d < current) :
      Locks h E s (.reopenPeriod bookId toDate reason) bookId toDate
  | set {bookId : String} {lockDate : Option String}
      (hdate : ∀ d ∈ lockDate, (h.parseDate d).isSome) :
      Locks h E s (.bookSetLockDate bookId lockDate) bookId lockDate

def withLock (s : Db) (bookId : String) (lockDate : Option String) : Db :=
  { s with
    books := update Book.id s.books bookId fun b ↦ { b with financialLockDate := lockDate } }

def withRate (s : Db) (rateId : String) (rateBps : ℤ) : Db :=
  { s with vatRates := update VatRate.id s.vatRates rateId fun r ↦ { r with rateBps } }

/-- What one transaction of a call does to the ledger, when others change the database along `E`
between its reads and the transaction. -/
inductive Effect (h : Host) (E : Db → Db → Prop) (c : Call) (held : List Held) (s : Db) : Db → Prop
  | ledger {s' : Db} (hseen : Seen E held s) (hsteps : LedgerSteps h c held s s') :
      Effect h E c held s s'
  | lock {bookId : String} {lockDate : Option String} (hc : Locks h E s c bookId lockDate) :
      Effect h E c held s (withLock s bookId lockDate)
  | rate {s₀ : Db} {r : VatRate} {rateBps : ℤ} (hseen : E s₀ s) (hr : r ∈ s₀.vatRates)
      (hc : c = .vatRateSetBps r.bookId r.code rateBps) :
      Effect h E c held s (withRate s r.id rateBps)

end SlipScan.Ledger.Steps
