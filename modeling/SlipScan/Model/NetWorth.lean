import SlipScan.Model.Ledger
import SlipScan.Model.Money
import Mathlib.Data.List.Dedup
import Mathlib.Data.List.Sort
import Mathlib.Data.Prod.Lex

namespace SlipScan.Model.NetWorth

open Model.Domain Model.Database Model.Money Foundation.Transaction Foundation.Interleaving
  Foundation.Table

inductive NetWorthSnapshotSource
  | captured | backfilled
  deriving DecidableEq, Repr

structure NetWorthSnapshot where
  id : String
  bookId : String
  accountId : String
  asOfDate : String
  balanceMinor : ℤ
  currency : String
  source : NetWorthSnapshotSource
  createdAt : String
  deriving DecidableEq, Repr

structure BalanceAccount extends Account where
  openingBalanceMinor : ℤ
  createdAt : String
  deriving DecidableEq, Repr

structure WorthDb where
  books : List Book := []
  accounts : List BalanceAccount := []
  transactions : List Transaction := []
  snapshots : List NetWorthSnapshot := []
  minted : ℕ := 0

structure SeriesRow where
  pointDate : String
  accountId : String
  currency : String
  balanceMinor : ℤ
  deriving DecidableEq, Repr

structure NetWorthAccountBalance where
  accountId : String
  currency : String
  balanceMinor : ℤ
  deriving DecidableEq, Repr

structure NetWorthPoint where
  asOfDate : String
  byAccount : List NetWorthAccountBalance
  currency : String
  totalMinor : ℤ
  unconverted : List String
  deriving DecidableEq, Repr

structure NetWorthSeries (Rate : Type) where
  bookId : String
  currency : String
  points : List NetWorthPoint
  conversions : List Rate

structure Exchange (Rate : Type) where
  cached : String → String → Except Fault (Option Rate)
  convertMinor : ℤ → Rate → Except Fault ℤ

abbrev WorthTx := Tx WorthDb Fault

abbrev WorthService := Process WorthDb Unit Fault

section Queries

variable (db : WorthDb)

def listAccounts (bookId : String) : List BalanceAccount :=
  (db.accounts.filter fun a ↦ a.bookId = bookId).insertionSort fun a b ↦
    toLex (a.createdAt, a.id) ≤ toLex (b.createdAt, b.id)

/-- Later dates first, and of equal dates the later record. -/
def recency (s : NetWorthSnapshot) : Lex (String × Lex (String × String)) :=
  toLex (s.asOfDate, toLex (s.createdAt, s.id))

def freshest (snapshots : List NetWorthSnapshot) : Option NetWorthSnapshot :=
  (snapshots.insertionSort fun a b ↦ recency b ≤ recency a).head?

def getForAccountDate (accountId asOfDate : String) : Option NetWorthSnapshot :=
  freshest (db.snapshots.filter fun s ↦ s.accountId = accountId ∧ s.asOfDate = asOfDate)

def datesForAccount (accountId : String) : List String :=
  ((db.snapshots.filter fun s ↦ s.accountId = accountId).map NetWorthSnapshot.asOfDate).dedup

/-- The transactions of an account in its own currency that are not rejected. -/
def ownTransactions (accountId currency : String) : List Transaction :=
  db.transactions.filter fun t ↦
    t.accountId = accountId ∧ t.currency = currency ∧ t.status ≠ .rejected

def balanceAsOf (accountId currency : String) (openingBalanceMinor : ℤ) (asOfDate : String) :
    Except Fault ℤ := do
  let sum ← sqlSum (((ownTransactions db accountId currency).filter fun t ↦
    t.postedDate ≤ asOfDate).map Transaction.amountMinor)
  return asI64 (openingBalanceMinor + sum)

def ownCurrencyDeltasByDate (accountId currency : String) : Except Fault (List (String × ℤ)) :=
  let own := ownTransactions db accountId currency
  ((own.map Transaction.postedDate).dedup.insertionSort (· ≤ ·)).mapM fun date ↦ do
    return (date, ← sqlSum ((own.filter fun t ↦ t.postedDate = date).map Transaction.amountMinor))

/-- For every date in the range with a snapshot, the freshest snapshot of each account that has one
by then. -/
def series (bookId fromDate toDate : String) : List SeriesRow :=
  let booked := db.snapshots.filter fun s ↦ s.bookId = bookId
  let points := ((booked.filter fun s ↦ fromDate ≤ s.asOfDate ∧ s.asOfDate ≤ toDate).map
    NetWorthSnapshot.asOfDate).dedup
  (points.insertionSort (· ≤ ·)).flatMap fun point ↦
    let known := booked.filter fun s ↦ s.asOfDate ≤ point
    ((known.map NetWorthSnapshot.accountId).dedup.insertionSort (· ≤ ·)).filterMap fun accountId ↦
      (freshest (known.filter fun s ↦ s.accountId = accountId)).map fun s ↦
        ⟨point, accountId, s.currency, s.balanceMinor⟩

end Queries

section Recording

variable (h : Host)

def newSnapshotId : WorthTx String := do
  let n := (← get).minted
  modify fun db ↦ { db with minted := n + 1 }
  return h.newId n

def enforce (c : Prop) [Decidable c] (message : String) : WorthTx Unit :=
  if c then pure () else throw (.sqlite message)

def insertSnapshot (snapshot : NetWorthSnapshot) : WorthTx Unit := do
  let db ← get
  enforce (∀ s ∈ db.snapshots, s.id ≠ snapshot.id) "UNIQUE constraint failed: networth_snapshots.id"
  enforce (references Book.id db.books snapshot.bookId ∧
    (lookup (fun a : BalanceAccount ↦ a.id) db.accounts snapshot.accountId).isSome)
    "FOREIGN KEY constraint failed"
  enforce (snapshot.currency.length = 3) "CHECK constraint failed: networth_snapshots"
  modify fun db ↦ { db with snapshots := db.snapshots ++ [snapshot] }

/-- The snapshots of a date, those on record as they are and new ones for the other accounts. -/
def captureAccounts (bookId asOfDate now : String) :
    List BalanceAccount → WorthTx (List NetWorthSnapshot)
  | [] => return []
  | account :: accounts => do
    let db ← get
    match getForAccountDate db account.id asOfDate with
    | some existing => return existing :: (← captureAccounts bookId asOfDate now accounts)
    | none =>
      let balanceMinor ← check
        (balanceAsOf db account.id account.currency account.openingBalanceMinor asOfDate)
      let id ← newSnapshotId h
      let snapshot : NetWorthSnapshot :=
        { id
          bookId
          accountId := account.id
          asOfDate
          balanceMinor
          currency := account.currency
          source := .captured
          createdAt := now }
      insertSnapshot snapshot
      return snapshot :: (← captureAccounts bookId asOfDate now accounts)

def networthCapture (bookId asOfDate : String) : WorthService (List NetWorthSnapshot) := do
  let _ ← Process.ofExcept
    (← Process.query fun db ↦ orNotFound "book" bookId (lookup Book.id db.books bookId))
  let _ ← Process.ofExcept (parseDate h asOfDate)
  let accounts ← Process.query fun db ↦ listAccounts db bookId
  let now ← Process.query fun db ↦ h.nowIso db.minted
  Process.atomically [] (captureAccounts h bookId asOfDate now accounts)

/-- Walks back over the days of an account, latest first. `running` is the balance at the end of
the first of them. -/
def backfillDays (bookId now : String) (account : BalanceAccount) (existingDates : List String) :
    ℤ → List (String × ℤ) → WorthTx (List NetWorthSnapshot)
  | _, [] => return []
  | running, (date, dayTotal) :: days => do
    if date ∈ existingDates then
      backfillDays bookId now account existingDates (asI64 (running - dayTotal)) days
    else
      let id ← newSnapshotId h
      let snapshot : NetWorthSnapshot :=
        { id
          bookId
          accountId := account.id
          asOfDate := date
          balanceMinor := running
          currency := account.currency
          source := .backfilled
          createdAt := now }
      insertSnapshot snapshot
      let created ← backfillDays bookId now account existingDates (asI64 (running - dayTotal)) days
      return snapshot :: created

/-- The walk starts from the current total, the opening balance with every delta. -/
def backfillAccounts (bookId now : String) : List BalanceAccount → WorthTx (List NetWorthSnapshot)
  | [] => return []
  | account :: accounts => do
    let db ← get
    let existingDates := datesForAccount db account.id
    let deltas ← check (ownCurrencyDeltasByDate db account.id account.currency)
    let running := asI64 (account.openingBalanceMinor + sumI64 (deltas.map Prod.snd))
    let created ← backfillDays h bookId now account existingDates running deltas.reverse
    return created ++ (← backfillAccounts bookId now accounts)

def networthBackfill (bookId : String) : WorthService (List NetWorthSnapshot) := do
  let _ ← Process.ofExcept
    (← Process.query fun db ↦ orNotFound "book" bookId (lookup Book.id db.books bookId))
  let accounts ← Process.query fun db ↦ listAccounts db bookId
  let now ← Process.query fun db ↦ h.nowIso db.minted
  Process.atomically [] (backfillAccounts h bookId now accounts)

end Recording

section Series

variable {Rate : Type} (exchange : Exchange Rate)

def resolveRates (bookCurrency : String) (rows : List SeriesRow) :
    Except Fault (List (String × Option Rate)) :=
  let foreign := (rows.filter fun r ↦ r.currency ≠ bookCurrency).map SeriesRow.currency
  foreign.reverse.dedup.reverse.mapM fun currency ↦ do
    return (currency, ← exchange.cached currency bookCurrency)

def balanceOf (row : SeriesRow) : NetWorthAccountBalance :=
  ⟨row.accountId, row.currency, row.balanceMinor⟩

/-- Adds a row to the last point if that has its date, or opens a new point. -/
def pushRow (bookCurrency : String) (row : SeriesRow) : List NetWorthPoint → List NetWorthPoint
  | [] => [⟨row.pointDate, [balanceOf row], bookCurrency, 0, []⟩]
  | [point] =>
    if point.asOfDate = row.pointDate then
      [{ point with byAccount := point.byAccount ++ [balanceOf row] }]
    else [point, ⟨row.pointDate, [balanceOf row], bookCurrency, 0, []⟩]
  | point :: next :: points => point :: pushRow bookCurrency row (next :: points)

def addBalance (bookCurrency : String) (rates : List (String × Option Rate))
    (acc : ℤ × List String) (balance : NetWorthAccountBalance) : Except Fault (ℤ × List String) :=
  if balance.currency = bookCurrency then .ok (asI64 (acc.1 + balance.balanceMinor), acc.2)
  else
    match (rates.lookup balance.currency).join with
    | some rate => do
      return (asI64 (acc.1 + (← exchange.convertMinor balance.balanceMinor rate)), acc.2)
    | none => .ok (acc.1,
        if balance.currency ∈ acc.2 then acc.2 else acc.2 ++ [balance.currency])

def totalPoint (bookCurrency : String) (rates : List (String × Option Rate))
    (point : NetWorthPoint) : Except Fault NetWorthPoint := do
  let (totalMinor, unconverted) ←
    point.byAccount.foldlM (addBalance exchange bookCurrency rates) (0, [])
  return { point with totalMinor, unconverted }

def networthSeries (h : Host) (bookId fromDate toDate : String) :
    WorthService (NetWorthSeries Rate) := do
  let book ← Process.ofExcept
    (← Process.query fun db ↦ orNotFound "book" bookId (lookup Book.id db.books bookId))
  let _ ← Process.ofExcept (parseDate h fromDate)
  let _ ← Process.ofExcept (parseDate h toDate)
  let rows ← Process.query fun db ↦ series db bookId fromDate toDate
  let rates ← Process.ofExcept (resolveRates exchange book.currency rows)
  let points := rows.foldl (fun points row ↦ pushRow book.currency row points) []
  let points ← Process.ofExcept (points.mapM (totalPoint exchange book.currency rates))
  return {
    bookId
    currency := book.currency
    points
    conversions := rates.filterMap Prod.snd }

end Series

end SlipScan.Model.NetWorth
