import SlipScan.Model.Generate
import SlipScan.Model.Sales

namespace SlipScan.Model.Assets

open Model.Domain Model.Database Model.Ledger Model.Money Model.Generate Model.Sales
  Foundation.Transaction Foundation.Interleaving Foundation.Table Foundation.Calendar

variable (h : Host)

section Periods

/-- The first `n` bytes of a text and the rest, unless that cuts a character. -/
def splitBytes : ℕ → List Char → Option (List Char × List Char)
  | 0, cs => some ([], cs)
  | _, [] => none
  | n, c :: cs =>
    if c.utf8Size ≤ n then
      (splitBytes (n - c.utf8Size) cs).map fun (front, back) ↦ (c :: front, back)
    else none

def slice (s : String) (start stop : ℕ) : Except Fault (List Char) :=
  match splitBytes start s.toList with
  | some (_, cs) =>
    match splitBytes (stop - start) cs with
    | some (front, _) => .ok front
    | none => .error (.panic "byte index is not a char boundary")
  | none => .error (.panic "byte index is not a char boundary")

def isAsciiDigit (c : Char) : Bool :=
  '0' ≤ c && c ≤ '9'

def digitsValue (cs : List Char) : ℤ :=
  cs.foldl (fun n c ↦ 10 * n + (c.toNat - '0'.toNat : ℕ)) 0

def parseDigits (cs : List Char) : Option ℤ :=
  if cs.isEmpty ∨ ¬cs.all isAsciiDigit then none else some (digitsValue cs)

def parseI32 : List Char → Option ℤ
  | '+' :: cs => parseDigits cs
  | '-' :: cs => (parseDigits cs).map (- ·)
  | cs => parseDigits cs

def parseU32 : List Char → Option ℤ
  | '+' :: cs => parseDigits cs
  | cs => parseDigits cs

def parsePeriod (period : String) : Except Fault (ℤ × ℤ) :=
  match period.toList with
  | [y₁, y₂, y₃, y₄, '-', m₁, m₂] =>
    let year := [y₁, y₂, y₃, y₄]
    let month := [m₁, m₂]
    if (year ++ month).all isAsciiDigit ∧ 1 ≤ digitsValue month ∧ digitsValue month ≤ 12 then
      .ok (digitsValue year, digitsValue month)
    else
      .error (.validation s!"period must be YYYY-MM (MM in 01..=12), got {repr period}")
  | _ => .error (.validation s!"period must be YYYY-MM (MM in 01..=12), got {repr period}")

def expected {α : Type} : Option α → Except Fault α
  | some a => .ok a
  | none => .error (.panic "stored dates are YYYY-MM-DD")

def yearMonthOfDate (date : String) : Except Fault (ℤ × ℤ) := do
  let year ← expected (parseI32 (← slice date 0 4))
  let month ← expected (parseU32 (← slice date 5 7))
  return (year, month)

/-- The months from the acquisition to a period, the month of acquisition being 1. -/
def periodIndexFrom (acquiredDate period : String) : Except Fault ℤ := do
  let (py, pm) ← parsePeriod period
  let (ay, am) ← yearMonthOfDate acquiredDate
  let index := py * 12 + pm - (ay * 12 + am) + 1
  require (1 ≤ index)
    s!"period {period} is before the asset's acquisition month ({acquiredDate})"
  return index

def zeroPad (width : ℕ) (n : ℕ) : String :=
  let digits := Nat.toDigits 10 n
  String.ofList (List.replicate (width - digits.length) '0' ++ digits)

def periodEndDate (period : String) : Except Fault String := do
  let (year, month) ← parsePeriod period
  let day := daysInMonth year month.toNat
  return s!"{zeroPad 4 year.toNat}-{zeroPad 2 month.toNat}-{zeroPad 2 day}"

end Periods

section Depreciation

def straightLineTarget (asset : Asset) (n : ℤ) : ℤ :=
  if n ≤ 0 then 0
  else
    asI64 ((asI64 (asset.costMinor - asset.residualMinor) * min n asset.usefulLifeMonths).tdiv
      asset.usefulLifeMonths)

/-- The depreciation of one period, which never takes the book value below the residual. -/
def depreciationAmount (asset : Asset) (periodIndex accumulatedBefore : ℤ) : ℤ :=
  match asset.method with
  | .straightLine =>
    asI64 (straightLineTarget asset periodIndex - straightLineTarget asset (periodIndex - 1))
  | .reducingBalance =>
    let openingNbv := asI64 (asset.costMinor - accumulatedBefore)
    let headroom := asI64 (openingNbv - asset.residualMinor)
    if headroom ≤ 0 then 0
    else if periodIndex ≥ asset.usefulLifeMonths then headroom
    else
      let raw := asI64 ((openingNbv * asset.reducingBalanceRateBps.getD 0).tdiv 10000)
      max 0 (min raw headroom)

def assetGet (db : Db) (id : String) : Except Fault Asset :=
  orNotFound "asset" id (lookup Asset.id db.assets id)

def runsForAsset (db : Db) (assetId : String) : List AssetDepreciationRun :=
  (db.depreciationRuns.filter fun r ↦ r.assetId = assetId).insertionSort fun a b ↦
    a.periodIndex ≤ b.periodIndex

/-- Writes the whole row of an asset but its book. -/
def assetUpdate (asset : Asset) : Action Unit :=
  modify fun db ↦
    { db with
      assets := update Asset.id db.assets asset.id fun a ↦ { asset with id := a.id, bookId := a.bookId } }

def depreciationRunInsert (run : AssetDepreciationRun) : Action Unit := do
  let db ← get
  constraint (∀ r ∈ db.depreciationRuns, r.id ≠ run.id)
    "UNIQUE constraint failed: asset_depreciation_runs.id"
  constraint (∀ r ∈ db.depreciationRuns, ¬(r.assetId = run.assetId ∧ r.period = run.period))
    "UNIQUE constraint failed: asset_depreciation_runs.asset_id, asset_depreciation_runs.period"
  constraint
    (∀ r ∈ db.depreciationRuns, ¬(r.assetId = run.assetId ∧ r.periodIndex = run.periodIndex))
    "UNIQUE constraint failed: asset_depreciation_runs.asset_id, asset_depreciation_runs.period_index"
  constraint (references Book.id db.books run.bookId ∧ references Asset.id db.assets run.assetId ∧
    references Journal.id db.journals run.journalId) "FOREIGN KEY constraint failed"
  constraint (run.periodIndex > 0 ∧ run.depreciationMinor > 0)
    "CHECK constraint failed: asset_depreciation_runs"
  modify fun db ↦ { db with depreciationRuns := db.depreciationRuns ++ [run] }

/-- The runs whose journal is net-live, each journal looked at on its own. -/
def liveRuns : List AssetDepreciationRun → Service (List AssetDepreciationRun)
  | [] => return []
  | run :: runs => do
    let cancelled ← Process.ofExcept (← Process.query fun db ↦ isNetReversed db run.journalId)
    let rest ← liveRuns runs
    return if cancelled then rest else run :: rest

def netLiveRuns (assetId : String) : Service (List AssetDepreciationRun) := do
  liveRuns (← Process.query fun db ↦ runsForAsset db assetId)

/-- A book without the accounts posts nothing. -/
def postDepreciationJournal (book : Book) (asset : Asset) (period : String) (amountMinor : ℤ)
    (runId : String) : Action (Option PostedJournal) := do
  let db ← get
  match getCoaByCode db book.id coaCodeDepreciationExpense,
    getCoaByCode db book.id coaCodeAccumDepreciation with
  | some expense, some accumulated =>
    let postedDate ← check (periodEndDate period)
    let description := some s!"Depreciation: {asset.name} ({period})"
    return some (← postJournalInTx h book
      { bookId := book.id
        postedDate
        narrative := some s!"Depreciation: {asset.name} — {period}"
        reference := some asset.id
        sourceType := .depreciation
        sourceId := some runId
        lines :=
          [journalLine asset.currency description expense amountMinor 0 none none,
            journalLine asset.currency description accumulated 0 amountMinor none none] } none)
  | _, _ => return none

def checkNotDisposedBefore (asset : Asset) (period : String) (periodIndex : ℤ) :
    Except Fault Unit :=
  match asset.disposedDate with
  | some disposedDate => do
    let month ← slice disposedDate 0 7
    let disposedIndex ← periodIndexFrom asset.acquiredDate (String.ofList month)
    require (periodIndex ≤ disposedIndex)
      s!"{asset.name} was disposed in {String.ofList month}; cannot run depreciation for {period}"
  | none => .ok ()

/-- The transaction of a depreciation. Without a chart of accounts nothing is written. -/
def depreciateInTx (book : Book) (asset : Asset) (period : String) (periodIndex amount : ℤ) :
    Action (Option AssetDepreciationRun) := do
  let runId ← newId h
  match ← postDepreciationJournal h book asset period amount runId with
  | some posted =>
    let run : AssetDepreciationRun :=
      { id := runId
        bookId := asset.bookId
        assetId := asset.id
        period
        periodIndex
        depreciationMinor := amount
        journalId := posted.journal.id }
    depreciationRunInsert run
    return some run
  | none => return none

def depreciationRun (assetId period : String) : Service (Option AssetDepreciationRun) := do
  let asset ← Process.ofExcept (← Process.query fun db ↦ assetGet db assetId)
  let book ← bookGet asset.bookId
  let periodIndex ← Process.ofExcept (periodIndexFrom asset.acquiredDate period)
  let live ← netLiveRuns assetId
  let nextIndex := (live.getLast?.map AssetDepreciationRun.periodIndex).getD 0 + 1
  Process.ofExcept (require (periodIndex = nextIndex)
    s!"depreciation must be run in period order for {asset.name}; expected period index {nextIndex}, got {periodIndex} ({period})")
  Process.ofExcept (require (periodIndex ≤ asset.usefulLifeMonths)
    s!"period {period} is beyond {asset.name}'s useful life ({asset.usefulLifeMonths} months)")
  Process.ofExcept (checkNotDisposedBefore asset period periodIndex)
  let accumulatedBefore := sumI64 (live.map AssetDepreciationRun.depreciationMinor)
  let amount := depreciationAmount asset periodIndex accumulatedBefore
  if amount ≤ 0 then return none
  else Process.atomically [.book book] (depreciateInTx h book asset period periodIndex amount)

end Depreciation

section Disposal

def reverseLiveRuns (book : Book) (runs : List AssetDepreciationRun)
    (reversalDate narrative : String) : Action Unit :=
  runs.forM fun run ↦ do
    if !(← check (isNetReversed (← get) run.journalId)) then
      let _ ← reverseJournalInTx h book run.journalId (some reversalDate) (some narrative)

/-- Disposes an asset, and reverses the depreciation posted for later months. -/
def assetDispose (id : String) (disposal : AssetDisposal) : Service Asset := do
  let before ← Process.ofExcept (← Process.query fun db ↦ assetGet db id)
  Process.ofExcept (require (before.status ≠ .disposed) "asset is already disposed")
  let _ ← Process.ofExcept (parseDate h disposal.disposedDate)
  Process.ofExcept (require (∀ p ∈ disposal.proceedsMinor, 0 ≤ p)
    "disposal proceeds must not be negative")
  let month ← Process.ofExcept (slice disposal.disposedDate 0 7)
  let disposalIndex ← Process.ofExcept
    (periodIndexFrom before.acquiredDate (String.ofList month))
  let book ← bookGet before.bookId
  let reversalDate ← Process.query fun db ↦ datePart (h.nowIso db.minted)
  let after := { before with
    status := .disposed
    disposedDate := some disposal.disposedDate
    disposalProceedsMinor := disposal.proceedsMinor }
  Process.atomically [.book book] do
    let runs := (runsForAsset (← get) id).filter fun r ↦ r.periodIndex > disposalIndex
    reverseLiveRuns h book runs reversalDate
      s!"Reversing depreciation posted after disposal of {before.name}"
    assetUpdate after
  return after

end Disposal

end SlipScan.Model.Assets
