import SlipScan.Foundation.Connections
import SlipScan.Foundation.Utf8
import SlipScan.Model.Database
import Mathlib.Data.List.Sort
import Mathlib.Data.Prod.Lex

namespace SlipScan.Model.Payments

open Model.Domain Model.Database Foundation.Transaction Foundation.Interleaving Foundation.Table
  Foundation.Utf8
open String (utf8Len)

structure PayWatch where
  id : String
  bookId : String
  code : String
  label : Option String
  expectedAmountMinor : Option ℤ
  expectedCurrency : Option String
  enabled : Bool
  createdAt : String
  deriving DecidableEq, Repr

structure PayEndpoint where
  id : String
  bookId : String
  label : String
  url : String
  enabled : Bool
  createdAt : String
  deriving DecidableEq, Repr

structure PayMatch where
  id : String
  bookId : String
  watchId : String
  transactionId : String
  matchedAt : String
  deriving DecidableEq, Repr

inductive PayDeliveryState
  | pending | delivered | failed
  deriving DecidableEq, Repr

structure PayDelivery where
  id : String
  bookId : String
  endpointId : String
  matchId : String
  payload : String
  state : PayDeliveryState
  attempts : ℤ
  nextAttemptAt : String
  lastStatus : Option ℤ
  lastError : Option String
  createdAt : String
  updatedAt : String
  deriving DecidableEq, Repr

structure PayDb where
  watches : List PayWatch := []
  endpoints : List PayEndpoint := []
  transactions : List Transaction := []
  payMatches : List PayMatch := []
  deliveries : List PayDelivery := []
  minted : ℕ := 0

/-- A moment, in nanoseconds since 1970, with the seconds of the time zone it is told in. -/
structure OffsetDateTime where
  nanos : ℤ
  offset : ℤ
  deriving DecidableEq, Repr

/-- What the payments get from outside: identifiers, the clock in UTC, the texts of times, the
tables of letters, and the body of a webhook. -/
structure PayHost where
  newId : ℕ → String
  clock : ℕ → ℤ
  format : OffsetDateTime → Option String
  parse : String → Except String OffsetDateTime
  toUppercase : String → String
  isAlphanumeric : Char → Bool
  buildPayload : PayWatch → Transaction → String → String

abbrev PayTx := Tx PayDb Fault

abbrev PayService := Process PayDb PayDelivery Fault

variable (h : PayHost)

section Matching

def containsFrom (code : List Char) : Option Char → List Char → Bool
  | _, [] => false
  | before, c :: rest =>
    code.isPrefixOf (c :: rest) && !before.any h.isAlphanumeric &&
        !((c :: rest).drop code.length).head?.any h.isAlphanumeric ||
      containsFrom code (some c) rest

def textContainsCode (text code : String) : Bool :=
  let code := (h.toUppercase (trim code)).toList
  !code.isEmpty && containsFrom h code none (h.toUppercase text).toList

def isFlanked (before after : List Char) : Bool :=
  before.getLast?.any h.isAlphanumeric || after.head?.any h.isAlphanumeric

/-- The search as it goes over the bytes, from one of them on. There is no answer where it would cut
a character, and none when `fuel` rounds are not enough. -/
def searchFrom (code text : List Char) : ℕ → ℕ → Option Bool
  | 0, _ => none
  | fuel + 1, byte => do
    let (_, rest) ← cutAt byte text
    match find code rest with
    | none => return false
    | some offset =>
      let start := byte + offset
      let (before, hit) ← cutAt start text
      let (_, after) ← cutAt (start + utf8Len code) text
      if !isFlanked h before after then return true
      else searchFrom code text fuel (start + (hit.head?.map Char.utf8Size).getD 1)

def searchCode (text code : String) (fuel : ℕ) : Option Bool :=
  let code := (h.toUppercase (trim code)).toList
  if code.isEmpty then some false else searchFrom h code (h.toUppercase text).toList fuel 0

def transactionCarriesCode (txn : Transaction) (code : String) : Bool :=
  (txn.description.toList ++ txn.merchant.toList).any fun text ↦ textContainsCode h text code

def watchMatches (watch : PayWatch) (txn : Transaction) : Bool :=
  watch.expectedAmountMinor.all (fun expected ↦ txn.amountMinor = expected) &&
    watch.expectedCurrency.all (fun expected ↦ txn.currency = expected) &&
    transactionCarriesCode h txn watch.code

end Matching

section Queries

variable (db : PayDb)

def listEnabledWatches (bookId : String) : List PayWatch :=
  (db.watches.filter fun w ↦ w.bookId = bookId ∧ w.enabled).insertionSort fun a b ↦
    toLex (a.createdAt, a.id) ≤ toLex (b.createdAt, b.id)

def listEnabledEndpoints (bookId : String) : List PayEndpoint :=
  (db.endpoints.filter fun e ↦ e.bookId = bookId ∧ e.enabled).insertionSort fun a b ↦
    toLex (a.createdAt, a.id) ≤ toLex (b.createdAt, b.id)

structure DueDelivery where
  delivery : PayDelivery
  endpointId : String
  url : String

/-- The pending deliveries of enabled endpoints whose time, as a text, does not come after `now`. -/
def listDue (now : String) : List DueDelivery :=
  (db.deliveries.filterMap fun d ↦
    (lookup PayEndpoint.id db.endpoints d.endpointId).bind fun e ↦
      if d.state = .pending ∧ d.nextAttemptAt ≤ now ∧ e.enabled then
        some ⟨d, d.endpointId, e.url⟩
      else none).insertionSort fun a b ↦
    toLex (a.delivery.nextAttemptAt, a.delivery.id) ≤
      toLex (b.delivery.nextAttemptAt, b.delivery.id)

end Queries

section Writes

def newRowId : PayTx String := do
  let n := (← get).minted
  modify fun db ↦ { db with minted := n + 1 }
  return h.newId n

def clockText : PayTx String := do
  match h.format ⟨h.clock (← get).minted, 0⟩ with
  | some text => return text
  | none => throw (.panic "RFC 3339 formatting of the current time cannot fail")

def enforce (c : Prop) [Decidable c] (message : String) : PayTx Unit :=
  if c then pure () else throw (.sqlite message)

def insertTransaction (txn : Transaction) : PayTx Unit := do
  let db ← get
  enforce (∀ t ∈ db.transactions, t.id ≠ txn.id) "UNIQUE constraint failed: transactions.id"
  modify fun db ↦ { db with transactions := db.transactions ++ [txn] }

def insertMatch (m : PayMatch) : PayTx Unit := do
  let db ← get
  enforce (∀ m' ∈ db.payMatches, m'.id ≠ m.id) "UNIQUE constraint failed: pay_matches.id"
  enforce (∀ m' ∈ db.payMatches, ¬(m'.watchId = m.watchId ∧ m'.transactionId = m.transactionId))
    "UNIQUE constraint failed: pay_matches.watch_id, pay_matches.transaction_id"
  enforce (references PayWatch.id db.watches m.watchId ∧
    references Transaction.id db.transactions m.transactionId) "FOREIGN KEY constraint failed"
  modify fun db ↦ { db with payMatches := db.payMatches ++ [m] }

def insertDelivery (d : PayDelivery) : PayTx Unit := do
  let db ← get
  enforce (∀ d' ∈ db.deliveries, d'.id ≠ d.id) "UNIQUE constraint failed: pay_deliveries.id"
  enforce (references PayEndpoint.id db.endpoints d.endpointId ∧
    references PayMatch.id db.payMatches d.matchId) "FOREIGN KEY constraint failed"
  modify fun db ↦ { db with deliveries := db.deliveries ++ [d] }

def updateDeliveryOutcome (d : PayDelivery) : PayTx Unit :=
  modify fun db ↦
    { db with
      deliveries := update PayDelivery.id db.deliveries d.id fun row ↦
        { row with
          state := d.state
          attempts := d.attempts
          nextAttemptAt := d.nextAttemptAt
          lastStatus := d.lastStatus
          lastError := d.lastError
          updatedAt := d.updatedAt } }

end Writes

section Detection

def enqueue (m : PayMatch) (payload : String) (endpoints : List PayEndpoint) : PayTx Unit :=
  endpoints.forM fun endpoint ↦ do
    insertDelivery
      { id := ← newRowId h
        bookId := m.bookId
        endpointId := endpoint.id
        matchId := m.id
        payload
        state := .pending
        attempts := 0
        nextAttemptAt := m.matchedAt
        lastStatus := none
        lastError := none
        createdAt := m.matchedAt
        updatedAt := m.matchedAt }

def matchWatch (txn : Transaction) (endpoints : List PayEndpoint) (watch : PayWatch) :
    PayTx Unit := do
  if watchMatches h watch txn then
    let matchedAt ← clockText h
    let m : PayMatch :=
      { id := ← newRowId h
        bookId := txn.bookId
        watchId := watch.id
        transactionId := txn.id
        matchedAt }
    insertMatch m
    enqueue h m (h.buildPayload watch txn m.matchedAt) endpoints
  else return ()

def detectPaymentMatches (txn : Transaction) : PayTx Unit := do
  if txn.amountMinor ≤ 0 then return ()
  else
    let watches := listEnabledWatches (← get) txn.bookId
    let endpoints := listEnabledEndpoints (← get) txn.bookId
    watches.forM (matchWatch h txn endpoints)

end Detection

section Delivery

def maxDeliveryAttempts : ℤ := 20

def backoffSecs : List ℤ := [60, 300, 1800, 7200, 43200]

def backoffDailySecs : ℤ := 86400

def backoffDelaySecs (failedAttempts : ℤ) : ℤ :=
  if failedAttempts ≤ 0 then backoffSecs.headD backoffDailySecs
  else backoffSecs.getD (failedAttempts - 1).toNat backoffDailySecs

/-- Another attempt later, in the time zone of this one, or none once there were enough. -/
def scheduleRetry (updated : PayDelivery) (now : OffsetDateTime) (error : String) :
    Except Fault PayDelivery :=
  if updated.attempts ≥ maxDeliveryAttempts then
    .ok { updated with lastError := some error, state := .failed }
  else
    match h.format { now with nanos := now.nanos + backoffDelaySecs updated.attempts * 10 ^ 9 } with
    | some text => .ok { updated with lastError := some error, nextAttemptAt := text }
    | none => .error (.panic "RFC 3339 formatting of a valid instant cannot fail")

/-- The row of a delivery after an attempt, by the status that came back or the error. -/
def attempted (nowText : String) (now : OffsetDateTime) (delivery : PayDelivery) :
    Except String ℤ → Except Fault PayDelivery
  | .ok status =>
    let updated := { delivery with
      attempts := delivery.attempts + 1, updatedAt := nowText, lastStatus := some status }
    if 200 ≤ status ∧ status < 300 then
      .ok { updated with state := .delivered, lastError := none }
    else if 400 ≤ status ∧ status < 500 then
      .ok { updated with state := .failed, lastError := some s!"HTTP {status}" }
    else scheduleRetry h updated now s!"HTTP {status}"
  | .error error =>
    scheduleRetry h { delivery with
      attempts := delivery.attempts + 1, updatedAt := nowText, lastStatus := none } now error

/-- The attempts of a pass, one after the other, on the rows as they were picked. What a receiver
answers comes from outside, as do the failures to sign. -/
def deliverAll (nowText : String) (now : OffsetDateTime) (post : DueDelivery → Except String ℤ) :
    List DueDelivery → PayService (List PayDelivery)
  | [] => return []
  | item :: due => do
    let updated ← Process.ofExcept (attempted h nowText now item.delivery (post item))
    Process.atomically [item.delivery] (updateDeliveryOutcome updated)
    let out ← deliverAll nowText now post due
    return updated :: out

def payDeliverDue (post : DueDelivery → Except String ℤ) (now : String) :
    PayService (List PayDelivery) := do
  let nowDt ← Process.ofExcept (match h.parse now with
    | .ok nowDt => .ok nowDt
    | .error e => .error (.validation s!"invalid now {repr now}: {e}"))
  let due ← Process.query fun db ↦ listDue db now
  deliverAll h now nowDt post due

def payEndpointSetEnabled (id : String) (enabled : Bool) : PayService PayEndpoint := do
  let before ← Process.ofExcept (← Process.query fun db ↦
    orNotFound "pay_endpoint" id (lookup PayEndpoint.id db.endpoints id))
  Process.atomically [] do
    modify fun db ↦
      { db with endpoints := update PayEndpoint.id db.endpoints id fun e ↦ { e with enabled } }
    return { before with enabled }

end Delivery

section Runs

inductive PayEvent
  | transactionCreate (txn : Transaction)
  | endpointSetEnabled (id : String) (enabled : Bool)
  | deliverDue (post : DueDelivery → Except String ℤ) (now : String)

def PayEvent.program : PayEvent → PayService Unit
  | transactionCreate txn => Process.atomically [] do
    insertTransaction txn
    detectPaymentMatches h txn
  | endpointSetEnabled id enabled => do
    let _ ← payEndpointSetEnabled id enabled
    return ()
  | deliverDue post now => do
    let _ ← payDeliverDue h post now
    return ()

def payments {ι : Type} (s : PayDb) (events : ι → List PayEvent) :
    Config ι PayDb PayDelivery Fault Unit :=
  ⟨s, fun i ↦ Process.inTurn ((events i).map fun e ↦ e.program h)⟩

end Runs

end SlipScan.Model.Payments
