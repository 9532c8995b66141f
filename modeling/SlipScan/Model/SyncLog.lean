import SlipScan.Foundation.Table
import SlipScan.Foundation.Transaction
import SlipScan.Model.SyncMapping
import Mathlib.Data.List.Sort
import Mathlib.Algebra.Group.Int.Defs

namespace SlipScan.Model.SyncLog

open Model.SyncMapping Foundation Foundation.Transaction Foundation.Table

inductive SyncFault
  | validation (message : String)
  | invalidEnum (ty value : String)
  | deviceIdentityMissing
  | vault (message : String)
  | syncMapping (message : String)
  | syncClockDrift (aheadMs boundMs : UInt64)
  | syncOpUnverified (opId reason : String)
  deriving DecidableEq, Repr

/-- A cell as SQLite stores it. A real number is given by its bits. -/
inductive SqlValue
  | null
  | integer (i : Int64)
  | real (bits : UInt64)
  | text (s : String)
  | blob (bytes : List UInt8)
  deriving DecidableEq

/-- A row of a replicated table. `ns` is the book that the triggers take from it. -/
structure Row where
  table : String
  id : String
  ns : String
  cells : List (String × SqlValue)
  named : id ≠ ""
  columns : (cells.map Prod.fst).Nodup
  idCell : ("id", .text id) ∈ cells
  deriving DecidableEq

def Row.key (row : Row) : String × String :=
  (row.table, row.id)

structure Captured where
  seq : ℕ
  table : String
  rowId : String
  ns : String
  deleted : Bool
  deriving DecidableEq

def Captured.key (entry : Captured) : String × String :=
  (entry.table, entry.rowId)

inductive OpOrigin
  | «local» | remote
  deriving DecidableEq, Repr

def OpOrigin.asStr : OpOrigin → String
  | «local» => "local"
  | remote => "remote"

def OpOrigin.parse : String → Except SyncFault OpOrigin
  | "local" => .ok .local
  | "remote" => .ok .remote
  | other => .error (.invalidEnum "op origin" other)

/-- A row of `sync_oplog`, with any integers in its numeric columns. -/
structure OpRow where
  opId : String
  ns : String
  kind : Int64
  target : String
  author : String
  hlcWall : Int64
  hlcCounter : Int64
  cose : List UInt8
  origin : String
  recordedAt : String
  deriving DecidableEq

/-- The replicated rows and the tables of the sync record. The trigger tables number their entries
from one and never use a number twice. -/
structure SyncDb where
  rows : List Row := []
  outbox : List Captured := []
  nextSeq : ℕ := 1
  oplog : List OpRow := []
  clock : Option (Int64 × Int64) := none

section Writes

/-- A write to a replicated row. The triggers of the schema refuse any but inserts to the tables
of facts. -/
inductive Write
  | insert (row : Row)
  | update (row : Row)
  | delete (table id : String)

def capture (table id ns : String) (deleted : Bool) (db : SyncDb) : SyncDb :=
  { db with
    outbox := db.outbox ++ [⟨db.nextSeq, table, id, ns, deleted⟩]
    nextSeq := db.nextSeq + 1 }

def Write.apply (db : SyncDb) : Write → Option SyncDb
  | insert row =>
    if isReplicated row.table ∧ lookup Row.key db.rows row.key = none then
      some (capture row.table row.id row.ns false { db with rows := db.rows ++ [row] })
    else none
  | update row =>
    if lwwTables.contains row.table ∧ (lookup Row.key db.rows row.key).isSome then
      some (capture row.table row.id row.ns false
        { db with rows := Table.update Row.key db.rows row.key fun _ ↦ row })
    else none
  | delete table id =>
    if lwwTables.contains table then
      (lookup Row.key db.rows (table, id)).map fun row ↦
        capture table id row.ns true
          { db with rows := db.rows.filter fun r ↦ r.key ≠ (table, id) }
    else none

end Writes

section Capture

def drainList (db : SyncDb) : List Captured :=
  db.outbox.insertionSort fun a b ↦ a.seq ≤ b.seq

def coalesce (entries : List Captured) : List Captured :=
  let sorted := entries.insertionSort fun a b ↦ a.seq ≤ b.seq
  let kept := sorted.reverse.foldl (fun kept entry ↦
    if kept.any fun k ↦ k.key = entry.key then kept else kept ++ [entry]) []
  kept.reverse

def sqlToJson (table column : String) : SqlValue → Except SyncFault Scalar
  | .null => .ok .null
  | .integer i => .ok (.integer i)
  | .real bits =>
    if h : bits &&& 0x7FF0000000000000 ≠ 0x7FF0000000000000 then .ok (.float ⟨bits, h⟩)
    else .error (.validation (s!"{table}.{column} holds a non-finite number, which has no exact " ++
      "encoding; refusing to replicate it as something else"))
  | .text s => .ok (.string s)
  | .blob _ => .error (.validation (s!"{table}.{column} is a BLOB; replicating binary columns " ++
      "needs a mapping decision that has not been made"))

def rowObject (row : Row) : Except SyncFault JsonObject :=
  row.cells.foldlM (fun object (column, value) ↦ do
    return object.insert column (← sqlToJson row.table column value)) .empty

def readRow (db : SyncDb) (table id : String) : Except SyncFault (Option JsonObject) :=
  if ¬isReplicated table then
    .error (.validation
      s!"{table} is not a replicated table; refusing to read it into an op")
  else
    match lookup Row.key db.rows (table, id) with
    | none => .ok none
    | some row => return some (← rowObject row)

def tombstone (id : String) : JsonObject :=
  JsonObject.empty.insert "id" (.string id)

end Capture

section Clock

structure SyncClock where
  hlc : Hlc
  deriving DecidableEq

def clamp (i : Int64) : UInt64 :=
  if i < 0 then 0 else i.toUInt64

def SyncClock.load (db : SyncDb) (author : List UInt8) : SyncClock :=
  let (wall, counter) := db.clock.getD (0, 0)
  ⟨{ wall := clamp wall, counter := (clamp counter).toUInt32, author }⟩

def maxClockDriftMs : UInt64 :=
  24 * 60 * 60 * 1000

def SyncClock.tickBounded (E : Engine) (clock : SyncClock) (nowMs : UInt64) :
    Except SyncFault SyncClock :=
  let drift := if clock.hlc.wall ≤ nowMs then 0 else clock.hlc.wall - nowMs
  if drift > maxClockDriftMs then .error (.syncClockDrift drift maxClockDriftMs)
  else .ok ⟨E.tick clock.hlc nowMs⟩

def precedes (a b : Int64 × Int64) : Bool :=
  a.1 < b.1 || (a.1 = b.1 && a.2 < b.2)

def counterColumn (counter : UInt32) : Int64 :=
  counter.toUInt64.toInt64

def SyncClock.store (clock : SyncClock) (db : SyncDb) : SyncDb :=
  let stamp := (clock.hlc.wall.toInt64, counterColumn clock.hlc.counter)
  match db.clock with
  | none => { db with clock := some stamp }
  | some stored => if precedes stored stamp then { db with clock := some stamp } else db

end Clock

section Log

def hexDigit (n : UInt8) : Char :=
  if n < 10 then Char.ofNat (48 + n.toNat) else Char.ofNat (87 + n.toNat)

def encodeHex (bytes : List UInt8) : String :=
  String.ofList (bytes.flatMap fun b ↦ [hexDigit (b / 16), hexDigit (b % 16)])

def opRow (E : Engine) (op : SyncOp) (envelope : List UInt8) (origin : OpOrigin)
    (recordedAt : String) : OpRow where
  opId := encodeHex (E.opId op)
  ns := op.ns
  kind := op.kind.toUInt64.toInt64
  target := op.target
  author := encodeHex op.hlc.author
  hlcWall := op.hlc.wall.toInt64
  hlcCounter := counterColumn op.hlc.counter
  cose := envelope
  origin := origin.asStr
  recordedAt

def insertOp (E : Engine) (op : SyncOp) (envelope : List UInt8) (origin : OpOrigin)
    (recordedAt : String) : Tx SyncDb SyncFault Bool := do
  let row := opRow E op envelope origin recordedAt
  if (← get).oplog.any fun r ↦ r.opId = row.opId then return false
  modify fun db ↦ { db with oplog := db.oplog ++ [row] }
  return true

structure StoredOp where
  opId : String
  ns : String
  kind : UInt8
  target : String
  author : String
  hlcWall : UInt64
  hlcCounter : UInt32
  cose : List UInt8
  origin : OpOrigin
  recordedAt : String
  deriving DecidableEq

def kindOfColumn (kind : Int64) : Except SyncFault UInt8 :=
  if 0 ≤ kind ∧ kind ≤ 255 then .ok kind.toUInt64.toUInt8
  else .error (.invalidEnum "op kind" (toString kind))

def mapOp (row : OpRow) : Except SyncFault StoredOp := do
  return {
    opId := row.opId
    ns := row.ns
    kind := ← kindOfColumn row.kind
    target := row.target
    author := row.author
    hlcWall := clamp row.hlcWall
    hlcCounter := (clamp row.hlcCounter).toUInt32
    cose := row.cose
    origin := ← OpOrigin.parse row.origin
    recordedAt := row.recordedAt }

def checkTextColumn (opId field stored signed : String) : Except SyncFault Unit :=
  if stored ≠ signed then
    .error (.syncOpUnverified opId
      s!"{field} column says {repr stored}, the signed op says {repr signed}")
  else .ok ()

def checkNumberColumn (opId field : String) (stored signed : UInt64) : Except SyncFault Unit :=
  if stored ≠ signed then
    .error (.syncOpUnverified opId s!"{field} column says {stored}, the signed op says {signed}")
  else .ok ()

/-- The operation in the envelope, if its signature holds and the columns agree with it. -/
def StoredOp.verify (E : Engine) (stored : StoredOp) : Except SyncFault SyncOp := do
  let op ← match E.verifyOpBytes stored.cose with
    | .ok op => .ok op
    | .error err => .error (.syncOpUnverified stored.opId s!"signature: {err}")
  let derived := encodeHex (E.opId op)
  if derived ≠ stored.opId then
    throw (.syncOpUnverified stored.opId
      s!"op-id is {stored.opId}, but this op's content addresses to {derived}")
  checkTextColumn stored.opId "ns" stored.ns op.ns
  checkTextColumn stored.opId "target" stored.target op.target
  checkTextColumn stored.opId "author" stored.author (encodeHex op.hlc.author)
  checkNumberColumn stored.opId "kind" stored.kind.toUInt64 op.kind.toUInt64
  checkNumberColumn stored.opId "hlc_wall" stored.hlcWall op.hlc.wall
  checkNumberColumn stored.opId "hlc_counter" stored.hlcCounter.toUInt64 op.hlc.counter.toUInt64
  return op

/-- The order of the log: the stamp, then the content address. -/
def opOrder (a b : OpRow) : Prop :=
  a.hlcWall < b.hlcWall ∨ a.hlcWall = b.hlcWall ∧
    (a.hlcCounter < b.hlcCounter ∨ a.hlcCounter = b.hlcCounter ∧ a.opId ≤ b.opId)

instance (a b : OpRow) : Decidable (opOrder a b) :=
  inferInstanceAs (Decidable (_ ∨ _))

def ops (db : SyncDb) (ns : Option String) (limit : Option ℕ) : Except SyncFault (List StoredOp) :=
  let rows := (db.oplog.filter fun row ↦ ns.all (row.ns = ·)).insertionSort opOrder
  (match limit with
    | some n => rows.take n
    | none => rows).mapM mapOp

end Log

section Seal

structure SealReport where
  captured : ℕ := 0
  sealed : ℕ := 0
  alreadyPresent : ℕ := 0
  deriving DecidableEq, Repr

/-- The device: whether it has an identity, and the key that the vault hands out for one seal. -/
structure Device (E : Engine) where
  requireIdentity : Except SyncFault Unit
  identityKey : Except SyncFault E.Key

variable (E : Engine)

def payloadOf (db : SyncDb) (entry : Captured) : Except SyncFault (JsonObject × Bool) :=
  if entry.deleted then .ok (tombstone entry.rowId, true)
  else do
    match ← readRow db entry.table entry.rowId with
    | some row => return (row, false)
    -- The row went away after it was captured.
    | none => return (tombstone entry.rowId, true)

def signed {α : Type} : Except String α → Except SyncFault α
  | .ok a => .ok a
  | .error err => .error (.syncMapping s!"signing failed: {err}")

def mapped {α : Type} : Except MapError α → Except SyncFault α
  | .ok a => .ok a
  | .error err => .error (.syncMapping err.toText)

def sealEntry (signing : E.Key) (nowMs : UInt64) (recordedAt : String)
    (progress : SyncClock × SealReport) (entry : Captured) :
    Tx SyncDb SyncFault (SyncClock × SealReport) := do
  let (clock, report) := progress
  let (payload, deleted) ← check (payloadOf (← get) entry)
  let clock ← check (clock.tickBounded E nowMs)
  let op ← check (mapped
    (opForWrite E entry.ns entry.table entry.rowId payload deleted clock.hlc))
  let envelope ← check (signed (E.signOp signing op))
  if ← insertOp E op envelope .local recordedAt then
    return (clock, { report with sealed := report.sealed + 1 })
  else return (clock, { report with alreadyPresent := report.alreadyPresent + 1 })

/-- The transaction of a seal, `entries` being what was drained. -/
def sealEntries (signing : E.Key) (nowMs : UInt64) (recordedAt : String)
    (entries : List Captured) : Tx SyncDb SyncFault SealReport := do
  let highWater := (entries.map Captured.seq).max?.getD 0
  let clock := SyncClock.load (← get) (E.publicKey signing)
  let (clock, report) ← (coalesce entries).foldlM (sealEntry E signing nowMs recordedAt)
    (clock, { captured := entries.length })
  modify clock.store
  modify fun db ↦ { db with outbox := db.outbox.filter fun entry ↦ ¬entry.seq ≤ highWater }
  return report

def sealAt (device : Device E) (nowMs : UInt64) (recordedAt : String) :
    Tx SyncDb SyncFault SealReport := do
  check device.requireIdentity
  let entries := drainList (← get)
  if entries.isEmpty then return {}
  let signing ← check device.identityKey
  sealEntries E signing nowMs recordedAt entries

/-- A reading of the system clock in nanoseconds since 1970. Its year has at most six digits. -/
structure Instant where
  nanos : ℤ
  bounded : nanos.natAbs ≤ 32 * 10 ^ 21

def nowMs (now : Instant) : UInt64 :=
  let millis := max now.nanos 0 / 1000000
  if millis < 2 ^ 64 then UInt64.ofNat millis.toNat else 0

def «seal» (device : Device E) (now : Instant) (recordedAt : String) :
    Tx SyncDb SyncFault SealReport :=
  sealAt E device (nowMs now) recordedAt

end Seal

section Status

structure VersionLine where
  author : String
  wall : UInt64
  counter : UInt32
  deriving DecidableEq, Repr

def maxColumn (column : OpRow → Int64) (rows : List OpRow) : Option Int64 :=
  (rows.map column).max?

/-- The line of an author: the greatest wall and the greatest counter, each on its own. -/
def versionLine (db : SyncDb) (author : String) : Option VersionLine := do
  let rows := db.oplog.filter fun row ↦ row.author = author
  let wall ← maxColumn OpRow.hlcWall rows
  let counter ← maxColumn OpRow.hlcCounter rows
  return { author, wall := wall.toUInt64, counter := counter.toUInt64.toUInt32 }

def versionVector (db : SyncDb) : List VersionLine :=
  ((db.oplog.map OpRow.author).dedup.insertionSort (· ≤ ·)).filterMap (versionLine db)

end Status

end SlipScan.Model.SyncLog
