import SlipScan.Foundation.Files
import SlipScan.Foundation.Table
import Mathlib.Data.Int.Notation

namespace SlipScan.Model.DataDir

open Foundation.Files Foundation.Interleaving Foundation.Table Foundation.Transaction

/-- The components of an absolute path. -/
abbrev Path := List String

inductive MoveFault
  | dataDir (message : String)
  | dataMove (message : String)
  | targetHasDatabase (path : String)
  | io (message : String)
  | sqlite (message : String)

def MoveFault.text : MoveFault → String
  | .dataDir message | .dataMove message | .io message | .sqlite message => message
  | .targetHasDatabase path => path

structure PointerFile where
  version : ℕ
  dataDir : String

structure MoveJournal where
  version : ℕ
  source : String
  target : String
  dbSha256 : String

structure DocumentRow where
  id : String
  filePath : String
  deriving DecidableEq

structure AuditEntry where
  id : String
  entityType : String
  action : String
  before : String
  after : String
  documentsRewritten : ℕ
  createdAt : String
  deriving DecidableEq

/-- What a database holds: what the move reads and changes, and the rest. -/
structure Contents where
  appliedMigrations : List ℤ
  documents : List DocumentRow
  auditLog : List AuditEntry
  others : Bytes

/-- What the program gets from its platform: SQLite, hashing, JSON, paths, identifiers and the
clock. A database is read from its file and the write-ahead log next to it. -/
structure MoveHost where
  readDatabase : Bytes → Option Bytes → Option Contents
  /-- The log after one more transaction. -/
  appendLog : Bytes → Option Bytes → Contents → Bytes
  /-- The file after a checkpoint. -/
  foldLog : Bytes → Bytes → Bytes
  migrate : Contents → Except String Contents
  integrityCheck : Contents → String
  /-- Whether another connection has the database open. -/
  inUse : Path → Bool
  sha256 : Bytes → String
  pointerText : PointerFile → Bytes
  readPointer : Bytes → Except String PointerFile
  journalText : MoveJournal → Bytes
  readJournal : Bytes → Option MoveJournal
  display : Path → String
  /-- The path that a text names, none when it is relative. -/
  absolutePath : String → Option Path
  newId : String
  nowIso : String

abbrev Fs := Process (Disk Path) Unit MoveFault

def child (dir : Path) (name : String) : Path :=
  dir ++ [name]

def pointerFileName : String := "data_dir.json"

def moveJournalFileName : String := "data_move.json"

def dbFileName : String := "slipscan.db"

def documentsDirName : String := "documents"

def dbPath (dataDir : Path) : Path :=
  child dataDir dbFileName

def dbFiles (dataDir : Path) : List Path :=
  ["", "-wal", "-shm"].map fun suffix ↦ child dataDir (dbFileName ++ suffix)

def walPath (dataDir : Path) : Path :=
  child dataDir (dbFileName ++ "-wal")

def partialPath (dataDir : Path) : Path :=
  child dataDir (dbFileName ++ ".partial")

def partialWalPath (dataDir : Path) : Path :=
  child dataDir (dbFileName ++ ".partial" ++ "-wal")

def documentsDir (dataDir : Path) : Path :=
  child dataDir documentsDirName

structure DataDirResolver where
  configDir : Path
  defaultDataDir : Path

namespace DataDirResolver

variable (h : MoveHost) (r : DataDirResolver) (d : Disk Path)

def pointerPath : Path :=
  child r.configDir pointerFileName

def moveJournalPath : Path :=
  child r.configDir moveJournalFileName

def pointerTarget : Except MoveFault (Option Path) :=
  match d.read r.pointerPath with
  | none => .ok none
  | some raw =>
    match h.readPointer raw with
    | .error e =>
      let pointerPath := h.display r.pointerPath
      let defaultDir := h.display r.defaultDataDir
      .error (.dataDir (s!"pointer file {pointerPath} is malformed ({e}); fix or delete it" ++
        s!" — deleting falls back to the default folder {defaultDir}"))
    | .ok pointer =>
      match h.absolutePath pointer.dataDir with
      | none =>
        let pointerPath := h.display r.pointerPath
        .error (.dataDir (s!"pointer file {pointerPath} names a relative path" ++
          s!" {pointer.dataDir}; the data folder must be absolute"))
      | some target => .ok (some target)

def resolve : Except MoveFault Path :=
  (pointerTarget h r d).map fun target ↦ target.getD r.defaultDataDir

def writePointer (target : Path) : Fs Unit := do
  touch
  writeFile (child r.configDir (pointerFileName ++ ".tmp")) (h.pointerText ⟨1, h.display target⟩)
  touch
  renameFile (child r.configDir (pointerFileName ++ ".tmp")) r.pointerPath
  touch

def readMoveJournal : Option MoveJournal :=
  (d.read r.moveJournalPath).bind h.readJournal

def writeMoveJournal (journal : MoveJournal) : Fs Unit := do
  touch
  writeFile r.moveJournalPath (h.journalText journal)
  touch
  touch

/-- Whether the journal vouches for the database at the target. -/
def JournalMatches (source target : Path) : Prop :=
  ∃ journal ∈ r.readMoveJournal h d, journal.source = h.display source ∧
    journal.target = h.display target ∧
    (d.read (dbPath target)).map h.sha256 = some journal.dbSha256

instance (source target : Path) : Decidable (JournalMatches h r d source target) :=
  inferInstanceAs (Decidable (∃ journal ∈ r.readMoveJournal h d, _))

end DataDirResolver

open DataDirResolver

section Database

variable (h : MoveHost) (db wal : Path)

def contentsAt (d : Disk Path) : Option Contents :=
  (d.read db).bind fun main ↦ h.readDatabase main (d.read wal)

def sqliteTx (f : Contents → Except MoveFault Contents) : Tx (Disk Path) MoveFault Unit := do
  let d ← get
  match d.read db with
  | none => throw (.sqlite "unable to open database file")
  | some main =>
    match h.readDatabase main (d.read wal) with
    | none => throw (.sqlite "file is not a database")
    | some contents =>
      let contents ← check (f contents)
      modify fun d ↦ d.write wal (h.appendLog main (d.read wal) contents)

def sqliteWrite (f : Contents → Except MoveFault Contents) : Fs Unit :=
  Process.atomically [] (sqliteTx h db wal f)

def checkpointTx : Tx (Disk Path) MoveFault Unit := do
  let d ← get
  match d.read db, d.read wal with
  | some main, some log => modify fun d ↦ d.write db (h.foldLog main log)
  | _, _ => pure ()

def checkpoint : Fs Unit :=
  Process.atomically [] (checkpointTx h db wal)

/-- The last connection goes: it folds the log and removes it, if it can. -/
def closeDatabase : Fs Unit := do
  let _ ← Process.attempt do
    checkpoint h db wal
    removeFile wal
  return ()

/-- Folds the log of the source into its database, unless somebody else has the database open. -/
def lockAndQuiesceSource : Fs Unit := do
  if h.inUse db then
    let shown := h.display db
    Process.ofExcept (.error (.dataMove (s!"the database at {shown} is open in another SlipScan" ++
      " process (a desktop window, `slipscan serve`, or another command) — close it and retry;" ++
      " copying while it is open could silently lose its latest transactions")))
  else
    let source ← Process.query (contentsAt h db wal)
    match source with
    | none => Process.ofExcept (.error (.sqlite "file is not a database"))
    | some _ =>
      if (← Process.query fun d ↦ d.read wal).isSome then
        checkpoint h db wal
        Process.atomically [] (modify fun d ↦ d.write wal [])

end Database

section Localize

variable (h : MoveHost) (source target : Path) (oldDocs : List Path)

def stripPrefix (base path : Path) : Option Path :=
  if base <+: path then some (path.drop base.length) else none

/-- The path of a document after the move, if the move copied it. -/
def relocated (row : DocumentRow) : Option String := do
  let path ← h.absolutePath row.filePath
  let rel ← oldDocs.findSome? fun base ↦ stripPrefix base path
  return h.display (documentsDir target ++ rel)

def setFilePath (id filePath : String) (c : Contents) : Contents :=
  { c with documents := update DocumentRow.id c.documents id fun row ↦ { row with filePath } }

def insertAudit (entry : AuditEntry) (c : Contents) : Except MoveFault Contents :=
  if ∃ e ∈ c.auditLog, e.id = entry.id then
    .error (.sqlite "UNIQUE constraint failed: audit_log.id")
  else .ok { c with auditLog := c.auditLog ++ [entry] }

def moveEntry (rewritten : ℕ) : AuditEntry where
  id := h.newId
  entityType := "data_dir"
  action := "move"
  before := h.display source
  after := h.display target
  documentsRewritten := rewritten
  createdAt := h.nowIso

def relocateRows (rewritten : ℕ) : List DocumentRow → Fs ℕ
  | [] => return rewritten
  | row :: rows =>
    match relocated h target oldDocs row with
    | none => relocateRows rewritten rows
    | some filePath => do
      sqliteWrite h (partialPath target) (partialWalPath target) fun c ↦
        .ok (setFilePath row.id filePath c)
      relocateRows (rewritten + 1) rows

def localizeCopy : Fs ℕ := do
  sqliteWrite h (partialPath target) (partialWalPath target) fun c ↦
    (h.migrate c).mapError MoveFault.sqlite
  let opened ← Process.query (contentsAt h (partialPath target) (partialWalPath target))
  match opened with
  | none => Process.ofExcept (.error (.sqlite "file is not a database"))
  | some contents =>
    if contents.appliedMigrations = [] then
      Process.ofExcept (.error (.dataMove
        "the copied database has no schema — copy is not a SlipScan database"))
    else
      let verdict := h.integrityCheck contents
      if verdict ≠ "ok" then
        Process.ofExcept (.error (.dataMove s!"integrity check failed on the copy: {verdict}"))
      else
        let rewritten ← relocateRows h target oldDocs 0 contents.documents
        sqliteWrite h (partialPath target) (partialWalPath target)
          (insertAudit (moveEntry h source target rewritten))
        return rewritten

def checkAndLocalizeCopy : Fs ℕ := do
  let outcome ← Process.attempt (localizeCopy h source target oldDocs)
  closeDatabase h (partialPath target) (partialWalPath target)
  Process.ofExcept outcome

end Localize

section Copy

variable (h : MoveHost)

def copyFileVerified (src dst : Path) : Fs ℕ := do
  touch
  let content ← Process.query fun d ↦ d.read src
  match content with
  | none => Process.ofExcept (.error (.io "No such file or directory"))
  | some content =>
    writeFile dst content
    let srcHash ← Process.query fun d ↦ (d.read src).map h.sha256
    let dstHash ← Process.query fun d ↦ (d.read dst).map h.sha256
    if srcHash ≠ dstHash then
      let _ ← Process.attempt (removeFile dst : Fs Unit)
      let shown := h.display src
      Process.ofExcept (.error (.dataMove (s!"checksum mismatch copying {shown}" ++
        " — is something still writing to the data folder?")))
    else
      touch
      return content.length

def walkFiles (d : Disk Path) (dir : Path) : List Path :=
  d.list fun p ↦ dir <+: p ∧ p ≠ dir

def copyDocuments (srcDocs dstDocs : Path) (copied : ℕ × ℕ) : List Path → Fs (ℕ × ℕ)
  | [] => return copied
  | file :: files =>
    match stripPrefix srcDocs file with
    | none => Process.ofExcept (.error (.dataMove "walked file escaped the documents dir"))
    | some rel => do
      let bytes ← copyFileVerified h file (dstDocs ++ rel)
      copyDocuments srcDocs dstDocs (copied.1 + 1, copied.2 + bytes) files

def removeIfPresent (file : Path) : Fs Unit := do
  if (← Process.query fun d ↦ d.read file).isSome then removeFile file

def removeExisting : List Path → Fs Unit
  | [] => return ()
  | file :: files => do
    removeIfPresent file
    removeExisting files

/-- Everything copied, verified and checked, but the pointer not yet swapped. -/
structure PreparedCopy where
  source : Path
  target : Path
  filesCopied : ℕ
  bytesCopied : ℕ
  documentsRewritten : ℕ

end Copy

section Move

variable (h : MoveHost) (r : DataDirResolver) (target : Path)

def probeTarget : Fs Unit := do
  let probe := child target (".slipscan-write-probe-" ++ h.newId)
  let outcome ← Process.attempt do
    writeFile probe [112, 114, 111, 98, 101]
    removeFile probe
  match outcome with
  | .ok _ => return ()
  | .error e =>
    let shown := h.display target
    Process.ofExcept (.error (.dataMove s!"the target {shown} is not writable: {e.text}"))

/-- Makes room for the database of the copy. Only a database that the journal vouches for goes. -/
def clearTarget (source : Path) : Fs Unit := do
  if (← Process.query fun d ↦ d.read (dbPath target)).isSome then
    let vouched ← Process.query fun d ↦ decide (JournalMatches h r d source target)
    if vouched then removeExisting (dbFiles target)
    else Process.ofExcept (.error (.targetHasDatabase (h.display (dbPath target))))

def checkSource (source : Path) (d : Disk Path) : Except MoveFault Unit :=
  if (d.read (dbPath source)).isNone then
    let shown := h.display (dbPath source)
    .error (.dataMove s!"no database at {shown} — nothing to move")
  else .ok ()

def checkApart (source : Path) : Except MoveFault Unit :=
  if target = source then .error (.dataMove "the target is the current data folder")
  else if source <+: target then
    let shown := h.display target
    let folder := h.display source
    .error (.dataMove (s!"the target {shown} is inside the current data folder {folder}" ++
      " — the old copy could not be removed safely; pick a folder outside it"))
  else .ok ()

def validateTarget : Fs Path := do
  let source ← Process.ofExcept (← Process.query (resolve h r))
  Process.ofExcept (← Process.query (checkSource h source))
  touch
  Process.ofExcept (checkApart h target source)
  probeTarget h target
  clearTarget h r target source
  return source

def prepareCopy : Fs PreparedCopy := do
  let source ← validateTarget h r target
  lockAndQuiesceSource h (dbPath source) (walPath source)
  let dbBytes ← copyFileVerified h (dbPath source) (partialPath target)
  let docFiles ← Process.query fun d ↦ walkFiles d (documentsDir source)
  touch
  let (files, bytes) ← copyDocuments h (documentsDir source) (documentsDir target) (1, dbBytes)
    docFiles
  let rewritten ← checkAndLocalizeCopy h source target [documentsDir source, documentsDir source]
  return ⟨source, target, files, bytes, rewritten⟩

def beginCommit (prepared : PreparedCopy) : Fs Unit := do
  let copy ← Process.query fun d ↦ d.read (partialPath prepared.target)
  match copy with
  | none => Process.ofExcept (.error (.io "No such file or directory"))
  | some copy =>
    writeMoveJournal h r
      ⟨1, h.display prepared.source, h.display prepared.target, h.sha256 copy⟩
    renameFile (partialPath prepared.target) (dbPath prepared.target)
    touch

structure MoveReport where
  source : String
  target : String
  filesCopied : ℕ
  bytesCopied : ℕ
  documentsRewritten : ℕ
  oldRemoved : Bool
  oldRemoveError : Option String

/-- Removes what is there of some files, and keeps the last error. -/
def removeOld (failed : Option String) : List Path → Fs (Option String)
  | [] => return failed
  | file :: files => do
    if (← Process.query fun d ↦ d.read file).isSome then
      match ← Process.attempt (removeFile file : Fs Unit) with
      | .ok _ => removeOld failed files
      | .error e => removeOld (some (h.display file ++ ": " ++ e.text)) files
    else removeOld failed files

def removeAll : List Path → Fs Unit
  | [] => return ()
  | file :: files => do
    removeFile file
    removeAll files

def removeDirAll (dir : Path) : Fs Unit := do
  removeAll (← Process.query fun d ↦ walkFiles d dir)

def checkReadBack (resolved : Path) : Except MoveFault Unit :=
  if resolved ≠ target then
    let shown := h.display resolved
    let expected := h.display target
    .error (.dataMove (s!"pointer read-back resolved {shown} instead of {expected}" ++
      " — the old folder stays active and nothing was deleted"))
  else .ok ()

/-- Removes the old copy once the swap of the pointer can be read back. -/
def finishMove (prepared : PreparedCopy) : Fs MoveReport := do
  let resolved ← Process.ofExcept (← Process.query (resolve h r))
  Process.ofExcept (checkReadBack h prepared.target resolved)
  let failed ← removeOld h none (dbFiles prepared.source)
  let outcome ← Process.attempt (removeDirAll (documentsDir prepared.source))
  let failed := match outcome with
    | .ok _ => failed
    | .error e => some (h.display (documentsDir prepared.source) ++ ": " ++ e.text)
  let _ ← Process.attempt (removeFile r.moveJournalPath : Fs Unit)
  return ⟨h.display prepared.source, h.display prepared.target, prepared.filesCopied,
    prepared.bytesCopied, prepared.documentsRewritten, failed.isNone, failed⟩

def commitMove (prepared : PreparedCopy) : Fs MoveReport := do
  beginCommit h r prepared
  writePointer h r prepared.target
  finishMove h r prepared

def moveDataDir : Fs MoveReport := do
  commitMove h r (← prepareCopy h r target)

end Move

end SlipScan.Model.DataDir
