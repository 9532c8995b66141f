import SlipScan.Model.CsvStatement
import SlipScan.Model.Mail
import Mathlib.Data.List.Sort
import Mathlib.Data.UInt

namespace SlipScan.Model.MailConnectors

open Model.Mail Foundation.Transaction Foundation.Interleaving Process
open Model.CsvStatement (parseU32)

def setCursor {μ τ : Type} (key value : String) : Tx (World μ τ) IngestError Unit := fun w ↦
  .ok ((), { w with cursors := fun k ↦ if k = key then some value else w.cursors k })

section Imap

structure ImapConfig where
  host : String
  folder : String
  username : String
  deriving DecidableEq, Repr

def ImapConfig.cursorKey (config : ImapConfig) : String :=
  s!"imap:{config.host}:{config.username}:{config.folder}"

structure ImapTransport where
  selectFolder : Except IngestError Unit
  /-- May name messages below the one that is asked for. -/
  uidSearchFrom : UInt32 → Except IngestError (List UInt32)
  uidFetchRaw : UInt32 → Except IngestError (Option (List UInt8))

def uidText (uid : UInt32) : String :=
  String.ofList (Nat.toDigits 10 uid.toNat)

def readUid (text : String) : Option UInt32 :=
  (parseU32 text.toList).map UInt32.ofNat

def parseUid (messageId : String) : Except IngestError UInt32 :=
  match readUid messageId with
  | some uid => .ok uid
  | none => .error (.state s!"not an IMAP UID: {repr messageId}")

def saturatingSucc (uid : UInt32) : UInt32 :=
  if uid = 2 ^ 32 - 1 then uid else uid + 1

variable {μ τ : Type} (transport : μ → ImapTransport) (h : MailHost) (config : ImapConfig)

def lastSeenUid (cursors : String → Option String) : Except IngestError UInt32 :=
  match cursors config.cursorKey with
  | none => .ok 0
  | some raw =>
    match readUid raw with
    | some uid => .ok uid
    | none => .error (.state s!"corrupt IMAP cursor: {repr raw}")

def ensureFolder (folderSelected : Bool) : Sync μ τ Bool := do
  if folderSelected then return true
  else
    let selected ← query fun w ↦ (transport w.mailbox).selectFolder
    ofExcept selected
    return true

def Imap.listNew (folderSelected : Bool) : Sync μ τ (List String × Bool) := do
  let folderSelected ← ensureFolder transport folderSelected
  let stored ← query fun w ↦ lastSeenUid config w.cursors
  let lastSeen ← ofExcept stored
  let answer ← query fun w ↦ (transport w.mailbox).uidSearchFrom (saturatingSucc lastSeen)
  let found ← ofExcept answer
  let uids := ((found.filter (lastSeen < ·)).insertionSort (· ≤ ·)).dedup
  return (uids.map uidText, folderSelected)

def Imap.fetchMessage (folderSelected : Bool) (messageId : String) :
    Sync μ τ (Option InboundMessage) := do
  let _ ← ensureFolder transport folderSelected
  let uid ← ofExcept (parseUid messageId)
  let answer ← query fun w ↦ (transport w.mailbox).uidFetchRaw uid
  match ← ofExcept answer with
  | some raw => ofExcept ((parseInbound h raw messageId).map some)
  | none => return none

def Imap.markProcessed (folderSelected : Bool) (messageId : String) :
    Tx (World μ τ) IngestError Bool := do
  let uid ← check (parseUid messageId)
  let lastSeen ← check (lastSeenUid config (← get).cursors)
  if lastSeen < uid then setCursor config.cursorKey (uidText uid)
  return folderSelected

/-- The memory of the connector is whether it has selected its folder. -/
def imapConnector : MailboxConnector μ τ Bool where
  listNew := Imap.listNew transport config
  fetchMessage := Imap.fetchMessage transport h
  markProcessed := Imap.markProcessed config

end Imap

end SlipScan.Model.MailConnectors
