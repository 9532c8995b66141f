import SlipScan.Foundation.Interleaving
import SlipScan.Model.Database
import SlipScan.Model.Dedupe
import SlipScan.Model.PackTransport
import SlipScan.Model.Region
import Mathlib.Data.List.DropRight

namespace SlipScan.Model.Mail

open Foundation.Transaction Foundation.Interleaving Process
open Model.Database (isWhitespace trim)
open Model.Dedupe (asBytes)
open Model.PackTransport (joinPath)
open Model.Region (eqIgnoreAsciiCase)

inductive CoreError
  | sqlite (message : String)
  | notFound (entity id : String)
  | duplicateDocument (existingId : String)
  deriving DecidableEq, Repr

inductive IngestError
  | connection (message : String)
  | protocol (message : String)
  | http (message : String)
  | parse (message : String)
  | state (message : String)
  | io (message : String)
  | core (e : CoreError)
  deriving DecidableEq, Repr

section Messages

structure Attachment where
  filename : String
  mimeType : String
  bytes : List UInt8
  deriving DecidableEq, Repr

structure InboundMessage where
  id : String
  sender : String
  subject : Option String
  attachments : List Attachment
  receiptHtml : Option String
  bodyText : Option String
  deriving DecidableEq, Repr

structure MimePart where
  attachmentName : Option String
  /-- The type and the subtype. -/
  contentType : Option (String × Option String)
  contents : List UInt8
  deriving DecidableEq, Repr

structure MimeMessage where
  fromAddress : Option String
  subject : Option String
  attachments : List MimePart
  bodyText : Option String
  bodyHtml : Option String
  deriving DecidableEq, Repr

/-- What the sync gets from its host: fresh identifiers, the hash of a file, the MIME parser, and
what it makes of the text of a body. -/
structure MailHost where
  newId : ℕ → String
  sha256Hex : List UInt8 → String
  parseMime : List UInt8 → Option MimeMessage
  /-- The text of an HTML body, without its tags. -/
  htmlText : String → String
  looksLikeReceipt : String → Bool

variable (h : MailHost)

def attachmentExtensions : List String :=
  ["pdf", "png", "jpg", "jpeg", "webp", "heic", "gif", "tif", "tiff"]

def asciiLowercase (s : String) : String :=
  String.ofList (s.toList.map Char.toLower)

def afterLast (p : Char → Bool) (s : String) : String :=
  String.ofList (s.toList.rtakeWhile (!p ·))

def extensionOf (filename : String) : String :=
  asciiLowercase (afterLast (· = '.') filename)

def isDocumentAttachment (filename mimeType : String) : Bool :=
  eqIgnoreAsciiCase mimeType "application/pdf" ||
    "image/".toList.isPrefixOf (asciiLowercase mimeType).toList ||
    extensionOf filename ∈ attachmentExtensions

def MimePart.mimeType (part : MimePart) : String :=
  match part.contentType with
  | some (ctype, some subtype) => s!"{ctype}/{subtype}"
  | some (ctype, none) => ctype
  | none => "application/octet-stream"

def MimePart.attachment (part : MimePart) : Option Attachment :=
  let filename := part.attachmentName.getD "attachment"
  if isDocumentAttachment filename part.mimeType then
    some ⟨filename, part.mimeType, part.contents⟩
  else none

def parseInbound (raw : List UInt8) (fallbackId : String) : Except IngestError InboundMessage :=
  match h.parseMime raw with
  | none => .error (.parse "unparseable MIME message")
  | some msg =>
    let bodyText := (msg.bodyText <|> msg.bodyHtml.map h.htmlText).map trim
    let subjectText := msg.subject.getD ""
    .ok
      { id := fallbackId
        sender := msg.fromAddress.getD "unknown"
        subject := msg.subject
        attachments := msg.attachments.filterMap MimePart.attachment
        receiptHtml := msg.bodyHtml.filter fun html ↦
          h.looksLikeReceipt (subjectText ++ "\n" ++ h.htmlText html)
        bodyText := bodyText.filter (· ≠ "") }

structure MailboxFilter where
  senderAllowlist : List String
  deriving DecidableEq, Repr

/-- An address is allowed by itself and by its domain or one that its domain is under. -/
def allowsEntry (sender entry : String) : Bool :=
  let entry := (asciiLowercase entry).toList
  let domain := (afterLast (· = '@') sender).toList
  sender.toList = entry || ('@' :: entry).isSuffixOf sender.toList ||
    domain = entry || ('.' :: entry).isSuffixOf domain

/-- An empty list allows every sender. -/
def MailboxFilter.allows (filter : MailboxFilter) (sender : String) : Bool :=
  filter.senderAllowlist.isEmpty ||
    filter.senderAllowlist.any (allowsEntry (asciiLowercase sender))

def isControl (c : Char) : Bool :=
  c.toNat < 0x20 || (0x7f ≤ c.toNat && c.toNat < 0xa0)

def sanitizeFilename (raw : String) : String :=
  let base := trim (afterLast (fun c ↦ c = '/' || c = '\\') raw)
  let cleaned := (base.toList.filter (!isControl ·)).map fun c ↦ if c = ':' then '_' else c
  if cleaned = [] then "attachment" else String.ofList cleaned

end Messages

section Documents

inductive DocumentKind
  | slip | invoice | bankStatement | unknown
  deriving DecidableEq, Repr

inductive DocumentSource
  | upload | email | imported
  deriving DecidableEq, Repr

inductive DocumentStatus
  | pending | processing | extracted | reviewed | failed
  deriving DecidableEq, Repr

structure NewDocument where
  bookId : String
  source : DocumentSource
  kind : DocumentKind
  filePath : String
  mimeType : Option String
  sizeBytes : Option ℕ
  originalName : Option String
  sha256 : Option String
  deriving DecidableEq, Repr

structure Document extends NewDocument where
  id : String
  status : DocumentStatus
  deriving DecidableEq, Repr

/-- The mailbox at its provider, and the book and the directory that its mail goes to. -/
structure World (μ τ : Type) where
  mailbox : μ
  books : List String
  documents : List Document
  files : String → Option (List UInt8)
  cursors : String → Option String
  transactions : τ
  /-- The messages that were acknowledged to the mailbox. -/
  acknowledged : List String
  /-- How many identifiers have been handed out. -/
  minted : ℕ

inductive Access
  | mint | directory | document | file | alerts | cursor
  deriving DecidableEq, Repr

abbrev Sync (μ τ : Type) := Process (World μ τ) Access IngestError

variable {μ τ : Type} (h : MailHost)

def newId : Sync μ τ String :=
  atomically [.mint] fun w ↦ .ok (h.newId w.minted, { w with minted := w.minted + 1 })

def findBySha256 (documents : List Document) (bookId sha : String) : Option String :=
  (documents.find? fun d ↦ d.bookId = bookId ∧ d.sha256 = some sha).map Document.id

def insertDocument (document : Document) : Tx (World μ τ) IngestError Unit := fun w ↦
  if w.documents.any fun d ↦ d.id = document.id ∨
      d.bookId = document.bookId ∧ d.sha256.isSome ∧ d.sha256 = document.sha256 then
    .error (.core (.sqlite "UNIQUE constraint failed"))
  else .ok ((), { w with documents := w.documents ++ [document] })

def documentImport (new : NewDocument) : Sync μ τ Document := do
  let books ← query World.books
  if new.bookId ∉ books then fail (.core (.notFound "book" new.bookId))
  else
    let existing ← query fun w ↦ new.sha256.bind (findBySha256 w.documents new.bookId)
    match existing with
    | some existingId => fail (.core (.duplicateDocument existingId))
    | none =>
      let id ← newId h
      let document : Document := { new with id := id, status := .pending }
      atomically [.document] (insertDocument document)
      return document

structure EmailImportOutcome where
  documents : List Document
  duplicates : ℕ
  deriving DecidableEq, Repr

def kindForExtension (ext : String) : DocumentKind :=
  if ext ∈ ["png", "jpg", "jpeg", "webp", "heic", "heif", "gif", "bmp", "avif", "tif", "tiff"] then
    .slip
  else if ext ∈ ["csv", "ofx"] then .bankStatement
  else .unknown

def writeFile (path : String) (bytes : List UInt8) : Tx (World μ τ) IngestError Unit := fun w ↦
  .ok ((), { w with files := fun p ↦ if p = path then some bytes else w.files p })

/-- The row comes first: the file is written only for new content. -/
def importBytes (bookId storedPath : String) (bytes : List UInt8) (kind : DocumentKind)
    (mimeType originalName : Option String) (outcome : EmailImportOutcome) :
    Sync μ τ EmailImportOutcome := do
  let new : NewDocument :=
    { bookId := bookId
      source := .email
      kind := kind
      filePath := storedPath
      mimeType := mimeType
      sizeBytes := some bytes.length
      originalName := originalName
      sha256 := some (h.sha256Hex bytes) }
  match ← (documentImport h new).attempt with
  | .ok doc =>
    atomically [.file] (writeFile storedPath bytes)
    return { outcome with documents := outcome.documents ++ [doc] }
  | .error (.core (.duplicateDocument _)) =>
    return { outcome with duplicates := outcome.duplicates + 1 }
  | .error e => fail e

def importAttachment (bookId storageDir : String) (outcome : EmailImportOutcome)
    (attachment : Attachment) : Sync μ τ EmailImportOutcome := do
  let safeName := sanitizeFilename attachment.filename
  let id ← newId h
  importBytes h bookId (joinPath storageDir (id ++ "-" ++ safeName)) attachment.bytes
    (kindForExtension (extensionOf safeName)) (some attachment.mimeType) (some safeName) outcome

def importReceipt (bookId storageDir : String) (message : InboundMessage)
    (outcome : EmailImportOutcome) (html : String) : Sync μ τ EmailImportOutcome := do
  let id ← newId h
  let original := message.subject.getD "email-receipt"
  importBytes h bookId (joinPath storageDir (id ++ "-body.html")) (asBytes html) .slip
    (some "text/html") (some (original ++ ".html")) outcome

def importMessageDocuments (bookId storageDir : String) (message : InboundMessage) :
    Sync μ τ EmailImportOutcome := do
  -- The directory is not modelled: its files are known by their paths.
  atomically [.directory] (pure ())
  let outcome ← message.attachments.foldlM (importAttachment h bookId storageDir) ⟨[], 0⟩
  match message.receiptHtml with
  | none => return outcome
  | some html => importReceipt h bookId storageDir message outcome html

end Documents

section Rounds

variable {μ τ κ : Type} (h : MailHost)

/-- A mailbox that the user connected. The memory of the connector is passed along. -/
structure MailboxConnector (μ τ κ : Type) where
  /-- The messages that were not seen yet, oldest first. -/
  listNew : κ → Sync μ τ (List String × κ)
  /-- No message when it vanished after it was listed. -/
  fetchMessage : κ → String → Sync μ τ (Option InboundMessage)
  markProcessed : κ → String → Tx (World μ τ) IngestError κ

variable (c : MailboxConnector μ τ κ)

/-- A message that vanished or cannot be parsed is skipped. -/
def fetchEach (k : κ) : List String → Sync μ τ (List InboundMessage)
  | [] => return []
  | id :: ids => do
    match ← (c.fetchMessage k id).attempt with
    | .ok (some msg) => return msg :: (← fetchEach k ids)
    | .ok none => fetchEach k ids
    | .error (.parse _) => fetchEach k ids
    | .error e => fail e

def fetchUnseen (k : κ) : Sync μ τ (List InboundMessage × κ) := do
  let (ids, k) ← c.listNew k
  return (← fetchEach c k ids, k)

structure MailboxSyncOutcome where
  messagesSeen : ℕ
  messagesFiltered : ℕ
  documents : List Document
  duplicates : ℕ
  deriving DecidableEq, Repr

/-- Makes transactions of the alerts in a message. A message that no rule can read is no error. -/
abbrev AlertSync (τ : Type) := InboundMessage → Tx τ IngestError Unit

def importAlerts (alerts : AlertSync τ) (message : InboundMessage) :
    Tx (World μ τ) IngestError Unit := fun w ↦ do
  let (_, transactions) ← alerts message w.transactions
  return ((), { w with transactions := transactions })

def syncAlerts (message : InboundMessage) : Option (AlertSync τ) → Sync μ τ Unit
  | some alerts => atomically [.alerts] (importAlerts alerts message)
  | none => return ()

def acknowledge (k : κ) (id : String) : Tx (World μ τ) IngestError κ := do
  let k ← c.markProcessed k id
  modify fun w ↦ { w with acknowledged := w.acknowledged ++ [id] }
  return k

structure SyncTarget (τ : Type) where
  bookId : String
  storageDir : String
  filter : MailboxFilter
  alerts : Option (AlertSync τ)

variable (target : SyncTarget τ)

def importMessage (outcome : MailboxSyncOutcome) (message : InboundMessage) :
    Sync μ τ MailboxSyncOutcome := do
  let outcome := { outcome with messagesSeen := outcome.messagesSeen + 1 }
  if target.filter.allows message.sender then
    let imported ← importMessageDocuments h target.bookId target.storageDir message
    syncAlerts message target.alerts
    return { outcome with
      documents := outcome.documents ++ imported.documents
      duplicates := outcome.duplicates + imported.duplicates }
  else return { outcome with messagesFiltered := outcome.messagesFiltered + 1 }

/-- A message is acknowledged once its documents are stored. -/
def importEach (k : κ) (outcome : MailboxSyncOutcome) :
    List InboundMessage → Sync μ τ (MailboxSyncOutcome × κ)
  | [] => return (outcome, k)
  | message :: messages => do
    let outcome ← importMessage h target outcome message
    let k ← atomically [.cursor] (acknowledge c k message.id)
    importEach k outcome messages

def syncMailboxWithAlerts (k : κ) : Sync μ τ (MailboxSyncOutcome × κ) := do
  let (messages, k) ← fetchUnseen c k
  importEach h c target k ⟨0, 0, [], 0⟩ messages

end Rounds

end SlipScan.Model.Mail
