import SlipScan.Model.Dedupe
import SlipScan.Model.Service

namespace SlipScan.Model.Recon

open Model.Domain Model.Database Model.Dedupe Model.Ledger Model.Money Model.Generate Model.Reports
  Model.Slip Foundation.Transaction Foundation.Interleaving Foundation.Table Foundation.Calendar

/-- The arithmetic of the scores. The program scores with floating-point numbers, and nothing is
assumed of their operations. -/
class Score (C : Type) extends Add C, Sub C, Mul C, Div C, OfScientific C, Min C where
  ofInt : ℤ → C
  /-- The integer part. -/
  truncate : C → ℤ
  le : C → C → Bool
  lt : C → C → Bool

structure StatementLine extends Transaction where
  documentId : Option String

structure Extraction where
  documentId : String
  bookId : String
  payload : Option String
  isCurrent : Bool

structure Match (C : Type) where
  id : String
  bookId : String
  transactionId : String
  documentId : Option String
  journalId : Option String
  state : ReconState
  confidence : C
  amountDeltaMinor : ℤ
  dateDeltaDays : ℤ
  merchantScore : C
  createdAt : String
  updatedAt : String

structure ReconDb (C : Type) where
  ledger : Db := {}
  transactions : List StatementLine := []
  extractions : List Extraction := []
  reconMatches : List (Match C) := []
  minted : ℕ := 0

structure ReconHost extends Host where
  letters : CharClasses
  parseSlip : String → Except Fault SlipPayload

variable {C : Type}

abbrev ReconTx (C : Type) := Tx (ReconDb C) Fault

abbrev ReconService (C : Type) := Process (ReconDb C) Unit Fault

def Match.Active (m : Match C) : Prop :=
  m.state ≠ .rejected

instance (m : Match C) : Decidable m.Active :=
  inferInstanceAs (Decidable (_ ≠ _))

section Queries

variable (s : ReconDb C) (bookId : String)

def bookMatches : List (Match C) :=
  s.reconMatches.filter fun m ↦ m.bookId = bookId

def activelyMatchedTransactionIds : List String :=
  ((bookMatches s bookId).filter fun m ↦ m.Active).map Match.transactionId

def activelyMatchedDocumentIds : List String :=
  ((bookMatches s bookId).filter fun m ↦ m.Active).filterMap Match.documentId

def activelyMatchedJournalIds : List String :=
  ((bookMatches s bookId).filter fun m ↦ m.Active).filterMap Match.journalId

def rejectedDocumentPairs : List (String × String) :=
  ((bookMatches s bookId).filter fun m ↦ ¬m.Active).filterMap fun m ↦
    m.documentId.map fun d ↦ (m.transactionId, d)

def rejectedJournalPairs : List (String × String) :=
  ((bookMatches s bookId).filter fun m ↦ ¬m.Active).filterMap fun m ↦
    m.journalId.map fun j ↦ (m.transactionId, j)

def listOpen : List (Match C) :=
  ((bookMatches s bookId).filter fun m ↦ m.state = .auto ∨ m.state = .suggested).insertionSort
    fun a b ↦ toLex (b.createdAt, b.id) ≤ toLex (a.createdAt, a.id)

def transactionList : List StatementLine :=
  (s.transactions.filter fun t ↦ t.bookId = bookId).insertionSort
    fun a b ↦ toLex (b.postedDate, b.id) ≤ toLex (a.postedDate, a.id)

def currentExtractionPayloads : List (String × String × String) :=
  (s.extractions.filter fun e ↦ e.bookId = bookId ∧ e.isCurrent).filterMap fun e ↦ do
    let document ← lookup Document.id s.ledger.documents e.documentId
    return (e.documentId, ← e.payload, document.createdAt)

end Queries

section Scoring

def reconDateWindowDays : ℤ := 7

def bigrams (s : String) : List (Char × Char) :=
  s.toList.zip s.toList.tail

/-- The pairs on the right that are paired off with equal ones on the left. -/
def sharedBigrams (left right : List (Char × Char)) : ℕ :=
  (right.foldl (fun (counts, shared) g ↦
    if g ∈ counts then (counts.erase g, shared + 1) else (counts, shared)) (left, 0)).2

variable [Score C]

def merchantSimilarity (U : CharClasses) (a b : String) : C :=
  let a := normalizeMerchant U a
  let b := normalizeMerchant U b
  let left := bigrams a
  let right := bigrams b
  if a.isEmpty ∨ b.isEmpty then 0.0
  else if a = b then 1.0
  else if left.isEmpty ∨ right.isEmpty then 0.0
  else 2.0 * Score.ofInt (sharedBigrams left right) / Score.ofInt (left.length + right.length)

def daysBetween (h : Host) (a b : String) : Except Fault ℤ := do
  let a ← parseDate h a
  let b ← parseDate h b
  return |a.number - b.number|

def dateScore (h : Host) (postedDate date : String) : Option (ℤ × C) :=
  match daysBetween h postedDate date with
  | .error _ => none
  | .ok days =>
    if days > reconDateWindowDays then none
    else some (days, 1.0 - Score.ofInt days / Score.ofInt reconDateWindowDays)

def reconMinConfidence : C := 0.55

def reconAutoConfidence : C := 0.9

def reconWeightAmount : C := 0.55

def reconWeightDate : C := 0.25

def reconWeightMerchant : C := 0.20

def reconAmountTolerance : C := 0.05

end Scoring

section Candidates

structure DocCandidate where
  documentId : String
  totalMinor : ℤ
  date : Option String
  merchant : Option String
  currency : Option String

structure ReconCandidate (C : Type) where
  documentId : Option String
  journalId : Option String
  confidence : C
  amountDeltaMinor : ℤ
  dateDeltaDays : ℤ
  merchantScore : C

variable (h : ReconHost) [Score C]

/-- A slip that was read. Its currency is normalised if that is possible. -/
def docCandidate (documentId payload createdAt : String) : Option DocCandidate :=
  (h.parseSlip payload).toOption.map fun slip ↦
    { documentId
      totalMinor := slip.totalMinor
      date := (slip.purchaseDate h.toHost).or (some (datePart createdAt))
      merchant := slip.merchantName
      currency := slip.currency.map fun c ↦ (normalizeCurrencyCode c).toOption.getD c }

def docCandidates (s : ReconDb C) (bookId : String) : List DocCandidate :=
  (currentExtractionPayloads s bookId).filterMap fun (documentId, payload, createdAt) ↦
    docCandidate h documentId payload createdAt

def bankCoaFor (db : Db) (bookId accountId : String) : Option String :=
  match getCoaMap db bookId .account accountId with
  | some entry => some entry.coaId
  | none => (getCoaByCode db bookId coaCodeBank).map CoaAccount.id

/-- What a run of the matching reads before its transaction. -/
structure ReconInputs where
  book : Book
  matchedTxns : List String
  rejected : List (String × String)
  rejectedJournals : List (String × String)
  docs : List DocCandidate
  ledgerLines : List BankSideJournalLine

structure Taken where
  docs : List String
  journals : List String

variable (inputs : ReconInputs) (taken : Taken) (txn : StatementLine)

def linkCandidate : Option (ReconCandidate C) :=
  match txn.documentId with
  | none => none
  | some documentId =>
    if documentId ∈ taken.docs ∨ (txn.id, documentId) ∈ inputs.rejected then none
    else
      some
        { documentId := some documentId
          journalId := none
          confidence := 0.95
          amountDeltaMinor := 0
          dateDeltaDays := 0
          merchantScore := 0.0 }

def txnAbs : ℤ :=
  asI64 |txn.amountMinor|

def documentCandidate (doc : DocCandidate) : Option (ReconCandidate C) :=
  if doc.documentId ∈ taken.docs ∨ (txn.id, doc.documentId) ∈ inputs.rejected ∨
      txn.documentId = some doc.documentId ∨ doc.totalMinor ≤ 0 ∨ txn.amountMinor ≥ 0 then none
  else if doc.currency.getD inputs.book.currency ≠ txn.currency then none
  else
    let amountDelta := asI64 |asI64 (txnAbs txn - doc.totalMinor)|
    let tolerance := Score.truncate (Score.ofInt doc.totalMinor * (reconAmountTolerance : C))
    if amountDelta > tolerance then none
    else
      let amountScore : C := if tolerance = 0 then 1.0
        else 1.0 - Score.ofInt amountDelta / Score.ofInt tolerance
      let dated : Option (ℤ × C) := match doc.date with
        | none => some (reconDateWindowDays, 0.0)
        | some date => dateScore h.toHost txn.postedDate date
      dated.map fun (dateDelta, dateScore) ↦
        let merchantScore : C := merchantSimilarity h.letters (txn.merchant.getD "")
          (doc.merchant.getD "")
        { documentId := some doc.documentId
          journalId := none
          confidence := reconWeightAmount * amountScore + reconWeightDate * dateScore +
            reconWeightMerchant * merchantScore
          amountDeltaMinor := amountDelta
          dateDeltaDays := dateDelta
          merchantScore }

def SideMatches (entry : BankSideJournalLine) : Prop :=
  if txn.amountMinor < 0 then entry.creditMinor = txnAbs txn else entry.debitMinor = txnAbs txn

instance (entry : BankSideJournalLine) : Decidable (SideMatches txn entry) :=
  inferInstanceAs (Decidable (ite _ _ _))

def journalCandidate (expectedBankCoa : Option String) (entry : BankSideJournalLine) :
    Option (ReconCandidate C) :=
  if entry.journalId ∈ taken.journals ∨ (txn.id, entry.journalId) ∈ inputs.rejectedJournals ∨
      entry.currency ≠ txn.currency then none
  else if expectedBankCoa ≠ some entry.coaId then none
  else if ¬SideMatches txn entry then none
  else
    let dated : Option (ℤ × C) := dateScore h.toHost txn.postedDate entry.postedDate
    dated.map fun (dateDelta, dateScore) ↦
      let merchantScore : C := merchantSimilarity h.letters (txn.merchant.getD "")
        (entry.narrative.getD "")
      { documentId := none
        journalId := some entry.journalId
        confidence := reconWeightAmount + reconWeightDate * dateScore +
          reconWeightMerchant * merchantScore
        amountDeltaMinor := 0
        dateDeltaDays := dateDelta
        merchantScore }

def candidates (expectedBankCoa : Option String) : List (ReconCandidate C) :=
  (linkCandidate inputs taken txn).toList ++
    inputs.docs.filterMap (documentCandidate h inputs taken txn) ++
    inputs.ledgerLines.filterMap (journalCandidate h inputs taken txn expectedBankCoa)

/-- Keeps the first of the best candidates that are good enough. -/
def consider (best : Option (ReconCandidate C)) (candidate : ReconCandidate C) :
    Option (ReconCandidate C) :=
  if Score.le reconMinConfidence candidate.confidence ∧
      (∀ b ∈ best, Score.lt b.confidence candidate.confidence) then some candidate
  else best

def bestCandidate (expectedBankCoa : Option String) : Option (ReconCandidate C) :=
  (candidates h inputs taken txn expectedBankCoa).foldl consider none

end Candidates

section Suggest

variable (h : ReconHost)

def mintId : ReconTx C String := do
  let n := (← get).minted
  modify fun s ↦ { s with minted := n + 1 }
  return h.newId n

def currentTime : ReconTx C String :=
  return h.nowIso (← get).minted

def enforce (c : Prop) [Decidable c] (message : String) : ReconTx C Unit :=
  if c then pure () else throw (.sqlite message)

variable [Score C]

def insertMatch (m : Match C) : ReconTx C Unit := do
  let s ← get
  enforce (∀ x ∈ s.reconMatches, x.id ≠ m.id) "UNIQUE constraint failed: recon_matches.id"
  enforce (m.Active → ∀ x ∈ s.reconMatches, x.Active → x.transactionId ≠ m.transactionId)
    "UNIQUE constraint failed: recon_matches.transaction_id"
  enforce (references Book.id s.ledger.books m.bookId ∧
    references (fun t : StatementLine ↦ t.id) s.transactions m.transactionId ∧
    (∀ d ∈ m.documentId, references Document.id s.ledger.documents d) ∧
    ∀ j ∈ m.journalId, references Journal.id s.ledger.journals j) "FOREIGN KEY constraint failed"
  enforce (Score.le 0.0 m.confidence ∧ Score.le m.confidence 1.0 ∧ 0 ≤ m.amountDeltaMinor ∧
    0 ≤ m.dateDeltaDays ∧ Score.le 0.0 m.merchantScore ∧ Score.le m.merchantScore 1.0)
    "CHECK constraint failed: recon_matches"
  modify fun s ↦ { s with reconMatches := s.reconMatches ++ [m] }

def record (bookId : String) (taken : Taken) (txn : StatementLine) (chosen : ReconCandidate C) :
    ReconTx C Taken := do
  let now ← currentTime h
  let id ← mintId h
  insertMatch
    { id
      bookId
      transactionId := txn.id
      documentId := chosen.documentId
      journalId := chosen.journalId
      state := if Score.le reconAutoConfidence chosen.confidence then .auto else .suggested
      confidence := min chosen.confidence 1.0
      amountDeltaMinor := chosen.amountDeltaMinor
      dateDeltaDays := chosen.dateDeltaDays
      merchantScore := chosen.merchantScore
      createdAt := now
      updatedAt := now }
  return ⟨chosen.documentId.toList ++ taken.docs, chosen.journalId.toList ++ taken.journals⟩

def suggestFor (bookId : String) (inputs : ReconInputs) (taken : Taken) (txn : StatementLine) :
    ReconTx C Taken := do
  if txn.id ∈ inputs.matchedTxns ∨ txn.status = .rejected then return taken
  else if txnAbs txn = 0 then return taken
  else
    let s ← get
    match bestCandidate h inputs taken txn (bankCoaFor s.ledger bookId txn.accountId) with
    | some chosen => record h bookId taken txn chosen
    | none => return taken

def reconSuggest (bookId : String) : ReconService C (List (Match C)) := do
  let book ← Process.ofExcept
    (← Process.query fun s ↦ orNotFound "book" bookId (getBook s.ledger bookId))
  let matchedTxns ← Process.query fun s ↦ activelyMatchedTransactionIds s bookId
  let matchedDocs ← Process.query fun s ↦ activelyMatchedDocumentIds s bookId
  let matchedJournals ← Process.query fun s ↦ activelyMatchedJournalIds s bookId
  let rejected ← Process.query fun s ↦ rejectedDocumentPairs s bookId
  let rejectedJournals ← Process.query fun s ↦ rejectedJournalPairs s bookId
  let docs ← Process.query fun s ↦ docCandidates h s bookId
  let ledgerLines ← Process.ofExcept
    (← Process.query fun s ↦ bankSideJournalLines s.ledger bookId)
  let txns ← Process.query fun s ↦ transactionList s bookId
  let inputs := ⟨book, matchedTxns, rejected, rejectedJournals, docs, ledgerLines⟩
  let _ ← Process.atomically []
    (txns.foldlM (suggestFor h bookId inputs) ⟨matchedDocs, matchedJournals⟩)
  Process.query fun s ↦ listOpen s bookId

end Suggest

section State

variable (h : ReconHost)

def stateText : ReconState → String
  | .auto => "auto"
  | .suggested => "suggested"
  | .confirmed => "confirmed"
  | .rejected => "rejected"

def setState (matchId : String) (state : ReconState) (updatedAt : String) : ReconTx C Unit :=
  modify fun s ↦
    { s with
      reconMatches := update Match.id s.reconMatches matchId fun m ↦ { m with state, updatedAt } }

/-- Confirms or rejects a match. What is confirmed stays, and what is rejected too. -/
def reconSetState (matchId : String) (state : ReconState) : ReconService C (Match C) := do
  let before ← Process.ofExcept
    (← Process.query fun s ↦
      orNotFound "recon_match" matchId (lookup Match.id s.reconMatches matchId))
  Process.ofExcept
    (if before.state = .confirmed ∧ state ≠ .confirmed then
      .error (.invalidStatusTransition (stateText before.state) (stateText state))
    else .ok ())
  Process.ofExcept
    (if before.state = .rejected ∧ state = .confirmed then
      .error (.invalidStatusTransition (stateText before.state) (stateText state))
    else .ok ())
  let now ← Process.query fun s ↦ h.nowIso s.minted
  Process.atomically [] (setState matchId state now)
  return { before with state, updatedAt := now }

def reconConfirm (matchId : String) : ReconService C (Match C) :=
  reconSetState h matchId .confirmed

def reconReject (matchId : String) : ReconService C (Match C) :=
  reconSetState h matchId .rejected

end State

section Runs

variable (h : ReconHost) [Score C]

/-- One step of a run on one connection. The other calls of the service may change what the
matching reads, and they leave its matches alone. -/
inductive Step (s : ReconDb C) : ReconDb C → Prop
  | suggest (bookId : String) : Step s ((reconSuggest h bookId).run s).2
  | confirm (matchId : String) : Step s ((reconConfirm h matchId).run s).2
  | reject (matchId : String) : Step s ((reconReject h matchId).run s).2
  | ledger {ledger : Db}
    (hledger : Service.Step h.toHost h.parseSlip Service.anyCall s.ledger ledger) :
    Step s { s with ledger }
  | elsewhere {s' : ReconDb C} (hledger : s'.ledger = s.ledger)
    (hmatches : s'.reconMatches = s.reconMatches) : Step s s'

def Reachable (s : ReconDb C) : Prop :=
  Relation.ReflTransGen (Step h) {} s

end Runs

end SlipScan.Model.Recon
