import SlipScan.Foundation.Selection
import SlipScan.Model.Packs
import Mathlib.Algebra.Order.Ring.Unbundled.Rat
import Mathlib.Data.List.MinMax
import Mathlib.Data.List.Sort
import Mathlib.Data.Prod.Lex
import Mathlib.Data.List.Infix

namespace SlipScan.Model.Classification

open Model.Domain Model.Database Model.Dedupe Model.Packs Foundation.Transaction
  Foundation.Interleaving Foundation.Table Foundation.Selection

section MerchantKey

def genericStatementWords : List String :=
  ["account", "admin", "atm", "auto", "balance", "bank", "banking", "branch", "brought", "card",
    "cash", "charge", "charges", "cheque", "credit", "date", "debit", "deposit", "eft", "fee",
    "fees", "forward", "from", "immediate", "instant", "interest", "internet", "monthly",
    "notification", "online", "order", "orders", "payment", "payments", "pmt", "pos", "purchase",
    "ref", "reference", "reversal", "savings", "service", "sms", "statement", "tfr", "transaction",
    "transfer", "trf", "unpaid", "value", "withdrawal"]

def monthAbbreviations : List String :=
  ["jan", "feb", "mar", "apr", "may", "jun", "jul", "aug", "sep", "oct", "nov", "dec"]

def maxDerivedMerchantTokens : ℕ := 8

def isAsciiDigit (c : Char) : Bool :=
  '0' ≤ c && c ≤ '9'

/-- A token that changes between two statement lines that are otherwise the same. -/
def isVolatileToken (token : List Char) : Bool :=
  let digits := (token.filter isAsciiDigit).length
  if digits ≥ 3 then true
  else if digits = 0 then false
  else String.ofList (token.filter isAsciiAlphabetic) ∈ monthAbbreviations

variable (h : PackHost)

def isNameLike (token : List Char) : Bool :=
  (token.filter h.isAlphabetic).length ≥ 3

def merchantKeyFromDescription (description : String) : Option String :=
  let normalized := normalizeMerchant h.letters description
  let kept := (normalized.toList.splitOn ' ').filter fun token ↦
    token ≠ [] ∧ !isVolatileToken token
  if kept = [] ∨ kept.length > maxDerivedMerchantTokens then none
  else if kept.any fun token ↦
      isNameLike h token ∧ String.ofList token ∉ genericStatementWords then
    some (" ".intercalate (kept.map String.ofList))
  else none

def sourceMerchant (merchant : Option String) : Option String :=
  (merchant.map (normalizeMerchant h.letters)).filter (· ≠ "")

def merchantKey (merchant description : Option String) : Option String :=
  match sourceMerchant h merchant with
  | some m => some m
  | none => description.bind (merchantKeyFromDescription h)

end MerchantKey

section Classifier

variable (h : PackHost)

def ruleTier : RuleKind → ℕ
  | .exact => 0
  | .contains => 1
  | .regex => 2
  | .keyword => 3

/-- The rules of a book by pack, or nothing if one of them does not compile. -/
def loadRules (db : PackDb) (bookId : String) : Option (List PackRule) :=
  let rules := (db.packRules.filter fun r ↦ r.bookId = bookId).insertionSort fun a b ↦
    toLex (a.packId, a.position) ≤ toLex (b.packId, b.position)
  if ∀ r ∈ rules, r.ruleKind = .regex → (h.regex r.pattern).isSome then some rules else none

def ruleMatches (merchant text : String) (rule : PackRule) : Bool :=
  match rule.ruleKind with
  | .exact => merchant = rule.pattern
  | .contains => decide (rule.pattern.toList <:+: merchant.toList)
  | .regex => (h.regex rule.pattern).any fun regex ↦ regex merchant
  | .keyword => decide (rule.pattern.toList <:+: text.toList)

/-- A better rule is `lt` a worse one. -/
def compareRules (a b : PackRule) : Ordering :=
  (compare (ruleTier a.ruleKind) (ruleTier b.ruleKind)).then <|
  (compare b.confidence a.confidence).then <|
  (compare b.pattern.utf8ByteSize a.pattern.utf8ByteSize).then <|
  (compare a.packId b.packId).then <|
  compare a.position b.position

structure Suggestion where
  categoryId : String
  confidence : ℚ
  packId : String
  matchedPattern : String
  deriving DecidableEq

def suggestionOf (rule : PackRule) : Suggestion where
  categoryId := rule.categoryId
  confidence := rule.confidence
  packId := rule.packId
  matchedPattern := rule.pattern

def searchedText (merchant : String) (description : Option String) : String :=
  match description with
  | some description => s!"{merchant} {normalizeMerchant h.letters description}"
  | none => merchant

def suggestWithDescription (rules : List PackRule) (merchantRaw : String)
    (description : Option String) : Option Suggestion :=
  let merchant := normalizeMerchant h.letters merchantRaw
  if merchant = "" then none
  else
    (minBy compareRules
      (rules.filter (ruleMatches h merchant (searchedText h merchant description)))).map
      suggestionOf

structure CategorySuggestion where
  categoryId : String
  confidence : ℚ
  deriving DecidableEq

def suggest (db : PackDb) (bookId merchantNormalized : String) (description : Option String) :
    Option CategorySuggestion := do
  let rules ← loadRules h db bookId
  let hit ← suggestWithDescription h rules merchantNormalized description
  return ⟨hit.categoryId, hit.confidence⟩

/-- A suggestion of a category that the book does not have is dropped. -/
def usableSuggestion (db : PackDb) (bookId merchantNormalized : String)
    (description : Option String) : Option CategorySuggestion :=
  (suggest h db bookId merchantNormalized description).filter fun hit ↦
    (db.categories.find hit.categoryId).any fun category ↦ category.bookId = bookId

end Classifier

section Calls

variable (h : PackHost)

def getMapping (db : PackDb) (bookId merchantNormalized : String) : Option MerchantMapping :=
  db.merchantMappings.find (bookId, merchantNormalized)

def upsertMapping (bookId merchantNormalized categoryId : String) (source : MappingSource)
    (confidence : ℚ) : PackTx Unit := do
  let now := currentTime h (← get)
  let id ← mintId h
  writeMapping
    { id
      bookId
      merchantNormalized
      categoryId
      source
      confidence
      appliedCount := 1
      createdAt := now
      updatedAt := now }
    (MerchantMapping.overwrite categoryId source confidence now) (key_overwrite _ _ _ _)

def classifyByPacks (bookId merchantNormalized : String) (description : Option String) :
    PackTx (Option String) := do
  match usableSuggestion h (← get) bookId merchantNormalized description with
  | none => return none
  | some hit =>
    upsertMapping h bookId merchantNormalized hit.categoryId .pack hit.confidence
    return some hit.categoryId

/-- The category of a new transaction. A mapping wins, the packs are asked without one. -/
def categorise (new : NewTransaction) (merchantNormalized : Option String) :
    PackTx (Option String) := do
  match new.categoryId, merchantNormalized with
  | some categoryId, _ => return some categoryId
  | none, none => return none
  | none, some m =>
    match getMapping (← get) new.bookId m with
    | some mapping => return some mapping.categoryId
    | none =>
      if h.classifierRegistered then classifyByPacks h new.bookId m new.description
      else return none

def checkDuplicates (db : PackDb) (new : NewTransaction) (dedupeHash : String) :
    Except Fault Unit := do
  Banking.checkDuplicate (new.providerTxnId.bind fun pid ↦ (db.transactions.find? fun t ↦
    t.accountId = new.accountId ∧ t.providerTxnId = some pid).map fun t ↦ t.id)
  Banking.checkDuplicate ((db.transactions.find? fun t ↦
    t.accountId = new.accountId ∧ t.dedupeHash = dedupeHash).map fun t ↦ t.id)

def insertTransaction (txn : ClassifiedTransaction) : PackTx Unit := do
  let db ← get
  enforce (∀ t ∈ db.transactions, t.id ≠ txn.id) "UNIQUE constraint failed: transactions.id"
  enforce (references Book.id db.books txn.bookId ∧
    references Account.id db.accounts txn.accountId ∧
    ∀ c ∈ txn.categoryId, (db.categories.find c).isSome) "FOREIGN KEY constraint failed"
  enforce (txn.currency.length = 3) "CHECK constraint failed: length(currency) = 3"
  modify fun db ↦ { db with transactions := db.transactions ++ [txn] }

def checkNew (db : PackDb) (new : NewTransaction) : Except Fault String := do
  let account ← orNotFound "account" new.accountId (lookup Account.id db.accounts new.accountId)
  require (account.bookId = new.bookId) "account does not belong to this book"
  let currency ← normalizeCurrencyCode new.currency
  let _ ← match h.parseDate new.postedDate with
    | some date => Except.ok date
    | none => .error (.validation s!"invalid date {repr new.postedDate}")
  Banking.checkAmount new.amountMinor
  return currency

def core {α : Type} (r : Except Fault α) : PackTx α :=
  check (r.mapError PackError.core)

def createTransactionInTx (new : NewTransaction) : PackTx ClassifiedTransaction := do
  let db ← get
  let currency ← core (checkNew h db new)
  let dedupeHash := transactionDedupeHash h.sha256 (hashInput h.letters { new with currency })
  let merchantNormalized := merchantKey h new.merchant new.description
  core (checkDuplicates db new dedupeHash)
  let categoryId ← categorise h new merchantNormalized
  let txn : ClassifiedTransaction :=
    { id := ← mintId h
      bookId := new.bookId
      accountId := new.accountId
      categoryId
      source := new.source
      providerTxnId := new.providerTxnId
      dedupeHash
      postedDate := new.postedDate
      amountMinor := new.amountMinor
      currency
      merchant := new.merchant
      description := new.description
      notes := new.notes
      status := .pending
      merchantNormalized }
  insertTransaction txn
  core (h.detectPaymentMatches (← get) txn)
  return txn

def transactionCreate (new : NewTransaction) : PackService ClassifiedTransaction :=
  Process.atomically [] (createTransactionInTx h new)

def insertCorrection (correction : ClassificationCorrection) : PackTx Unit := do
  let db ← get
  enforce (∀ c ∈ db.corrections, c.id ≠ correction.id)
    "UNIQUE constraint failed: classification_corrections.id"
  enforce ((∃ t ∈ db.transactions, t.id = correction.transactionId) ∧
    ∀ c ∈ correction.oldCategoryId.toList ++ correction.newCategoryId.toList,
      (db.categories.find c).isSome) "FOREIGN KEY constraint failed"
  modify fun db ↦ { db with corrections := db.corrections ++ [correction] }

def setCategory (transactions : List ClassifiedTransaction) (id categoryId : String) :
    List ClassifiedTransaction :=
  update (fun t ↦ t.id) transactions id fun t ↦ { t with categoryId := some categoryId }

def categorizeInTx (previous : ClassifiedTransaction) (categoryId : String) :
    PackTx ClassifiedTransaction := do
  let db ← get
  let now := currentTime h db
  set { db with transactions := setCategory db.transactions previous.id categoryId }
  insertCorrection
    { id := ← mintId h
      bookId := previous.bookId
      transactionId := previous.id
      merchantNormalized := previous.merchantNormalized
      oldCategoryId := previous.categoryId
      newCategoryId := some categoryId
      createdAt := now }
  match previous.merchantNormalized with
  | some m => upsertMapping h previous.bookId m categoryId .user 1
  | none => pure ()
  return { previous with categoryId := some categoryId }

def transactionCategorize (transactionId categoryId : String) :
    PackService ClassifiedTransaction := do
  let previous ← Process.ofExcept (← Process.query fun db ↦
    (orNotFound "transaction" transactionId
      (db.transactions.find? fun t ↦ t.id = transactionId)).mapError PackError.core)
  let category ← Process.ofExcept (← Process.query fun db ↦
    (orNotFound "category" categoryId (db.categories.find categoryId)).mapError PackError.core)
  Process.ofExcept ((require (category.bookId = previous.bookId)
    "category does not belong to this book").mapError PackError.core)
  Process.atomically [] (categorizeInTx h previous categoryId)

end Calls

end SlipScan.Model.Classification
