import SlipScan.Model.Ledger
import SlipScan.Model.Money
import Mathlib.Data.List.Dedup
import Mathlib.Data.List.Sort
import Mathlib.Data.Prod.Lex

namespace SlipScan.Model.Household

open Model.Domain Model.Database Model.Money Foundation.Transaction Foundation.Interleaving
  Foundation.Table

structure Member where
  id : String
  bookId : String
  label : String
  defaultAccountId : Option String
  createdAt : String
  principal : Bool
  deriving DecidableEq, Repr

structure SplitShare where
  memberId : String
  shareMinor : ℤ
  deriving DecidableEq, Repr

structure TransactionSplit extends SplitShare where
  id : String
  transactionId : String
  bookId : String
  createdAt : String
  deriving DecidableEq, Repr

structure AttributedTransaction extends Transaction where
  attributedMemberId : Option String
  deriving DecidableEq, Repr

structure NamedCategory where
  id : String
  name : String
  deriving DecidableEq, Repr

structure HouseholdDb where
  books : List Book := []
  categories : List NamedCategory := []
  members : List Member := []
  transactions : List AttributedTransaction := []
  splits : List TransactionSplit := []
  minted : ℕ := 0

abbrev HouseholdTx := Tx HouseholdDb Fault

abbrev HouseholdService := Process HouseholdDb Unit Fault

variable (h : Host)

section Queries

variable (db : HouseholdDb)

def getMember (id : String) : Except Fault Member :=
  orNotFound "member" id (lookup Member.id db.members id)

def getTransaction (id : String) : Except Fault AttributedTransaction :=
  orNotFound "transaction" id (lookup (fun t ↦ t.id) db.transactions id)

def splitsForTransaction (transactionId : String) : List TransactionSplit :=
  (db.splits.filter fun s ↦ s.transactionId = transactionId).insertionSort fun a b ↦
    toLex (a.createdAt, a.id) ≤ toLex (b.createdAt, b.id)

/-- The member whose default account it is, the first one if there are several. -/
def findDefaultOwner (bookId accountId : String) : Option Member :=
  ((db.members.filter fun m ↦
    m.bookId = bookId ∧ m.defaultAccountId = some accountId).insertionSort fun a b ↦
      toLex (a.createdAt, a.id) ≤ toLex (b.createdAt, b.id)).head?

def hasAttributions (memberId : String) : Bool :=
  db.transactions.any (fun t ↦ t.attributedMemberId = some memberId) ||
    db.splits.any fun s ↦ s.memberId = memberId

end Queries

section Writes

def newRowId : HouseholdTx String := do
  let n := (← get).minted
  modify fun db ↦ { db with minted := n + 1 }
  return h.newId n

def enforce (c : Prop) [Decidable c] (message : String) : HouseholdTx Unit :=
  if c then pure () else throw (.sqlite message)

def setAttribution (transactionId : String) (memberId : Option String) : HouseholdTx Unit := do
  let db ← get
  enforce (∀ m ∈ memberId, references Member.id db.members m) "FOREIGN KEY constraint failed"
  modify fun db ↦
    { db with
      transactions := update (fun t ↦ t.id) db.transactions transactionId fun t ↦
        { t with attributedMemberId := memberId } }

def insertSplit (split : TransactionSplit) : HouseholdTx Unit := do
  let db ← get
  enforce (∀ s ∈ db.splits, s.id ≠ split.id) "UNIQUE constraint failed: transaction_splits.id"
  enforce (∀ s ∈ db.splits,
      ¬(s.transactionId = split.transactionId ∧ s.memberId = split.memberId))
    "UNIQUE constraint failed: transaction_splits.transaction_id, transaction_splits.member_id"
  enforce (references (fun t : AttributedTransaction ↦ t.id) db.transactions split.transactionId ∧
    references Book.id db.books split.bookId ∧ references Member.id db.members split.memberId)
    "FOREIGN KEY constraint failed"
  enforce (0 < split.shareMinor) "CHECK constraint failed: share_minor > 0"
  modify fun db ↦ { db with splits := db.splits ++ [split] }

def setSplits (transactionId bookId now : String) (shares : List SplitShare) :
    HouseholdTx Unit := do
  modify fun db ↦ { db with splits := db.splits.filter fun s ↦ s.transactionId ≠ transactionId }
  shares.forM fun share ↦ do
    insertSplit { share with id := ← newRowId h, transactionId, bookId, createdAt := now }

/-- Gives the share of a split to a member, in the member's own row if there is one. -/
def reassignSplit (toId : String) (split : TransactionSplit) : HouseholdTx Unit := do
  let db ← get
  match db.splits.find? fun s ↦ s.transactionId = split.transactionId ∧ s.memberId = toId with
  | some target =>
    modify fun db ↦
      { db with
        splits := update (fun s ↦ s.id) db.splits target.id fun s ↦
          { s with shareMinor := s.shareMinor + split.shareMinor } }
    modify fun db ↦ { db with splits := db.splits.filter fun s ↦ s.id ≠ split.id }
  | none =>
    modify fun db ↦
      { db with
        splits := update (fun s ↦ s.id) db.splits split.id fun s ↦ { s with memberId := toId } }

def reassignAttributions (fromId toId : String) : HouseholdTx Unit := do
  modify fun db ↦
    { db with
      transactions := db.transactions.map fun t ↦
        if t.attributedMemberId = some fromId then { t with attributedMemberId := some toId }
        else t }
  let db ← get
  (db.splits.filter fun s ↦ s.memberId = fromId).forM (reassignSplit toId)

/-- Deletes a member. A transaction forgets it; a split would have to go first. -/
def deleteMember (id : String) : HouseholdTx Unit := do
  let db ← get
  enforce (∀ s ∈ db.splits, s.memberId ≠ id) "FOREIGN KEY constraint failed"
  modify fun db ↦
    { db with
      members := db.members.filter fun m ↦ m.id ≠ id
      transactions := db.transactions.map fun t ↦
        if t.attributedMemberId = some id then { t with attributedMemberId := none } else t }

/-- The row of a new transaction, attributed to the owner of its account. -/
def insertTransaction (txn : Transaction) : HouseholdTx Unit := do
  let db ← get
  enforce (∀ t ∈ db.transactions, t.id ≠ txn.id) "UNIQUE constraint failed: transactions.id"
  let owner := findDefaultOwner db txn.bookId txn.accountId
  modify fun db ↦
    { db with
      transactions := db.transactions ++
        [{ txn with attributedMemberId := owner.map Member.id }] }

end Writes

section Calls

def memberGet (id : String) : HouseholdService Member := do
  Process.ofExcept (← Process.query fun db ↦ getMember db id)

def transactionGet (id : String) : HouseholdService AttributedTransaction := do
  Process.ofExcept (← Process.query fun db ↦ getTransaction db id)

def checkAttribution (bookId : String) : Option String → HouseholdService Unit
  | some memberId => do
    let member ← memberGet memberId
    Process.ofExcept (require (member.bookId = bookId) "member does not belong to this book")
  | none => pure ()

def transactionAttribute (transactionId : String) (memberId : Option String) :
    HouseholdService AttributedTransaction := do
  let before ← transactionGet transactionId
  checkAttribution before.bookId memberId
  Process.atomically [] (setAttribution transactionId memberId)
  return { before with attributedMemberId := memberId }

/-- The least 64-bit integer has no absolute value. -/
def splitTarget (amountMinor : ℤ) : Except Fault ℤ :=
  if amountMinor = -2 ^ 63 then
    .error (.validation "transaction amount out of range for splitting")
  else .ok |amountMinor|

def checkedAdd (a b : ℤ) : Except Fault ℤ :=
  if -2 ^ 63 ≤ a + b ∧ a + b < 2 ^ 63 then .ok (a + b)
  else .error (.validation "split shares overflow")

def checkShares (bookId : String) : List SplitShare → List String → ℤ → HouseholdService ℤ
  | [], _, sum => pure sum
  | share :: shares, seen, sum => do
    Process.ofExcept (require (share.memberId ∉ seen)
      s!"member {share.memberId} appears more than once in the split")
    Process.ofExcept (require (0 < share.shareMinor) "split shares must be positive")
    let member ← memberGet share.memberId
    Process.ofExcept
      (require (member.bookId = bookId) "split member does not belong to this book")
    let sum ← Process.ofExcept (checkedAdd sum share.shareMinor)
    checkShares bookId shares (share.memberId :: seen) sum

def transactionSplitSet (transactionId : String) (shares : List SplitShare) :
    HouseholdService (List TransactionSplit) := do
  let txn ← transactionGet transactionId
  let target ← Process.ofExcept (splitTarget txn.amountMinor)
  let sum ← checkShares txn.bookId shares [] 0
  Process.ofExcept (require (shares = [] ∨ sum = target)
    s!"split shares must sum to the transaction's absolute amount ({target} minor units), got {sum}")
  let now ← Process.query fun db ↦ h.nowIso db.minted
  Process.atomically [] (setSplits h transactionId txn.bookId now shares)
  Process.query fun db ↦ splitsForTransaction db transactionId

def reassignTarget (before : Member) : Option String → HouseholdService (Option Member)
  | some targetId => do
    Process.ofExcept (require (targetId ≠ before.id)
      "cannot reassign a member's attributions to themselves")
    let target ← memberGet targetId
    Process.ofExcept (require (target.bookId = before.bookId)
      "reassignment target does not belong to this book")
    return some target
  | none => do
    let attributed ← Process.query fun db ↦ hasAttributions db before.id
    Process.ofExcept (require (attributed = false)
      s!"member {before.id} still has attributed transactions or splits — pass a reassign-target member to move them first, or clear the attributions/splits before removing")
    return none

def memberRemove (id : String) (reassignTo : Option String) : HouseholdService Unit := do
  let before ← memberGet id
  Process.ofExcept (require (before.principal = false)
    s!"member {id} is (or was) a principal — remove is refused even with a reassignment target; revoke them instead (`member_revoke`), which keeps their authority history and paired devices accounted for")
  let target ← reassignTarget before reassignTo
  Process.atomically [] do
    match target with
    | some target => reassignAttributions id target.id
    | none => pure ()
    deleteMember id

end Calls

section Reports

structure MemberAmountRow where
  memberId : Option String
  memberLabel : String
  currency : String
  totalMinor : ℤ
  deriving DecidableEq, Repr

structure MemberCategoryRow where
  memberId : Option String
  memberLabel : String
  categoryId : Option String
  categoryName : String
  currency : String
  totalMinor : ℤ
  deriving DecidableEq, Repr

structure MemberSettleRow where
  memberId : Option String
  memberLabel : String
  currency : String
  contributionsMinor : ℤ
  expensesMinor : ℤ
  netMinor : ℤ
  deriving DecidableEq, Repr

structure Portion where
  memberId : Option String
  categoryId : Option String
  shareMinor : ℤ
  deriving DecidableEq, Repr

def covered (bookId fromDate toDate currency : String) (expense : Bool)
    (t : AttributedTransaction) : Bool :=
  t.bookId = bookId && t.currency = currency && t.status ≠ .rejected &&
    fromDate ≤ t.postedDate && t.postedDate ≤ toDate &&
    if expense then t.amountMinor < 0 else 0 < t.amountMinor

variable (db : HouseholdDb)

/-- The splits of the transactions, and the other transactions as a whole. -/
def perMember (covers : AttributedTransaction → Bool) (expense : Bool) : List Portion :=
  (db.splits.flatMap fun s ↦
    (db.transactions.filter fun t ↦ t.id = s.transactionId ∧ covers t).map fun t ↦
      ⟨some s.memberId, t.categoryId, s.shareMinor⟩) ++
  (db.transactions.filter fun t ↦ covers t ∧ ∀ s ∈ db.splits, s.transactionId ≠ t.id).map fun t ↦
    ⟨t.attributedMemberId, t.categoryId, if expense then -t.amountMinor else t.amountMinor⟩

def totals {κ : Type} [DecidableEq κ] (key : Portion → κ) (portions : List Portion) :
    Except Fault (List (κ × ℤ)) :=
  (portions.map key).dedup.mapM fun k ↦ do
    return (k, ← sqlSum ((portions.filter fun p ↦ key p = k).map Portion.shareMinor))

def memberLabel (memberId : Option String) : String :=
  ((memberId.bind (lookup Member.id db.members)).map Member.label).getD "Unattributed"

def categoryName (categoryId : Option String) : String :=
  ((categoryId.bind (lookup NamedCategory.id db.categories)).map NamedCategory.name).getD
    "Uncategorized"

def memberAmount (bookId fromDate toDate currency : String) (expense : Bool) :
    Except Fault (List MemberAmountRow) := do
  let portions := perMember db (covered bookId fromDate toDate currency expense) expense
  let rows := (← totals Portion.memberId portions).map fun (memberId, totalMinor) ↦
    { memberId, memberLabel := memberLabel db memberId, currency, totalMinor : MemberAmountRow }
  return rows.insertionSort fun a b ↦ b.totalMinor ≤ a.totalMinor

def memberCategory (bookId fromDate toDate currency : String) :
    Except Fault (List MemberCategoryRow) := do
  let portions := perMember db (covered bookId fromDate toDate currency true) true
  let rows := (← totals (fun p ↦ (p.memberId, p.categoryId)) portions).map
    fun ((memberId, categoryId), totalMinor) ↦
      { memberId
        memberLabel := memberLabel db memberId
        categoryId
        categoryName := categoryName db categoryId
        currency
        totalMinor : MemberCategoryRow }
  return rows.insertionSort fun a b ↦
    toLex (a.memberLabel, -a.totalMinor) ≤ toLex (b.memberLabel, -b.totalMinor)

def settleRow (currency : String) (contribution expense : List (Option String × ℤ))
    (memberId : Option String) (label : String) : MemberSettleRow :=
  let contributionsMinor := (contribution.lookup memberId).getD 0
  let expensesMinor := (expense.lookup memberId).getD 0
  { memberId
    memberLabel := label
    currency
    contributionsMinor
    expensesMinor
    netMinor := contributionsMinor - expensesMinor }

/-- Every member of the book and the unattributed rest, with what came in and what went out. -/
def settleUp (bookId fromDate toDate currency : String) :
    Except Fault (List MemberSettleRow) := do
  let contribution ← totals Portion.memberId
    (perMember db (covered bookId fromDate toDate currency false) false)
  let expense ← totals Portion.memberId
    (perMember db (covered bookId fromDate toDate currency true) true)
  let rows := ((db.members.filter fun m ↦ m.bookId = bookId).map fun m ↦
      settleRow currency contribution expense (some m.id) m.label) ++
    [settleRow currency contribution expense none "Unattributed"]
  return rows.insertionSort fun a b ↦ a.memberLabel ≤ b.memberLabel

end Reports

section Runs

inductive HouseholdCall
  | transactionCreate (txn : Transaction)
  | transactionAttribute (transactionId : String) (memberId : Option String)
  | transactionSplitSet (transactionId : String) (shares : List SplitShare)
  | memberRemove (id : String) (reassignTo : Option String)

def HouseholdCall.program : HouseholdCall → HouseholdService Unit
  | transactionCreate txn => Process.atomically [] (insertTransaction txn)
  | transactionAttribute transactionId memberId => do
    let _ ← Household.transactionAttribute transactionId memberId
    return ()
  | transactionSplitSet transactionId shares => do
    let _ ← Household.transactionSplitSet h transactionId shares
    return ()
  | memberRemove id reassignTo => Household.memberRemove id reassignTo

/-- What everything else may do: add members, and change what they and the transactions say, but
neither whose book they are in nor what a transaction is over. -/
structure Elsewhere (s s' : HouseholdDb) : Prop where
  members : ∀ m ∈ s.members, ∃ m' ∈ s'.members, m'.id = m.id ∧ m'.bookId = m.bookId
  distinct : (s.members.map Member.id).Nodup → (s'.members.map Member.id).Nodup
  transactions : ∃ change : AttributedTransaction → AttributedTransaction,
    s'.transactions = s.transactions.map change ∧ ∀ t, (change t).id = t.id ∧
      (change t).bookId = t.bookId ∧ (change t).amountMinor = t.amountMinor ∧
      (change t).attributedMemberId = t.attributedMemberId
  splits : s'.splits = s.splits

inductive Step (s : HouseholdDb) : HouseholdDb → Prop
  | call (c : HouseholdCall) : Step s ((c.program h).run s).2
  | elsewhere {s' : HouseholdDb} (he : Elsewhere s s') : Step s s'

def Reachable (s : HouseholdDb) : Prop :=
  Relation.ReflTransGen (Step h) {} s

end Runs

end SlipScan.Model.Household
