import SlipScan.Ledger.Amounts
import SlipScan.Ledger.Calls
import SlipScan.Ledger.Reversal
import SlipScan.Model.PlainHost
import SlipScan.Model.Stock

namespace SlipScan.Ledger.Receipts

open Model.Domain Model.Database Model.Ledger Model.Money Model.Generate Model.Trade Model.Sales
  Model.SalesPosting Model.Service Model.Slip Model.Stock Model.PlainHost Foundation.Transaction
  Foundation.Interleaving Foundation.Table Posting Lines Reversal Amounts Writes.Frames
  Writes.Tables Calls Soundness Process Relation

variable {h : Host} {parseSlip : String → Except Fault SlipPayload} {s s' : Db}

section Aside

def receiptMovements (s : Db) : List StockMovement :=
  s.stockMovements.filter fun m ↦ m.refKind = some "po_receipt"

def receiptJournals (s : Db) : List Journal :=
  s.journals.filter fun j ↦ j.sourceType = .poReceipt

def Headed (s : Db) : Prop :=
  ∀ l ∈ s.journalLines, ∃ j ∈ s.journals, j.id = l.journalId

/-- A change beside the goods receipts, their movements and their journals. -/
structure Aside (s s' : Db) : Prop where
  receipts : s'.poReceipts = s.poReceipts
  movements : receiptMovements s' = receiptMovements s
  journals : receiptJournals s' = receiptJournals s
  kept : ∀ j ∈ s.journals, j ∈ s'.journals
  lines : ∀ j ∈ s.journals, linesForJournal s' j.id = linesForJournal s j.id
  headed : Headed s → Headed s'

instance : Std.Refl Aside where
  refl _ := ⟨rfl, rfl, rfl, fun _ hj ↦ hj, fun _ _ ↦ rfl, fun hs ↦ hs⟩

instance : IsTrans Db Aside where
  trans _ _ _ hs hs' :=
    { receipts := hs'.receipts.trans hs.receipts
      movements := hs'.movements.trans hs.movements
      journals := hs'.journals.trans hs.journals
      kept := fun j hj ↦ hs'.kept j (hs.kept j hj)
      lines := fun j hj ↦ (hs'.lines j (hs.kept j hj)).trans (hs.lines j hj)
      headed := fun hhead ↦ hs'.headed (hs.headed hhead) }

instance : IsPreorder Db Aside where

def receiptTables (s : Db) :
    List PoReceipt × List StockMovement × List Journal × List JournalLine :=
  (s.poReceipts, s.stockMovements, s.journals, s.journalLines)

theorem aside_of_eq (hreceipts : s'.poReceipts = s.poReceipts)
    (hmovements : receiptMovements s' = receiptMovements s) (hjournals : s'.journals = s.journals)
    (hlines : s'.journalLines = s.journalLines) : Aside s s' where
  receipts := hreceipts
  movements := hmovements
  journals := by rw [receiptJournals, receiptJournals, hjournals]
  kept j hj := hjournals ▸ hj
  lines j _ := by rw [linesForJournal, linesForJournal, hlines]
  headed hs := by
    intro l hl
    rw [hjournals]
    exact hs l (hlines ▸ hl)

theorem aside_of_keeps (hs : Keeps receiptTables s s') : Aside s s' := by
  obtain ⟨htables, -⟩ := hs
  simp only [receiptTables, Prod.mk.injEq] at htables
  obtain ⟨hreceipts, hmovements, hjournals, hlines⟩ := htables
  exact aside_of_eq hreceipts (by rw [receiptMovements, receiptMovements, hmovements]) hjournals
    hlines

variable {book : Book} {new : NewJournal} {reversalOf : Option String}
  {lines : List NewJournalLine}

theorem headed_withPosted (hs : Headed s) :
    Headed (withPosted s (postedJournal h s book new reversalOf lines)) := by
  intro l hl
  rcases List.mem_append.1 hl with hl | hl
  · obtain ⟨j, hj, hid⟩ := hs l hl
    exact ⟨j, List.mem_append_left _ hj, hid⟩
  · exact ⟨_, List.mem_append_right _ (List.mem_singleton_self _), (journalId_of_mem hl).1.symm⟩

theorem aside_withPosted (hposts : Posts h s book new reversalOf lines)
    (hsource : new.sourceType ≠ .poReceipt) :
    Aside s (withPosted s (postedJournal h s book new reversalOf lines)) where
  receipts := rfl
  movements := rfl
  journals := by
    have hnil : [(postedJournal h s book new reversalOf lines).journal].filter
        (fun j ↦ j.sourceType = .poReceipt) = [] := by
      simpa [postedJournal] using hsource
    simp only [receiptJournals, withPosted, List.filter_append, hnil, List.append_nil]
  kept j hj := List.mem_append_left _ hj
  lines j hj := linesForJournal_withPosted_of_ne (hposts.fresh j hj)
  headed := headed_withPosted

theorem post_aside (hsource : new.sourceType ≠ .poReceipt) :
    Moves Aside (postJournalInTx h book new reversalOf) := by
  intro s
  refine postJournalInTx_ensures.mono fun p s' hs' ↦ ?_
  obtain ⟨lines, hposts, rfl, rfl⟩ := hs'
  exact aside_withPosted hposts hsource

theorem reverse_aside {id : String} {date narrative : Option String} :
    Moves Aside (reverseJournalInTx h book id date narrative) := by
  intro s
  refine reverseJournalInTx_ensures.mono fun p s' hs' ↦ ?_
  obtain ⟨original, lines, -, -, hposts, rfl, rfl⟩ := hs'
  exact aside_withPosted hposts (by simp [reversalOfJournal])

theorem movement_aside {bookId variantId locationId : String} {qtyDelta : ℤ}
    {kind : StockMovementKind} {refKind refId note : Option String}
    (hkind : refKind ≠ some "po_receipt") :
    Moves Aside
      (insertMovementInTx h bookId variantId locationId qtyDelta kind refKind refId note) := by
  intro s
  simp only [insertMovementInTx, ensures_bind, ensures_newId, ensures_get, ensures_constraint,
    ensures_modify]
  intros
  refine aside_of_eq rfl ?_ rfl rfl
  simp [receiptMovements, List.filter_append, hkind]

theorem moveStock_aside {order : SalesOrder} {items : List SalesOrderItem}
    {locationId note : String} {sign : ℤ} :
    Moves Aside (moveStock h order items locationId sign note) :=
  moves_forM _ fun _ _ ↦ movement_aside (by decide)

theorem moves_aside {α : Type} {m : Action α} (hm : Moves (Keeps receiptTables) m) :
    Moves Aside m :=
  hm.mono fun _ _ ↦ aside_of_keeps

theorem orderUpdate_aside (order : SalesOrder) : Moves Aside (orderUpdate order) :=
  moves_aside (orderUpdate_keeps order fun _ _ ↦ rfl)

theorem postCostJournal_aside {order : SalesOrder} {currency : String} {cost : ℤ} :
    Moves Aside (postCostJournal h book order currency cost) := by
  refine moves_ite (fun _ ↦ moves_pure _) fun _ ↦ moves_bind moves_get fun db ↦ ?_
  split
  · exact moves_bind (post_aside (by simp)) fun _ ↦ moves_pure _
  · exact moves_pure _

theorem postRevenueArJournal_aside {currency postedDate narrative reference sourceId : String}
    {lines : List (ℤ × ℤ × ℤ)} {sourceType : JournalSourceType}
    (hsource : sourceType ≠ .poReceipt) :
    Moves Aside (postRevenueArJournal h book currency lines postedDate narrative reference
      sourceType sourceId) := by
  refine moves_ite (fun _ ↦ moves_pure _) fun _ ↦ moves_bind moves_get fun db ↦ ?_
  split
  · exact moves_ite (fun _ ↦ moves_pure _) fun _ ↦ moves_bind (moves_check _) fun _ ↦
      moves_bind (post_aside hsource) fun _ ↦ moves_pure _
  · exact moves_pure _

theorem salesOrderConfirm_aside {id : String} :
    (salesOrderConfirm h id).Within fun _ ↦ Aside := by
  refine within_fetch_bind fun before ↦ (within_ofExcept_bind _).2 fun _ _ ↦
    (within_query_bind _).2 fun items ↦ (within_ofExcept_bind _).2 fun _ _ ↦
    within_bookGet_bind fun book ↦ within_last ?_
  have hmoved : Moves Aside (moveOut h before items) := by
    rw [moveOut]
    split
    · exact moveStock_aside
    · exact moves_pure _
  have hposted : Moves Aside (postSalesConfirmJournals h book before items) :=
    moves_bind (moves_check _) fun _ ↦ moves_bind moves_get fun _ ↦
      moves_bind (moves_check _) fun _ ↦ moves_bind postCostJournal_aside fun _ ↦
      postRevenueArJournal_aside (by simp)
  exact moves_bind hmoved fun _ ↦ moves_bind hposted fun _ ↦ orderUpdate_aside _

theorem undoConfirm_aside {before : SalesOrder} : Moves Aside (undoConfirm h book before) := by
  have hback : ∀ items, Moves Aside (moveBack h before items) := by
    intro items
    refine moves_ite (fun _ ↦ ?_) fun _ ↦ moves_pure _
    split
    · exact moveStock_aside
    · exact moves_throw _
  have hreversed : ∀ ids date narrative, Moves Aside (reverseLive h book ids date narrative) :=
    fun ids date narrative ↦ moves_forM _ fun _ _ ↦ moves_bind moves_get fun _ ↦
      moves_bind (moves_check _) fun _ ↦
      moves_ite (fun _ ↦ moves_bind reverse_aside fun _ ↦ moves_pure _) fun _ ↦ moves_pure _
  exact moves_bind (moves_aside keeps_nowIso) fun _ ↦ moves_bind moves_get fun _ ↦
    moves_bind (hback _) fun _ ↦ moves_forM _ fun _ _ ↦ moves_bind moves_get fun _ ↦
    hreversed _ _ _

theorem salesOrderCancel_aside {id : String} :
    (salesOrderCancel h id).Within fun _ ↦ Aside := by
  refine within_fetch_bind fun before ↦ (within_ofExcept_bind _).2 fun _ _ ↦
    within_bookGet_bind fun book ↦ within_last ?_
  exact moves_bind (moves_ite (fun _ ↦ undoConfirm_aside) fun _ ↦ moves_pure _) fun _ ↦
    orderUpdate_aside _

end Aside

section Receive

def newReceipt (h : Host) (s : Db) (new : NewPoReceipt) (item : PurchaseOrderItem)
    (location : Location) : PoReceipt :=
  { id := h.newId s.minted
    bookId := item.bookId
    purchaseOrderItemId := item.id
    locationId := location.id
    qty := new.qty
    note := new.note
    createdAt := h.nowIso s.minted }

def receiptJournal (book : Book) (receipt : PoReceipt) (currency : String)
    (inventory ap : CoaAccount) (costMinor : ℤ) : NewJournal :=
  { bookId := book.id
    postedDate := datePart receipt.createdAt
    narrative := some "Goods receipt"
    reference := some receipt.id
    sourceType := .poReceipt
    sourceId := some receipt.id
    lines := receiptLines currency receipt.note inventory ap costMinor }

inductive Books (h : Host) (book : Book) (receipt : PoReceipt) (poCurrency : String)
    (costMinor : ℤ) (s : Db) : Db → Prop
  | nothing (hcost : costMinor = 0) : Books h book receipt poCurrency costMinor s s
  | lacking (hnone : ∀ inventory ap, getCoaByCode s book.id coaCodeInventory = some inventory →
      getCoaByCode s book.id coaCodeAp ≠ some ap) : Books h book receipt poCurrency costMinor s s
  | posts {inventory ap : CoaAccount} {currency : String} {lines : List NewJournalLine}
      (hcost : costMinor ≠ 0)
      (hinventory : getCoaByCode s book.id coaCodeInventory = some inventory)
      (hap : getCoaByCode s book.id coaCodeAp = some ap)
      (hcurrency : normalizeCurrencyCode poCurrency = .ok currency)
      (hposts : Posts h s book (receiptJournal book receipt currency inventory ap costMinor) none
        lines) :
      Books h book receipt poCurrency costMinor s (withPosted s
        (postedJournal h s book (receiptJournal book receipt currency inventory ap costMinor) none
          lines))

theorem postPoReceiptJournal_ensures {book : Book} {receipt : PoReceipt}
    {item : PurchaseOrderItem} {poCurrency : String} :
    Ensures (postPoReceiptJournal h book receipt item poCurrency) s fun _ s' ↦
      Books h book receipt poCurrency (asI64 (item.unitPriceMinor * receipt.qty)) s s' := by
  refine (ensures_ite _ _).2 ⟨fun hcost ↦ (ensures_pure _).2 (.nothing hcost), fun hcost ↦ ?_⟩
  refine (ensures_bind _).2 (ensures_get.2 ?_)
  split
  · rename_i inventory ap hinventory hap
    simp only [ensures_bind, ensures_check, ensures_pure]
    intro currency hcurrency
    refine postJournalInTx_ensures.mono fun p s' hs' ↦ ?_
    obtain ⟨lines, hposts, rfl, rfl⟩ := hs'
    exact .posts hcost hinventory hap hcurrency hposts
  · rename_i hnone
    exact (ensures_pure _).2 (.lacking hnone)

def receiptMovement (h : Host) (s : Db) (item : PurchaseOrderItem) (receipt : PoReceipt) :
    StockMovement :=
  { id := h.newId (s.minted + 1)
    bookId := receipt.bookId
    variantId := item.variantId
    locationId := receipt.locationId
    qtyDelta := receipt.qty
    kind := .receipt
    refKind := some "po_receipt"
    refId := some receipt.id
    note := receipt.note }

def stocked (h : Host) (s : Db) (item : PurchaseOrderItem) (receipt : PoReceipt) : Db :=
  { s with
    poReceipts := s.poReceipts ++ [receipt]
    stockMovements := s.stockMovements ++ [receiptMovement h s item receipt]
    minted := s.minted + 1 + 1 }

structure Sourced (s : Db) (new : NewPoReceipt) (item : PurchaseOrderItem) (po : PurchaseOrder)
    (book : Book) (location : Location) : Prop where
  itemFound : lookup PurchaseOrderItem.id s.purchaseOrderItems new.purchaseOrderItemId = some item
  orderFound : lookup PurchaseOrder.id s.purchaseOrders item.purchaseOrderId = some po
  bookFound : getBook s item.bookId = some book
  locationFound : lookup Location.id s.locations new.locationId = some location
  checked : checkReceipt item po location new.qty = .ok ()

theorem ensures_of_commit {α : Type} {m : Action α} {a : α} {Q : α → Db → Prop}
    (hm : commit m s = (.ok a, s')) (hQ : Ensures m s Q) : Q a s' :=
  hQ a s' (commit_ok hm)

theorem poReceive_writes {new : NewPoReceipt} {r : PoReceipt}
    (hrun : (poReceive h new).run s = (.ok r, s')) :
    ∃ item po book location, Sourced s new item po book location ∧
      r = newReceipt h s new item location ∧ (∀ x ∈ s.poReceipts, x.id ≠ r.id) ∧
      Books h book r po.currency (asI64 (item.unitPriceMinor * new.qty)) (stocked h s item r)
        s' := by
  simp only [poReceive, bookGet, bind_assoc, run_query_bind, run_ofExcept_bind_eq_ok,
    orNotFound_eq_ok, getLocation, run_atomically] at hrun
  obtain ⟨item, hitem, po, hpo, book, hbook, location, hlocation, _, hchecked, hrun⟩ := hrun
  refine ⟨item, po, book, location, ⟨hitem, hpo, hbook, hlocation, hchecked⟩, ?_⟩
  apply ensures_of_commit hrun
  simp only [insertReceipt, insertMovementInTx, ensures_bind, ensures_nowIso, ensures_newId,
    ensures_get, ensures_constraint, ensures_modify, ensures_pure]
  intro hfresh _ _ _ _ _
  refine postPoReceiptJournal_ensures.mono fun _ s' hs' ↦ ?_
  exact ⟨rfl, hfresh, hs'⟩

theorem poReceive_settled {new : NewPoReceipt} : (poReceive h new).Settled := by
  simp only [poReceive, bookGet, bind_assoc, settled_query_bind, settled_ofExcept_bind,
    settled_atomically, implies_true]

end Receive

section Value

def Representable (v : ℤ) : Prop :=
  -2 ^ 63 ≤ v ∧ v < 2 ^ 63

instance (v : ℤ) : Decidable (Representable v) :=
  inferInstanceAs (Decidable (_ ∧ _))

/-- A goods receipt that no check refuses, its value wrapped. -/
structure Passes (h : Host) (s : Db) (new : NewPoReceipt) (item : PurchaseOrderItem)
    (po : PurchaseOrder) (book : Book) (location : Location) : Prop extends
    Sourced s new item po book location where
  journal : asI64 (item.unitPriceMinor * new.qty) ≠ 0 → ∀ inventory ap,
    getCoaByCode s book.id coaCodeInventory = some inventory →
    getCoaByCode s book.id coaCodeAp = some ap →
    ∃ currency lines, normalizeCurrencyCode po.currency = .ok currency ∧
      validateJournal h s book (receiptJournal book (newReceipt h s new item location) currency
        inventory ap (asI64 (item.unitPriceMinor * new.qty))) = .ok lines

def receivedQtys (s : Db) (itemId : String) : List ℤ :=
  (s.poReceipts.filter fun r ↦ r.purchaseOrderItemId = itemId).map PoReceipt.qty

/-- The goods receipts that pass the checks have values that 64 bits hold, and so have the
quantities of their item with them. -/
def Valued (h : Host) (s : Db) (new : NewPoReceipt) : Prop :=
  ∀ item po book location, Passes h s new item po book location →
    Representable (item.unitPriceMinor * new.qty) ∧
      Representable ((receivedQtys s item.id).sum + new.qty)

theorem accepted_of_stocked {book : Book} {new : NewJournal} {lines : List NewJournalLine}
    {item : PurchaseOrderItem} {r : PoReceipt}
    (hacc : Accepted h (stocked h s item r) book new lines) : Accepted h s book new lines :=
  have hnet : ∀ id, isNetReversed (stocked h s item r) id = isNetReversed s id := by
    intro id
    apply isNetReversed_congr
    rfl
  { hacc with
    source := fun hmanual sourceId hsource id hid ↦
      (hnet id).symm.trans (hacc.source hmanual sourceId hsource id hid) }

theorem Sourced.passes {new : NewPoReceipt} {item : PurchaseOrderItem} {po : PurchaseOrder}
    {book : Book} {location : Location} (hsourced : Sourced s new item po book location)
    (hbooks : Books h book (newReceipt h s new item location) po.currency
      (asI64 (item.unitPriceMinor * new.qty))
      (stocked h s item (newReceipt h s new item location)) s') :
    Passes h s new item po book location where
  toSourced := hsourced
  journal := by
    intro hcost inventory ap hinventory hap
    cases hbooks with
    | nothing hzero => exact absurd hzero hcost
    | lacking hnone => exact absurd hap (hnone inventory ap hinventory)
    | @posts inventory' ap' currency lines _ hinventory' hap' hcurrency hposts =>
      obtain rfl := Option.some.inj (hinventory.symm.trans hinventory')
      obtain rfl := Option.some.inj (hap.symm.trans hap')
      exact ⟨currency, lines, hcurrency,
        validateJournal_eq_ok.2 (accepted_of_stocked hposts.accepted)⟩

theorem refused_of_valued {new : NewPoReceipt} (hvalued : Valued h s new) {item : PurchaseOrderItem}
    (hitem : lookup PurchaseOrderItem.id s.purchaseOrderItems new.purchaseOrderItemId = some item)
    (hlarge : ¬Representable (item.unitPriceMinor * new.qty)) :
    ∃ e, (poReceive h new).run s = (.error e, s) := by
  cases hrun : (poReceive h new).run s with
  | mk result s' =>
    cases result with
    | error e =>
      have hsame : ((poReceive h new).run s).2 = s := poReceive_settled.run_error (by rw [hrun])
      rw [hrun] at hsame
      obtain rfl : s' = s := hsame
      exact ⟨e, rfl⟩
    | ok r =>
      obtain ⟨item', po, book, location, hsourced, rfl, -, hbooks⟩ := poReceive_writes hrun
      obtain rfl := Option.some.inj (hitem.symm.trans hsourced.itemFound)
      exact absurd (hvalued _ _ _ _ (hsourced.passes hbooks)).1 hlarge

def sides (l : NewJournalLine) : String × ℤ × ℤ :=
  (l.coaId, l.debitMinor, l.creditMinor)

def valueSides (value : ℤ) (inventory ap : CoaAccount) : List (String × ℤ × ℤ) :=
  [(inventory.id, max value 0, max (-value) 0), (ap.id, max (-value) 0, max value 0)]

/-- A value that 64 bits hold is what the lines of its receipt move. -/
theorem sides_receiptLines {v : ℤ} (hv : Representable v) {currency : String}
    {note : Option String} {inventory ap : CoaAccount}
    (hsides : ∀ line ∈ receiptLines currency note inventory ap v,
      0 ≤ line.debitMinor ∧ 0 ≤ line.creditMinor) :
    (receiptLines currency note inventory ap v).map sides = valueSides v inventory ap := by
  obtain ⟨hlow, hhigh⟩ := hv
  rw [receiptLines] at hsides ⊢
  by_cases hpos : v > 0
  · have hamount : asI64 |v| = v := by
      rw [abs_of_pos hpos]
      exact asI64_of_mem hlow hhigh
    simp only [hpos, if_true, hamount, List.map_cons, List.map_nil, sides, journalLine, valueSides,
      max_eq_left hpos.le, max_eq_right (neg_nonpos.2 hpos.le)]
  · rw [if_neg hpos] at hsides ⊢
    have hamount : 0 ≤ asI64 |v| := (hsides _ (List.mem_cons_self ..)).2
    -- The absolute value of the least number wraps to a negative one, which no line carries.
    have hlow' : v ≠ -2 ^ 63 := by
      intro hv
      subst hv
      revert hamount
      decide
    have habs : asI64 |v| = -v := by
      rw [abs_of_nonpos (by omega)]
      exact asI64_of_mem (by omega) (by omega)
    have hneg : 0 ≤ -v := by omega
    simp only [habs, List.map_cons, List.map_nil, sides, journalLine, valueSides,
      max_eq_left hneg, max_eq_right (neg_nonneg.1 hneg)]

end Value

section Agreement

def movementsOf (s : Db) (r : PoReceipt) : List StockMovement :=
  (receiptMovements s).filter fun m ↦ m.refId = some r.id

def journalsOf (s : Db) (r : PoReceipt) : List Journal :=
  (receiptJournals s).filter fun j ↦ j.sourceId = some r.id

/-- A value is booked by one journal, and nothing by none. -/
def Booked (s : Db) (r : PoReceipt) (value : ℤ) (inventory ap : CoaAccount) : Prop :=
  if value = 0 then journalsOf s r = []
  else ∃ j, journalsOf s r = [j] ∧ j.bookId = r.bookId ∧
    ((linesForJournal s j.id).map content).map sides = valueSides value inventory ap

/-- One movement brought what a receipt says to where it says, and the journal has its value at
the price that the item had before. -/
def Tallied (s : Db) (r : PoReceipt) (before : Db) : Prop :=
  ∃ item, lookup PurchaseOrderItem.id before.purchaseOrderItems r.purchaseOrderItemId = some item ∧
    (∃ m, movementsOf s r = [m] ∧ m.variantId = item.variantId ∧ m.locationId = r.locationId ∧
      m.qtyDelta = r.qty) ∧
    ∀ inventory ap, getCoaByCode before r.bookId coaCodeInventory = some inventory →
      getCoaByCode before r.bookId coaCodeAp = some ap →
      Booked s r (item.unitPriceMinor * r.qty) inventory ap

/-- The receipts of a run, each with the database it was recorded in, and what refers to them. -/
structure Agrees (log : List (PoReceipt × Db)) (s : Db) : Prop where
  recorded : log.map Prod.fst = s.poReceipts
  moved : ∀ m ∈ receiptMovements s, ∃ r ∈ s.poReceipts, m.refId = some r.id
  posted : ∀ j ∈ receiptJournals s, ∃ r ∈ s.poReceipts, j.sourceId = some r.id
  headed : Headed s
  counted : ∀ itemId l, l <+: receivedQtys s itemId → Representable l.sum
  tallied : ∀ e ∈ log, Tallied s e.1 e.2

variable {r : PoReceipt} {before : Db} {log : List (PoReceipt × Db)}

theorem Tallied.congr (ht : Tallied s r before) (hmovements : movementsOf s' r = movementsOf s r)
    (hjournals : journalsOf s' r = journalsOf s r)
    (hlines : ∀ j ∈ s.journals, linesForJournal s' j.id = linesForJournal s j.id) :
    Tallied s' r before := by
  obtain ⟨item, hitem, hmoved, hbooked⟩ := ht
  refine ⟨item, hitem, by rwa [hmovements], fun inventory ap hinventory hap ↦ ?_⟩
  have hbooked := hbooked inventory ap hinventory hap
  rw [Booked] at hbooked ⊢
  split at hbooked
  · rw [if_pos ‹_›, hjournals, hbooked]
  · obtain ⟨j, hj, hbook, hsides⟩ := hbooked
    rw [if_neg ‹_›, hjournals]
    refine ⟨j, hj, hbook, ?_⟩
    have hmem : j ∈ journalsOf s r := hj ▸ List.mem_singleton_self j
    rw [hlines j (List.mem_of_mem_filter (List.mem_of_mem_filter hmem)), hsides]

theorem Agrees.aside (hs : Agrees log s) (haside : Aside s s') : Agrees log s' where
  recorded := by rw [haside.receipts, hs.recorded]
  moved := by
    rw [haside.movements, haside.receipts]
    exact hs.moved
  posted := by
    rw [haside.journals, haside.receipts]
    exact hs.posted
  headed := haside.headed hs.headed
  counted itemId := by
    rw [receivedQtys, haside.receipts]
    exact hs.counted itemId
  tallied e he := by
    apply (hs.tallied e he).congr _ _ haside.lines
    · rw [movementsOf, movementsOf, haside.movements]
    · rw [journalsOf, journalsOf, haside.journals]

theorem Agrees.movementsOf_eq_nil (hs : Agrees log s) (hfresh : ∀ x ∈ s.poReceipts, x.id ≠ r.id) :
    movementsOf s r = [] := by
  refine List.filter_eq_nil_iff.2 fun m hm heq ↦ ?_
  obtain ⟨x, hx, hid⟩ := hs.moved m hm
  exact hfresh x hx (Option.some.inj (hid.symm.trans (of_decide_eq_true heq)))

theorem Agrees.journalsOf_eq_nil (hs : Agrees log s) (hfresh : ∀ x ∈ s.poReceipts, x.id ≠ r.id) :
    journalsOf s r = [] := by
  refine List.filter_eq_nil_iff.2 fun j hj heq ↦ ?_
  obtain ⟨x, hx, hid⟩ := hs.posted j hj
  exact hfresh x hx (Option.some.inj (hid.symm.trans (of_decide_eq_true heq)))

structure Beyond (r : PoReceipt) (s s' : Db) : Prop where
  movements : ∀ x : PoReceipt, x.id ≠ r.id → movementsOf s' x = movementsOf s x
  journals : ∀ x : PoReceipt, x.id ≠ r.id → journalsOf s' x = journalsOf s x
  moved : ∀ m ∈ receiptMovements s', m ∈ receiptMovements s ∨ m.refId = some r.id
  posted : ∀ j ∈ receiptJournals s', j ∈ receiptJournals s ∨ j.sourceId = some r.id
  lines : ∀ j ∈ s.journals, linesForJournal s' j.id = linesForJournal s j.id
  headed : Headed s → Headed s'

theorem beyond_stocked {item : PurchaseOrderItem} : Beyond r s (stocked h s item r) where
  movements x hx := by
    simp [movementsOf, receiptMovements, stocked, receiptMovement, List.filter_append, Ne.symm hx]
  journals _ _ := rfl
  moved m hm := by
    simp only [receiptMovements, stocked, List.filter_append, List.mem_append] at hm
    refine hm.imp_right fun hm ↦ ?_
    rw [List.mem_singleton.1 (List.mem_of_mem_filter hm)]
    rfl
  posted j hj := .inl hj
  lines _ _ := rfl
  headed hs := hs

theorem Books.beyond {book : Book} {poCurrency : String} {costMinor : ℤ}
    (hbooks : Books h book r poCurrency costMinor s s') : Beyond r s s' := by
  cases hbooks with
  | nothing | lacking =>
    exact ⟨fun _ _ ↦ rfl, fun _ _ ↦ rfl, fun _ hm ↦ .inl hm, fun _ hj ↦ .inl hj, fun _ _ ↦ rfl,
      fun hs ↦ hs⟩
  | @posts inventory ap currency lines _ _ _ _ hposts =>
    exact {
      movements := fun _ _ ↦ rfl
      journals := fun x hx ↦ by
        simp [journalsOf, receiptJournals, withPosted, postedJournal, receiptJournal,
          List.filter_append, Ne.symm hx]
      moved := fun _ hm ↦ .inl hm
      posted := fun j hj ↦ by
        simp only [receiptJournals, withPosted, List.filter_append, List.mem_append] at hj
        refine hj.imp_right fun hj ↦ ?_
        rw [List.mem_singleton.1 (List.mem_of_mem_filter hj)]
        rfl
      lines := fun j hj ↦ linesForJournal_withPosted_of_ne (hposts.fresh j hj)
      headed := headed_withPosted }

theorem Books.receipts_eq {book : Book} {poCurrency : String} {costMinor : ℤ}
    (hbooks : Books h book r poCurrency costMinor s s') : s'.poReceipts = s.poReceipts := by
  cases hbooks <;> rfl

theorem Books.movementsOf_eq {book : Book} {poCurrency : String} {costMinor : ℤ}
    (hbooks : Books h book r poCurrency costMinor s s') (x : PoReceipt) :
    movementsOf s' x = movementsOf s x := by
  cases hbooks <;> rfl

theorem Books.booked {book : Book} {poCurrency : String} {v : ℤ} {inventory ap : CoaAccount}
    (hbooks : Books h book r poCurrency (asI64 v) s s') (hv : Representable v)
    (hbook : book.id = r.bookId) (hnone : journalsOf s r = []) (hheaded : Headed s)
    (hinventory : getCoaByCode s r.bookId coaCodeInventory = some inventory)
    (hap : getCoaByCode s r.bookId coaCodeAp = some ap) : Booked s' r v inventory ap := by
  rw [asI64_of_mem hv.1 hv.2] at hbooks
  rw [← hbook] at hinventory hap
  cases hbooks with
  | nothing hzero => rwa [Booked, if_pos hzero]
  | lacking hlacking => exact absurd hap (hlacking inventory ap hinventory)
  | @posts inventory' ap' currency lines hcost hinventory' hap' hcurrency hposts =>
    obtain rfl := Option.some.inj (hinventory.symm.trans hinventory')
    obtain rfl := Option.some.inj (hap.symm.trans hap')
    have hnormal : normalizeCurrencyCode currency = .ok currency :=
      normalizeCurrencyCode_idem hcurrency
    have hlines : lines = receiptLines currency r.note inventory ap v := by
      refine normalized_eq (fun line hline ↦ ?_) hposts.accepted.normalized
      have hcode : line.currency = currency := by
        simp only [receiptLines] at hline
        split at hline <;> simp only [List.mem_cons, List.not_mem_nil, or_false] at hline <;>
          rcases hline with rfl | rfl <;> rfl
      rw [hcode, hnormal]
    subst hlines
    have hfresh : ∀ l ∈ s.journalLines, l.journalId ≠ h.newId s.minted := by
      intro l hl heq
      obtain ⟨j, hj, hid⟩ := hheaded l hl
      exact hposts.fresh j hj (hid.trans heq)
    rw [Booked, if_neg hcost]
    refine ⟨(postedJournal h s book (receiptJournal book r currency inventory ap v) none
      (receiptLines currency r.note inventory ap v)).journal, ?_, hbook, ?_⟩
    · simp only [journalsOf, receiptJournals, withPosted, List.filter_append]
      rw [journalsOf, receiptJournals] at hnone
      rw [hnone]
      simp [postedJournal, receiptJournal]
    · refine (congrArg _ (congrArg _ (linesForJournal_withPosted_self hfresh))).trans ?_
      have hcontent : (postedJournal h s book (receiptJournal book r currency inventory ap v) none
          (receiptLines currency r.note inventory ap v)).lines.map content =
            receiptLines currency r.note inventory ap v := map_content_storedLines _ _
      rw [hcontent]
      refine sides_receiptLines hv fun line hline ↦ ?_
      obtain ⟨hside, -⟩ := hposts.accepted.sides line hline
      omega

/-- The running totals of each item stay in range with one receipt more. -/
theorem counted_append (hreceipts : s'.poReceipts = s.poReceipts ++ [r])
    (hs : ∀ itemId l, l <+: receivedQtys s itemId → Representable l.sum)
    (htotal : Representable ((receivedQtys s r.purchaseOrderItemId).sum + r.qty)) :
    ∀ itemId l, l <+: receivedQtys s' itemId → Representable l.sum := by
  intro itemId l hl
  rw [receivedQtys, hreceipts, List.filter_append, List.map_append] at hl
  by_cases hitem : r.purchaseOrderItemId = itemId
  · subst hitem
    simp only [decide_true, List.filter_cons_of_pos, List.filter_nil, List.map_cons,
      List.map_nil] at hl
    rcases List.prefix_concat_iff.1 hl with rfl | hl
    · simpa [receivedQtys] using htotal
    · exact hs _ l hl
  · simp only [hitem, decide_false, Bool.false_eq_true, not_false_eq_true, List.filter_cons_of_neg,
      List.filter_nil, List.map_nil, List.append_nil] at hl
    exact hs itemId l hl

/-- A recorded receipt agrees with its movement and its journal, and so do the earlier ones. -/
theorem Agrees.receive {new : NewPoReceipt} (hs : Agrees log s) (hvalued : Valued h s new)
    (hrun : (poReceive h new).run s = (.ok r, s')) : Agrees (log ++ [(r, s)]) s' := by
  obtain ⟨item, po, book, location, hsourced, rfl, hfresh, hbooks⟩ := poReceive_writes hrun
  obtain ⟨hvalue, htotal⟩ := hvalued item po book location (hsourced.passes hbooks)
  obtain ⟨-, hitem⟩ := lookup_eq_some hsourced.itemFound
  obtain ⟨-, hbook⟩ := lookup_eq_some hsourced.bookFound
  have hstocked : Beyond (newReceipt h s new item location) s
      (stocked h s item (newReceipt h s new item location)) := beyond_stocked
  have hbeyond := hbooks.beyond
  have hreceipts : s'.poReceipts = s.poReceipts ++ [newReceipt h s new item location] :=
    hbooks.receipts_eq
  have hmono : ∀ {id : Option String}, (∃ x ∈ s.poReceipts, id = some x.id) →
      ∃ x ∈ s'.poReceipts, id = some x.id := by
    intro id hid
    obtain ⟨x, hx, hid⟩ := hid
    exact ⟨x, hreceipts ▸ List.mem_append_left _ hx, hid⟩
  have hnew : newReceipt h s new item location ∈ s'.poReceipts :=
    hreceipts ▸ List.mem_append_right _ (List.mem_singleton_self _)
  refine ⟨?_, ?_, ?_, hbeyond.headed (hstocked.headed hs.headed),
    counted_append hreceipts hs.counted htotal, ?_⟩
  · rw [List.map_append, hs.recorded, hreceipts]
    rfl
  · intro m hm
    rcases hbeyond.moved m hm with hm | hid
    · rcases hstocked.moved m hm with hm | hid
      · exact hmono (hs.moved m hm)
      · exact ⟨_, hnew, hid⟩
    · exact ⟨_, hnew, hid⟩
  · intro j hj
    rcases hbeyond.posted j hj with hj | hid
    · exact hmono (hs.posted j hj)
    · exact ⟨_, hnew, hid⟩
  · intro e he
    rcases List.mem_append.1 he with he | he
    · have hmem : e.1 ∈ s.poReceipts := hs.recorded ▸ List.mem_map_of_mem he
      have hne := hfresh e.1 hmem
      apply (hs.tallied e he).congr _ _ hbeyond.lines
      · exact (hbeyond.movements e.1 hne).trans (hstocked.movements e.1 hne)
      · exact hbeyond.journals e.1 hne
    · obtain rfl := List.mem_singleton.1 he
      refine ⟨item, ?_, ⟨receiptMovement h s item (newReceipt h s new item location), ?_,
        rfl, rfl, rfl⟩, fun inventory ap hinventory hap ↦ ?_⟩
      · exact (congrArg _ hitem).trans hsourced.itemFound
      · have hnil := hs.movementsOf_eq_nil hfresh
        rw [movementsOf, receiptMovements] at hnil
        rw [hbooks.movementsOf_eq]
        simp only [movementsOf, receiptMovements, stocked, List.filter_append, hnil]
        simp [receiptMovement]
      · exact hbooks.booked hvalue hbook (hs.journalsOf_eq_nil hfresh) hs.headed hinventory hap

end Agreement

section Runs

def Sells (c : Call) : Prop :=
  (∃ id, c = .salesOrderConfirm id ∨ c = .salesOrderCancel id) ∨
    ∀ t ∈ writtenBy c, t ∉ [Table.poReceipts, .stockMovements, .journals]

def Trades : TradeCall → Prop
  | .service c => (∃ new, c = .poReceive new) ∨ Sells c
  | .stockMovementRecord _ | .stockTransfer _ => True

/-- The goods receipts have values and totals that 64 bits hold, and no movement by hand passes for
the one of a goods receipt. -/
def Sound (h : Host) (c : TradeCall) (s : Db) : Prop :=
  Trades c ∧ (∀ new, c = .service (.poReceive new) → Valued h s new) ∧
    ∀ new, c = .stockMovementRecord new → new.refKind ≠ some "po_receipt"

def newReceipts (s s' : Db) : List (PoReceipt × Db) :=
  (s'.poReceipts.drop s.poReceipts.length).map fun r ↦ (r, s)

/-- Runs of allowed calls from the empty database. Between the calls the orders, their items and
all that receipts only read may change in any way. -/
inductive Received (h : Host) (parseSlip : String → Except Fault SlipPayload)
    (C : TradeCall → Db → Prop) : List (PoReceipt × Db) → Db → Prop
  | start : Received h parseSlip C [] {}
  | call {log : List (PoReceipt × Db)} {s : Db} (c : TradeCall)
      (hs : Received h parseSlip C log s) (hc : C c s) :
      Received h parseSlip C (log ++ newReceipts s (c.run h parseSlip s)) (c.run h parseSlip s)
  | elsewhere {log : List (PoReceipt × Db)} {s s' : Db} (hs : Received h parseSlip C log s)
      (he : Elsewhere h s s') (hmovements : s'.stockMovements = s.stockMovements) :
      Received h parseSlip C log s'

/-- Receipts, stock and ledger agree, what cannot be represented is refused, and what fails changes
nothing. -/
structure Accounted (h : Host) (C : TradeCall → Db → Prop) (log : List (PoReceipt × Db))
    (s : Db) : Prop where
  recorded : log.map Prod.fst = s.poReceipts
  received : ∀ itemId, poItemReceivedQty s itemId = .ok (receivedQtys s itemId).sum
  tallied : ∀ r before, (r, before) ∈ log → Tallied s r before
  refused : ∀ new, C (.service (.poReceive new)) s → ∀ item,
    lookup PurchaseOrderItem.id s.purchaseOrderItems new.purchaseOrderItemId = some item →
    ¬Representable (item.unitPriceMinor * new.qty) → ∃ e, (poReceive h new).run s = (.error e, s)
  unchanged : ∀ new e t, (poReceive h new).run s = (.error e, t) → t = s

variable {log : List (PoReceipt × Db)}

theorem sells_aside {c : Call} (hc : Sells c) :
    (c.program h parseSlip).Guarantees Eq (fun _ ↦ Aside) s := by
  rcases hc with ⟨id, rfl | rfl⟩ | hc
  · exact (within_dropResult salesOrderConfirm_aside).meets
  · exact (within_dropResult salesOrderCancel_aside).meets
  · have hkeeps : (c.program h parseSlip).Since Eq (fun _ ↦ Keeps receiptTables) s := by
      refine program_keeps (fun _ _ ↦ rfl) c fun t ht ↦ ?_
      have hother := hc t ht
      cases t with
      | poReceipts | stockMovements | journals => simp at hother
      | _ => exact fun _ _ ↦ rfl
    exact (hkeeps.mono fun _ _ _ ↦ aside_of_keeps).guarantees

theorem stockMovementRecord_aside {new : NewStockMovement}
    (hkind : new.refKind ≠ some "po_receipt") :
    (stockMovementRecord h new).Within fun _ ↦ Aside :=
  within_fetch_bind fun _ ↦ within_fetch_bind fun _ ↦ (within_ofExcept_bind _).2 fun _ _ ↦
    (within_atomically _ _).2 (movement_aside hkind)

theorem stockTransfer_aside {transfer : StockTransfer} :
    (stockTransfer h transfer).Within fun _ ↦ Aside :=
  (within_ofExcept_bind _).2 fun _ _ ↦ within_fetch_bind fun _ ↦ within_fetch_bind fun _ ↦
    within_fetch_bind fun _ ↦ (within_ofExcept_bind _).2 fun _ _ ↦ (within_atomically _ _).2 <|
    moves_bind (moves_aside (keeps_newId fun _ _ ↦ rfl)) fun _ ↦
    moves_bind (movement_aside (by decide)) fun _ ↦ movement_aside (by decide)

theorem aside_of_elsewhere (he : Elsewhere h s s')
    (hmovements : s'.stockMovements = s.stockMovements) : Aside s s' :=
  aside_of_eq he.poReceipts (by rw [receiptMovements, receiptMovements, hmovements]) he.journals
    he.journalLines

theorem newReceipts_of_aside (haside : Aside s s') : newReceipts s s' = [] := by
  rw [newReceipts, haside.receipts, List.drop_length]
  rfl

theorem agrees_empty : Agrees [] {} where
  recorded := rfl
  moved := by simp [receiptMovements]
  posted := by simp [receiptJournals]
  headed := by simp [Headed]
  counted := by simp [receivedQtys, Representable]
  tallied := by simp

theorem poReceive_unchanged {new : NewPoReceipt} {e : Fault}
    (hrun : (poReceive h new).run s = (.error e, s')) : s' = s := by
  have hsame : ((poReceive h new).run s).2 = s := poReceive_settled.run_error (by rw [hrun])
  rwa [hrun] at hsame

theorem run_poReceive {new : NewPoReceipt} :
    (TradeCall.service (.poReceive new)).run h parseSlip s = ((poReceive h new).run s).2 := by
  change ((dropResult (poReceive h new)).run s).2 = _
  rw [dropResult, run_bind]
  cases (poReceive h new).run s with
  | mk result s' => cases result <;> rfl

theorem Agrees.call (hs : Agrees log s) {c : TradeCall} (hc : Sound h c s) :
    Agrees (log ++ newReceipts s (c.run h parseSlip s)) (c.run h parseSlip s) := by
  obtain ⟨htrades, hvalued, hkind⟩ := hc
  have haside : (c.program h parseSlip).Guarantees Eq (fun _ ↦ Aside) s →
      Agrees (log ++ newReceipts s (c.run h parseSlip s)) (c.run h parseSlip s) := by
    intro hguarantees
    have haside : Aside s (c.run h parseSlip s) := run_of_guarantees hguarantees
    rw [newReceipts_of_aside haside, List.append_nil]
    exact hs.aside haside
  cases c with
  | stockMovementRecord new => exact haside (stockMovementRecord_aside (hkind new rfl)).meets
  | stockTransfer transfer => exact haside stockTransfer_aside.meets
  | service c =>
    rcases htrades with ⟨new, rfl⟩ | hsells
    · rw [run_poReceive]
      cases hrun : (poReceive h new).run s with
      | mk result s' =>
        cases result with
        | error e =>
          obtain rfl : s' = s := poReceive_unchanged hrun
          rw [newReceipts_of_aside (refl_of Aside s'), List.append_nil]
          exact hs
        | ok r =>
          have hagrees := hs.receive (hvalued new rfl) hrun
          have hlog : newReceipts s s' = [(r, s)] := by
            have hreceipts := hagrees.recorded
            rw [List.map_append, hs.recorded] at hreceipts
            rw [newReceipts, ← hreceipts, List.drop_left]
            rfl
          rwa [hlog]
    · exact haside (sells_aside hsells)

theorem agrees_of_received (hrun : Received h parseSlip (Sound h) log s) : Agrees log s := by
  induction hrun with
  | start => exact agrees_empty
  | call c _ hc ih => exact ih.call hc
  | elsewhere _ he hmovements ih => exact ih.aside (aside_of_elsewhere he hmovements)

/-- As long as the values and the totals of the goods receipts can be represented and no movement by
hand passes for theirs, receipts, stock and ledger agree. -/
theorem receipts_accounted (hrun : Received h parseSlip (Sound h) log s) :
    Accounted h (Sound h) log s where
  recorded := (agrees_of_received hrun).recorded
  received itemId := sqlSum_of_prefixes ((agrees_of_received hrun).counted itemId)
  tallied r before he := (agrees_of_received hrun).tallied (r, before) he
  refused new hsound _ hitem hlarge := refused_of_valued (hsound.2.1 new rfl) hitem hlarge
  unchanged _ _ _ hrun := poReceive_unchanged hrun

def orderedBook : Db :=
  { setup with
    purchaseOrders := [⟨"order", "book", .ordered, "ZAR"⟩]
    purchaseOrderItems := [⟨"item", "order", "book", "variant", 4⟩] }

theorem elsewhere_orderedBook : Elsewhere plainHost {} orderedBook :=
  { elsewhere_setup with }

def inventoryAccount : Call :=
  .coaCreate ⟨"book", "1200", "Inventory", .asset, none⟩

def payablesAccount : Call :=
  .coaCreate ⟨"book", "2000", "Payables", .liability, none⟩

def accountedBook : Db :=
  runs orderedBook [inventoryAccount, payablesAccount]

def arrival (qty : ℤ) : TradeCall :=
  .service (.poReceive ⟨"item", "location", qty, none⟩)

def arrived (qty : ℤ) : PoReceipt :=
  ⟨"xxx", "book", "item", "location", qty, none, "2025-06-15T00:00:00Z"⟩

theorem Received.sells {C : TradeCall → Db → Prop} (hs : Received h parseSlip C log s) {c : Call}
    (hc : C (.service c) s) (hsells : Sells c) :
    Received h parseSlip C log (c.run h parseSlip s) := by
  have haside : Aside s (c.run h parseSlip s) := run_of_guarantees (sells_aside hsells)
  have hcall := hs.call (.service c) hc
  change Received h parseSlip C (log ++ newReceipts s (c.run h parseSlip s)) _ at hcall
  rwa [newReceipts_of_aside haside, List.append_nil] at hcall

theorem received_accountedBook {C : TradeCall → Db → Prop}
    (hC : ∀ c, Sells c → ∀ s, C (.service c) s) :
    Received plainHost noSlip C [] accountedBook :=
  have hsells : ∀ new, Sells (.coaCreate new) := fun new ↦ .inr (by simp [writtenBy])
  ((Received.start.elsewhere elsewhere_orderedBook rfl).sells (hC _ (hsells _) _)
    (hsells _)).sells (hC _ (hsells _) _) (hsells _)

theorem received_arrival {C : TradeCall → Db → Prop} (hC : ∀ c, Sells c → ∀ s, C (.service c) s)
    (qty : ℤ) (hqty : C (arrival qty) accountedBook)
    (hnew : ((arrival qty).run plainHost noSlip accountedBook).poReceipts = [arrived qty]) :
    Received plainHost noSlip C [(arrived qty, accountedBook)]
      ((arrival qty).run plainHost noSlip accountedBook) := by
  have hcall := (received_accountedBook hC).call (arrival qty) hqty
  have hlog : newReceipts accountedBook ((arrival qty).run plainHost noSlip accountedBook) =
      [(arrived qty, accountedBook)] := by
    rw [newReceipts, hnew]
    rfl
  rwa [hlog, List.nil_append] at hcall

/-- A value of 2 ^ 64 wraps to nothing, and its goods arrive without a journal. -/
theorem receipts_ignore_value :
    ¬∀ log s, Received plainHost noSlip (fun c _ ↦ Trades c) log s →
      Accounted plainHost (fun c _ ↦ Trades c) log s := by
  intro hclaim
  have hrun := received_arrival (C := fun c _ ↦ Trades c) (fun _ hc _ ↦ .inr hc) (2 ^ 62)
    (.inl ⟨_, rfl⟩) (by decide +kernel)
  obtain ⟨item, hitem, -, hbooked⟩ := (hclaim _ _ hrun).tallied _ _ (List.mem_singleton_self _)
  obtain rfl : PurchaseOrderItem.mk "item" "order" "book" "variant" 4 = item :=
    Option.some.inj (Eq.trans (by decide +kernel) hitem)
  have hbooked := hbooked ⟨"x", "book", "1200", "Inventory", .asset, none, false⟩
    ⟨"xx", "book", "2000", "Payables", .liability, none, false⟩
    (by decide +kernel) (by decide +kernel)
  rw [Booked, if_neg (by decide)] at hbooked
  obtain ⟨j, hj, -⟩ := hbooked
  have hnone : journalsOf ((arrival (2 ^ 62)).run plainHost noSlip accountedBook)
      (arrived (2 ^ 62)) = [] := by
    decide +kernel
  rw [hnone] at hj
  cases hj

theorem sound_of_sells {c : Call} (hc : Sells c) : Sound h (.service c) s := by
  refine ⟨.inr hc, fun new heq ↦ ?_, fun new heq ↦ nomatch heq⟩
  obtain rfl := TradeCall.service.inj heq
  simp [Sells, writtenBy] at hc

/-- Ten items at 4 each are worth 40. -/
theorem receipts_accounted_of_forty :
    Tallied ((arrival 10).run plainHost noSlip accountedBook) (arrived 10) accountedBook := by
  have hvalued : Valued plainHost accountedBook ⟨"item", "location", 10, none⟩ := by
    intro item po book location hpasses
    obtain rfl : PurchaseOrderItem.mk "item" "order" "book" "variant" 4 = item :=
      Option.some.inj (Eq.trans (by decide +kernel) hpasses.itemFound)
    exact ⟨by decide, by decide +kernel⟩
  have hsound : Sound plainHost (arrival 10) accountedBook := by
    refine ⟨.inl ⟨_, rfl⟩, fun new heq ↦ ?_, fun new heq ↦ nomatch heq⟩
    obtain rfl := Call.poReceive.inj (TradeCall.service.inj heq)
    exact hvalued
  exact (receipts_accounted (received_arrival (fun _ hc _ ↦ sound_of_sells hc) 10 hsound
    (by decide +kernel))).tallied _ _ (List.mem_singleton_self _)

end Runs

end SlipScan.Ledger.Receipts
