import SlipScan.Ledger.Posting
import SlipScan.Model.Assets
import SlipScan.Model.Period
import SlipScan.Model.SalesPosting
import SlipScan.Model.Scheduling

namespace SlipScan.Writes.Frames

open Model.Domain Model.Database Model.Ledger Model.Money Model.Period Model.Generate Model.Trade Model.Sales
  Model.SalesPosting Model.Invoicing Model.Banking Model.Recurring Model.Scheduling Model.Assets
  Foundation.Transaction Foundation.Table Ledger.Posting

/-- A write that `keep` does not see. -/
def Keeps {V : Type} (keep : Db → V) (s s' : Db) : Prop :=
  keep s' = keep s ∧ s.minted ≤ s'.minted

variable {V : Type} {keep : Db → V} {h : Host}

instance : Std.Refl (Keeps keep) where
  refl _ := ⟨rfl, le_rfl⟩

instance : IsTrans Db (Keeps keep) where
  trans _ _ _ hs hs' := ⟨hs'.1.trans hs.1, hs.2.trans hs'.2⟩

instance : IsPreorder Db (Keeps keep) where

theorem keeps_constraint {c : Prop} [Decidable c] {message : String} :
    Moves (Keeps keep) (constraint c message) := fun s ↦
  ensures_constraint.2 fun _ ↦ refl_of (Keeps keep) s

theorem keeps_nowIso : Moves (Keeps keep) (nowIso h) := fun s ↦
  ensures_nowIso.2 (refl_of (Keeps keep) s)

theorem keeps_newId (hm : ∀ s x, keep { s with minted := x } = keep s) :
    Moves (Keeps keep) (newId h) := fun s ↦
  ensures_newId.2 ⟨hm s _, Nat.le_succ s.minted⟩

theorem insertReceipt_keeps (receipt : PoReceipt)
    (ht : ∀ s x, keep { s with poReceipts := x } = keep s) :
    Moves (Keeps keep) (insertReceipt receipt) := by
  intro s
  simp only [insertReceipt, ensures_bind, ensures_get, ensures_constraint, ensures_modify]
  intros
  exact ⟨ht s _, le_rfl⟩

theorem orderInsert_keeps (order : SalesOrder)
    (ht : ∀ s x, keep { s with salesOrders := x } = keep s) :
    Moves (Keeps keep) (orderInsert order) := by
  intro s
  simp only [orderInsert, ensures_bind, ensures_get, ensures_constraint, ensures_modify]
  intros
  exact ⟨ht s _, le_rfl⟩

theorem orderUpdate_keeps (order : SalesOrder)
    (ht : ∀ s x, keep { s with salesOrders := x } = keep s) :
    Moves (Keeps keep) (orderUpdate order) := by
  intro s
  simp only [orderUpdate, ensures_bind, ensures_get, ensures_constraint, ensures_modify]
  intros
  exact ⟨ht s _, le_rfl⟩

theorem orderItemInsert_keeps (item : SalesOrderItem)
    (ht : ∀ s x, keep { s with salesOrderItems := x } = keep s) :
    Moves (Keeps keep) (orderItemInsert item) := by
  intro s
  simp only [orderItemInsert, ensures_bind, ensures_get, ensures_constraint, ensures_modify]
  intros
  exact ⟨ht s _, le_rfl⟩

theorem invoiceInsert_keeps (invoice : Invoice)
    (ht : ∀ s x, keep { s with invoices := x } = keep s) :
    Moves (Keeps keep) (invoiceInsert invoice) := by
  intro s
  simp only [invoiceInsert, ensures_bind, ensures_get, ensures_constraint, ensures_modify]
  intros
  exact ⟨ht s _, le_rfl⟩

theorem invoiceItemInsert_keeps (item : InvoiceItem)
    (ht : ∀ s x, keep { s with invoiceItems := x } = keep s) :
    Moves (Keeps keep) (invoiceItemInsert item) := by
  intro s
  simp only [invoiceItemInsert, ensures_bind, ensures_get, ensures_constraint, ensures_modify]
  intros
  exact ⟨ht s _, le_rfl⟩

theorem invoicePaymentInsert_keeps (payment : InvoicePayment)
    (ht : ∀ s x, keep { s with invoicePayments := x } = keep s) :
    Moves (Keeps keep) (invoicePaymentInsert payment) := by
  intro s
  simp only [invoicePaymentInsert, ensures_bind, ensures_get, ensures_constraint, ensures_modify]
  intros
  exact ⟨ht s _, le_rfl⟩

theorem insertTransaction_keeps (txn : Transaction)
    (ht : ∀ s x, keep { s with transactions := x } = keep s) :
    Moves (Keeps keep) (insertTransaction txn) := by
  intro s
  simp only [insertTransaction, ensures_bind, ensures_get, ensures_constraint, ensures_modify]
  intros
  exact ⟨ht s _, le_rfl⟩

theorem depreciationRunInsert_keeps (run : AssetDepreciationRun)
    (ht : ∀ s x, keep { s with depreciationRuns := x } = keep s) :
    Moves (Keeps keep) (depreciationRunInsert run) := by
  intro s
  simp only [depreciationRunInsert, ensures_bind, ensures_get, ensures_constraint, ensures_modify]
  intros
  exact ⟨ht s _, le_rfl⟩

theorem itemInsert_keeps (item : RecurringScheduleItem)
    (ht : ∀ s x, keep { s with recurringScheduleItems := x } = keep s) :
    Moves (Keeps keep) (itemInsert item) := by
  intro s
  simp only [itemInsert, ensures_bind, ensures_get, ensures_constraint, ensures_modify]
  intros
  exact ⟨ht s _, le_rfl⟩

theorem runInsert_keeps (run : RecurringRun)
    (ht : ∀ s x, keep { s with recurringRuns := x } = keep s) :
    Moves (Keeps keep) (runInsert run) := by
  intro s
  simp only [runInsert, ensures_bind, ensures_get, ensures_constraint, ensures_modify]
  intros
  exact ⟨ht s _, le_rfl⟩

theorem allocateNumber_keeps {bookId series : String}
    (ht : ∀ s x, keep { s with numberSequences := x } = keep s) :
    Moves (Keeps keep) (allocateNumber bookId series) := by
  refine moves_bind moves_get fun db ↦ moves_bind keeps_constraint fun _ ↦ ?_
  split
  · exact fun s ↦ by simpa using ⟨ht s _, le_rfl⟩
  · exact fun s ↦ by simpa using ⟨ht s _, le_rfl⟩

theorem orderDelete_keeps (id : String)
    (ht : ∀ s x y z, keep { s with salesOrders := x, salesOrderItems := y, quotes := z } = keep s) :
    Moves (Keeps keep) (orderDelete id) := by
  intro s
  simp only [orderDelete, ensures_bind, ensures_get, ensures_constraint, ensures_modify]
  intros
  exact ⟨ht s _ _ _, le_rfl⟩

theorem orderItemUpdate_keeps (item : SalesOrderItem)
    (ht : ∀ s x, keep { s with salesOrderItems := x } = keep s) :
    Moves (Keeps keep) (orderItemUpdate item) := fun s ↦
  (ensures_modify _).2 ⟨ht s _, le_rfl⟩

theorem orderItemDelete_keeps (id : String)
    (ht : ∀ s x, keep { s with salesOrderItems := x } = keep s) :
    Moves (Keeps keep) (orderItemDelete id) := fun s ↦
  (ensures_modify _).2 ⟨ht s _, le_rfl⟩

theorem assetUpdate_keeps (asset : Asset) (ht : ∀ s x, keep { s with assets := x } = keep s) :
    Moves (Keeps keep) (assetUpdate asset) := fun s ↦
  (ensures_modify _).2 ⟨ht s _, le_rfl⟩

theorem scheduleConstraints_keeps (schedule : RecurringSchedule) :
    Moves (Keeps keep) (scheduleConstraints schedule) :=
  moves_bind moves_get fun _ ↦ moves_bind keeps_constraint fun _ ↦ keeps_constraint

theorem scheduleInsert_keeps (schedule : RecurringSchedule)
    (ht : ∀ s x, keep { s with recurringSchedules := x } = keep s) :
    Moves (Keeps keep) (scheduleInsert schedule) := by
  refine moves_bind moves_get fun _ ↦ moves_bind keeps_constraint fun _ ↦
    moves_bind keeps_constraint fun _ ↦ moves_bind keeps_constraint fun _ ↦
    moves_bind (scheduleConstraints_keeps _) fun _ s ↦ ?_
  exact (ensures_modify _).2 ⟨ht s _, le_rfl⟩

theorem scheduleUpdate_keeps (schedule : RecurringSchedule)
    (ht : ∀ s x, keep { s with recurringSchedules := x } = keep s) :
    Moves (Keeps keep) (scheduleUpdate schedule) := by
  refine moves_bind moves_get fun _ ↦ moves_ite (fun _ ↦ ?_) fun _ ↦ moves_pure _
  exact moves_bind (scheduleConstraints_keeps _) fun _ s ↦
    (ensures_modify _).2 ⟨ht s _, le_rfl⟩

theorem scheduleDelete_keeps (id : String)
    (ht : ∀ s x y, keep { s with recurringSchedules := x, recurringScheduleItems := y } = keep s) :
    Moves (Keeps keep) (scheduleDelete id) := by
  intro s
  simp only [scheduleDelete, ensures_bind, ensures_get, ensures_constraint, ensures_modify]
  intros
  exact ⟨ht s _ _, le_rfl⟩

theorem itemUpdate_keeps (item : RecurringScheduleItem)
    (ht : ∀ s x, keep { s with recurringScheduleItems := x } = keep s) :
    Moves (Keeps keep) (itemUpdate item) := fun s ↦
  (ensures_modify _).2 ⟨ht s _, le_rfl⟩

theorem itemDelete_keeps (id : String)
    (ht : ∀ s x, keep { s with recurringScheduleItems := x } = keep s) :
    Moves (Keeps keep) (itemDelete id) := fun s ↦
  (ensures_modify _).2 ⟨ht s _, le_rfl⟩

theorem insertMovementInTx_keeps {bookId variantId locationId : String} {qtyDelta : ℤ}
    {kind : StockMovementKind} {refKind refId note : Option String}
    (ht : ∀ s x, keep { s with stockMovements := x } = keep s)
    (hm : ∀ s x, keep { s with minted := x } = keep s) :
    Moves (Keeps keep)
      (insertMovementInTx h bookId variantId locationId qtyDelta kind refKind refId note) := by
  refine moves_bind (keeps_newId hm) fun _ ↦ moves_bind moves_get fun _ ↦
    moves_bind keeps_constraint fun _ ↦ moves_bind keeps_constraint fun _ ↦
    moves_bind keeps_constraint fun _ s ↦ ?_
  exact (ensures_modify _).2 ⟨ht s _, le_rfl⟩

theorem insertMovementInTx_ensures {bookId variantId locationId : String} {qtyDelta : ℤ}
    {kind : StockMovementKind} {refKind refId note : Option String} {s : Db} :
    Ensures (insertMovementInTx h bookId variantId locationId qtyDelta kind refKind refId note) s
      fun _ s' ↦ s'.stockMovements = s.stockMovements ++
        [{ id := h.newId s.minted, bookId, variantId, locationId, qtyDelta, kind, refKind, refId,
           note }] := by
  simp only [insertMovementInTx, ensures_bind, ensures_newId, ensures_get, ensures_constraint,
    ensures_modify, implies_true]

def movedLines (items : List SalesOrderItem) (locationId : String) (sign : ℤ) :
    List (String × String × ℤ) :=
  (stockItems items).map fun i ↦ (i.variantId.getD "", locationId, asI64 (sign * i.quantity))

def movedUnits (m : StockMovement) : String × String × ℤ :=
  (m.variantId, m.locationId, m.qtyDelta)

theorem moveStock_ensures {order : SalesOrder} {items : List SalesOrderItem}
    {locationId note : String} {sign : ℤ} {s : Db} :
    Ensures (moveStock h order items locationId sign note) s fun _ s' ↦
      ∃ moved, s'.stockMovements = s.stockMovements ++ moved ∧
        moved.map movedUnits = movedLines items locationId sign ∧
        ∀ m ∈ moved, m.refKind = some "sales_order" ∧ m.refId = some order.id := by
  have hloop := ensures_forM_rest (s := s) (f := fun item : SalesOrderItem ↦
    insertMovementInTx h order.bookId (item.variantId.getD "") locationId
      (asI64 (sign * item.quantity)) .sale (some "sales_order") (some order.id) (some note))
    (I := fun left s' ↦ ∃ moved, s'.stockMovements = s.stockMovements ++ moved ∧
      moved.map movedUnits ++ left.map (fun i ↦ (i.variantId.getD "", locationId,
        asI64 (sign * i.quantity))) = movedLines items locationId sign ∧
      ∀ m ∈ moved, m.refKind = some "sales_order" ∧ m.refId = some order.id)
    (stockItems items) ⟨[], by simp, rfl, by simp⟩ ?_
  · refine hloop.mono fun _ s' hs' ↦ ?_
    obtain ⟨moved, hmoved, hunits, hrefs⟩ := hs'
    exact ⟨moved, hmoved, by simpa using hunits, hrefs⟩
  · rintro item left t ⟨moved, hmoved, hunits, hrefs⟩
    refine insertMovementInTx_ensures.mono fun _ t' ht' ↦ ?_
    refine ⟨moved ++ [_], by rw [ht', hmoved, List.append_assoc], ?_, ?_⟩
    · rw [← hunits]
      simp [movedUnits]
    · intro m hm
      rcases List.mem_append.1 hm with hm | hm
      · exact hrefs m hm
      · rw [List.mem_singleton.1 hm]
        exact ⟨rfl, rfl⟩

theorem moveStock_keeps {order : SalesOrder} {items : List SalesOrderItem}
    {locationId note : String} {sign : ℤ}
    (ht : ∀ s x, keep { s with stockMovements := x } = keep s)
    (hm : ∀ s x, keep { s with minted := x } = keep s) :
    Moves (Keeps keep) (moveStock h order items locationId sign note) :=
  moves_forM _ fun _ _ ↦ insertMovementInTx_keeps ht hm

theorem storeInvoiceItems_keeps (invoice : Invoice) (lineOrder : ℕ)
    (lines : List (Option String × String × ℤ × ℤ × ℤ))
    (ht : ∀ s x, keep { s with invoiceItems := x } = keep s)
    (hm : ∀ s x, keep { s with minted := x } = keep s) :
    Moves (Keeps keep) (storeInvoiceItems h invoice lineOrder lines) := by
  induction lines generalizing lineOrder with
  | nil => exact moves_pure _
  | cons line lines ih =>
    exact moves_bind (keeps_newId hm) fun _ ↦
      moves_bind (invoiceItemInsert_keeps _ ht) fun _ ↦ ih _

theorem storeItems_keeps (schedule : RecurringSchedule) (now : String) (lineOrder : ℕ)
    (items : List NewInvoiceItemInput)
    (ht : ∀ s x, keep { s with recurringScheduleItems := x } = keep s)
    (hm : ∀ s x, keep { s with minted := x } = keep s) :
    Moves (Keeps keep) (storeItems h schedule now lineOrder items) := by
  induction items generalizing lineOrder with
  | nil => exact moves_pure _
  | cons item items ih =>
    exact moves_bind moves_get fun _ ↦ moves_bind (moves_check _) fun _ ↦
      moves_bind (moves_check _) fun _ ↦ moves_bind (moves_check _) fun _ ↦
      moves_bind (moves_check _) fun _ ↦ moves_bind (keeps_newId hm) fun _ ↦
      moves_bind (itemInsert_keeps _ ht) fun _ ↦ ih _

theorem createTransactionInTx_keeps (new : NewTransaction)
    (ht : ∀ s x, keep { s with transactions := x } = keep s)
    (hm : ∀ s x, keep { s with minted := x } = keep s) :
    Moves (Keeps keep) (createTransactionInTx h new) := by
  exact moves_bind moves_get fun _ ↦ moves_bind (moves_check _) fun _ ↦
    moves_bind (moves_check _) fun _ ↦ moves_bind (moves_check _) fun _ ↦
    moves_bind (moves_check _) fun _ ↦ moves_bind (moves_check _) fun _ ↦
    moves_bind moves_get fun _ ↦ moves_bind (moves_check _) fun _ ↦
    moves_bind (moves_check _) fun _ ↦ moves_bind (keeps_newId hm) fun _ ↦
    moves_bind (insertTransaction_keeps _ ht) fun _ ↦ moves_bind moves_get fun _ ↦
    moves_bind (moves_check _) fun _ ↦ moves_pure _

theorem withPosted_keeps {s : Db} {p : PostedJournal}
    (ht : ∀ s x y z, keep { s with journals := x, journalLines := y, minted := z } = keep s) :
    Keeps keep s (withPosted s p) :=
  ⟨ht s _ _ _, by rw [withPosted, Nat.add_assoc]; exact Nat.le_add_right _ _⟩

theorem postJournalInTx_keeps {book : Book} {new : NewJournal} {reversalOf : Option String}
    (ht : ∀ s x y z, keep { s with journals := x, journalLines := y, minted := z } = keep s) :
    Moves (Keeps keep) (postJournalInTx h book new reversalOf) := fun s ↦
  postJournalInTx_ensures.mono fun p s' hs ↦ by
    obtain ⟨lines, -, rfl, rfl⟩ := hs
    exact withPosted_keeps ht

theorem reverseJournalInTx_keeps {book : Book} {id : String} {date narrative : Option String}
    (ht : ∀ s x y z, keep { s with journals := x, journalLines := y, minted := z } = keep s) :
    Moves (Keeps keep) (reverseJournalInTx h book id date narrative) :=
  moves_bind moves_get fun _ ↦ moves_bind (moves_check _) fun _ ↦ moves_bind moves_get fun _ ↦
    moves_bind (moves_check _) fun _ ↦ postJournalInTx_keeps ht

theorem insertCoa_keeps (coa : CoaAccount) (ht : ∀ s x, keep { s with coa := x } = keep s) :
    Moves (Keeps keep) (insertCoa coa) := by
  intro s
  simp only [insertCoa, ensures_bind, ensures_get, ensures_ite, ensures_pure, ensures_constraint,
    ensures_modify]
  exact ⟨fun _ ↦ refl_of (Keeps keep) s, fun _ _ _ ↦ ⟨ht s _, le_rfl⟩⟩

theorem insertVatRate_keeps (rate : VatRate) (ht : ∀ s x, keep { s with vatRates := x } = keep s) :
    Moves (Keeps keep) (insertVatRate rate) := by
  intro s
  simp only [insertVatRate, ensures_bind, ensures_get, ensures_ite, ensures_pure,
    ensures_constraint, ensures_modify]
  exact ⟨fun _ ↦ refl_of (Keeps keep) s, fun _ _ _ ↦ ⟨ht s _, le_rfl⟩⟩

theorem setCoaArchived_keeps (id : String) (isArchived : Bool)
    (ht : ∀ s x, keep { s with coa := x } = keep s) :
    Moves (Keeps keep) (setCoaArchived id isArchived) := fun s ↦
  (ensures_modify _).2 ⟨ht s _, le_rfl⟩

theorem setVatRateBps_keeps (id : String) (rateBps : ℤ)
    (ht : ∀ s x, keep { s with vatRates := x } = keep s) :
    Moves (Keeps keep) (setVatRateBps id rateBps) := fun s ↦
  (ensures_modify _).2 ⟨ht s _, le_rfl⟩

section Reading

variable {R : Db → Db → Prop} [Std.Refl R] {α : Type}

theorem moves_query (f : Db → α) : Moves R (Reads.query f : Action α) := fun s ↦
  (ensures_query f).2 (refl_of R s)

theorem moves_resolveInvoice [IsTrans Db R] {book : Book} {new : NewInvoice} :
    Moves R (resolveInvoice h book new : Action ResolvedInvoice) := by
  have hlines : Moves R (resolveLines book new : Action _) := by
    rw [resolveLines]
    split
    · exact moves_bind (moves_query _) fun _ ↦ moves_bind (moves_check _) fun _ ↦
        moves_bind (moves_check _) fun _ ↦ moves_bind (moves_check _) fun _ ↦
        moves_bind (moves_query _) fun _ ↦ moves_bind (moves_check _) fun _ ↦ moves_pure _
    · exact moves_bind (moves_check _) fun _ ↦ moves_bind (moves_query _) fun _ ↦
        moves_bind (moves_check _) fun _ ↦ moves_bind (moves_check _) fun _ ↦
        moves_bind (moves_check _) fun _ ↦ moves_bind (moves_check _) fun _ ↦
        moves_bind (moves_query _) fun _ ↦ moves_bind (moves_check _) fun _ ↦ moves_pure _
  exact moves_bind (moves_query _) fun _ ↦ moves_bind (moves_check _) fun _ ↦
    moves_bind (moves_check _) fun _ ↦ moves_bind (moves_check _) fun _ ↦
    moves_bind (moves_check _) fun _ ↦ moves_bind hlines fun _ ↦ moves_pure _

end Reading

end SlipScan.Writes.Frames
