import SlipScan.Ledger.Steps
import SlipScan.Writes.Tables

namespace SlipScan.Ledger.Effects

open Model.Domain Model.Database Model.Ledger Model.Money Model.Generate Model.Trade Model.Sales
  Model.SalesPosting Model.Invoicing Model.Banking Model.Recurring Model.Scheduling Model.Assets
  Model.Period Model.Service Model.Slip Foundation.Transaction Foundation.Interleaving
  Foundation.Table Posting Steps Writes.Frames Writes.Tables Relation

variable {V : Type} {keep : Db → V} {h : Host} {c : Call} {held : List Held} {book : Book}
  {s s' : Db}

/-- Steps of the ledger of which `keep` shows nothing. -/
structure Footprint (h : Host) (c : Call) (keep : Db → V) (held : List Held) (s s' : Db) :
    Prop where
  steps : LedgerSteps h c held s s'
  keeps : Keeps keep s s'

instance : Std.Refl (Footprint h c keep held) where
  refl s := ⟨.refl, refl_of (Keeps keep) s⟩

instance : IsTrans Db (Footprint h c keep held) where
  trans _ _ _ hs hs' := ⟨hs.steps.trans hs'.steps, trans_of (Keeps keep) hs.keeps hs'.keeps⟩

instance : IsPreorder Db (Footprint h c keep held) where

section Ledger

theorem LedgerStep.journals_mono (hs : LedgerStep h c held s s') {j : Journal}
    (hj : j ∈ s.journals) : j ∈ s'.journals := by
  cases hs with
  | post => exact List.mem_append_left _ hj
  | reverse => exact List.mem_append_left _ hj
  | other hother => rwa [hother.journals]

theorem LedgerSteps.journals_mono (hs : LedgerSteps h c held s s') {j : Journal}
    (hj : j ∈ s.journals) : j ∈ s'.journals := by
  induction hs with
  | refl => exact hj
  | tail _ hstep ih => exact LedgerStep.journals_mono hstep ih

theorem ensures_reverse_step {id : String} {date narrative : Option String}
    (hbook : .book book ∈ held) (hid : MayReverse c s id) :
    Ensures (reverseJournalInTx h book id date narrative) s fun _ s' ↦
      LedgerStep h c held s s' := by
  refine reverseJournalInTx_ensures.mono ?_
  rintro p s' ⟨original, lines, horig, hnone, hposts, rfl, rfl⟩
  exact .reverse hbook hid horig hnone hposts

theorem isGenerated_of_mem {bookId sourceId id : String} {sourceType : JournalSourceType}
    (hid : id ∈ findJournalsBySource s bookId sourceType sourceId) :
    ∃ j ∈ s.journals, j.id = id ∧ j.bookId = bookId ∧ j.sourceType = sourceType ∧
      j.sourceId = some sourceId := by
  simp only [findJournalsBySource, List.mem_map, List.mem_insertionSort, List.mem_filter,
    decide_eq_true_eq] at hid
  obtain ⟨j, ⟨hj, hbook, htype, hsource⟩, rfl⟩ := hid
  exact ⟨j, hj, rfl, hbook, htype, hsource⟩

end Ledger

section Rules

variable {α : Type} {m : Action α}

theorem moves_other (hm : Moves Preserves m) (hk : Moves (Keeps keep) m) :
    Moves (Footprint h c keep held) m := fun s ↦
  ((hm s).and (hk s)).mono fun _ _ hs ↦ ⟨.single (.other hs.1), hs.2⟩

/-- A write to a table that is not part of the ledger. -/
theorem moves_write (hl : Moves (Keeps ledgerTables) m) (hk : Moves (Keeps keep) m) :
    Moves (Footprint h c keep held) m :=
  moves_other (hl.mono fun _ _ ↦ preserves_of_keeps) hk

theorem moves_keeps (book : Book) (hmoves : ∀ c, Moves (Footprint h c keep [.book book]) m) :
    Moves (Keeps keep) m :=
  (hmoves (.coaSeed "")).mono fun _ _ ↦ Footprint.keeps

theorem moves_nowIso : Moves (Footprint h c keep held) (nowIso h) :=
  moves_write keeps_nowIso keeps_nowIso

theorem moves_orderUpdate (order : SalesOrder) (ho : Hides keep .salesOrders) :
    Moves (Footprint h c keep held) (orderUpdate order) :=
  moves_write (orderUpdate_keeps order fun _ _ ↦ rfl) (orderUpdate_keeps order ho)

theorem moves_scheduleUpdate (schedule : RecurringSchedule)
    (hs : Hides keep .recurringSchedules) :
    Moves (Footprint h c keep held) (scheduleUpdate schedule) :=
  moves_write (scheduleUpdate_keeps schedule fun _ _ ↦ rfl) (scheduleUpdate_keeps schedule hs)

end Rules

section Bodies

variable (hm : ∀ s x, keep { s with minted := x } = keep s)

include hm

theorem moves_newId : Moves (Footprint h c keep held) (newId h) :=
  moves_write (keeps_newId fun _ _ ↦ rfl) (keeps_newId hm)

theorem journals_minted (hj : Hides keep .journals) (s : Db) (x : List Journal)
    (y : List JournalLine) (z : ℕ) :
    keep { s with journals := x, journalLines := y, minted := z } = keep s :=
  (hm _ z).trans (hj s x y)

theorem ensures_post {new : NewJournal} (hj : Hides keep .journals) (hbook : .book book ∈ held) :
    Ensures (postJournalInTx h book new none) s fun p s' ↦ Footprint h c keep held s s' ∧
      p.journal ∈ s'.journals ∧ p.journal.sourceType = new.sourceType := by
  refine postJournalInTx_ensures.mono ?_
  rintro p s' ⟨lines, hposts, rfl, rfl⟩
  exact ⟨⟨.single (.post hbook hposts), withPosted_keeps (journals_minted hm hj)⟩,
    by simp [withPosted], rfl⟩

theorem moves_post {new : NewJournal} (hj : Hides keep .journals) (hbook : .book book ∈ held) :
    Moves (Footprint h c keep held) (postJournalInTx h book new none) := fun _ ↦
  (ensures_post hm hj hbook).mono fun _ _ ↦ And.left

theorem ensures_reverse {id : String} {date narrative : Option String}
    (hj : Hides keep .journals) (hbook : .book book ∈ held) (hid : MayReverse c s id) :
    Ensures (reverseJournalInTx h book id date narrative) s fun _ s' ↦
      Footprint h c keep held s s' :=
  ((ensures_reverse_step hbook hid).and
    (reverseJournalInTx_keeps (journals_minted hm hj) s)).mono
    fun _ _ hs ↦ ⟨.single hs.1, hs.2⟩

theorem moves_postPoReceiptJournal {receipt : PoReceipt} {item : PurchaseOrderItem}
    {poCurrency : String} (hj : Hides keep .journals) (hbook : .book book ∈ held) :
    Moves (Footprint h c keep held) (postPoReceiptJournal h book receipt item poCurrency) := by
  refine moves_ite (fun _ ↦ moves_pure _) fun _ ↦ moves_bind moves_get fun db ↦ ?_
  split
  · exact moves_bind (moves_check _) fun _ ↦ moves_bind (moves_post hm hj hbook) fun _ ↦
      moves_pure _
  · exact moves_pure _

theorem moves_postRevenueArJournal {currency postedDate narrative reference sourceId : String}
    {lines : List (ℤ × ℤ × ℤ)} {sourceType : JournalSourceType} (hj : Hides keep .journals)
    (hbook : .book book ∈ held) :
    Moves (Footprint h c keep held)
      (postRevenueArJournal h book currency lines postedDate narrative reference sourceType
        sourceId) := by
  refine moves_ite (fun _ ↦ moves_pure _) fun _ ↦ moves_bind moves_get fun db ↦ ?_
  split
  · exact moves_ite (fun _ ↦ moves_pure _) fun _ ↦ moves_bind (moves_check _) fun _ ↦
      moves_bind (moves_post hm hj hbook) fun _ ↦ moves_pure _
  · exact moves_pure _

theorem moves_postCostJournal {order : SalesOrder} {currency : String} {cost : ℤ}
    (hj : Hides keep .journals) (hbook : .book book ∈ held) :
    Moves (Footprint h c keep held) (postCostJournal h book order currency cost) := by
  refine moves_ite (fun _ ↦ moves_pure _) fun _ ↦ moves_bind moves_get fun db ↦ ?_
  split
  · exact moves_bind (moves_post hm hj hbook) fun _ ↦ moves_pure _
  · exact moves_pure _

theorem moves_postSalesConfirmJournals {order : SalesOrder} {items : List SalesOrderItem}
    (hj : Hides keep .journals) (hbook : .book book ∈ held) :
    Moves (Footprint h c keep held) (postSalesConfirmJournals h book order items) :=
  moves_bind (moves_check _) fun _ ↦ moves_bind moves_get fun _ ↦
    moves_bind (moves_check _) fun _ ↦ moves_bind (moves_postCostJournal hm hj hbook) fun _ ↦
    moves_postRevenueArJournal hm hj hbook

theorem moves_moveStock {order : SalesOrder} {items : List SalesOrderItem}
    {locationId note : String} {sign : ℤ} (hs : Hides keep .stockMovements) :
    Moves (Footprint h c keep held) (moveStock h order items locationId sign note) :=
  moves_write (moveStock_keeps (fun _ _ ↦ rfl) fun _ _ ↦ rfl) (moveStock_keeps hs hm)

theorem moves_moveOut {order : SalesOrder} {items : List SalesOrderItem}
    (hs : Hides keep .stockMovements) :
    Moves (Footprint h c keep held) (moveOut h order items) := by
  rw [moveOut]
  split
  · exact moves_moveStock hm hs
  · exact moves_pure _

theorem moves_moveBack {order : SalesOrder} {items : List SalesOrderItem}
    (hs : Hides keep .stockMovements) :
    Moves (Footprint h c keep held) (moveBack h order items) := by
  refine moves_ite (fun _ ↦ ?_) fun _ ↦ moves_pure _
  split
  · exact moves_moveStock hm hs
  · exact moves_throw _

theorem moves_issueInvoiceInTx {resolved : ResolvedInvoice} (hn : Hides keep .numberSequences)
    (hi : Hides keep .invoices) (hl : Hides keep .invoiceItems) (hj : Hides keep .journals)
    (hbook : .book book ∈ held) :
    Moves (Footprint h c keep held) (issueInvoiceInTx h book resolved) := by
  refine moves_bind (moves_write (allocateNumber_keeps fun _ _ ↦ rfl) (allocateNumber_keeps hn))
    fun _ ↦ moves_bind (moves_newId hm) fun _ ↦
    moves_bind (moves_write (invoiceInsert_keeps _ fun _ _ ↦ rfl) (invoiceInsert_keeps _ hi))
    fun _ ↦ moves_bind (moves_write (storeInvoiceItems_keeps _ _ _ (fun _ _ ↦ rfl) fun _ _ ↦ rfl)
    (storeInvoiceItems_keeps _ _ _ hl hm)) fun _ ↦ moves_ite (fun _ ↦ ?_) fun _ ↦ moves_pure _
  exact moves_bind (moves_postRevenueArJournal hm hj hbook) fun _ ↦ moves_pure _

theorem moves_postInvoicePaymentJournal {invoice : Invoice} {payment : InvoicePayment}
    (hj : Hides keep .journals) (hbook : .book book ∈ held) :
    Moves (Footprint h c keep held) (postInvoicePaymentJournal h book invoice payment) := by
  refine moves_ite (fun _ ↦ moves_pure _) fun _ ↦ moves_bind moves_get fun db ↦ ?_
  split
  · exact moves_bind (moves_check _) fun _ ↦ moves_bind (moves_post hm hj hbook) fun _ ↦
      moves_pure _
  · exact moves_pure _

theorem ensures_reverseLive {ids : List String} {reversalDate narrative : String}
    (hj : Hides keep .journals) (hbook : .book book ∈ held)
    (hids : ∀ id ∈ ids, ∃ j ∈ s.journals, j.id = id ∧ j.sourceType ≠ .manual) :
    Ensures (reverseLive h book ids reversalDate narrative) s fun _ s' ↦
      Footprint h c keep held s s' := by
  refine ensures_forM ids (refl_of (Footprint h c keep held) s) fun id hid t hst ↦ ?_
  obtain ⟨j, hmem, hjid⟩ := hids id hid
  simp only [ensures_bind, ensures_get, ensures_check, ensures_ite, ensures_pure]
  intro cancelled _
  have hmay : MayReverse c t id := .inr (.inl ⟨j, LedgerSteps.journals_mono hst.steps hmem, hjid⟩)
  exact ⟨fun _ ↦ (ensures_reverse hm hj hbook hmay).mono fun _ _ hstep ↦ trans_of _ hst hstep,
    fun _ ↦ hst⟩

theorem ensures_reverseSalesConfirmJournals {order : SalesOrder} {reversalDate : String}
    (hj : Hides keep .journals) (hbook : .book book ∈ held) :
    Ensures (reverseSalesConfirmJournals h book order reversalDate) s fun _ s' ↦
      Footprint h c keep held s s' := by
  refine ensures_forM _ (refl_of (Footprint h c keep held) s) fun sourceType htype t hst ↦ ?_
  simp only [ensures_bind, ensures_get]
  refine (ensures_reverseLive hm hj hbook fun id hid ↦ ?_).mono fun _ _ hs ↦ trans_of _ hst hs
  obtain ⟨j, hmem, hjid, -, rfl, -⟩ := isGenerated_of_mem hid
  refine ⟨j, hmem, hjid, fun hmanual ↦ ?_⟩
  simp [hmanual] at htype

theorem moves_undoConfirm {before : SalesOrder} (hs : Hides keep .stockMovements)
    (hj : Hides keep .journals) (hbook : .book book ∈ held) :
    Moves (Footprint h c keep held) (undoConfirm h book before) :=
  moves_bind moves_nowIso fun _ ↦ moves_bind moves_get fun _ ↦
    moves_bind (moves_moveBack hm hs) fun _ _ ↦
    ensures_reverseSalesConfirmJournals hm hj hbook

theorem ensures_postDepreciationJournal {asset : Asset} {period runId : String} {amount : ℤ}
    (hj : Hides keep .journals) (hbook : .book book ∈ held) :
    Ensures (postDepreciationJournal h book asset period amount runId) s fun p s' ↦
      Footprint h c keep held s s' ∧ ∀ posted ∈ p, posted.journal ∈ s'.journals ∧
        posted.journal.sourceType ≠ .manual := by
  simp only [postDepreciationJournal, ensures_bind, ensures_get]
  split
  · simp only [ensures_bind, ensures_check, ensures_pure]
    intro postedDate _
    refine (ensures_post (c := c) hm hj hbook).mono fun p t hp ↦ ?_
    obtain ⟨hst, hmem, hsource⟩ := hp
    refine ⟨hst, ?_⟩
    rintro _ ⟨⟩
    exact ⟨hmem, by simp [hsource]⟩
  · exact (ensures_pure _).2 ⟨refl_of _ s, by simp⟩

omit hm in
theorem ensures_depreciationRunInsert {run : AssetDepreciationRun}
    (hr : Hides keep .depreciationRuns)
    (hposted : ∃ j ∈ s.journals, j.id = run.journalId ∧ j.sourceType ≠ .manual) :
    Ensures (depreciationRunInsert run) s fun _ s' ↦ Footprint h c keep held s s' := by
  have hpreserves : Ensures (depreciationRunInsert run) s fun _ s' ↦ Preserves s s' := by
    simp only [depreciationRunInsert, ensures_bind, ensures_get, ensures_constraint,
      ensures_modify]
    intros
    refine { preserves_of_keeps (refl_of (Keeps ledgerTables) s) with runs := fun r hmem ↦ ?_ }
    rcases List.mem_append.1 hmem with hmem | hmem
    · exact .inl hmem
    · exact .inr (List.mem_singleton.1 hmem ▸ hposted)
  exact (hpreserves.and (depreciationRunInsert_keeps run hr s)).mono fun _ _ hs ↦
    ⟨.single (.other hs.1), hs.2⟩

/-- The run that a depreciation records points at the journal it has just posted. -/
theorem moves_depreciateInTx {asset : Asset} {period : String} {periodIndex amount : ℤ}
    (hj : Hides keep .journals) (hr : Hides keep .depreciationRuns)
    (hbook : .book book ∈ held) :
    Moves (Footprint h c keep held) (depreciateInTx h book asset period periodIndex amount) := by
  refine moves_bind (moves_newId hm) fun runId s ↦ ?_
  simp only [ensures_bind]
  refine (ensures_postDepreciationJournal (c := c) hm hj hbook).mono fun p t hpt ↦ ?_
  obtain ⟨hst, hp⟩ := hpt
  cases p with
  | none => simpa using hst
  | some posted =>
    obtain ⟨hmem, hsource⟩ := hp posted rfl
    simp only [ensures_bind, ensures_pure]
    exact (ensures_depreciationRunInsert hr ⟨posted.journal, hmem, rfl, hsource⟩).mono
      fun _ _ ht ↦ trans_of _ hst ht

theorem ensures_reverseLiveRuns {runs : List AssetDepreciationRun}
    {reversalDate narrative : String} (hj : Hides keep .journals) (hbook : .book book ∈ held)
    (hruns : ∀ run ∈ runs, run ∈ s.depreciationRuns) :
    Ensures (reverseLiveRuns h book runs reversalDate narrative) s fun _ s' ↦
      Footprint h c keep held s s' := by
  suffices hall : Ensures (reverseLiveRuns h book runs reversalDate narrative) s fun _ s' ↦
      Footprint h c keep held s s' ∧ Keeps Db.depreciationRuns s s' from hall.mono fun _ _ ↦ And.left
  refine ensures_forM runs ⟨refl_of _ s, refl_of _ s⟩ fun run hrun t hst ↦ ?_
  simp only [ensures_bind, ensures_get, ensures_check, ensures_ite, ensures_pure]
  intro cancelled _
  refine ⟨fun _ ↦ ?_, fun _ ↦ hst⟩
  have hid : MayReverse c t run.journalId :=
    .inr (.inr ⟨run, hst.2.1 ▸ hruns run hrun, rfl⟩)
  have hkeeps : Moves (Keeps Db.depreciationRuns) (reverseJournalInTx h book run.journalId
      (some reversalDate) (some narrative)) := reverseJournalInTx_keeps fun _ _ _ _ ↦ rfl
  exact ((ensures_reverse hm hj hbook hid).and (hkeeps t)).mono fun _ _ hstep ↦
    ⟨trans_of _ hst.1 hstep.1, trans_of _ hst.2 hstep.2⟩

theorem moves_createTransactionInTx (new : NewTransaction) (ht : Hides keep .transactions) :
    Moves (Footprint h c keep held) (createTransactionInTx h new) :=
  moves_write (createTransactionInTx_keeps new (fun _ _ ↦ rfl) fun _ _ ↦ rfl)
    (createTransactionInTx_keeps new ht hm)

theorem moves_generate {schedule : RecurringSchedule} {occurrenceDate : String}
    (hn : Hides keep .numberSequences) (hi : Hides keep .invoices) (hl : Hides keep .invoiceItems)
    (hj : Hides keep .journals) (ht : Hides keep .transactions) (hbook : .book book ∈ held) :
    Moves (Footprint h c keep held) (generate h book schedule occurrenceDate) := by
  rw [generate]
  split
  · refine moves_bind ?_ fun _ ↦ moves_pure _
    exact moves_bind (moves_check _) fun _ ↦ moves_bind moves_get fun _ ↦
      moves_bind (moves_check _) fun _ ↦ moves_bind (moves_check _) fun _ ↦
      moves_bind moves_resolveInvoice fun _ ↦
      moves_bind (moves_issueInvoiceInTx hm hn hi hl hj hbook) fun _ ↦ moves_pure _
  · refine moves_bind ?_ fun _ ↦ moves_pure _
    exact moves_bind (moves_check _) fun _ ↦ moves_bind (moves_check _) fun _ ↦
      moves_bind (moves_createTransactionInTx hm _ ht) fun _ ↦ moves_pure _

/-- An occurrence that is skipped generates nothing. -/
theorem moves_processInTx {schedule : RecurringSchedule} {occurrenceDate : String} {skip : Bool}
    (hgenerate : skip = false →
      Moves (Footprint h c keep held) (generate h book schedule occurrenceDate))
    (hr : Hides keep .recurringRuns) (hs : Hides keep .recurringSchedules) :
    Moves (Footprint h c keep held) (processInTx h book schedule occurrenceDate skip) := by
  have hgenerated : Moves (Footprint h c keep held)
      (generateUnless h skip book schedule occurrenceDate) :=
    moves_ite (fun _ ↦ moves_pure _) fun hskip s ↦
      (ensures_map _).2 (hgenerate (Bool.not_eq_true _ ▸ hskip) s)
  exact moves_bind moves_get fun _ ↦ moves_bind (moves_check _) fun _ ↦
    moves_bind hgenerated fun _ ↦ moves_bind (moves_newId hm) fun _ ↦
    moves_bind (moves_write (runInsert_keeps _ fun _ _ ↦ rfl) (runInsert_keeps _ hr)) fun _ ↦
    moves_bind (moves_check _) fun _ ↦ moves_bind (moves_scheduleUpdate _ hs) fun _ ↦
    moves_pure _

end Bodies

end SlipScan.Ledger.Effects
