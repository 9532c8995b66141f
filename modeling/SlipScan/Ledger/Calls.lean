import SlipScan.Ledger.Effects

namespace SlipScan.Ledger.Calls

open Model.Domain Model.Database Model.Ledger Model.Money Model.Generate Model.Trade Model.Sales
  Model.SalesPosting Model.Invoicing Model.Banking Model.Recurring Model.Scheduling Model.Assets
  Model.Period Model.Service Model.Slip Foundation.Transaction Foundation.Interleaving
  Foundation.Table Posting Steps Effects Writes.Frames Writes.Tables Process

variable {V : Type} {keep : Db → V} {h : Host} {parseSlip : String → Except Fault SlipPayload}
  {E : Db → Db → Prop} {c : Call} {s : Db} {α β : Type}

/-- An effect on the ledger of which `keep` shows nothing. -/
abbrev Moved (h : Host) (E : Db → Db → Prop) (c : Call) (keep : Db → V) (held : List Held)
    (s s' : Db) : Prop :=
  Effect h E c held s s' ∧ Keeps keep s s'

section Rules

variable {R : List Held → Db → Db → Prop} {p : Service α}

theorem orNotFound_eq_ok {entity id : String} {a : α} {r : Option α} :
    orNotFound entity id r = .ok a ↔ r = some a := by
  cases r <;> simp [orNotFound]

theorem reading_orNotFound {f : Db → Except Fault α} :
    (do ofExcept (← query f) : Service α).Reading :=
  .bind (by simp) fun _ ↦ by simp

theorem guarantees_dropResult (hp : p.Guarantees E R s) : (dropResult p).Guarantees E R s := by
  rw [dropResult, Guarantees, meets_bind]
  exact hp.mono (fun _ _ _ hR ↦ hR) fun _ _ _ ↦ continues_true.2 fun _ _ ↦ (meets_pure _).2 trivial

theorem within_dropResult (hp : p.Within R) : (dropResult p).Within R :=
  hp.bind fun _ ↦ (within_pure _).2 trivial

theorem within_reading_bind {f : α → Service β} (hp : p.Reading) (hf : ∀ a, (f a).Within R) :
    (p >>= f).Within R :=
  hp.within.bind hf

theorem within_fetch_bind {f : Db → Except Fault α} {g : α → Service β}
    (hg : ∀ a, (g a).Within R) : (query f >>= fun r ↦ ofExcept r >>= g).Within R :=
  (within_query_bind _).2 fun _ ↦ (within_ofExcept_bind _).2 fun a _ ↦ hg a

theorem within_bookGet_bind {id : String} {f : Book → Service α} (hf : ∀ b, (f b).Within R) :
    (bookGet id >>= f).Within R :=
  within_reading_bind reading_orNotFound hf

theorem within_last {held : List Held} {body : Action α} {b : β} (hbody : Moves (R held) body) :
    (do let _ ← atomically held body; return b : Service β).Within R :=
  ((within_atomically _ _).2 hbody).bind fun _ ↦ (within_pure _).2 trivial

variable [IsPreorder Db E]

theorem since_dropResult (hp : p.Since E R s) : (dropResult p).Since E R s :=
  hp.bind_reading fun _ ↦ (reading_pure _).2 trivial

theorem since_bookGet_id {id : String} {f : Book → Service α}
    (hf : ∀ book t, getBook t id = some book → (f book).Since E R t) :
    (bookGet id >>= f).Since E R s := by
  intro t ht
  simp only [bookGet, Guarantees, meets_bind, meets_query, continues_ok, meets_ofExcept]
  intro u hu
  exact continues_true.2 fun book hbook ↦ (hf book u (orNotFound_eq_ok.1 hbook)).guarantees

theorem since_bookGet {id : String} {f : Book → Service α}
    (hf : ∀ book t, getBook t book.id = some book → (f book).Since E R t) :
    (bookGet id >>= f).Since E R s :=
  since_bookGet_id fun book t hbook ↦ hf book t ((lookup_eq_some hbook).2 ▸ hbook)

theorem once_dropResult (hp : p.Once E R s) : (dropResult p).Once E R s :=
  hp.map

theorem once_bookGet {id : String} {f : Book → Service α}
    (hf : ∀ book t, getBook t book.id = some book → (f book).Once E R t) :
    (bookGet id >>= f).Once E R s where
  since := since_bookGet fun book t hb ↦ (hf book t hb).since
  settled := reading_orNotFound.bind_settled fun book ↦
    (hf book { books := [book] } (by simp [getBook, lookup])).settled

theorem once_holding {held : List Held} {body : Action α}
    (hheld : ∀ b, .book b ∈ held → getBook s b.id = some b)
    (hbody : Moves (Footprint h c keep held) body) :
    (atomically held body).Once E (Moved h E c keep) s :=
  .atomically fun t ht ↦ (hbody t).mono fun _ _ hs ↦
    ⟨.ledger (fun b hb ↦ ⟨s, ht, hheld b hb⟩) hs.steps, hs.keeps⟩

theorem once_free {body : Action α} (hbody : Moves (Footprint h c keep []) body) :
    (atomically [] body).Once E (Moved h E c keep) s :=
  once_holding (by simp) hbody

theorem once_book {book : Book} {body : Action α} (hb : getBook s book.id = some book)
    (hbody : Moves (Footprint h c keep [.book book]) body) :
    (atomically [.book book] body).Once E (Moved h E c keep) s :=
  once_holding (by simpa using hb) hbody

end Rules

section Readers

theorem reading_coaByCode {bookId code : String} : (coaByCode bookId code).Reading :=
  reading_orNotFound

theorem reading_mappedOrFallbackCoa {bookId entityId fallbackCode : String}
    {entityType : CoaMapEntity} :
    (mappedOrFallbackCoa bookId entityType entityId fallbackCode).Reading := by
  refine .bind (by simp) fun entry ↦ ?_
  split
  · refine .bind (by simp) fun coa ↦ ?_
    split
    · simp
    · exact reading_coaByCode
  · exact reading_coaByCode

theorem reading_transactionLines {txn : Transaction} {bank counter : CoaAccount} {book : Book}
    {isOutflow : Bool} {gross : ℤ} {vatRateId : Option String} :
    (transactionLines book txn bank counter isOutflow gross vatRateId).Reading := by
  have hvat : ∀ line code vat rate role,
      (vatLines line book.id code isOutflow vat rate role).Reading := fun _ _ _ _ _ ↦
    .ite (fun _ ↦ .bind reading_coaByCode fun _ ↦ by simp) fun _ ↦ by simp
  cases vatRateId with
  | none => exact (reading_pure _).2 trivial
  | some rateId =>
    exact .bind (by simp) fun rates ↦ .bind (by simp) fun rate ↦ .bind (by simp) fun _ ↦
      .bind (by simp) fun _ ↦ .bind (hvat _ _ _ _ _) fun _ ↦ by simp

theorem reading_counterAccount {book : Book} {txn : Transaction} {isOutflow : Bool} :
    (counterAccount book txn isOutflow).Reading := by
  refine .bind (by simp) fun kind ↦ ?_
  split
  · exact reading_mappedOrFallbackCoa
  · exact reading_coaByCode

theorem reading_resolveInvoice {book : Book} {new : NewInvoice} :
    (resolveInvoice h book new : Service ResolvedInvoice).Reading := by
  have hlines : (resolveLines book new : Service _).Reading := by
    rw [resolveLines]
    split
    · exact .bind (by simp) fun _ ↦ .bind (by simp) fun _ ↦ .bind (by simp) fun _ ↦
        .bind (by simp) fun _ ↦ .bind (by simp) fun _ ↦ .bind (by simp) fun _ ↦ by simp
    · exact .bind (by simp) fun _ ↦ .bind (by simp) fun _ ↦ .bind (by simp) fun _ ↦
        .bind (by simp) fun _ ↦ .bind (by simp) fun _ ↦ .bind (by simp) fun _ ↦
        .bind (by simp) fun _ ↦ .bind (by simp) fun _ ↦ by simp
  exact .bind (by simp) fun _ ↦ .bind (by simp) fun _ ↦ .bind (by simp) fun _ ↦
    .bind (by simp) fun _ ↦ .bind (by simp) fun _ ↦ .bind hlines fun _ ↦ by simp

theorem reading_netLiveRuns {assetId : String} : (netLiveRuns assetId).Reading := by
  have hlive : ∀ runs, (liveRuns runs).Reading := fun runs ↦ by
    induction runs with
    | nil => exact (reading_pure _).2 trivial
    | cons run runs ih =>
      exact .bind (by simp) fun _ ↦ .bind (by simp) fun _ ↦ .bind ih fun _ ↦ by simp
  exact .bind (by simp) hlive

theorem reading_buildCloseReport {bookId toDate : String} :
    (buildCloseReport h bookId toDate).Reading := by
  refine .bind reading_orNotFound fun _ ↦ .bind (by simp) fun _ ↦ .bind (by simp) fun _ ↦ ?_
  exact .bind (by simp) fun _ ↦ .bind (by simp) fun _ ↦ .bind (by simp) fun _ ↦
    .bind (by simp) fun _ ↦ .bind (by simp) fun _ ↦ .bind (by simp) fun _ ↦ by simp

end Readers

variable [IsPreorder Db E] (hm : ∀ s x, keep { s with minted := x } = keep s)

section Ledger

include hm

theorem journalPost_once {new : NewJournal} (hj : Hides keep .journals) :
    (journalPost h new).Once E (Moved h E c keep) s :=
  once_bookGet fun _ _ hb ↦ once_book hb (moves_post hm hj (by simp))

theorem journalReverse_once {id : String} {date narrative : Option String}
    (hj : Hides keep .journals) (hc : c = .journalReverse id date narrative) :
    (journalReverse h id date narrative).Once E (Moved h E c keep) s :=
  reading_orNotFound.bind_once fun _ ↦ once_bookGet fun _ _ hb ↦
    once_book hb fun _ ↦ ensures_reverse hm hj (by simp) (.inl ⟨date, narrative, hc⟩)

theorem journalGenerateForTransaction_once {transactionId : String} {vatRateId : Option String}
    (hj : Hides keep .journals) :
    (journalGenerateForTransaction h transactionId vatRateId).Once E (Moved h E c keep) s :=
  reading_orNotFound.bind_once fun txn ↦ once_bookGet fun book t hb ↦
    .ofExcept_bind _ fun _ _ ↦ reading_mappedOrFallbackCoa.bind_once fun bank ↦
    reading_counterAccount.bind_once fun counter ↦
    reading_transactionLines.bind_once fun lines ↦ once_book hb (moves_post hm hj (by simp))

theorem journalGenerateForDocument_once {documentId : String} (hj : Hides keep .journals) :
    (journalGenerateForDocument h parseSlip documentId).Once E (Moved h E c keep) s :=
  reading_orNotFound.bind_once fun document ↦ once_bookGet fun book t hb ↦
    reading_orNotFound.bind_once fun payload ↦ .ofExcept_bind _ fun slip _ ↦
    .ofExcept_bind _ fun _ _ ↦ .ofExcept_bind _ fun currency _ ↦
    reading_coaByCode.bind_once fun expense ↦ reading_coaByCode.bind_once fun bank ↦
    ((reading_query _).2 trivial).bind_once fun vatInput ↦
    ((reading_query _).2 trivial).bind_once fun rates ↦
    once_book hb (moves_post hm hj (by simp))

end Ledger

section Trade

theorem once_orderUpdate {order : SalesOrder} {a : α} (ho : Hides keep .salesOrders) :
    (do atomically [] (orderUpdate order); return a : Service α).Once E (Moved h E c keep) s :=
  (once_free (moves_orderUpdate order ho)).map

theorem salesOrderUpdate_once {id : String} {patch : SalesOrderPatch}
    (ho : Hides keep .salesOrders) :
    (salesOrderUpdate h id patch).Once E (Moved h E c keep) s :=
  reading_orNotFound.bind_once fun _ ↦ .ofExcept_bind _ fun _ _ ↦
    reading_orNotFound.bind_once fun _ ↦ .ofExcept_bind _ fun _ _ ↦ once_orderUpdate ho

theorem salesOrderDelete_once {id : String} (ho : Hides keep .salesOrders)
    (hi : Hides keep .salesOrderItems) (hq : Hides keep .quotes) :
    (salesOrderDelete id).Once E (Moved h E c keep) s :=
  reading_orNotFound.bind_once fun _ ↦ .ofExcept_bind _ fun _ _ ↦
    once_free (moves_write (orderDelete_keeps id fun _ _ _ _ ↦ rfl)
      (orderDelete_keeps id fun s x y z ↦ (hq _ z).trans ((hi _ y).trans (ho s x))))

theorem salesOrderItemUpdate_once {id : String} {patch : SalesOrderItemPatch}
    (hi : Hides keep .salesOrderItems) :
    (salesOrderItemUpdate id patch).Once E (Moved h E c keep) s :=
  reading_orNotFound.bind_once fun _ ↦ reading_orNotFound.bind_once fun _ ↦
    .ofExcept_bind _ fun _ _ ↦ .ofExcept_bind _ fun _ _ ↦
    (once_free (moves_write (orderItemUpdate_keeps _ fun _ _ ↦ rfl)
      (orderItemUpdate_keeps _ hi))).map

theorem salesOrderItemRemove_once {id : String} (hi : Hides keep .salesOrderItems) :
    (salesOrderItemRemove id).Once E (Moved h E c keep) s :=
  reading_orNotFound.bind_once fun _ ↦ reading_orNotFound.bind_once fun _ ↦
    .ofExcept_bind _ fun _ _ ↦ once_free (moves_write
      (orderItemDelete_keeps id fun _ _ ↦ rfl) (orderItemDelete_keeps id hi))

theorem salesOrderMarkPaid_once {id : String} (ho : Hides keep .salesOrders) :
    (salesOrderMarkPaid id).Once E (Moved h E c keep) s :=
  reading_orNotFound.bind_once fun _ ↦ .ofExcept_bind _ fun _ _ ↦ once_orderUpdate ho

include hm

theorem poReceive_once {new : NewPoReceipt} (hp : Hides keep .poReceipts)
    (hs : Hides keep .stockMovements) (hj : Hides keep .journals) :
    (poReceive h new).Once E (Moved h E c keep) s := by
  refine reading_orNotFound.bind_once fun item ↦ reading_orNotFound.bind_once fun po ↦
    once_bookGet fun book t hb ↦ reading_orNotFound.bind_once fun location ↦
    .ofExcept_bind _ fun _ _ ↦ once_book hb ?_
  exact moves_bind moves_nowIso fun _ ↦ moves_bind (moves_newId hm) fun _ ↦
    moves_bind (moves_write (insertReceipt_keeps _ fun _ _ ↦ rfl) (insertReceipt_keeps _ hp))
    fun _ ↦ moves_bind (moves_write (insertMovementInTx_keeps (fun _ _ ↦ rfl) fun _ _ ↦ rfl)
    (insertMovementInTx_keeps hs hm)) fun _ ↦
    moves_bind (moves_postPoReceiptJournal hm hj (by simp)) fun _ ↦ moves_pure _

theorem salesOrderCreate_once {new : NewSalesOrder} (hn : Hides keep .numberSequences)
    (ho : Hides keep .salesOrders) :
    (salesOrderCreate h new).Once E (Moved h E c keep) s := by
  refine once_bookGet fun book t hb ↦ reading_orNotFound.bind_once fun contact ↦
    .ofExcept_bind _ fun _ _ ↦ reading_orNotFound.bind_once fun locationId ↦
    Reading.bind_once (by simp) fun today ↦ .ofExcept_bind _ fun _ _ ↦
    .ofExcept_bind _ fun currency _ ↦ once_book hb ?_
  exact moves_bind (moves_write (allocateNumber_keeps fun _ _ ↦ rfl) (allocateNumber_keeps hn))
    fun _ ↦ moves_bind (moves_newId hm) fun _ ↦
    moves_bind (moves_write (orderInsert_keeps _ fun _ _ ↦ rfl) (orderInsert_keeps _ ho))
    fun _ ↦ moves_pure _

theorem salesOrderItemAdd_once {new : NewSalesOrderItem} (hi : Hides keep .salesOrderItems) :
    (salesOrderItemAdd h new).Once E (Moved h E c keep) s := by
  refine reading_orNotFound.bind_once fun order ↦ .ofExcept_bind _ fun _ _ ↦
    .ofExcept_bind _ fun _ _ ↦ reading_orNotFound.bind_once fun line ↦
    .ofExcept_bind _ fun _ _ ↦ .ofExcept_bind _ fun _ _ ↦ once_free ?_
  exact moves_bind moves_get fun _ ↦ moves_bind moves_nowIso fun _ ↦
    moves_bind (moves_newId hm) fun _ ↦
    moves_bind (moves_write (orderItemInsert_keeps _ fun _ _ ↦ rfl) (orderItemInsert_keeps _ hi))
    fun _ ↦ moves_pure _

theorem salesOrderConfirm_once {id : String} (hs : Hides keep .stockMovements)
    (hj : Hides keep .journals) (ho : Hides keep .salesOrders) :
    (salesOrderConfirm h id).Once E (Moved h E c keep) s := by
  refine reading_orNotFound.bind_once fun before ↦ .ofExcept_bind _ fun _ _ ↦
    Reading.bind_once (by simp) fun items ↦ .ofExcept_bind _ fun _ _ ↦
    once_bookGet fun book t hb ↦ (once_holding (by simpa using hb) ?_).map
  exact moves_bind (moves_moveOut hm hs) fun _ ↦
    moves_bind (moves_postSalesConfirmJournals hm hj (by simp)) fun _ ↦ moves_orderUpdate _ ho

theorem salesOrderCancel_once {id : String} (hs : Hides keep .stockMovements)
    (hj : Hides keep .journals) (ho : Hides keep .salesOrders) :
    (salesOrderCancel h id).Once E (Moved h E c keep) s := by
  refine reading_orNotFound.bind_once fun before ↦ .ofExcept_bind _ fun _ _ ↦
    once_bookGet fun book t hb ↦ (once_book hb ?_).map
  exact moves_bind (moves_ite (fun _ ↦ moves_undoConfirm hm hs hj (by simp)) fun _ ↦ moves_pure _)
    fun _ ↦ moves_orderUpdate _ ho

theorem invoiceIssue_once {new : NewInvoice} (hn : Hides keep .numberSequences)
    (hi : Hides keep .invoices) (hl : Hides keep .invoiceItems) (hj : Hides keep .journals) :
    (invoiceIssue h new).Once E (Moved h E c keep) s :=
  once_bookGet fun book t hb ↦ reading_resolveInvoice.bind_once fun resolved ↦
    once_book hb (moves_issueInvoiceInTx hm hn hi hl hj (by simp))

theorem invoicePaymentRecord_once {new : NewInvoicePayment} (hp : Hides keep .invoicePayments)
    (hj : Hides keep .journals) :
    (invoicePaymentRecord h new).Once E (Moved h E c keep) s := by
  refine reading_orNotFound.bind_once fun invoice ↦ .ofExcept_bind _ fun _ _ ↦
    once_bookGet fun book t hb ↦ Reading.bind_once (by simp) fun today ↦
    .ofExcept_bind _ fun _ _ ↦ once_book hb ?_
  exact moves_bind (moves_newId hm) fun _ ↦ moves_bind (moves_write
    (invoicePaymentInsert_keeps _ fun _ _ ↦ rfl) (invoicePaymentInsert_keeps _ hp)) fun _ ↦
    moves_bind (moves_postInvoicePaymentJournal hm hj (by simp)) fun _ ↦ moves_pure _

end Trade

section Assets

include hm

theorem depreciationRun_once {assetId period : String} (hj : Hides keep .journals)
    (hr : Hides keep .depreciationRuns) :
    (depreciationRun h assetId period).Once E (Moved h E c keep) s :=
  reading_orNotFound.bind_once fun asset ↦ once_bookGet fun book t hb ↦
    .ofExcept_bind _ fun index _ ↦ reading_netLiveRuns.bind_once fun live ↦
    .ofExcept_bind _ fun _ _ ↦ .ofExcept_bind _ fun _ _ ↦ .ofExcept_bind _ fun _ _ ↦
    .ite (fun _ ↦ Reading.once ((reading_pure _).2 trivial)) fun _ ↦
      once_book hb (moves_depreciateInTx hm hj hr (by simp))

theorem assetDispose_once {id : String} {disposal : AssetDisposal} (hj : Hides keep .journals)
    (ha : Hides keep .assets) :
    (assetDispose h id disposal).Once E (Moved h E c keep) s := by
  refine reading_orNotFound.bind_once fun before ↦ .ofExcept_bind _ fun _ _ ↦
    .ofExcept_bind _ fun _ _ ↦ .ofExcept_bind _ fun _ _ ↦ .ofExcept_bind _ fun month _ ↦
    .ofExcept_bind _ fun disposalIndex _ ↦ once_bookGet fun book t hb ↦
    Reading.bind_once (by simp) fun reversalDate ↦ (once_book hb fun s ↦ ?_).map
  rw [ensures_bind, ensures_get, ensures_bind]
  refine (ensures_reverseLiveRuns hm hj (by simp) fun run hrun ↦ ?_).mono fun _ t hst ↦
    (moves_write (assetUpdate_keeps _ fun _ _ ↦ rfl) (assetUpdate_keeps _ ha) t).mono
      fun _ _ ht ↦ trans_of _ hst ht
  simp only [runsForAsset, List.mem_filter, List.mem_insertionSort] at hrun
  exact hrun.1.1

end Assets

section Recurring

theorem once_scheduleUpdate {before after : RecurringSchedule} {a : α}
    (hs : Hides keep .recurringSchedules) :
    (do atomically [.schedule before] (scheduleUpdate after); return a : Service α).Once E
      (Moved h E c keep) s :=
  (once_holding (by simp) (moves_scheduleUpdate after hs)).map

theorem recurringScheduleUpdate_once {id : String} {patch : RecurringSchedulePatch}
    (hs : Hides keep .recurringSchedules) :
    (recurringScheduleUpdate h id patch).Once E (Moved h E c keep) s :=
  reading_orNotFound.bind_once fun _ ↦ once_bookGet fun _ _ _ ↦
    reading_orNotFound.bind_once fun _ ↦ once_scheduleUpdate hs

theorem setStatus_once {id : String} {fromStatus toStatus : RecurringScheduleStatus}
    (hs : Hides keep .recurringSchedules) :
    (setStatus id fromStatus toStatus).Once E (Moved h E c keep) s :=
  reading_orNotFound.bind_once fun _ ↦ .ofExcept_bind _ fun _ _ ↦ once_scheduleUpdate hs

theorem recurringScheduleDelete_once {id : String} (hs : Hides keep .recurringSchedules)
    (hi : Hides keep .recurringScheduleItems) :
    (recurringScheduleDelete id).Once E (Moved h E c keep) s :=
  reading_orNotFound.bind_once fun _ ↦ .ofExcept_bind _ fun _ _ ↦
    once_holding (by simp) (moves_write (scheduleDelete_keeps id fun _ _ _ ↦ rfl)
      (scheduleDelete_keeps id fun s x y ↦ (hi _ y).trans (hs s x)))

theorem recurringScheduleItemUpdate_once {id : String} {patch : RecurringScheduleItemPatch}
    (hi : Hides keep .recurringScheduleItems) :
    (recurringScheduleItemUpdate id patch).Once E (Moved h E c keep) s :=
  reading_orNotFound.bind_once fun _ ↦ .ofExcept_bind _ fun _ _ ↦
    (once_free (moves_write (itemUpdate_keeps _ fun _ _ ↦ rfl) (itemUpdate_keeps _ hi))).map

theorem recurringScheduleItemRemove_once {id : String}
    (hi : Hides keep .recurringScheduleItems) :
    (recurringScheduleItemRemove id).Once E (Moved h E c keep) s :=
  reading_orNotFound.bind_once fun _ ↦
    once_free (moves_write (itemDelete_keeps id fun _ _ ↦ rfl) (itemDelete_keeps id hi))

include hm

theorem recurringScheduleCreate_once {new : NewRecurringSchedule}
    (hs : Hides keep .recurringSchedules) (hi : Hides keep .recurringScheduleItems) :
    (recurringScheduleCreate h new).Once E (Moved h E c keep) s := by
  refine once_bookGet fun book t hb ↦ .ofExcept_bind _ fun _ _ ↦ .ofExcept_bind _ fun _ _ ↦
    Reading.bind_once (by simp) fun today ↦ .ofExcept_bind _ fun _ _ ↦
    .ofExcept_bind _ fun _ _ ↦ .ofExcept_bind _ fun _ _ ↦ .ofExcept_bind _ fun currency _ ↦
    .ofExcept_bind _ fun nextRunDate _ ↦ reading_orNotFound.bind_once fun fields ↦
    once_book hb ?_
  exact moves_bind moves_nowIso fun _ ↦ moves_bind (moves_newId hm) fun _ ↦
    moves_bind (moves_write (scheduleInsert_keeps _ fun _ _ ↦ rfl) (scheduleInsert_keeps _ hs))
    fun _ ↦ moves_bind (moves_write (storeItems_keeps _ _ _ _ (fun _ _ ↦ rfl) fun _ _ ↦ rfl)
    (storeItems_keeps _ _ _ _ hi hm)) fun _ ↦ moves_pure _

theorem recurringScheduleItemAdd_once {new : NewRecurringScheduleItem}
    (hi : Hides keep .recurringScheduleItems) :
    (recurringScheduleItemAdd h new).Once E (Moved h E c keep) s := by
  refine reading_orNotFound.bind_once fun schedule ↦ .ofExcept_bind _ fun _ _ ↦
    .ofExcept_bind _ fun _ _ ↦ reading_orNotFound.bind_once fun line ↦
    .ofExcept_bind _ fun _ _ ↦ .ofExcept_bind _ fun _ _ ↦ once_free ?_
  exact moves_bind moves_nowIso fun _ ↦ moves_bind moves_get fun _ ↦
    moves_bind (moves_newId hm) fun _ ↦
    moves_bind (moves_write (itemInsert_keeps _ fun _ _ ↦ rfl) (itemInsert_keeps _ hi)) fun _ ↦
    moves_pure _

theorem recurringProcessOccurrence_once {schedule : RecurringSchedule} {skip : Bool}
    (hgenerate : skip = false → ∀ held book occurrenceDate, .book book ∈ held →
      Moves (Footprint h c keep held) (generate h book schedule occurrenceDate))
    (hr : Hides keep .recurringRuns) (hs : Hides keep .recurringSchedules) :
    (recurringProcessOccurrence h schedule skip).Once E (Moved h E c keep) s :=
  once_bookGet fun _ _ hb ↦ .ofExcept_bind _ fun _ _ ↦ once_holding (by simpa using hb)
    (moves_processInTx hm (fun hskip ↦ hgenerate hskip _ _ _ (by simp)) hr hs)

theorem recurringScheduleSkipNext_once {id : String} (hr : Hides keep .recurringRuns)
    (hs : Hides keep .recurringSchedules) :
    (recurringScheduleSkipNext h id).Once E (Moved h E c keep) s :=
  reading_orNotFound.bind_once fun _ ↦ .ofExcept_bind _ fun _ _ ↦
    recurringProcessOccurrence_once hm (fun hskip ↦ by cases hskip) hr hs

theorem runSchedule_moved {rounds : ℕ} {asOf : String} {schedule : RecurringSchedule}
    (hgenerate : ∀ held book schedule occurrenceDate, .book book ∈ held →
      Moves (Footprint h c keep held) (generate h book schedule occurrenceDate))
    (hr : Hides keep .recurringRuns) (hs : Hides keep .recurringSchedules) :
    (runSchedule h rounds asOf schedule).Since E (Moved h E c keep) s := by
  induction rounds generalizing s schedule with
  | zero => exact Reading.since ((reading_fail _).2 trivial)
  | succ rounds ih =>
    have hprocess : (recurringProcessOccurrence h schedule false).Since E (Moved h E c keep) s :=
      (recurringProcessOccurrence_once hm (fun _ held book ↦ hgenerate held book schedule)
        hr hs).since
    rw [runSchedule]
    refine .ite (fun _ ↦ Reading.since ((reading_pure _).2 trivial)) fun _ ↦
      Since.bind hprocess.attempt fun r t ↦ ?_
    split
    · exact reading_orNotFound.bind_since fun next ↦ ih.bind_reading fun _ ↦ by simp
    · exact .ite (fun _ ↦ Reading.since ((reading_fail _).2 trivial)) fun _ ↦
        Reading.since ((reading_pure _).2 trivial)

theorem runSchedules_moved {rounds : ℕ} {asOf : String} {due : List RecurringSchedule}
    (hgenerate : ∀ held book schedule occurrenceDate, .book book ∈ held →
      Moves (Footprint h c keep held) (generate h book schedule occurrenceDate))
    (hr : Hides keep .recurringRuns) (hs : Hides keep .recurringSchedules) :
    (runSchedules h rounds asOf due).Since E (Moved h E c keep) s := by
  induction due generalizing s with
  | nil => exact Reading.since ((reading_pure _).2 trivial)
  | cons schedule due ih =>
    exact (runSchedule_moved hm hgenerate hr hs).bind fun _ _ ↦ ih.bind_reading fun _ ↦ by simp

theorem recurringRunDue_moved {rounds : ℕ} {bookId : String} {asOf : Option String}
    (hn : Hides keep .numberSequences) (hi : Hides keep .invoices) (hl : Hides keep .invoiceItems)
    (hj : Hides keep .journals) (ht : Hides keep .transactions) (hr : Hides keep .recurringRuns)
    (hs : Hides keep .recurringSchedules) :
    (recurringRunDue h rounds bookId asOf).Since E (Moved h E c keep) s :=
  since_bookGet fun _ _ _ ↦ reading_orNotFound.bind_since fun _ ↦
    Reading.bind_since (by simp) fun _ ↦
    runSchedules_moved hm (fun _ _ _ _ ↦ moves_generate hm hn hi hl hj ht) hr hs

end Recurring

section Accounts

theorem preserves_refl (s : Db) : Preserves s s :=
  preserves_of_keeps (refl_of (Keeps ledgerTables) s)

theorem insertCoa_preserves (coa : CoaAccount) : Moves Preserves (insertCoa coa) := by
  intro s
  simp only [insertCoa, ensures_bind, ensures_get, ensures_ite, ensures_pure, ensures_constraint,
    ensures_modify]
  refine ⟨fun _ ↦ preserves_refl s, fun _ hfresh _ ↦ ?_⟩
  exact { preserves_refl s with
    coa := fun id a ha ↦ ⟨a.isArchived, lookup_concat_of_some ha⟩
    coaNodup := nodup_concat hfresh }

theorem insertVatRate_preserves (rate : VatRate) : Moves Preserves (insertVatRate rate) := by
  intro s
  simp only [insertVatRate, ensures_bind, ensures_get, ensures_ite, ensures_pure,
    ensures_constraint, ensures_modify]
  refine ⟨fun _ ↦ preserves_refl s, fun _ hfresh _ ↦ ?_⟩
  exact { preserves_refl s with
    vatRates := fun id r hr ↦ lookup_concat_of_some hr
    rateNodup := nodup_concat hfresh }

theorem setCoaArchived_preserves (id : String) (isArchived : Bool) :
    Moves Preserves (setCoaArchived id isArchived) := by
  intro s
  rw [setCoaArchived, ensures_modify]
  refine { preserves_refl s with coa := fun k a ha ↦ ?_, coaNodup := fun hn ↦ ?_ }
  · refine ⟨if a.id = id then isArchived else a.isArchived, ?_⟩
    rw [getCoa, lookup_update (fun a : CoaAccount ↦ { a with isArchived }) (fun _ ↦ rfl),
      ← getCoa, ha, Option.map_some]
    split <;> rfl
  · rwa [map_update_of_eq (fun a : CoaAccount ↦ { a with isArchived }) (fun _ ↦ rfl)]

theorem moves_insertCoa (coa : CoaAccount) {held : List Held} (hcoa : Hides keep .coa) :
    Moves (Footprint h c keep held) (insertCoa coa) :=
  moves_other (insertCoa_preserves coa) (insertCoa_keeps coa hcoa)

theorem coaArchive_once {id : String} (hcoa : Hides keep .coa) :
    (coaArchive id).Once E (Moved h E c keep) s :=
  reading_orNotFound.bind_once fun _ ↦ (once_free (moves_other
    (setCoaArchived_preserves id true) (setCoaArchived_keeps id true hcoa))).map

theorem vatRateSetBps_once {bookId code : String} {rateBps : ℤ} (hrates : Hides keep .vatRates)
    (hc : c = .vatRateSetBps bookId code rateBps) :
    (vatRateSetBps bookId code rateBps).Once E (Moved h E c keep) s := by
  refine .ofExcept_bind _ fun _ _ ↦ ⟨.query_bind _ fun t _ ↦ .ofExcept_bind _ fun r hr ↦
    Since.bind_reading (.atomically fun u hu ↦ ?_) fun _ ↦ by simp,
    (settled_query_bind _ _).2 fun _ ↦ (settled_ofExcept_bind _ _).2 fun _ _ ↦
    (settled_atomically_bind _ _ _).2 trivial⟩
  have hfind := orNotFound_eq_ok.1 hr
  have hmem := List.mem_of_find?_eq_some hfind
  have hcode := List.find?_some hfind
  simp only [listVatRates, List.mem_insertionSort, List.mem_filter, decide_eq_true_eq] at hmem hcode
  obtain ⟨hmem, rfl⟩ := hmem
  refine ((setVatRateBps_keeps r.id rateBps hrates u).and ?_).mono fun _ _ hs ↦ hs.symm
  rw [setVatRateBps, ensures_modify]
  exact .rate hu hmem (hcode ▸ hc)

include hm

theorem coaCreate_once {new : NewCoaAccount} (hcoa : Hides keep .coa) :
    (coaCreate h new).Once E (Moved h E c keep) s := by
  refine once_bookGet fun _ _ _ ↦ .ofExcept_bind _ fun _ _ ↦ .ofExcept_bind _ fun _ _ ↦
    once_free ?_
  exact moves_bind (moves_newId hm) fun _ ↦ moves_bind (moves_insertCoa _ hcoa) fun _ ↦
    moves_ite (fun _ ↦ moves_bind (moves_throw _) fun _ ↦ moves_pure _) fun _ ↦ moves_pure _

theorem coaSeed_once {bookId : String} (hcoa : Hides keep .coa) (hrates : Hides keep .vatRates) :
    (coaSeed h bookId).Once E (Moved h E c keep) s := by
  refine once_bookGet fun _ _ _ ↦ once_free (moves_bind (moves_forM _ fun _ _ ↦ ?_) fun _ ↦
    moves_forM _ fun _ _ ↦ ?_)
  · exact moves_bind (moves_newId hm) fun _ ↦ moves_bind (moves_insertCoa _ hcoa) fun _ ↦
      moves_pure _
  · exact moves_bind (moves_newId hm) fun _ ↦
      moves_other (insertVatRate_preserves _) (insertVatRate_keeps _ hrates)

theorem transactionCreate_once {new : NewTransaction} (ht : Hides keep .transactions) :
    (transactionCreate h new).Once E (Moved h E c keep) s :=
  once_free (moves_createTransactionInTx hm new ht)

end Accounts

section Locks

theorem once_setLockDate {held : List Held} {bookId : String} {lockDate : Option String} {a : α}
    (hb : Hides keep .books) (hc : ∀ t, E s t → Locks h E t c bookId lockDate) :
    (do atomically held (setLockDate bookId lockDate); return a : Service α).Once E
      (Moved h E c keep) s :=
  Once.map (.atomically fun t ht ↦ (ensures_modify _).2
    ⟨.lock (hc t ht), hb t _, le_rfl⟩)

theorem bookSetLockDate_once {bookId : String} {lockDate : Option String} (hb : Hides keep .books)
    (hc : c = .bookSetLockDate bookId lockDate) :
    (bookSetLockDate h bookId lockDate).Once E (Moved h E c keep) s := by
  subst hc
  refine once_bookGet fun _ _ _ ↦ .ofExcept_bind _ fun _ hdates ↦
    once_setLockDate hb fun _ _ ↦ .set ?_
  rintro d rfl
  rw [Option.mapM_some] at hdates
  cases hparse : h.parseDate d with
  | none => simp [parseDate, hparse] at hdates
  | some _ => rfl

theorem checkReopen_eq_ok {book : Book} {toDate : Option String} {reason : String}
    (hcheck : checkReopen h book toDate reason = .ok ()) :
    ∃ current, book.financialLockDate = some current ∧ ∀ d ∈ toDate, d < current := by
  rw [checkReopen] at hcheck
  cases hlock : book.financialLockDate with
  | none => simp [hlock] at hcheck
  | some current =>
    refine ⟨current, rfl, ?_⟩
    simp only [hlock, except_ite_error_eq_ok] at hcheck
    cases toDate with
    | none => simp
    | some date =>
      simp only [except_bind_eq_ok, except_ite_error_eq_ok, ge_iff_le, not_le] at hcheck
      obtain ⟨-, -, -, hlt, -⟩ := hcheck
      simpa using hlt

theorem reopenPeriod_once {bookId reason : String} {toDate : Option String} (hb : Hides keep .books)
    (hc : c = .reopenPeriod bookId toDate reason) :
    (reopenPeriod h bookId toDate reason).Once E (Moved h E c keep) s := by
  subst hc
  refine ⟨since_bookGet_id fun book t hbook ↦ .ofExcept_bind _ fun _ hcheck ↦
    (once_setLockDate hb fun u hu ↦ ?_).since, reading_orNotFound.bind_settled fun _ ↦
    (settled_ofExcept_bind _ _).2 fun _ _ ↦ (settled_atomically_bind _ _ _).2 trivial⟩
  obtain ⟨current, hlock, hearlier⟩ := checkReopen_eq_ok hcheck
  exact .reopen hu hbook hlock hearlier

theorem lt_of_closeable {previous : Option String} {toDate : String}
    (hreason : lockReason previous toDate = []) : ∀ prev, previous = some prev → prev < toDate := by
  rintro prev rfl
  simpa [lockReason] using hreason

/-- A report that allows the close was made from a book whose lock date is earlier. -/
theorem buildCloseReport_meets {R : List Held → Db → Db → Prop} {bookId toDate : String} :
    (buildCloseReport h bookId toDate).Meets E R s (OnSuccess fun report t ↦
      report.closeable → (h.parseDate toDate).isSome ∧ ∃ s₀ b, E s₀ t ∧
        getBook s₀ bookId = some b ∧ ∀ prev, b.financialLockDate = some prev → prev < toDate) := by
  simp only [buildCloseReport, bookGet, meets_bind, meets_query, continues_ok,
    meets_ofExcept, continues_onSuccess, parseDate_eq_ok]
  intro s₀ _ book hbook _ hdate _ _ s₁ h₁ _ _ s₂ h₂ s₃ h₃ s₄ h₄ s₅ h₅
  simp only [meets_pure, onSuccess_ok, List.isEmpty_iff, List.append_eq_nil_iff, and_imp]
  intro hlater _
  have hseen := trans_of E h₁ (trans_of E h₂ (trans_of E h₃ (trans_of E h₄ h₅)))
  exact ⟨Option.isSome_of_eq_some hdate, s₀, book, hseen, orNotFound_eq_ok.1 hbook,
    lt_of_closeable hlater⟩

theorem closePeriod_once {bookId toDate : String} (hb : Hides keep .books)
    (hc : c = .closePeriod bookId toDate) :
    (closePeriod h bookId toDate).Once E (Moved h E c keep) s := by
  subst hc
  refine ⟨fun t _ ↦ ?_, reading_buildCloseReport.bind_settled fun _ ↦
    (settled_ofExcept_bind _ _).2 fun _ _ ↦ reading_orNotFound.bind_settled fun _ ↦
    (settled_atomically_bind _ _ _).2 trivial⟩
  rw [Guarantees, closePeriod, meets_bind]
  refine buildCloseReport_meets.mono (fun _ _ _ hR ↦ hR) fun r u hr ↦ continues_true.2 ?_
  rintro report rfl
  refine Since.guarantees (.ofExcept_bind _ fun _ hcheck ↦ ?_)
  have hcloseable : report.closeable := by
    simpa [checkCloseable, except_ite_error_eq_ok] using hcheck
  obtain ⟨hdate, s₀, b, hseen, hbook, hlater⟩ := hr hcloseable
  exact (reading_orNotFound (f := fun db ↦ orNotFound "book" bookId (getBook db bookId))).bind_since
    fun _ ↦ (once_setLockDate hb fun v hv ↦
      .close (trans_of E hseen hv) hbook hlater hdate).since

end Locks

section Programs

include hm

/-- Every call but the one that catches up with schedules commits at most once, at its end. The
commit has one of the effects on the ledger and leaves everything but the tables that the call
writes as it was. -/
theorem program_once (hdue : ∀ rounds bookId asOf, c ≠ .recurringRunDue rounds bookId asOf)
    (hc : ∀ t ∈ writtenBy c, Hides keep t) :
    (c.program h parseSlip).Once E (Moved h E c keep) s := by
  simp only [writtenBy] at hc
  cases c with
  | journalPost => exact once_dropResult (journalPost_once hm (hc _ (by simp)))
  | journalReverse => exact once_dropResult (journalReverse_once hm (hc _ (by simp)) rfl)
  | journalGenerateForTransaction =>
    exact once_dropResult (journalGenerateForTransaction_once hm (hc _ (by simp)))
  | journalGenerateForDocument =>
    exact once_dropResult (journalGenerateForDocument_once hm (hc _ (by simp)))
  | coaCreate => exact once_dropResult (coaCreate_once hm (hc _ (by simp)))
  | coaArchive => exact once_dropResult (coaArchive_once (hc _ (by simp)))
  | coaSeed => exact coaSeed_once hm (hc _ (by simp)) (hc _ (by simp))
  | vatRateSetBps => exact once_dropResult (vatRateSetBps_once (hc _ (by simp)) rfl)
  | bookSetLockDate => exact once_dropResult (bookSetLockDate_once (hc _ (by simp)) rfl)
  | closePeriod => exact once_dropResult (closePeriod_once (hc _ (by simp)) rfl)
  | reopenPeriod => exact once_dropResult (reopenPeriod_once (hc _ (by simp)) rfl)
  | transactionCreate => exact once_dropResult (transactionCreate_once hm (hc _ (by simp)))
  | poReceive =>
    exact once_dropResult (poReceive_once hm (hc _ (by simp)) (hc _ (by simp)) (hc _ (by simp)))
  | salesOrderCreate =>
    exact once_dropResult (salesOrderCreate_once hm (hc _ (by simp)) (hc _ (by simp)))
  | salesOrderUpdate => exact once_dropResult (salesOrderUpdate_once (hc _ (by simp)))
  | salesOrderDelete =>
    exact salesOrderDelete_once (hc _ (by simp)) (hc _ (by simp)) (hc _ (by simp))
  | salesOrderItemAdd => exact once_dropResult (salesOrderItemAdd_once hm (hc _ (by simp)))
  | salesOrderItemUpdate => exact once_dropResult (salesOrderItemUpdate_once (hc _ (by simp)))
  | salesOrderItemRemove => exact salesOrderItemRemove_once (hc _ (by simp))
  | salesOrderConfirm =>
    exact once_dropResult
      (salesOrderConfirm_once hm (hc _ (by simp)) (hc _ (by simp)) (hc _ (by simp)))
  | salesOrderCancel =>
    exact once_dropResult
      (salesOrderCancel_once hm (hc _ (by simp)) (hc _ (by simp)) (hc _ (by simp)))
  | salesOrderMarkPaid => exact once_dropResult (salesOrderMarkPaid_once (hc _ (by simp)))
  | invoiceIssue =>
    exact once_dropResult
      (invoiceIssue_once hm (hc _ (by simp)) (hc _ (by simp)) (hc _ (by simp)) (hc _ (by simp)))
  | invoicePaymentRecord =>
    exact once_dropResult (invoicePaymentRecord_once hm (hc _ (by simp)) (hc _ (by simp)))
  | depreciationRun =>
    exact once_dropResult (depreciationRun_once hm (hc _ (by simp)) (hc _ (by simp)))
  | assetDispose => exact once_dropResult (assetDispose_once hm (hc _ (by simp)) (hc _ (by simp)))
  | recurringScheduleCreate =>
    exact once_dropResult (recurringScheduleCreate_once hm (hc _ (by simp)) (hc _ (by simp)))
  | recurringScheduleUpdate => exact once_dropResult (recurringScheduleUpdate_once (hc _ (by simp)))
  | recurringSchedulePause => exact once_dropResult (setStatus_once (hc _ (by simp)))
  | recurringScheduleResume => exact once_dropResult (setStatus_once (hc _ (by simp)))
  | recurringScheduleDelete => exact recurringScheduleDelete_once (hc _ (by simp)) (hc _ (by simp))
  | recurringScheduleItemAdd =>
    exact once_dropResult (recurringScheduleItemAdd_once hm (hc _ (by simp)))
  | recurringScheduleItemUpdate =>
    exact once_dropResult (recurringScheduleItemUpdate_once (hc _ (by simp)))
  | recurringScheduleItemRemove => exact recurringScheduleItemRemove_once (hc _ (by simp))
  | recurringScheduleSkipNext =>
    exact once_dropResult (recurringScheduleSkipNext_once hm (hc _ (by simp)) (hc _ (by simp)))
  | recurringRunDue rounds bookId asOf => exact absurd rfl (hdue rounds bookId asOf)

theorem program_moved (c : Call) (hc : ∀ t ∈ writtenBy c, Hides keep t) :
    (c.program h parseSlip).Since E (Moved h E c keep) s := by
  by_cases hdue : ∃ rounds bookId asOf, c = .recurringRunDue rounds bookId asOf
  · obtain ⟨rounds, bookId, asOf, rfl⟩ := hdue
    simp only [writtenBy] at hc
    exact since_dropResult (recurringRunDue_moved hm (hc _ (by simp)) (hc _ (by simp))
      (hc _ (by simp)) (hc _ (by simp)) (hc _ (by simp)) (hc _ (by simp)) (hc _ (by simp)))
  · exact (program_once hm (fun rounds bookId asOf hceq ↦ hdue ⟨rounds, bookId, asOf, hceq⟩)
      hc).since

/-- A call leaves everything but the tables it writes as it was. -/
theorem program_keeps (c : Call) (hc : ∀ t ∈ writtenBy c, Hides keep t) :
    (c.program h parseSlip).Since E (fun _ ↦ Keeps keep) s :=
  (program_moved hm c hc).mono fun _ _ _ ↦ And.right

end Programs

/-- Every transaction of every call has one of the effects on the ledger. -/
theorem program_since (c : Call) : (c.program h parseSlip).Since E (Effect h E c) s := by
  have hmoved : (c.program h parseSlip).Since E (Moved h E c fun _ ↦ ()) s :=
    program_moved (fun _ _ ↦ rfl) c fun t _ ↦ hides_const t
  exact hmoved.mono fun _ _ _ ↦ And.left

theorem program_settled
    (hdue : ∀ rounds bookId asOf, c ≠ .recurringRunDue rounds bookId asOf) :
    (c.program h parseSlip).Settled := by
  have honce : (c.program h parseSlip).Once Eq (Moved h Eq c fun _ ↦ ()) {} :=
    program_once (fun _ _ ↦ rfl) hdue fun t _ ↦ hides_const t
  exact honce.settled

theorem recurringProcessOccurrence_settled {schedule : RecurringSchedule} {skip : Bool} :
    (recurringProcessOccurrence h schedule skip).Settled :=
  reading_orNotFound.bind_settled fun _ ↦ (settled_ofExcept_bind _ _).2 fun _ _ ↦
    (settled_atomically _ _).2 trivial

theorem run_of_error (hdue : ∀ rounds bookId asOf, c ≠ .recurringRunDue rounds bookId asOf)
    {e : Fault} (he : ((c.program h parseSlip).run s).1 = .error e) : c.run h parseSlip s = s :=
  (program_settled hdue).run_error he

theorem elsewhere_preserves {s' : Db} (he : Elsewhere h s s') : Preserves s s' where
  books := he.books
  newBooks := he.newBooks
  coa _ a ha := ⟨a.isArchived, by simpa only [getCoa, he.coa] using ha⟩
  coaNodup hn := by rwa [he.coa]
  vatRates _ r hr := by simpa only [he.vatRates] using hr
  rateNodup hn := by rwa [he.vatRates]
  journals := he.journals
  journalLines := he.journalLines
  runs run hrun := .inl (he.depreciationRuns ▸ hrun)
  minted := he.minted

end SlipScan.Ledger.Calls
