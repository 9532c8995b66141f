import SlipScan.Foundation.Connections
import SlipScan.Ledger.Reversal
import SlipScan.Model.PlainHost
import SlipScan.Model.Quotes

namespace SlipScan.Documents.OneShot

open Model.Domain Model.Database Model.Ledger Model.Money Model.Generate Model.Trade Model.Sales
  Model.SalesPosting Model.Quotes Model.Service Model.PlainHost Foundation.Transaction
  Foundation.Interleaving Foundation.Table Ledger.Posting Ledger.Calls Ledger.Reversal Writes.Frames Process

variable {h : Host} {ι : Type} [DecidableEq ι] {s s' : Db} {id : String}

section Reads

variable {E : Db → Db → Prop} [IsPreorder Db E] {R : List Held → Db → Db → Prop} {α β : Type}

theorem since_orNotFound {entity : String} {f : Db → Option β} {k : β → Service α}
    (hk : ∀ b t, E s t → f t = some b → (k b).Since E R t) :
    (do k (← ofExcept (← query fun db ↦ orNotFound entity id (f db)))).Since E R s :=
  .query_bind _ fun t ht ↦ .ofExcept_bind _ fun b hb ↦ hk b t ht (orNotFound_eq_ok.1 hb)

end Reads

section Quotes

def QuoteUnchanged (held : List Held) (s : Db) : Prop :=
  ∀ q, .quote q ∈ held → ∃ q', lookup Quote.id s.quotes q.id = some q' ∧ q'.status = q.status

def Accepted (id : String) (s : Db) : Prop :=
  ∃ q, lookup Quote.id s.quotes id = some q ∧ q.status = .accepted

theorem checkTransition_eq_ok {q : Quote} {fromStatus toStatus : QuoteStatus} :
    checkTransition q fromStatus toStatus = .ok () ↔ q.status = fromStatus := by
  rw [checkTransition, except_ite_error_eq_ok]
  simp

theorem copyItems_keeps {V : Type} {keep : Db → V} (order : SalesOrder) (createdAt : String)
    (lineOrder : ℕ) (items : List QuoteItem)
    (ht : ∀ s x, keep { s with salesOrderItems := x } = keep s)
    (hm : ∀ s x, keep { s with minted := x } = keep s) :
    Moves (Keeps keep) (copyItems h order createdAt lineOrder items) := by
  induction items generalizing lineOrder with
  | nil => exact moves_pure _
  | cons item items ih =>
    exact moves_bind (keeps_newId hm) fun _ ↦ moves_bind (orderItemInsert_keeps _ ht) fun _ ↦ ih _

def orderTables (s : Db) : List SalesOrder × List Quote :=
  (s.salesOrders, s.quotes)

theorem acceptInTx_ensures {q : Quote} {items : List QuoteItem}
    (hq : (lookup Quote.id s.quotes q.id).isSome) :
    Ensures (acceptInTx h q items) s fun order s' ↦
      s'.salesOrders = s.salesOrders ++ [order] ∧ Accepted q.id s' := by
  simp only [acceptInTx, ensures_bind, ensures_nowIso]
  have hallocate : Moves (Keeps orderTables) (allocateNumber q.bookId "sales_order") :=
    allocateNumber_keeps fun _ _ ↦ rfl
  refine (hallocate s).mono fun number t ht ↦ ?_
  obtain ⟨horders, hquotes⟩ := Prod.mk.inj ht.1
  simp only [ensures_newId, orderInsert, ensures_bind, ensures_get, ensures_constraint,
    ensures_modify]
  intro _ _ _
  have hcopy : ∀ order createdAt, Moves (Keeps orderTables) (copyItems h order createdAt 0 items) :=
    fun order createdAt ↦ copyItems_keeps order createdAt 0 items (fun _ _ ↦ rfl) fun _ _ ↦ rfl
  refine (hcopy _ _ _).mono fun _ u hu ↦ ?_
  obtain ⟨horders', hquotes'⟩ := Prod.mk.inj hu.1
  simp only [quoteUpdate, ensures_bind, ensures_get, ensures_constraint, ensures_modify,
    ensures_pure]
  intro _
  refine ⟨?_, ?_⟩
  · rw [horders', horders]
  · obtain ⟨q', hq'⟩ := Option.isSome_iff_exists.1 hq
    have hlook : lookup Quote.id u.quotes q.id = some q' := by
      rw [hquotes', hquotes]
      exact hq'
    exact ⟨_, lookup_update_self (fun _ ↦ rfl) hlook, rfl⟩

theorem pending_quoteAccept : (quoteAccept h id).Pending := by
  simp only [quoteAccept, serviceQuoteGet, bind_assoc, pending_query_bind, pending_ofExcept_bind,
    pending_atomically, implies_true]

theorem quoteAccept_since {E : Db → Db → Prop} [IsPreorder Db E] : (quoteAccept h id).Since E
    (fun held _ _ ↦ ∃ q, .quote q ∈ held ∧ q.id = id ∧ q.status = .sent) s := by
  rw [quoteAccept, serviceQuoteGet]
  refine since_orNotFound fun q t _ hq ↦ .ofExcept_bind _ fun _ hsent ↦
    Reading.bind_since (by simp) fun items ↦ .ofExcept_bind _ fun _ _ ↦ .atomically fun u _ ↦ ?_
  intro _ _ _
  exact ⟨q, by simp, (lookup_eq_some hq).2, checkTransition_eq_ok.1 hsent⟩

theorem quoteAccept_run {order : SalesOrder} (hrun : (quoteAccept h id).run s = (.ok order, s')) :
    s'.salesOrders = s.salesOrders ++ [order] ∧ Accepted id s' := by
  have hmeets : (quoteAccept h id).Meets Eq (fun _ _ _ ↦ True) s
      (OnSuccess fun order s' ↦ s'.salesOrders = s.salesOrders ++ [order] ∧ Accepted id s') := by
    simp only [quoteAccept, serviceQuoteGet, bind_assoc, meets_bind, meets_query, continues_ok,
      meets_ofExcept, continues_onSuccess, meets_atomically]
    rintro _ rfl q hq _ _ _ rfl _ _ _ rfl
    have hlook := orNotFound_eq_ok.1 hq
    obtain ⟨-, rfl⟩ := lookup_eq_some hlook
    exact ⟨fun _ _ _ ↦ trivial, onSuccess_commit (acceptInTx_ensures (by simp [hlook]))⟩
  have hend := (run_of_meets hmeets).1
  rwa [hrun] at hend

def accepting (h : Host) (ι : Type) (s : Db) (id : String) : Config ι Db Held Fault SalesOrder :=
  ⟨s, fun _ ↦ quoteAccept h id⟩

def AtMostOneSucceeds {α : Type} (c : Config ι Db Held Fault α) : Prop :=
  ∀ i j, (c.threads i).Succeeded → (c.threads j).Succeeded → i = j

/-- Accepting a quote on several connections, each on the status it read, makes one order of it. -/
theorem quote_accept_once {is : List ι} (hC : (accepting h ι s id).Turns QuoteUnchanged is) :
    AtMostOneSucceeds ((accepting h ι s id).play is) ∧
      ∃ orders, ((accepting h ι s id).play is).store.salesOrders = s.salesOrders ++ orders ∧
        orders.length ≤ 1 := by
  have hsupported : (accepting h ι s id).Supported AnyChange
      fun held _ _ ↦ ∃ q, .quote q ∈ held ∧ q.id = id ∧ q.status = .sent :=
    supported_of_since fun _ ↦ quoteAccept_since
  have hfires := hsupported.fires_once (Accepted id) (fun _ _ _ _ ↦ trivial)
    (fun _ ↦ pending_quoteAccept) (fun _ _ _ hrun ↦ (quoteAccept_run hrun).2) ?_ hC
  · refine ⟨fun i j ↦ Config.unique_of_fired hfires, ?_⟩
    rcases hfires with hunfired | ⟨i, hi⟩
    · exact ⟨[], hunfired.store ▸ (List.append_nil _).symm, by simp⟩
    · obtain ⟨order, hrun, -⟩ := hi.ended
      exact ⟨[order], (quoteAccept_run hrun).1, by simp⟩
  · rintro held t _ hunchanged ⟨q, hq, hstatus⟩ ⟨q', hheld, rfl, hsent⟩
    obtain ⟨q'', hlook, hsame⟩ := hunchanged q' hheld
    obtain rfl := Option.some.inj (hq.symm.trans hlook)
    simp [hstatus, hsent] at hsame

end Quotes

section Orders

/-- A journal that the confirmation of an order has posted is still net-live. -/
def LiveJournal (s : Db) (book : Book) (sourceType : JournalSourceType) (orderId : String) : Prop :=
  ∃ j ∈ findJournalsBySource s book.id sourceType orderId, isNetReversed s j = .ok false

def PostsCost (s : Db) (book : Book) (items : List SalesOrderItem) : Prop :=
  ∃ cost, totalCost s items = .ok cost ∧ cost ≠ 0 ∧
    (getCoaByCode s book.id coaCodeCogs).isSome ∧ (getCoaByCode s book.id coaCodeInventory).isSome

def revenueInput (items : List SalesOrderItem) : List (ℤ × ℤ × ℤ) :=
  items.map fun i ↦ (i.quantity, i.unitPriceMinor, i.taxRateBps)

def netTotal (lines : List (ℤ × ℤ × ℤ)) : ℤ :=
  sumI64 ((revenueGroups lines).map fun g ↦ g.2.1)

def vatTotal (lines : List (ℤ × ℤ × ℤ)) : ℤ :=
  sumI64 ((revenueGroups lines).map fun g ↦ g.2.2)

def PostsRevenue (s : Db) (book : Book) (lines : List (ℤ × ℤ × ℤ)) : Prop :=
  asI64 (netTotal lines + vatTotal lines) ≠ 0 ∧ (getCoaByCode s book.id coaCodeAr).isSome ∧
    (getCoaByCode s book.id coaCodeRevenue).isSome ∧
    (vatTotal lines = 0 ∨ (getCoaByCode s book.id coaCodeVatOutput).isSome)

/-- The confirmation would post a journal that the order already has. -/
def PostsAgain (s : Db) (book : Book) (order : SalesOrder) : Prop :=
  PostsCost s book (orderItemList s order.id) ∧ LiveJournal s book .salesCogs order.id ∨
    PostsRevenue s book (revenueInput (orderItemList s order.id)) ∧
      LiveJournal s book .salesRevenue order.id

/-- The stored order has the status that the connection read, or its journals block the
confirmation. -/
def OrderUnchanged (held : List Held) (s : Db) : Prop :=
  ∀ o, .order o ∈ held →
    (∃ o', lookup SalesOrder.id s.salesOrders o.id = some o' ∧ o'.status = o.status) ∨
      ∀ book, .book book ∈ held → PostsAgain s book o

def Confirmed (id : String) (s : Db) : Prop :=
  ∃ o, lookup SalesOrder.id s.salesOrders id = some o ∧ o.status = .confirmed

def confirmInTx (h : Host) (book : Book) (before : SalesOrder) (items : List SalesOrderItem) :
    Action Unit := do
  moveOut h before items
  postSalesConfirmJournals h book before items
  orderUpdate { before with status := .confirmed }

def postingTables (s : Db) : List Journal × List CoaAccount × List ProductVariant ×
    List SalesOrder × List SalesOrderItem :=
  (s.journals, s.coa, s.productVariants, s.salesOrders, s.salesOrderItems)

def takenOut (order : SalesOrder) (items : List SalesOrderItem) : List (String × String × ℤ) :=
  match order.locationId with
  | some locationId => movedLines items locationId (-1)
  | none => []

theorem LiveJournal.withPosted {book book' : Book} {new : NewJournal}
    {lines : List NewJournalLine} {sourceType : JournalSourceType} {orderId : String}
    (hlive : LiveJournal s book sourceType orderId) :
    LiveJournal (withPosted s (postedJournal h s book' new none lines)) book sourceType orderId := by
  obtain ⟨j, hj, hreversed⟩ := hlive
  refine ⟨j, ?_, ?_⟩
  · simp only [findJournalsBySource, List.mem_map, List.mem_insertionSort, List.mem_filter] at hj ⊢
    obtain ⟨k, ⟨hk, hsource⟩, hkj⟩ := hj
    exact ⟨k, ⟨List.mem_append_left _ hk, hsource⟩, hkj⟩
  · exact isNetReversed_withPosted rfl hreversed

theorem LiveJournal.congr {book : Book} {sourceType : JournalSourceType} {orderId : String}
    (hlive : LiveJournal s book sourceType orderId) (hs : s'.journals = s.journals) :
    LiveJournal s' book sourceType orderId := by
  obtain ⟨j, hj, hreversed⟩ := hlive
  exact ⟨j, by rwa [findJournalsBySource, hs], (isNetReversed_congr hs j).trans hreversed⟩

/-- A generated journal is not posted while another of its source is net-live. -/
theorem not_posts_of_live {book : Book} {new : NewJournal} {lines : List NewJournalLine}
    {orderId : String} (hlive : LiveJournal s book new.sourceType orderId)
    (hsource : new.sourceId = some orderId) (hgenerated : new.sourceType ≠ .manual) :
    ¬Posts h s book new none lines := by
  intro hposts
  obtain ⟨j, hj, hreversed⟩ := hlive
  have htrue := hposts.accepted.source hgenerated orderId hsource j hj
  rw [hreversed] at htrue
  cases htrue

theorem postCostJournal_ensures {book : Book} {order : SalesOrder} {currency : String} {cost : ℤ} :
    Ensures (postCostJournal h book order currency cost) s fun _ s' ↦
      (s' = s ∧ ¬(cost ≠ 0 ∧ (getCoaByCode s book.id coaCodeCogs).isSome ∧
        (getCoaByCode s book.id coaCodeInventory).isSome)) ∨
      ∃ new lines, new.sourceType = .salesCogs ∧ new.sourceId = some order.id ∧
        Posts h s book new none lines ∧ s' = withPosted s (postedJournal h s book new none lines) := by
  rw [postCostJournal]
  simp only [ensures_ite, ensures_bind, ensures_get, ensures_pure]
  refine ⟨fun hzero ↦ .inl ⟨trivial, fun hposts ↦ hposts.1 hzero⟩, fun _ ↦ ?_⟩
  split
  · simp only [ensures_bind, ensures_pure]
    refine postJournalInTx_ensures.mono ?_
    rintro p s' ⟨lines, hposts, rfl, rfl⟩
    exact .inr ⟨_, lines, rfl, rfl, hposts, rfl⟩
  · rename_i hnone
    refine (ensures_pure _).2 (.inl ⟨rfl, ?_⟩)
    rintro ⟨-, hcogs, hinventory⟩
    obtain ⟨cogs, hcogs⟩ := Option.isSome_iff_exists.1 hcogs
    obtain ⟨inventory, hinventory⟩ := Option.isSome_iff_exists.1 hinventory
    exact hnone cogs inventory hcogs hinventory

theorem postRevenueArJournal_ensures {book : Book} {currency postedDate narrative reference
    sourceId : String} {lines : List (ℤ × ℤ × ℤ)} {sourceType : JournalSourceType} :
    Ensures (postRevenueArJournal h book currency lines postedDate narrative reference sourceType
      sourceId) s fun _ s' ↦
      (s' = s ∧ ¬PostsRevenue s book lines) ∨
      ∃ new posted, new.sourceType = sourceType ∧ new.sourceId = some sourceId ∧
        Posts h s book new none posted ∧
        s' = withPosted s (postedJournal h s book new none posted) := by
  rw [postRevenueArJournal]
  simp only [ensures_ite, ensures_bind, ensures_get, ensures_pure]
  refine ⟨fun hzero ↦ .inl ⟨trivial, fun hposts ↦ hposts.1 hzero⟩, fun _ ↦ ?_⟩
  split
  · simp only [ensures_ite, ensures_bind, ensures_pure, ensures_check]
    refine ⟨fun hcontrol ↦ .inl ⟨trivial, ?_⟩, fun _ _ _ ↦ ?_⟩
    · rintro ⟨-, -, -, hvat⟩
      have hne : vatTotal lines ≠ 0 := hcontrol.1
      rcases hvat with hzero | hsome
      · exact hne hzero
      · have hnone := hcontrol.2
        rw [vatControlFor, if_pos hcontrol.1] at hnone
        simp [hnone] at hsome
    · refine postJournalInTx_ensures.mono ?_
      rintro p s' ⟨posted, hposts, rfl, rfl⟩
      exact .inr ⟨_, posted, rfl, rfl, hposts, rfl⟩
  · rename_i hnone
    refine (ensures_pure _).2 (.inl ⟨rfl, ?_⟩)
    rintro ⟨-, har, hrevenue, -⟩
    obtain ⟨ar, har⟩ := Option.isSome_iff_exists.1 har
    obtain ⟨revenue, hrevenue⟩ := Option.isSome_iff_exists.1 hrevenue
    exact hnone ar revenue har hrevenue

theorem moveOut_ensures {before : SalesOrder} {items : List SalesOrderItem} :
    Ensures (moveOut h before items) s fun _ s' ↦ Keeps postingTables s s' ∧
      ∃ moved, s'.stockMovements = s.stockMovements ++ moved ∧
        moved.map movedUnits = takenOut before items := by
  rw [moveOut, takenOut]
  cases before.locationId with
  | none => exact (ensures_pure _).2 ⟨refl_of _ s, [], by simp, rfl⟩
  | some locationId =>
    have hkeeps : Moves (Keeps postingTables)
        (moveStock h before items locationId (-1) s!"sale: order #{before.number}") :=
      moveStock_keeps (fun _ _ ↦ rfl) fun _ _ ↦ rfl
    refine ((hkeeps s).and moveStock_ensures).mono ?_
    rintro _ s' ⟨hkeeps, moved, hmoved, hunits, -⟩
    exact ⟨hkeeps, moved, hmoved, hunits⟩

theorem getVariant_congr (hs : s'.productVariants = s.productVariants) (id : String) :
    getVariant s' id = getVariant s id := by
  rw [getVariant, getVariant, hs]

theorem totalCost_congr (hs : s'.productVariants = s.productVariants)
    (items : List SalesOrderItem) : totalCost s' items = totalCost s items := by
  simp only [totalCost, getVariant_congr hs]

theorem getCoaByCode_congr (hs : s'.coa = s.coa) (bookId code : String) :
    getCoaByCode s' bookId code = getCoaByCode s bookId code := by
  rw [getCoaByCode, getCoaByCode, hs]

theorem postSalesConfirmJournals_ensures {book : Book} {before : SalesOrder}
    {items : List SalesOrderItem} :
    Ensures (postSalesConfirmJournals h book before items) s fun _ s' ↦
      ¬(PostsCost s book items ∧ LiveJournal s book .salesCogs before.id) ∧
      ¬(PostsRevenue s book (revenueInput items) ∧ LiveJournal s book .salesRevenue before.id) ∧
      (∃ posted, s'.journals = s.journals ++ posted ∧
        (posted.map Journal.sourceType).Sublist [.salesCogs, .salesRevenue]) ∧
      s'.stockMovements = s.stockMovements ∧ s'.salesOrders = s.salesOrders ∧
      s'.salesOrderItems = s.salesOrderItems := by
  simp only [postSalesConfirmJournals, ensures_bind, ensures_get, ensures_check]
  intro currency _ cost hcost
  refine postCostJournal_ensures.mono fun _ t ht ↦ ?_
  have hnotCost : ¬(PostsCost s book items ∧ LiveJournal s book .salesCogs before.id) := by
    rintro ⟨⟨cost', hcost', hne, hcogs, hinventory⟩, hlive⟩
    obtain rfl := Except.ok.inj (hcost.symm.trans hcost')
    rcases ht with ⟨-, hnone⟩ | ⟨new, lines, htype, hsource, hposts, -⟩
    · exact hnone ⟨hne, hcogs, hinventory⟩
    · exact not_posts_of_live (htype ▸ hlive) hsource (by simp [htype]) hposts
  -- The revenue journal is posted after the cost journal, which leaves what it depends on.
  have hkept : t.coa = s.coa ∧ t.stockMovements = s.stockMovements ∧
      t.salesOrders = s.salesOrders ∧ t.salesOrderItems = s.salesOrderItems ∧
      (LiveJournal s book .salesRevenue before.id → LiveJournal t book .salesRevenue before.id) := by
    rcases ht with ⟨rfl, -⟩ | ⟨_, _, -, -, -, rfl⟩
    · exact ⟨rfl, rfl, rfl, rfl, id⟩
    · exact ⟨rfl, rfl, rfl, rfl, LiveJournal.withPosted⟩
  obtain ⟨hcoa, hstock, horders, hitems, hlive⟩ := hkept
  have hcostPosted : ∃ posted, t.journals = s.journals ++ posted ∧
      (posted.map Journal.sourceType).Sublist [.salesCogs] := by
    rcases ht with ⟨rfl, -⟩ | ⟨new, lines, htype, -, -, rfl⟩
    · exact ⟨[], by simp, by simp⟩
    · exact ⟨[_], rfl, by simp [postedJournal, htype]⟩
  obtain ⟨posted, hposted, hsub⟩ := hcostPosted
  refine postRevenueArJournal_ensures.mono fun _ u hu ↦ ?_
  refine ⟨hnotCost, ?_, ?_, ?_⟩
  · rintro ⟨hposts, hrevenue⟩
    have hposts' : PostsRevenue t book (revenueInput items) := by
      simpa only [PostsRevenue, getCoaByCode_congr hcoa] using hposts
    rcases hu with ⟨-, hnone⟩ | ⟨new, lines, htype, hsource, hnew, -⟩
    · exact hnone hposts'
    · exact not_posts_of_live (htype ▸ hlive hrevenue) hsource (by simp [htype]) hnew
  · rcases hu with ⟨rfl, -⟩ | ⟨new, lines, htype, -, -, rfl⟩
    · exact ⟨posted, hposted, hsub.trans (by simp)⟩
    · refine ⟨posted ++ [(postedJournal h t book new none lines).journal], ?_, ?_⟩
      · rw [← List.append_assoc, ← hposted]
        rfl
      · rw [List.map_append]
        exact hsub.append (by simp [postedJournal, htype])
  · rcases hu with ⟨rfl, -⟩ | ⟨_, _, -, -, -, rfl⟩
    · exact ⟨hstock, horders, hitems⟩
    · exact ⟨hstock, horders, hitems⟩

theorem confirmInTx_ensures {book : Book} {before : SalesOrder} :
    Ensures (confirmInTx h book before (orderItemList s before.id)) s fun _ s' ↦
      ¬PostsAgain s book before ∧ s'.salesOrderItems = s.salesOrderItems ∧
      ((lookup SalesOrder.id s.salesOrders before.id).isSome → Confirmed before.id s') ∧
      (∃ moved, s'.stockMovements = s.stockMovements ++ moved ∧
        moved.map movedUnits = takenOut before (orderItemList s before.id)) ∧
      ∃ posted, s'.journals = s.journals ++ posted ∧
        (posted.map Journal.sourceType).Sublist [.salesCogs, .salesRevenue] := by
  simp only [confirmInTx, ensures_bind]
  refine moveOut_ensures.mono fun _ t ht ↦ ?_
  obtain ⟨hkeeps, moved, hmoved, hunits⟩ := ht
  obtain ⟨hjournals, hcoa, hvariants, horders, hitems⟩ :
      t.journals = s.journals ∧ t.coa = s.coa ∧ t.productVariants = s.productVariants ∧
        t.salesOrders = s.salesOrders ∧ t.salesOrderItems = s.salesOrderItems := by
    simpa only [postingTables, Prod.mk.injEq] using hkeeps.1
  refine postSalesConfirmJournals_ensures.mono fun _ u hu ↦ ?_
  obtain ⟨hcost, hrevenue, ⟨posted, hposted, hsub⟩, hstock, horders', hitems'⟩ := hu
  simp only [orderUpdate, ensures_bind, ensures_get, ensures_constraint, ensures_modify]
  intro _
  refine ⟨?_, hitems'.trans hitems, fun hsome ↦ ?_, ⟨moved, hstock.trans hmoved, hunits⟩, posted,
    hposted.trans (hjournals ▸ rfl), hsub⟩
  · rintro (⟨hposts, hlive⟩ | ⟨hposts, hlive⟩)
    · refine hcost ⟨?_, hlive.congr hjournals⟩
      simpa only [PostsCost, totalCost_congr hvariants, getCoaByCode_congr hcoa] using hposts
    · refine hrevenue ⟨?_, hlive.congr hjournals⟩
      simpa only [PostsRevenue, getCoaByCode_congr hcoa] using hposts
  · obtain ⟨o, ho⟩ := Option.isSome_iff_exists.1 hsome
    have hlook : lookup SalesOrder.id u.salesOrders before.id = some o := by
      rw [horders', horders]
      exact ho
    exact ⟨_, lookup_update_self (fun _ ↦ rfl) hlook, rfl⟩

theorem checkConfirmable_eq_ok {before : SalesOrder} :
    checkConfirmable before = .ok () ↔ before.status = .draft := by
  rw [checkConfirmable, except_ite_error_eq_ok]
  simp

theorem salesOrderConfirm_eq : salesOrderConfirm h id = (do
    let before ← salesOrderGet id
    ofExcept (checkConfirmable before)
    let items ← query fun db ↦ orderItemList db id
    ofExcept (checkConfirmItems before items)
    let book ← bookGet before.bookId
    atomically [.book book, .order before] (confirmInTx h book before items)
    return { before with status := .confirmed }) :=
  rfl

theorem pending_salesOrderConfirm : (salesOrderConfirm h id).Pending := by
  simp only [salesOrderConfirm_eq, salesOrderGet, bookGet, bind_assoc, pending_query_bind,
    pending_ofExcept_bind, pending_atomically_bind, implies_true]

def SameLines (s s' : Db) : Prop :=
  s'.salesOrderItems = s.salesOrderItems

instance : IsPreorder Db SameLines where
  refl _ := rfl
  trans _ _ _ hs hs' := Eq.trans hs' hs

/-- What a confirmation commits is possible with the lines that are stored when it commits. -/
def ConfirmStep (h : Host) (id : String) (held : List Held) (s s' : Db) : Prop :=
  ∃ book before, .book book ∈ held ∧ .order before ∈ held ∧ before.id = id ∧
    before.status = .draft ∧ confirmInTx h book before (orderItemList s id) s = .ok ((), s')

theorem salesOrderConfirm_since :
    (salesOrderConfirm h id).Since SameLines (ConfirmStep h id) s := by
  rw [salesOrderConfirm_eq, salesOrderGet]
  refine since_orNotFound fun before t _ hbefore ↦ .ofExcept_bind _ fun _ hdraft ↦
    .query_bind _ fun u _ ↦ .ofExcept_bind _ fun _ _ ↦
    reading_orNotFound.bind_since fun book ↦ Since.bind_reading (.atomically fun v hv ↦ ?_) (by simp)
  rintro ⟨⟩ v' hcommit
  have hitems : orderItemList u id = orderItemList v id := by
    rw [orderItemList, orderItemList, hv]
  exact ⟨book, before, by simp, by simp, (lookup_eq_some hbefore).2,
    checkConfirmable_eq_ok.1 hdraft, hitems ▸ hcommit⟩

/-- What a confirmation does to the stock and to the journals. -/
structure ConfirmedOnce (s : Db) (id : String) (s' : Db) : Prop where
  stock : ∃ moved, s'.stockMovements = s.stockMovements ++ moved ∧ (moved = [] ∨
    ∃ order, lookup SalesOrder.id s.salesOrders id = some order ∧
      moved.map movedUnits = takenOut order (orderItemList s id))
  journals : ∃ posted, s'.journals = s.journals ++ posted ∧
    (posted.map Journal.sourceType).Sublist [.salesCogs, .salesRevenue]

theorem salesOrderConfirm_run {order : SalesOrder}
    (hrun : (salesOrderConfirm h id).run s = (.ok order, s')) :
    ConfirmedOnce s id s' ∧ Confirmed id s' := by
  have hmeets : (salesOrderConfirm h id).Meets Eq (fun _ _ _ ↦ True) s
      (OnSuccess fun _ s' ↦ ConfirmedOnce s id s' ∧ Confirmed id s') := by
    simp only [salesOrderConfirm_eq, salesOrderGet, bookGet, bind_assoc, meets_bind, meets_query,
      continues_ok, meets_ofExcept, continues_onSuccess, meets_atomically, meets_pure, onSuccess_ok]
    rintro _ rfl before hbefore _ _ _ rfl _ _ _ rfl book _ _ rfl
    have hlook := orNotFound_eq_ok.1 hbefore
    obtain ⟨-, rfl⟩ := lookup_eq_some hlook
    refine ⟨fun _ _ _ ↦ trivial, fun _ hcommit ↦ ?_⟩
    obtain ⟨-, -, hconfirmed, ⟨moved, hmoved, hunits⟩, hposted⟩ :=
      confirmInTx_ensures _ _ (commit_ok (Prod.ext hcommit rfl))
    exact ⟨⟨⟨moved, hmoved, .inr ⟨before, hlook, hunits⟩⟩, hposted⟩, hconfirmed (by simp [hlook])⟩
  have hend := (run_of_meets hmeets).1
  rwa [hrun] at hend

def confirming (h : Host) (ι : Type) (s : Db) (id : String) : Config ι Db Held Fault SalesOrder :=
  ⟨s, fun _ ↦ salesOrderConfirm h id⟩

/-- Confirming an order on several connections, each on the status it read or against the journals
of the order, confirms it once. -/
theorem order_confirm_once {is : List ι} (hC : (confirming h ι s id).Turns OrderUnchanged is) :
    AtMostOneSucceeds ((confirming h ι s id).play is) ∧
      ConfirmedOnce s id ((confirming h ι s id).play is).store := by
  have hsupported : (confirming h ι s id).Supported SameLines (ConfirmStep h id) :=
    supported_of_since fun _ ↦ salesOrderConfirm_since
  have hkeeps : ∀ held t t', ConfirmStep h id held t t' → SameLines t t' := by
    rintro held t t' ⟨book, before, -, -, rfl, -, hcommit⟩
    exact (confirmInTx_ensures _ _ hcommit).2.1
  have hfires := hsupported.fires_once (Confirmed id) hkeeps
    (fun _ ↦ pending_salesOrderConfirm) (fun _ _ _ hrun ↦ (salesOrderConfirm_run hrun).2) ?_ hC
  · refine ⟨fun i j ↦ Config.unique_of_fired hfires, ?_⟩
    rcases hfires with hunfired | ⟨i, hi⟩
    · rw [hunfired.store]
      exact ⟨⟨[], (List.append_nil _).symm, .inl rfl⟩, [], (List.append_nil _).symm, by simp⟩
    · obtain ⟨order, hrun, -⟩ := hi.ended
      exact (salesOrderConfirm_run hrun).1
  · rintro held t t' hunchanged ⟨o, ho, hstatus⟩ ⟨book, before, hbook, horder, rfl, hdraft, hcommit⟩
    rcases hunchanged before horder with ⟨o', hlook, hsame⟩ | hagain
    · obtain rfl := Option.some.inj (ho.symm.trans hlook)
      simp [hstatus, hdraft] at hsame
    · exact (confirmInTx_ensures _ _ hcommit).1 (hagain book hbook)

end Orders

/-- On any number of connections, a quote is accepted and an order is confirmed at most once, as
long as each transaction still finds the status that its call read. The journals of a confirmed
order block a second confirmation too. -/
theorem one_shot_transitions (h : Host) (ι : Type) [DecidableEq ι] (s : Db) (id : String)
    (is : List ι) :
    ((accepting h ι s id).Turns QuoteUnchanged is →
      AtMostOneSucceeds ((accepting h ι s id).play is) ∧
        ∃ orders, ((accepting h ι s id).play is).store.salesOrders = s.salesOrders ++ orders ∧
          orders.length ≤ 1) ∧
    ((confirming h ι s id).Turns OrderUnchanged is →
      AtMostOneSucceeds ((confirming h ι s id).play is) ∧
        ConfirmedOnce s id ((confirming h ι s id).play is).store) :=
  ⟨quote_accept_once, order_confirm_once⟩

section Races

def quoted : Db :=
  let s := ((quoteCreate plainHost ⟨"book", "contact", none, none, none⟩).run setup).2
  let s := ((quoteItemAdd plainHost ⟨"x", some "variant", none, 2, none, none⟩).run s).2
  ((quoteSend "x").run s).2

def ordered : Db :=
  runs setup [.salesOrderCreate ⟨"book", "contact", some "location", none, none⟩,
    .salesOrderItemAdd ⟨"x", some "variant", none, 2, none, none⟩]

def alternating (turns : ℕ) : List Bool :=
  (List.replicate turns [true, false]).flatten

theorem transitions_fire_twice :
    (¬∀ (s : Db) (id : String) (is : List Bool),
      AtMostOneSucceeds ((accepting plainHost Bool s id).play is)) ∧
    ¬∀ (s : Db) (id : String) (is : List Bool),
      AtMostOneSucceeds ((confirming plainHost Bool s id).play is) := by
  refine ⟨fun hclaim ↦ ?_, fun hclaim ↦ ?_⟩
  · have hboth : ∀ b, (((accepting plainHost Bool quoted "x").play
        (alternating 3)).threads b).Succeeded := by
      decide +kernel
    exact Bool.noConfusion (hclaim quoted "x" (alternating 3) true false (hboth _) (hboth _))
  · have hboth : ∀ b, (((confirming plainHost Bool ordered "x").play
        (alternating 4)).threads b).Succeeded := by
      decide +kernel
    exact Bool.noConfusion (hclaim ordered "x" (alternating 4) true false (hboth _) (hboth _))

def rowUnchanged (s : Db) : Held → Bool
  | .quote q => (lookup Quote.id s.quotes q.id).map Quote.status = some q.status
  | .order o => (lookup SalesOrder.id s.salesOrders o.id).map SalesOrder.status = some o.status
  | _ => true

theorem quoteUnchanged_of_rows {held : List Held} {s : Db} (hrows : ∀ r ∈ held, rowUnchanged s r) :
    QuoteUnchanged held s := by
  intro q hq
  have hsame := hrows _ hq
  simpa [rowUnchanged] using hsame

theorem orderUnchanged_of_rows {held : List Held} {s : Db} (hrows : ∀ r ∈ held, rowUnchanged s r) :
    OrderUnchanged held s := by
  intro o ho
  have hsame := hrows _ ho
  exact .inl (by simpa [rowUnchanged] using hsame)

theorem one_shot_in_turn :
    AtMostOneSucceeds ((accepting plainHost Bool quoted "x").play
      [true, true, true, false, false, false]) ∧
    AtMostOneSucceeds ((confirming plainHost Bool ordered "x").play
      [true, true, true, true, false, false, false, false]) := by
  have haccepting : (accepting plainHost Bool quoted "x").Turns
      (fun held s ↦ ∀ r ∈ held, rowUnchanged s r) [true, true, true, false, false, false] := by
    decide +kernel
  have hconfirming : (confirming plainHost Bool ordered "x").Turns
      (fun held s ↦ ∀ r ∈ held, rowUnchanged s r)
      [true, true, true, true, false, false, false, false] := by
    decide +kernel
  exact ⟨((one_shot_transitions plainHost Bool quoted "x" _).1
      (haccepting.mono fun _ _ ↦ quoteUnchanged_of_rows)).1,
    ((one_shot_transitions plainHost Bool ordered "x" _).2
      (hconfirming.mono fun _ _ ↦ orderUnchanged_of_rows)).1⟩

end Races

end SlipScan.Documents.OneShot
