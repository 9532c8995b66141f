import SlipScan.Documents.OneShot
import SlipScan.Foundation.Counter
import SlipScan.Ledger.Calls

namespace SlipScan.Documents.Numbering

open Model.Domain Model.Database Model.Ledger Model.Generate Model.Trade Model.Sales
  Model.SalesPosting Model.Invoicing Model.Banking Model.Recurring Model.Scheduling Model.Quotes Model.Service
  Model.Slip Model.PlainHost Foundation.Transaction Foundation.Interleaving Foundation.Table
  Foundation.Counter Ledger.Posting Ledger.Effects Ledger.Calls Writes.Frames Writes.Tables
  Documents.OneShot Process

variable {h : Host} {parseSlip : String → Except Fault SlipPayload} {s s' t : Db}
  {bookId series : String}

/-- What the numbering of the documents depends on. Of an order or a quote that is its identifier
and its book. -/
structure Register where
  invoices : List Invoice
  sequences : List (String × String × ℤ)
  orders : List (String × String)
  quotes : List (String × String)

def register (s : Db) : Register :=
  { invoices := s.invoices
    sequences := s.numberSequences
    orders := s.salesOrders.map fun o ↦ (o.id, o.bookId)
    quotes := s.quotes.map fun q ↦ (q.id, q.bookId) }

/-- The counter of a series. It starts at 1, and a series without a row has not been used. -/
def nextIn (sequences : List (String × String × ℤ)) (bookId series : String) : ℤ :=
  ((sequences.find? fun n ↦ n.1 = bookId ∧ n.2.1 = series).map fun n ↦ n.2.2).getD 1

def Register.seriesOf (r : Register) (bookId series : String) : Series :=
  { issued := (r.invoices.filter fun i ↦ i.bookId = bookId ∧ i.series = series).map Invoice.number
    next := nextIn r.sequences bookId series }

def Issues (r r' : Register) (bookId series : String) : Prop :=
  ∃ i ∈ r'.invoices, i.bookId = bookId ∧ i.series = series ∧ ∀ i' ∈ r.invoices, i'.id ≠ i.id

def Creates (documents documents' : List (String × String)) (bookId : String) : Prop :=
  ∃ d ∈ documents', d.2 = bookId ∧ ∀ d' ∈ documents, d'.1 ≠ d.1

/-- A sales order or a quote is created, which takes its number from the counter that the series
is numbered from. -/
def TakesNumber (r r' : Register) (bookId series : String) : Prop :=
  series = "sales_order" ∧ Creates r.orders r'.orders bookId ∨
    series = "quote" ∧ Creates r.quotes r'.quotes bookId

section Steps

/-- One step of the numbering, for every series at once. -/
def Counts (r r' : Register) : Prop :=
  ∀ bookId series, ∃ use : Use, r'.seriesOf bookId series = (r.seriesOf bookId series).after use ∧
    (use = .lose ↔ TakesNumber r r' bookId series) ∧ (use = .issue ↔ Issues r r' bookId series)

theorem not_creates_self (documents : List (String × String)) :
    ¬Creates documents documents bookId := by
  rintro ⟨d, hd, -, hfresh⟩
  exact hfresh d hd rfl

theorem counts_refl (r : Register) : Counts r r := by
  intro bookId series
  refine ⟨.keep, rfl, iff_of_false nofun ?_, iff_of_false nofun ?_⟩
  · rintro (⟨-, hcreates⟩ | ⟨-, hcreates⟩)
    · exact not_creates_self _ hcreates
    · exact not_creates_self _ hcreates
  · rintro ⟨i, hi, -, -, hfresh⟩
    exact hfresh i hi rfl

theorem counts_of_keeps (hs : Keeps register s s') : Counts (register s) (register s') :=
  hs.1 ▸ counts_refl _

theorem counts_trans_keeps (hs : Counts (register s) (register t)) (ht : Keeps register t s') :
    Counts (register s) (register s') :=
  ht.1 ▸ hs

theorem nextIn_map (sequences : List (String × String × ℤ)) (number : ℤ) (bookId' series' : String)
    (hsome : (sequences.find? fun n ↦ n.1 = bookId ∧ n.2.1 = series).isSome) :
    nextIn (sequences.map fun n ↦
        if n.1 = bookId ∧ n.2.1 = series then (n.1, n.2.1, number) else n) bookId' series' =
      if bookId' = bookId ∧ series' = series then number else nextIn sequences bookId' series' := by
  have hkeys : ((fun n : String × String × ℤ ↦ decide (n.1 = bookId' ∧ n.2.1 = series')) ∘
      fun n ↦ if n.1 = bookId ∧ n.2.1 = series then (n.1, n.2.1, number) else n) =
      fun n ↦ decide (n.1 = bookId' ∧ n.2.1 = series') := by
    funext n
    by_cases hn : n.1 = bookId ∧ n.2.1 = series <;> simp [hn]
  rw [nextIn, List.find?_map, hkeys, nextIn]
  split
  · rename_i hsame
    obtain ⟨rfl, rfl⟩ := hsame
    obtain ⟨n, hfind⟩ := Option.isSome_iff_exists.1 hsome
    have hn := List.find?_some hfind
    simp only [decide_eq_true_eq] at hn
    rw [hfind]
    simp [hn]
  · rename_i hother
    cases hfind : sequences.find? fun n ↦ decide (n.1 = bookId' ∧ n.2.1 = series') with
    | none => rfl
    | some n =>
      have hn := List.find?_some hfind
      simp only [decide_eq_true_eq] at hn
      have hne : ¬(n.1 = bookId ∧ n.2.1 = series) := by rwa [hn.1, hn.2]
      simp [hne]

theorem nextIn_concat (sequences : List (String × String × ℤ)) (number : ℤ)
    (bookId' series' : String)
    (hnone : (sequences.find? fun n ↦ n.1 = bookId ∧ n.2.1 = series) = none) :
    nextIn (sequences ++ [(bookId, series, number)]) bookId' series' =
      if bookId' = bookId ∧ series' = series then number else nextIn sequences bookId' series' := by
  rw [nextIn, List.find?_append, nextIn]
  split
  · rename_i hsame
    obtain ⟨rfl, rfl⟩ := hsame
    rw [hnone]
    simp
  · rename_i hother
    have hne : ¬(bookId = bookId' ∧ series = series') := fun hsame ↦
      hother ⟨hsame.1.symm, hsame.2.symm⟩
    simp [hne]

theorem allocateNumber_ensures : Ensures (allocateNumber bookId series) s fun number s' ↦
    number = nextIn s.numberSequences bookId series ∧
      ∃ sequences, s' = { s with numberSequences := sequences } ∧
        ∀ bookId' series', nextIn sequences bookId' series' =
          if bookId' = bookId ∧ series' = series then number + 1
          else nextIn s.numberSequences bookId' series' := by
  simp only [allocateNumber, ensures_bind, ensures_get, ensures_constraint]
  intro _
  split
  · rename_i number hfind
    simp only [ensures_bind, ensures_modify, ensures_pure]
    exact ⟨by rw [nextIn, hfind]; rfl, _, rfl, fun bookId' series' ↦
      nextIn_map _ _ _ _ (Option.isSome_iff_exists.2 ⟨_, hfind⟩)⟩
  · rename_i hfind
    simp only [ensures_bind, ensures_modify, ensures_pure]
    exact ⟨by rw [nextIn, hfind]; rfl, _, rfl, fun bookId' series' ↦ nextIn_concat _ _ _ _ hfind⟩

theorem creates_concat {documents : List (String × String)} {id : String} (bookId' : String)
    (hfresh : ∀ d ∈ documents, d.1 ≠ id) :
    Creates documents (documents ++ [(id, bookId)]) bookId' ↔ bookId' = bookId := by
  constructor
  · rintro ⟨d, hd, hbook, hnew⟩
    rcases List.mem_append.1 hd with hd | hd
    · exact absurd rfl (hnew d hd)
    · rw [List.mem_singleton.1 hd] at hbook
      exact hbook.symm
  · rintro rfl
    exact ⟨(id, bookId'), by simp, rfl, hfresh⟩

theorem counts_issue {r : Register} {invoice : Invoice} {sequences : List (String × String × ℤ)}
    (hnumber : invoice.number = nextIn r.sequences invoice.bookId invoice.series)
    (hnext : ∀ bookId series, nextIn sequences bookId series =
      if bookId = invoice.bookId ∧ series = invoice.series then invoice.number + 1
      else nextIn r.sequences bookId series)
    (hfresh : ∀ i ∈ r.invoices, i.id ≠ invoice.id) :
    Counts r { r with invoices := r.invoices ++ [invoice], sequences } := by
  intro bookId series
  have hissues : Issues r { r with invoices := r.invoices ++ [invoice], sequences } bookId series ↔
      bookId = invoice.bookId ∧ series = invoice.series := by
    constructor
    · rintro ⟨i, hi, hbook, hseries, hnew⟩
      rcases List.mem_append.1 hi with hi | hi
      · exact absurd rfl (hnew i hi)
      · rw [List.mem_singleton.1 hi] at hbook hseries
        exact ⟨hbook.symm, hseries.symm⟩
    · rintro ⟨rfl, rfl⟩
      exact ⟨invoice, by simp, rfl, rfl, hfresh⟩
  have htakes : ¬TakesNumber r { r with invoices := r.invoices ++ [invoice], sequences }
      bookId series := by
    rintro (⟨-, hcreates⟩ | ⟨-, hcreates⟩)
    · exact not_creates_self _ hcreates
    · exact not_creates_self _ hcreates
  by_cases hsame : bookId = invoice.bookId ∧ series = invoice.series
  · refine ⟨.issue, ?_, iff_of_false (by simp) htakes, iff_of_true rfl (hissues.2 hsame)⟩
    obtain ⟨rfl, rfl⟩ := hsame
    simp [Register.seriesOf, Series.after, hnext, hnumber]
  · refine ⟨.keep, ?_, iff_of_false (by simp) htakes,
      iff_of_false (by simp) fun hi ↦ hsame (hissues.1 hi)⟩
    have hother : ¬(invoice.bookId = bookId ∧ invoice.series = series) := fun h' ↦
      hsame ⟨h'.1.symm, h'.2.symm⟩
    simp [Register.seriesOf, Series.after, hnext, hsame, hother]

theorem counts_lose {r r' : Register} {own : String} (hinvoices : r'.invoices = r.invoices)
    (hnext : ∀ bookId' series', nextIn r'.sequences bookId' series' =
      if bookId' = bookId ∧ series' = own then nextIn r.sequences bookId own + 1
      else nextIn r.sequences bookId' series')
    (htakes : ∀ bookId' series', TakesNumber r r' bookId' series' ↔
      bookId' = bookId ∧ series' = own) : Counts r r' := by
  intro bookId' series'
  have hissues : ¬Issues r r' bookId' series' := by
    rintro ⟨i, hi, -, -, hfresh⟩
    rw [hinvoices] at hi
    exact hfresh i hi rfl
  by_cases hsame : bookId' = bookId ∧ series' = own
  · refine ⟨.lose, ?_, iff_of_true rfl ((htakes _ _).2 hsame),
      iff_of_false (by simp) hissues⟩
    obtain ⟨rfl, rfl⟩ := hsame
    simp [Register.seriesOf, Series.after, hnext, hinvoices]
  · refine ⟨.keep, ?_, iff_of_false (by simp) fun ht ↦ hsame ((htakes _ _).1 ht),
      iff_of_false (by simp) hissues⟩
    simp [Register.seriesOf, Series.after, hnext, hinvoices, hsame]

theorem takesNumber_order {r : Register} {id : String} {sequences : List (String × String × ℤ)}
    (hfresh : ∀ d ∈ r.orders, d.1 ≠ id) (bookId' series' : String) :
    TakesNumber r { r with orders := r.orders ++ [(id, bookId)], sequences } bookId' series' ↔
      bookId' = bookId ∧ series' = "sales_order" := by
  have hquotes : ¬Creates r.quotes r.quotes bookId' := not_creates_self r.quotes
  simp only [TakesNumber, creates_concat bookId' hfresh]
  tauto

theorem takesNumber_quote {r : Register} {id : String} {sequences : List (String × String × ℤ)}
    (hfresh : ∀ d ∈ r.quotes, d.1 ≠ id) (bookId' series' : String) :
    TakesNumber r { r with quotes := r.quotes ++ [(id, bookId)], sequences } bookId' series' ↔
      bookId' = bookId ∧ series' = "quote" := by
  have horders : ¬Creates r.orders r.orders bookId' := not_creates_self r.orders
  simp only [TakesNumber, creates_concat bookId' hfresh]
  tauto

end Steps

section Bodies

theorem keeps_minted (s : Db) (x : ℕ) : register { s with minted := x } = register s :=
  rfl

theorem issueInvoiceInTx_counts {book : Book} {resolved : ResolvedInvoice} :
    Ensures (issueInvoiceInTx h book resolved) s fun _ s' ↦
      Counts (register s) (register s') := by
  have hitems : ∀ invoice, Moves (Keeps register) (storeInvoiceItems h invoice 0 resolved.lines) :=
    fun invoice ↦ storeInvoiceItems_keeps invoice 0 _ (fun _ _ ↦ rfl) keeps_minted
  have hrevenue : ∀ date text id, Moves (Keeps register) (postRevenueArJournal h book
      resolved.currency (resolved.lines.map fun l ↦ l.2.2) date text id .salesRevenue id) :=
    fun _ _ _ ↦ moves_keeps book fun _ ↦
      moves_postRevenueArJournal keeps_minted (fun _ _ _ ↦ rfl) (by simp)
  simp only [issueInvoiceInTx, ensures_bind]
  refine allocateNumber_ensures.mono fun number t ht ↦ ?_
  obtain ⟨hnumber, sequences, rfl, hnext⟩ := ht
  simp only [ensures_newId, invoiceInsert, ensures_bind, ensures_get, ensures_constraint,
    ensures_modify]
  intro hfresh _ _
  refine (hitems _ _).mono fun _ u hu ↦ ?_
  have hcounts : Counts (register s) (register u) :=
    counts_trans_keeps (counts_issue hnumber hnext hfresh) hu
  simp only [ensures_ite, ensures_bind, ensures_pure]
  exact ⟨fun _ ↦ (hrevenue _ _ _ _).mono fun _ v hv ↦ counts_trans_keeps hcounts hv,
    fun _ ↦ hcounts⟩

theorem processInTx_counts {book : Book} {schedule : RecurringSchedule} {occurrenceDate : String}
    {skip : Bool} : Ensures (processInTx h book schedule occurrenceDate skip) s fun _ s' ↦
      Counts (register s) (register s') := by
  have hgenerate : Ensures (generateUnless h skip book schedule occurrenceDate) s fun _ t ↦
      Counts (register s) (register t) := by
    simp only [generateUnless, ensures_ite, ensures_pure, ensures_map]
    refine ⟨fun _ ↦ counts_refl _, fun _ ↦ ?_⟩
    rw [generate]
    split
    · simp only [generateInvoice, ensures_bind, ensures_pure, ensures_check, ensures_get]
      intro _ _ _ _ _ _
      refine (moves_resolveInvoice (R := Keeps register) s).mono fun resolved t ht ↦ ?_
      have hsame : Counts (register t) = Counts (register s) := by rw [ht.1]
      exact hsame ▸ issueInvoiceInTx_counts
    · have htransaction : ∀ new, Moves (Keeps register) (createTransactionInTx h new) :=
        fun new ↦ createTransactionInTx_keeps new (fun _ _ ↦ rfl) keeps_minted
      simp only [generateTransaction, ensures_bind, ensures_pure, ensures_check]
      intro _ _ _ _
      exact (htransaction _ s).mono fun _ _ hs ↦ counts_of_keeps hs
  have hrun : ∀ run, Moves (Keeps register) (runInsert run) := fun run ↦
    runInsert_keeps run fun _ _ ↦ rfl
  have hschedule : ∀ schedule, Moves (Keeps register) (scheduleUpdate schedule) := fun schedule ↦
    scheduleUpdate_keeps schedule fun _ _ ↦ rfl
  simp only [processInTx, ensures_bind, ensures_get, ensures_check]
  intro _ _
  refine hgenerate.mono fun _ t ht ↦ ?_
  simp only [ensures_newId]
  have ht' : Counts (register s) (register { t with minted := t.minted + 1 }) := ht
  refine (hrun _ _).mono fun _ u hu ↦ fun advanced hadvanced ↦ ?_
  refine (hschedule _ u).mono fun _ v hv ↦ (ensures_pure _).2 ?_
  exact counts_trans_keeps (counts_trans_keeps ht' hu) hv

theorem orderCreate_counts {bookId currency contactId orderDate : String}
    {locationId : Option String} :
    Ensures (do
      let number ← allocateNumber bookId "sales_order"
      let order : SalesOrder :=
        { id := ← newId h, bookId, contactId, locationId, number, orderDate, status := .draft,
          currency }
      orderInsert order
      return order : Action SalesOrder) s fun _ s' ↦ Counts (register s) (register s') := by
  simp only [ensures_bind]
  refine allocateNumber_ensures.mono fun number t ht ↦ ?_
  obtain ⟨hnumber, sequences, rfl, hnext⟩ := ht
  simp only [ensures_newId, orderInsert, ensures_bind, ensures_get, ensures_constraint,
    ensures_modify, ensures_pure]
  intro hfresh _ _
  have hkeys : ∀ d ∈ (register s).orders, d.1 ≠ h.newId s.minted := by
    intro d hd
    obtain ⟨o, ho, rfl⟩ := List.mem_map.1 hd
    exact hfresh o ho
  have hcounts : Counts (register s) { register s with
      orders := (register s).orders ++ [(h.newId s.minted, bookId)], sequences } := counts_lose rfl
    (fun _ _ ↦ hnumber ▸ hnext _ _) (takesNumber_order hkeys)
  simpa [register] using hcounts

theorem createInTx_counts {book : Book} {contactId quoteDate currency : String}
    {expiryDate : Option String} :
    Ensures (createInTx h book contactId quoteDate expiryDate currency) s fun _ s' ↦
      Counts (register s) (register s') := by
  simp only [createInTx, ensures_bind]
  refine allocateNumber_ensures.mono fun number t ht ↦ ?_
  obtain ⟨hnumber, sequences, rfl, hnext⟩ := ht
  simp only [ensures_newId, quoteInsert, ensures_bind, ensures_get, ensures_constraint,
    ensures_modify, ensures_pure]
  intro hfresh _ _
  have hkeys : ∀ d ∈ (register s).quotes, d.1 ≠ h.newId s.minted := by
    intro d hd
    obtain ⟨q, hq, rfl⟩ := List.mem_map.1 hd
    exact hfresh q hq
  have hcounts : Counts (register s) { register s with
      quotes := (register s).quotes ++ [(h.newId s.minted, book.id)], sequences } := counts_lose rfl
    (fun _ _ ↦ hnumber ▸ hnext _ _) (takesNumber_quote hkeys)
  simpa [register] using hcounts

theorem quoteUpdate_keeps_register (quote : Quote) : Moves (Keeps register) (quoteUpdate quote) := by
  intro s
  simp only [quoteUpdate, ensures_bind, ensures_get, ensures_constraint, ensures_modify]
  intro _
  refine ⟨?_, le_rfl⟩
  simp only [register, Register.mk.injEq, true_and]
  apply map_update_of_eq
  exact fun _ ↦ rfl

theorem orderUpdate_keeps_register (order : SalesOrder) :
    Moves (Keeps register) (orderUpdate order) := by
  intro s
  simp only [orderUpdate, ensures_bind, ensures_get, ensures_constraint, ensures_modify]
  intro _
  refine ⟨?_, le_rfl⟩
  simp only [register, Register.mk.injEq, true_and, and_true]
  apply map_update_of_eq
  exact fun _ ↦ rfl

theorem acceptInTx_counts {quote : Quote} {items : List QuoteItem} :
    Ensures (acceptInTx h quote items) s fun _ s' ↦ Counts (register s) (register s') := by
  have hcopy : ∀ order createdAt, Moves (Keeps register) (copyItems h order createdAt 0 items) :=
    fun order createdAt ↦ copyItems_keeps order createdAt 0 items (fun _ _ ↦ rfl) keeps_minted
  simp only [acceptInTx, ensures_bind, ensures_nowIso]
  refine allocateNumber_ensures.mono fun number t ht ↦ ?_
  obtain ⟨hnumber, sequences, rfl, hnext⟩ := ht
  simp only [ensures_newId, orderInsert, ensures_bind, ensures_get, ensures_constraint,
    ensures_modify, ensures_pure]
  intro hfresh _ _
  have hkeys : ∀ d ∈ (register s).orders, d.1 ≠ h.newId s.minted := by
    intro d hd
    obtain ⟨o, ho, rfl⟩ := List.mem_map.1 hd
    exact hfresh o ho
  have hcounts : Counts (register s) { register s with
      orders := (register s).orders ++ [(h.newId s.minted, quote.bookId)], sequences } := counts_lose rfl
    (fun _ _ ↦ hnumber ▸ hnext _ _) (takesNumber_order hkeys)
  refine (hcopy _ _ _).mono fun _ u hu ↦ (quoteUpdate_keeps_register _ u).mono fun _ v hv ↦ ?_
  refine counts_trans_keeps (counts_trans_keeps ?_ hu) hv
  simpa [register] using hcounts

theorem orderDelete_counts {id : String} :
    Ensures (orderDelete id) s fun _ s' ↦ Counts (register s) (register s') := by
  simp only [orderDelete, ensures_bind, ensures_get, ensures_constraint, ensures_modify]
  intro _ bookId series
  refine ⟨.keep, rfl, iff_of_false (by simp) ?_, iff_of_false (by simp) ?_⟩
  · rintro (⟨-, d, hd, -, hfresh⟩ | ⟨-, d, hd, -, hfresh⟩)
    · obtain ⟨o, ho, rfl⟩ := List.mem_map.1 hd
      exact hfresh _ (List.mem_map_of_mem (List.mem_of_mem_filter ho)) rfl
    · simp only [register, List.map_map, List.mem_map] at hd
      obtain ⟨q, hq, rfl⟩ := hd
      refine hfresh _ (List.mem_map_of_mem hq) ?_
      simp only [Function.comp_apply]
      split <;> rfl
  · rintro ⟨i, hi, -, -, hfresh⟩
    exact hfresh i hi rfl

end Bodies

section Requests

/-- What a connection asks of the service: one of the modelled calls, a quote call, or anything
else that does not number a document. -/
inductive Request
  | call (c : Call)
  | quoteCreate (new : NewQuote)
  | quoteItemAdd (new : NewQuoteItem)
  | quoteSend (id : String)
  | quoteDecline (id : String)
  | quoteExpire (id : String)
  | quoteAccept (id : String)
  | other (change : Db → Db) (hchange : ∀ s, register (change s) = register s)

variable (h parseSlip) in
def Request.program : Request → Service Unit
  | call c => c.program h parseSlip
  | quoteCreate new => dropResult (Model.Quotes.quoteCreate h new)
  | quoteItemAdd new => dropResult (Model.Quotes.quoteItemAdd h new)
  | quoteSend id => dropResult (Model.Quotes.quoteSend id)
  | quoteDecline id => dropResult (Model.Quotes.quoteDecline id)
  | quoteExpire id => dropResult (Model.Quotes.quoteExpire id)
  | quoteAccept id => dropResult (Model.Quotes.quoteAccept h id)
  | other change _ => atomically [] (modify change)

def serving (h : Host) (parseSlip : String → Except Fault SlipPayload) (ι : Type)
    (requests : ι → List Request) : Config ι Db Held Fault Unit :=
  ⟨{}, fun i ↦ inTurn ((requests i).map fun r ↦ r.program h parseSlip)⟩

abbrev CountsHeld (_ : List Held) (s s' : Db) : Prop :=
  Counts (register s) (register s')

theorem moves_counts {α : Type} {m : Action α} {held : List Held}
    (hm : Moves (Keeps register) m) : Moves (CountsHeld held) m :=
  hm.mono fun _ _ hs ↦ counts_of_keeps hs

def registered : List Table :=
  [.numberSequences, .quotes, .salesOrders, .invoices]

theorem hides_register {table : Table} (ht : table ∉ registered) : Hides register table := by
  cases table with
  | numberSequences => exact absurd (by simp [registered]) ht
  | quotes => exact absurd (by simp [registered]) ht
  | salesOrders => exact absurd (by simp [registered]) ht
  | invoices => exact absurd (by simp [registered]) ht
  | journals => exact fun _ _ _ ↦ rfl
  | _ => exact fun _ _ ↦ rfl

theorem since_elsewhere (c : Call) (hc : ∀ t ∈ writtenBy c, t ∉ registered) :
    (c.program h parseSlip).Since AnyChange CountsHeld s :=
  (program_keeps keeps_minted c fun t ht ↦ hides_register (hc t ht)).mono fun _ _ _ hs ↦
    counts_of_keeps hs

theorem runSchedule_counts {rounds : ℕ} {asOf : String} {schedule : RecurringSchedule} :
    (runSchedule h rounds asOf schedule).Within CountsHeld := by
  have hprocess : ∀ schedule, (recurringProcessOccurrence h schedule false).Within CountsHeld :=
    fun schedule ↦ within_bookGet_bind fun _ ↦ (within_ofExcept_bind _).2 fun _ _ ↦
      (within_atomically _ _).2 fun _ ↦ processInTx_counts
  induction rounds generalizing schedule with
  | zero => exact (within_fail _).2 trivial
  | succ rounds ih =>
    rw [runSchedule]
    refine .ite (fun _ ↦ (within_pure _).2 trivial) fun _ ↦
      Within.bind (hprocess schedule).attempt fun r ↦ ?_
    split
    · exact within_reading_bind reading_orNotFound fun next ↦ ih.bind fun _ ↦
        (within_pure _).2 trivial
    · exact .ite (fun _ ↦ (within_fail _).2 trivial) fun _ ↦ (within_pure _).2 trivial

theorem runSchedules_counts {rounds : ℕ} {asOf : String} {due : List RecurringSchedule} :
    (runSchedules h rounds asOf due).Within CountsHeld := by
  induction due with
  | nil => exact (within_pure _).2 trivial
  | cons schedule due ih =>
    exact runSchedule_counts.bind fun _ ↦ ih.bind fun _ ↦ (within_pure _).2 trivial

theorem salesOrderCreate_counts {new : NewSalesOrder} :
    (salesOrderCreate h new).Within CountsHeld :=
  within_bookGet_bind fun _ ↦ within_fetch_bind fun _ ↦ (within_ofExcept_bind _).2 fun _ _ ↦
    within_fetch_bind fun _ ↦ (within_query_bind _).2 fun _ ↦
    (within_ofExcept_bind _).2 fun _ _ ↦ (within_ofExcept_bind _).2 fun _ _ ↦
    (within_atomically _ _).2 fun _ ↦ orderCreate_counts

theorem salesOrderUpdate_counts {id : String} {patch : SalesOrderPatch} :
    (salesOrderUpdate h id patch).Within CountsHeld :=
  within_fetch_bind fun _ ↦ (within_ofExcept_bind _).2 fun _ _ ↦ within_fetch_bind fun _ ↦
    (within_ofExcept_bind _).2 fun _ _ ↦
    within_last (moves_counts (orderUpdate_keeps_register _))

theorem salesOrderDelete_counts {id : String} : (salesOrderDelete id).Within CountsHeld :=
  within_fetch_bind fun _ ↦ (within_ofExcept_bind _).2 fun _ _ ↦
    (within_atomically _ _).2 fun _ ↦ orderDelete_counts

theorem salesOrderConfirm_counts {id : String} :
    (salesOrderConfirm h id).Within CountsHeld := by
  have hconfirm : ∀ book before items, Moves (Keeps register) (confirmInTx h book before items) :=
    fun book before items ↦
      moves_bind (moves_keeps book fun _ ↦ moves_moveOut keeps_minted fun _ _ ↦ rfl) fun _ ↦
      moves_bind (moves_keeps book fun _ ↦
        moves_postSalesConfirmJournals keeps_minted (fun _ _ _ ↦ rfl) (by simp)) fun _ ↦
      orderUpdate_keeps_register _
  exact within_fetch_bind fun _ ↦ (within_ofExcept_bind _).2 fun _ _ ↦
    (within_query_bind _).2 fun _ ↦ (within_ofExcept_bind _).2 fun _ _ ↦
    within_bookGet_bind fun _ ↦ within_last (moves_counts (hconfirm _ _ _))

theorem salesOrderCancel_counts {id : String} : (salesOrderCancel h id).Within CountsHeld := by
  have hundo : ∀ book before, Moves (Keeps register) (undoConfirm h book before) :=
    fun book before ↦ moves_keeps book fun _ ↦
      moves_undoConfirm keeps_minted (fun _ _ ↦ rfl) (fun _ _ _ ↦ rfl) (by simp)
  exact within_fetch_bind fun _ ↦ (within_ofExcept_bind _).2 fun _ _ ↦
    within_bookGet_bind fun _ ↦ within_last (moves_counts (moves_bind
      (moves_ite (fun _ ↦ hundo _ _) fun _ ↦ moves_pure _) fun _ ↦ orderUpdate_keeps_register _))

theorem salesOrderMarkPaid_counts {id : String} :
    (salesOrderMarkPaid id).Within CountsHeld :=
  within_fetch_bind fun _ ↦ (within_ofExcept_bind _).2 fun _ _ ↦
    within_last (moves_counts (orderUpdate_keeps_register _))

theorem invoiceIssue_counts {new : NewInvoice} : (invoiceIssue h new).Within CountsHeld :=
  within_bookGet_bind fun _ ↦ within_reading_bind reading_resolveInvoice fun _ ↦
    (within_atomically _ _).2 fun _ ↦ issueInvoiceInTx_counts

theorem recurringRunDue_counts {rounds : ℕ} {bookId : String} {asOf : Option String} :
    (recurringRunDue h rounds bookId asOf).Within CountsHeld :=
  within_bookGet_bind fun _ ↦ within_fetch_bind fun _ ↦ (within_query_bind _).2 fun _ ↦
    runSchedules_counts

theorem call_counts (c : Call) : (c.program h parseSlip).Since AnyChange CountsHeld s := by
  cases c with
  | salesOrderCreate => exact (within_dropResult salesOrderCreate_counts).since
  | salesOrderUpdate => exact (within_dropResult salesOrderUpdate_counts).since
  | salesOrderDelete => exact salesOrderDelete_counts.since
  | salesOrderConfirm => exact (within_dropResult salesOrderConfirm_counts).since
  | salesOrderCancel => exact (within_dropResult salesOrderCancel_counts).since
  | salesOrderMarkPaid => exact (within_dropResult salesOrderMarkPaid_counts).since
  | invoiceIssue => exact (within_dropResult invoiceIssue_counts).since
  | recurringRunDue => exact (within_dropResult recurringRunDue_counts).since
  | _ => exact since_elsewhere _ (by simp [writtenBy, registered])

theorem lapse_counts {id : String} {toStatus : QuoteStatus} :
    (quoteLapse id toStatus).Within CountsHeld :=
  within_fetch_bind fun _ ↦ (within_ofExcept_bind _).2 fun _ _ ↦
    within_last (moves_counts (quoteUpdate_keeps_register _))

theorem quoteCreate_counts {new : NewQuote} :
    (Model.Quotes.quoteCreate h new).Within CountsHeld :=
  within_bookGet_bind fun _ ↦ within_fetch_bind fun _ ↦ (within_ofExcept_bind _).2 fun _ _ ↦
    (within_query_bind _).2 fun _ ↦ (within_ofExcept_bind _).2 fun _ _ ↦
    (within_ofExcept_bind _).2 fun _ _ ↦ (within_ofExcept_bind _).2 fun _ _ ↦
    (within_atomically _ _).2 fun _ ↦ createInTx_counts

theorem quoteItemAdd_counts {new : NewQuoteItem} :
    (Model.Quotes.quoteItemAdd h new).Within CountsHeld := by
  have hinsert : ∀ item, Moves (Keeps register) (quoteItemInsert item) := by
    intro item s
    simp only [quoteItemInsert, ensures_bind, ensures_get, ensures_constraint, ensures_modify]
    exact fun _ _ _ ↦ ⟨rfl, le_rfl⟩
  exact within_fetch_bind fun _ ↦ (within_ofExcept_bind _).2 fun _ _ ↦
    (within_ofExcept_bind _).2 fun _ _ ↦ within_fetch_bind fun _ ↦
    (within_ofExcept_bind _).2 fun _ _ ↦ (within_ofExcept_bind _).2 fun _ _ ↦
    (within_atomically _ _).2 (moves_counts (moves_bind moves_get fun _ ↦
    moves_bind keeps_nowIso fun _ ↦ moves_bind (keeps_newId keeps_minted) fun _ ↦
    moves_bind (hinsert _) fun _ ↦ moves_pure _))

theorem quoteSend_counts {id : String} : (Model.Quotes.quoteSend id).Within CountsHeld :=
  within_fetch_bind fun _ ↦ (within_ofExcept_bind _).2 fun _ _ ↦ (within_query_bind _).2 fun _ ↦
    (within_ofExcept_bind _).2 fun _ _ ↦ within_last (moves_counts (quoteUpdate_keeps_register _))

theorem quoteAccept_counts {id : String} : (Model.Quotes.quoteAccept h id).Within CountsHeld :=
  within_fetch_bind fun _ ↦ (within_ofExcept_bind _).2 fun _ _ ↦ (within_query_bind _).2 fun _ ↦
    (within_ofExcept_bind _).2 fun _ _ ↦ (within_atomically _ _).2 fun _ ↦ acceptInTx_counts

theorem request_counts (r : Request) :
    (r.program h parseSlip).Since AnyChange CountsHeld s := by
  cases r with
  | call c => exact call_counts c
  | quoteCreate => exact (within_dropResult quoteCreate_counts).since
  | quoteItemAdd => exact (within_dropResult quoteItemAdd_counts).since
  | quoteSend => exact (within_dropResult quoteSend_counts).since
  | quoteDecline => exact (within_dropResult lapse_counts).since
  | quoteExpire => exact (within_dropResult lapse_counts).since
  | quoteAccept => exact (within_dropResult quoteAccept_counts).since
  | other change hchange =>
    refine Within.since ((within_atomically _ _).2 fun s ↦ (ensures_modify _).2 ?_)
    rw [CountsHeld, hchange s]
    exact counts_refl _

end Requests

section Runs

variable {ι : Type} [DecidableEq ι] {requests : ι → List Request}

def registerAfter (h : Host) (parseSlip : String → Except Fault SlipPayload)
    (requests : ι → List Request) (is : List ι) (turns : ℕ) : Register :=
  register ((serving h parseSlip ι requests).play (is.take turns)).store

theorem registerAfter_counts (is : List ι) (turns : ℕ) :
    Counts (registerAfter h parseSlip requests is turns)
      (registerAfter h parseSlip requests is (turns + 1)) := by
  have hsupported : (serving h parseSlip ι requests).Supported AnyChange CountsHeld :=
    supported_of_since fun i ↦ since_inTurn (by
      simpa using fun r _ s ↦ request_counts (s := s) r)
  rcases hsupported.play_succ (fun _ _ _ _ ↦ trivial) is turns with hsame | ⟨_, hcounts⟩
  · rw [registerAfter, registerAfter, hsame]
    exact counts_refl _
  · exact hcounts

/-- The invoices of a series are numbered 1 to n exactly when no order and no quote has taken a
number of the series before one of them got its own. -/
theorem invoice_numbers_gapless (h : Host) (parseSlip : String → Except Fault SlipPayload)
    (requests : ι → List Request) (is : List ι) (turns : ℕ) (bookId series : String) :
    Gapless ((registerAfter h parseSlip requests is turns).seriesOf bookId series).issued ↔
      ∀ i j, i < j → j < turns →
        TakesNumber (registerAfter h parseSlip requests is i)
          (registerAfter h parseSlip requests is (i + 1)) bookId series →
        ¬Issues (registerAfter h parseSlip requests is j)
          (registerAfter h parseSlip requests is (j + 1)) bookId series := by
  have hcounts (turns : ℕ) : Counts (registerAfter h parseSlip requests is turns)
      (registerAfter h parseSlip requests is (turns + 1)) := registerAfter_counts is turns
  choose use hafter htakes hissues using fun turns ↦ hcounts turns bookId series
  have hstart : (registerAfter h parseSlip requests is 0).seriesOf bookId series = .start := rfl
  have hgapless := gapless_iff (f := fun turns ↦
    (registerAfter h parseSlip requests is turns).seriesOf bookId series) hstart hafter turns
  simpa only [htakes, ne_eq, hissues] using hgapless

def standalone (series : String) : NewInvoice :=
  { bookId := "book"
    contactId := some "contact"
    salesOrderId := none
    series := some series
    issueDate := none
    dueDate := "2025-07-15"
    currency := none
    notes := none
    items := [⟨some "variant", "Product", 1, 1000, none⟩] }

def orderFirst (_ : Unit) : List Request :=
  [.other (fun s ↦ { s with
      books := setup.books
      contacts := setup.contacts
      productVariants := setup.productVariants }) (fun _ ↦ rfl),
    .call (.salesOrderCreate ⟨"book", "contact", none, none, none⟩),
    .call (.invoiceIssue (standalone "sales_order"))]

theorem first_invoice_numbered_two :
    ¬∀ (requests : Unit → List Request) (is : List Unit) (turns : ℕ) (bookId series : String),
      Gapless ((registerAfter plainHost noSlip requests is turns).seriesOf bookId series).issued := by
  intro hclaim
  have hissued : ((registerAfter plainHost noSlip orderFirst (List.replicate 20 ()) 20).seriesOf
      "book" "sales_order").issued = [2] := by
    decide +kernel
  have hgapless := hclaim orderFirst (List.replicate 20 ()) 20 "book" "sales_order"
  rw [hissued] at hgapless
  exact absurd hgapless (by decide)

end Runs

end SlipScan.Documents.Numbering
