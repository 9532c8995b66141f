import SlipScan.Documents.Ageing

namespace SlipScan.Documents.Hindsight

open Model.Domain Model.Database Model.Receivables Model.PlainHost Foundation.Calendar
  Foundation.Grouping Foundation.Accumulation Ageing

section Report

variable {s t db : Db} {h : Host} {bookId asOf contactId : String} {asOfDate : Date}

def dueIn (h : Host) (asOfDate : Date) (db : Db) (bookId contactId : String) (band : AgeBand) : ℤ :=
  dueSum db bookId fun i ↦ i.contactId = contactId ∧ band.Holds (daysPast h asOfDate i)

theorem report_eq_iff (hasOf : h.parseDate asOf = some asOfDate) (hs : Fits h s bookId)
    (ht : Fits h t bookId) (hcontacts : s.contacts = t.contacts) :
    agedReceivables h s bookId asOf = agedReceivables h t bookId asOf ↔
      (byContact h s bookId asOfDate).Perm (byContact h t bookId asOfDate) := by
  rw [agedReceivables_eq hasOf hs, agedReceivables_eq hasOf ht]
  have hnames : contactName s = contactName t := by
    funext contactId
    rw [contactName, contactName, hcontacts]
  have hunsorted : ∀ db, ((byContact h db bookId asOfDate).insertionSort fun a b ↦ a.1 ≤ b.1).Perm
      (byContact h db bookId asOfDate) := fun _ ↦ List.perm_insertionSort _ _
  constructor
  · intro heq
    have hrows : namedRows s (byContact h s bookId asOfDate) =
        namedRows t (byContact h t bookId asOfDate) :=
      congrArg AgedReceivables.rows (Except.ok.inj heq)
    have hperm := namedRows_perm s (byContact h s bookId asOfDate)
    rw [hrows] at hperm
    exact hperm.symm.trans (namedRows_perm t _)
  · intro hperm
    have hsorted : (byContact h s bookId asOfDate).insertionSort (fun a b ↦ a.1 ≤ b.1) =
        (byContact h t bookId asOfDate).insertionSort fun a b ↦ a.1 ≤ b.1 := by
      have hunique : ∀ a b : String × AgedBucket,
          a ∈ (byContact h s bookId asOfDate).insertionSort (fun a b ↦ a.1 ≤ b.1) →
          b ∈ (byContact h t bookId asOfDate).insertionSort (fun a b ↦ a.1 ≤ b.1) →
          a.1 ≤ b.1 → b.1 ≤ a.1 → a = b := by
        intro a b ha hb hle hge
        apply List.inj_on_of_nodup_map (keys_byContact h s bookId asOfDate).1
        · exact (hunsorted s).mem_iff.1 ha
        · exact hperm.mem_iff.2 ((hunsorted t).mem_iff.1 hb)
        · exact le_antisymm hle hge
      exact List.Perm.eq_of_pairwise hunique (List.pairwise_insertionSort _ _)
        (List.pairwise_insertionSort _ _) (((hunsorted s).trans hperm).trans (hunsorted t).symm)
    rw [namedRows, namedRows, grandTotals, grandTotals, hsorted, hnames]

theorem dueIn_nonneg (h : Host) (asOfDate : Date) (db : Db) (bookId contactId : String)
    (band : AgeBand) :
    0 ≤ dueIn h asOfDate db bookId contactId band := by
  apply List.sum_nonneg
  intro v hv
  obtain ⟨invoice, hinvoice, rfl⟩ := List.mem_map.1 hv
  exact (of_mem_openInvoices (List.mem_filter.1 hinvoice).1).2.2.le

theorem listed_iff : contactId ∈ (byContact h db bookId asOfDate).map Prod.fst ↔
    ∃ band, 0 < dueIn h asOfDate db bookId contactId band := by
  rw [(keys_byContact h db bookId asOfDate).2]
  constructor
  · intro hlisted
    obtain ⟨invoice, hinvoice, hcontact⟩ := hlisted
    refine ⟨bandOf (daysPast h asOfDate invoice), ?_⟩
    have hdue := (of_mem_openInvoices hinvoice).2.2
    have hmem : invoice ∈ (openInvoices db bookId).filter fun i ↦ i.contactId = contactId ∧
        (bandOf (daysPast h asOfDate invoice)).Holds (daysPast h asOfDate i) :=
      List.mem_filter.2 ⟨hinvoice, decide_eq_true ⟨hcontact, holds_iff.2 rfl⟩⟩
    have hle := List.single_le_sum (l := ((openInvoices db bookId).filter fun i ↦
      i.contactId = contactId ∧ (bandOf (daysPast h asOfDate invoice)).Holds
        (daysPast h asOfDate i)).map (dueOf db)) (List.forall_mem_map.2 fun i hi ↦
          (of_mem_openInvoices (List.mem_filter.1 hi).1).2.2.le) _ (List.mem_map_of_mem hmem)
    exact hdue.trans_le hle
  · intro hdue
    obtain ⟨band, hdue⟩ := hdue
    have hsome : (openInvoices db bookId).filter (fun i ↦ i.contactId = contactId ∧
        band.Holds (daysPast h asOfDate i)) ≠ [] := by
      intro hnil
      rw [dueIn, dueSum, hnil] at hdue
      exact lt_irrefl _ hdue
    obtain ⟨invoice, hinvoice⟩ := List.exists_mem_of_ne_nil _ hsome
    obtain ⟨hopen, hcontact⟩ := List.mem_filter.1 hinvoice
    exact ⟨invoice, hopen, (of_decide_eq_true hcontact).1⟩

theorem ext_amount {a b : AgedBucket} (hband : ∀ band, amount a band = amount b band)
    (ha : fiveBuckets a = a.totalMinor) (hb : fiveBuckets b = b.totalMinor) : a = b := by
  have hcurrent := hband .current
  have hto30 := hband .to30
  have hto60 := hband .to60
  have hto90 := hband .to90
  have hover90 := hband .over90
  obtain ⟨_, _, _, _, _, _⟩ := a
  obtain ⟨_, _, _, _, _, _⟩ := b
  simp only [amount, fiveBuckets] at hcurrent hto30 hto60 hto90 hover90 ha hb
  subst hcurrent hto30 hto60 hto90 hover90
  rw [← ha, ← hb]

/-- The report tells what is due from each contact in each band, and nothing else. -/
theorem report_eq_iff_dueIn (hasOf : h.parseDate asOf = some asOfDate) (hs : Fits h s bookId)
    (ht : Fits h t bookId) (hcontacts : s.contacts = t.contacts) :
    agedReceivables h s bookId asOf = agedReceivables h t bookId asOf ↔
      ∀ contactId band,
        dueIn h asOfDate s bookId contactId band = dueIn h asOfDate t bookId contactId band := by
  rw [report_eq_iff hasOf hs ht hcontacts]
  constructor
  · intro hperm contactId band
    by_cases hlisted : contactId ∈ (byContact h s bookId asOfDate).map Prod.fst
    · obtain ⟨row, hrow, hid⟩ := List.mem_map.1 hlisted
      subst hid
      have hsame := (of_mem_byContact hs hrow).1 band
      exact hsame.symm.trans ((of_mem_byContact ht (hperm.mem_iff.1 hrow)).1 band)
    · have hlisted' := fun hlisted' ↦ hlisted ((hperm.map Prod.fst).mem_iff.2 hlisted')
      have hle := not_lt.1 fun hdue ↦ hlisted (listed_iff.2 ⟨band, hdue⟩)
      have hle' := not_lt.1 fun hdue ↦ hlisted' (listed_iff.2 ⟨band, hdue⟩)
      have hnonneg := dueIn_nonneg h asOfDate s bookId contactId band
      have hnonneg' := dueIn_nonneg h asOfDate t bookId contactId band
      omega
  · intro heq
    -- a row of one report is a row of the other
    have hback : ∀ {s t : Db}, Fits h s bookId → Fits h t bookId →
        (∀ contactId band, dueIn h asOfDate s bookId contactId band =
          dueIn h asOfDate t bookId contactId band) →
        ∀ row ∈ byContact h s bookId asOfDate, row ∈ byContact h t bookId asOfDate := by
      intro s t hs ht heq row hrow
      obtain ⟨band, hdue⟩ := listed_iff.1 (List.mem_map_of_mem hrow)
      rw [heq] at hdue
      obtain ⟨row', hrow', hid⟩ := List.mem_map.1 (listed_iff.2 ⟨band, hdue⟩)
      have hbuckets : row'.2 = row.2 := by
        apply ext_amount
        · intro band
          rw [(of_mem_byContact ht hrow').1, (of_mem_byContact hs hrow).1, hid]
          exact (heq row.1 band).symm
        · exact fiveBuckets_of_mem_byContact ht hrow'
        · exact fiveBuckets_of_mem_byContact hs hrow
      rwa [← Prod.ext hid hbuckets]
    have hnodup : ∀ db, (byContact h db bookId asOfDate).Nodup := fun db ↦
      (keys_byContact h db bookId asOfDate).1.of_map _
    exact (List.perm_ext_iff_of_nodup (hnodup s) (hnodup t)).2 fun row ↦
      ⟨hback hs ht heq row, hback ht hs (fun contactId band ↦ (heq contactId band).symm) row⟩

end Report

section Later

variable {s t db : Db} {h : Host} {bookId asOf contactId : String} {asOfDate : Date}

def later (h : Host) (asOfDate : Date) (date : String) : Bool :=
  (h.parseDate date).any fun d ↦ asOfDate.number < d.number

def issuedBy (h : Host) (asOfDate : Date) (db : Db) : List Invoice :=
  db.invoices.filter fun i ↦ !later h asOfDate i.issueDate

def paymentsBy (h : Host) (asOfDate : Date) (db : Db) (invoiceId : String) : List InvoicePayment :=
  (db.invoicePayments.filter fun p ↦ p.invoiceId = invoiceId).filter fun p ↦
    !later h asOfDate p.paidAt

/-- The states differ by later invoices and later payments only. -/
structure SameUpTo (h : Host) (asOfDate : Date) (s t : Db) : Prop where
  contacts : s.contacts = t.contacts
  invoices : issuedBy h asOfDate s = issuedBy h asOfDate t
  lines : ∀ invoice ∈ issuedBy h asOfDate s,
    s.invoiceItems.filter (fun i ↦ i.invoiceId = invoice.id) =
      t.invoiceItems.filter fun i ↦ i.invoiceId = invoice.id
  payments : ∀ invoice ∈ issuedBy h asOfDate s,
    paymentsBy h asOfDate s invoice.id = paymentsBy h asOfDate t invoice.id

/-- What was due on an invoice on the day of the report. -/
def dueThen (h : Host) (asOfDate : Date) (db : Db) (invoice : Invoice) : ℤ :=
  totalOf db invoice.id - ((paymentsBy h asOfDate db invoice.id).map InvoicePayment.amountMinor).sum

def outstandingThen (h : Host) (asOfDate : Date) (db : Db) (bookId contactId : String)
    (band : AgeBand) : ℤ :=
  (((issuedBy h asOfDate db).filter fun i ↦ i.bookId = bookId ∧ i.contactId = contactId ∧
    band.Holds (daysPast h asOfDate i)).map fun i ↦ max 0 (dueThen h asOfDate db i)).sum

/-- What is due on later invoices, less what later payments settled of the others. -/
def leak (h : Host) (asOfDate : Date) (db : Db) (bookId contactId : String) (band : AgeBand) : ℤ :=
  ((db.invoices.filter fun i ↦ later h asOfDate i.issueDate ∧ i.bookId = bookId ∧
      i.contactId = contactId ∧ band.Holds (daysPast h asOfDate i)).map fun i ↦
        max 0 (dueOf db i)).sum -
    (((issuedBy h asOfDate db).filter fun i ↦ i.bookId = bookId ∧ i.contactId = contactId ∧
      band.Holds (daysPast h asOfDate i)).map fun i ↦
        max 0 (dueThen h asOfDate db i) - max 0 (dueOf db i)).sum

theorem outstandingThen_congr (hsame : SameUpTo h asOfDate s t) (bookId contactId : String)
    (band : AgeBand) : outstandingThen h asOfDate s bookId contactId band =
      outstandingThen h asOfDate t bookId contactId band := by
  rw [outstandingThen, outstandingThen, ← hsame.invoices]
  refine congrArg List.sum (List.map_congr_left fun invoice hinvoice ↦ ?_)
  have hmem := (List.mem_filter.1 hinvoice).1
  rw [dueThen, dueThen, totalOf, totalOf, hsame.lines invoice hmem, hsame.payments invoice hmem]

theorem dueIn_eq_max (band : AgeBand) : dueIn h asOfDate db bookId contactId band =
    ((db.invoices.filter fun i ↦ i.bookId = bookId ∧ i.contactId = contactId ∧
      band.Holds (daysPast h asOfDate i)).map fun i ↦ max 0 (dueOf db i)).sum := by
  have hmax : (fun i ↦ max 0 (dueOf db i)) = fun i ↦ if 0 < dueOf db i then dueOf db i else 0 := by
    funext i
    split_ifs <;> omega
  rw [hmax, sum_ite_zero, dueIn, dueSum, openInvoices, List.filter_filter, List.filter_filter,
    List.filter_filter]
  refine congrArg (fun l ↦ (List.map (dueOf db) l).sum) (List.filter_congr fun i _ ↦ ?_)
  rw [isOpen, ← Bool.decide_and, ← Bool.decide_and, ← Bool.decide_and]
  exact decide_eq_decide.2 (by tauto)

/-- The report shows what was outstanding, and the leak. -/
theorem dueIn_eq (band : AgeBand) : dueIn h asOfDate db bookId contactId band =
    outstandingThen h asOfDate db bookId contactId band +
      leak h asOfDate db bookId contactId band := by
  have hsplit : dueIn h asOfDate db bookId contactId band =
      ((db.invoices.filter fun i ↦ later h asOfDate i.issueDate ∧ i.bookId = bookId ∧
        i.contactId = contactId ∧ band.Holds (daysPast h asOfDate i)).map fun i ↦
          max 0 (dueOf db i)).sum +
      (((issuedBy h asOfDate db).filter fun i ↦ i.bookId = bookId ∧ i.contactId = contactId ∧
        band.Holds (daysPast h asOfDate i)).map fun i ↦ max 0 (dueOf db i)).sum := by
    rw [dueIn_eq_max, issuedBy, List.filter_filter]
    apply sum_filter_or
    intro i _
    by_cases hlater : later h asOfDate i.issueDate <;> simp [hlater]
  rw [hsplit, leak, sum_map_sub, outstandingThen]
  abel

end Later

section Hindsight

variable {s t db : Db} {h : Host} {bookId asOf contactId : String} {asOfDate : Date}

def currencies (db : Db) (bookId : String) : List String :=
  ((openInvoices db bookId).map Invoice.currency).dedup

def dueInCurrency (h : Host) (asOfDate : Date) (db : Db) (bookId contactId : String)
    (band : AgeBand) (currency : String) : ℤ :=
  dueSum db bookId fun i ↦ i.currency = currency ∧ i.contactId = contactId ∧
    band.Holds (daysPast h asOfDate i)

theorem dueIn_currencies (band : AgeBand) : dueIn h asOfDate db bookId contactId band =
    ((currencies db bookId).map (dueInCurrency h asOfDate db bookId contactId band)).sum := by
  have hknown : ∀ i ∈ (openInvoices db bookId).filter fun i ↦ i.contactId = contactId ∧
      band.Holds (daysPast h asOfDate i), i.currency ∈ currencies db bookId :=
    fun i hi ↦ List.mem_dedup.2 (List.mem_map_of_mem (List.mem_filter.1 hi).1)
  have hgroups := sum_groupSum Invoice.currency (dueOf db) (List.nodup_dedup _) hknown
  rw [dueIn, dueSum, ← hgroups]
  refine congrArg List.sum (List.map_congr_left fun currency _ ↦ ?_)
  rw [dueInCurrency, dueSum_and, groupSum, List.filter_comm]

/-- A report of the past shows what was outstanding then and what later facts leak into it, in the
minor units of all currencies alike. So two states that were the same then show the same if and only
if they leak the same. -/
theorem agedReceivables_hindsight (hasOf : h.parseDate asOf = some asOfDate)
    (hs : Fits h s bookId) (ht : Fits h t bookId) (hsame : SameUpTo h asOfDate s t) :
    (agedReceivables h s bookId asOf = agedReceivables h t bookId asOf ↔
      ∀ contactId band, leak h asOfDate s bookId contactId band =
        leak h asOfDate t bookId contactId band) ∧
    ∃ report, agedReceivables h s bookId asOf = .ok report ∧
      (∀ row ∈ report.rows, ∀ band,
        amount row.buckets band = outstandingThen h asOfDate s bookId row.contactId band +
          leak h asOfDate s bookId row.contactId band ∧
        amount row.buckets band = ((currencies s bookId).map
          (dueInCurrency h asOfDate s bookId row.contactId band)).sum) ∧
      ∀ contactId ∉ report.rows.map AgedReceivablesRow.contactId, ∀ band,
        outstandingThen h asOfDate s bookId contactId band +
          leak h asOfDate s bookId contactId band = 0 := by
  constructor
  · rw [report_eq_iff_dueIn hasOf hs ht hsame.contacts]
    refine forall_congr' fun contactId ↦ forall_congr' fun band ↦ ?_
    rw [dueIn_eq, dueIn_eq, outstandingThen_congr hsame]
    exact add_right_inj _
  · refine ⟨_, agedReceivables_eq hasOf hs, fun row hrow band ↦ ?_, fun contactId hnot band ↦ ?_⟩
    · rw [(of_mem_byContact hs (of_mem_namedRows hrow)).1 band, ← dueIn_eq, ← dueIn_currencies]
      exact ⟨rfl, rfl⟩
    · have hzero : ¬0 < dueIn h asOfDate s bookId contactId band := by
        intro hdue
        apply hnot
        exact (ids_namedRows s _).mem_iff.2 (listed_iff.2 ⟨band, hdue⟩)
      rw [← dueIn_eq]
      exact le_antisymm (not_lt.1 hzero) (dueIn_nonneg h asOfDate s bookId contactId band)

def unpaid : Db where
  contacts := [⟨"a", "book", "Customer"⟩]
  invoices := [⟨"1", "book", "a", none, "INV", 1, "2025-01-01", "2025-01-31", "ZAR", none⟩]
  invoiceItems := [⟨"1", "1", "book", none, "Line", 1, 100, 0, 0⟩]

def settled : Db :=
  { unpaid with invoicePayments := [⟨"1", "1", "book", 100, "2025-03-01", none, none⟩] }

def twoCurrencies : Db where
  contacts := [⟨"a", "book", "Customer"⟩]
  invoices :=
    [⟨"1", "book", "a", none, "INV", 1, "2025-01-01", "2025-01-31", "ZAR", none⟩,
      ⟨"2", "book", "a", none, "INV", 2, "2025-01-01", "2025-01-31", "USD", none⟩]
  invoiceItems :=
    [⟨"1", "1", "book", none, "Line", 1, 100, 0, 0⟩,
      ⟨"2", "2", "book", none, "Line", 1, 200, 0, 0⟩]

def midFebruary : Date :=
  ⟨2025, 2, 15, by decide, by decide, by decide⟩

theorem sameUpTo_settled : SameUpTo plainHost midFebruary unpaid settled := by
  refine ⟨rfl, by decide, ?_, ?_⟩
  · exact fun _ _ ↦ rfl
  · decide

theorem agedReceivables_hindsight_of_settled :
    leak plainHost midFebruary settled "book" "a" .to30 = -100 ∧
    (agedReceivables plainHost unpaid "book" "2025-02-15" =
        agedReceivables plainHost settled "book" "2025-02-15" ↔
      ∀ contactId band, leak plainHost midFebruary unpaid "book" contactId band =
        leak plainHost midFebruary settled "book" contactId band) := by
  refine ⟨by decide, (agedReceivables_hindsight (by decide) ?_ ?_ sameUpTo_settled).1⟩
  · apply fits_of <;> decide
  · apply fits_of <;> decide

theorem past_report_changes :
    ¬(∀ s t : Db, SameUpTo plainHost midFebruary s t →
      agedReceivables plainHost s "book" "2025-02-15" =
        agedReceivables plainHost t "book" "2025-02-15") ∧
    ¬(∀ (s : Db) (report : AgedReceivables),
      agedReceivables plainHost s "book" "2025-02-15" = .ok report →
      ∀ row ∈ report.rows, ∀ i ∈ openInvoices s "book", ∀ j ∈ openInvoices s "book",
        i.contactId = row.contactId → j.contactId = row.contactId →
        bandOf (daysPast plainHost midFebruary i) = bandOf (daysPast plainHost midFebruary j) →
        i.currency = j.currency) := by
  constructor
  · intro hstable
    have hreports := hstable unpaid settled sameUpTo_settled
    revert hreports
    decide
  · intro hsame
    have hreport : agedReceivables plainHost twoCurrencies "book" "2025-02-15" = .ok
        { asOf := "2025-02-15"
          rows := [⟨"a", "Customer", { overdue1To30Minor := 300, totalMinor := 300 }⟩]
          totals := { overdue1To30Minor := 300, totalMinor := 300 } } := by decide
    have hcurrency := hsame twoCurrencies _ hreport _ (List.mem_singleton_self _)
      ⟨"1", "book", "a", none, "INV", 1, "2025-01-01", "2025-01-31", "ZAR", none⟩ (by decide)
      ⟨"2", "book", "a", none, "INV", 2, "2025-01-01", "2025-01-31", "USD", none⟩ (by decide)
    exact absurd (hcurrency rfl rfl (by decide)) (by decide)

end Hindsight

end SlipScan.Documents.Hindsight
