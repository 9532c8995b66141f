import SlipScan.Arithmetic.Words
import SlipScan.Ledger.Posting
import SlipScan.Model.PlainHost
import SlipScan.Model.Receivables

namespace SlipScan.Documents.Ageing

open Model.Domain Model.Database Model.Money Model.Receivables Model.PlainHost
  Foundation.Transaction Foundation.Calendar Foundation.Grouping Foundation.Accumulation
  Ledger.Amounts Ledger.Soundness
  Arithmetic.Vat Arithmetic.Words

section Bands

inductive AgeBand
  | current | to30 | to60 | to90 | over90
  deriving DecidableEq

/-- The days past due of a band, both ends included. -/
def AgeBand.Holds : AgeBand → ℤ → Prop
  | .current, days => days ≤ 0
  | .to30, days => 1 ≤ days ∧ days ≤ 30
  | .to60, days => 31 ≤ days ∧ days ≤ 60
  | .to90, days => 61 ≤ days ∧ days ≤ 90
  | .over90, days => 91 ≤ days

def bandOf (days : ℤ) : AgeBand :=
  if days ≤ 0 then .current
  else if days ≤ 30 then .to30
  else if days ≤ 60 then .to60
  else if days ≤ 90 then .to90
  else .over90

theorem holds_iff {band : AgeBand} {days : ℤ} : band.Holds days ↔ bandOf days = band := by
  rw [bandOf]
  constructor
  · intro hholds
    cases band with
    | current | to30 | to60 | to90 | over90 =>
      simp only [AgeBand.Holds] at hholds
      split_ifs <;> first | rfl | omega
  · intro hband
    subst hband
    split_ifs <;> simp only [AgeBand.Holds] <;> omega

instance (band : AgeBand) (days : ℤ) : Decidable (band.Holds days) :=
  decidable_of_iff _ holds_iff.symm

/-- The bands divide the days. -/
theorem existsUnique_band (days : ℤ) : ∃! band : AgeBand, band.Holds days :=
  ⟨bandOf days, holds_iff.2 rfl, fun _ hband ↦ (holds_iff.1 hband).symm⟩

def amount (bucket : AgedBucket) : AgeBand → ℤ
  | .current => bucket.currentMinor
  | .to30 => bucket.overdue1To30Minor
  | .to60 => bucket.overdue31To60Minor
  | .to90 => bucket.overdue61To90Minor
  | .over90 => bucket.overdue90PlusMinor

theorem amount_add (bucket : AgedBucket) (days due : ℤ) (band : AgeBand) :
    amount (bucket.add days due) band =
      if bandOf days = band then asI64 (amount bucket band + due) else amount bucket band := by
  rw [AgedBucket.add, bandOf]
  cases band with
  | current | to30 | to60 | to90 | over90 => split_ifs <;> first | rfl | contradiction

theorem total_add (bucket : AgedBucket) (days due : ℤ) :
    (bucket.add days due).totalMinor = asI64 (bucket.totalMinor + due) := by
  rw [AgedBucket.add]
  split_ifs <;> rfl

theorem amount_plus (a b : AgedBucket) (band : AgeBand) :
    amount (a.plus b) band = asI64 (amount a band + amount b band) := by
  cases band <;> rfl

def fiveBuckets (bucket : AgedBucket) : ℤ :=
  bucket.currentMinor + bucket.overdue1To30Minor + bucket.overdue31To60Minor +
    bucket.overdue61To90Minor + bucket.overdue90PlusMinor

end Bands

section Dues

variable {db : Db} {h : Host} {bookId : String} {invoice : Invoice}

def totalOf (db : Db) (invoiceId : String) : ℤ :=
  ((db.invoiceItems.filter fun i ↦ i.invoiceId = invoiceId).map fun i ↦
      i.quantity * i.unitPriceMinor).sum +
    ((db.invoiceItems.filter fun i ↦ i.invoiceId = invoiceId).map fun i ↦
      vatOnNet (i.quantity * i.unitPriceMinor) i.taxRateBps).sum

def paidOf (db : Db) (invoiceId : String) : ℤ :=
  ((db.invoicePayments.filter fun p ↦ p.invoiceId = invoiceId).map InvoicePayment.amountMinor).sum

def dueOf (db : Db) (invoice : Invoice) : ℤ :=
  totalOf db invoice.id - paidOf db invoice.id

/-- Nothing of the amounts of an invoice leaves 64 bits. -/
structure Exact (db : Db) (invoice : Invoice) : Prop where
  lines : ∀ i ∈ db.invoiceItems, i.invoiceId = invoice.id → IsI64 (i.quantity * i.unitPriceMinor)
  paid : ∃ v, invoicePaidMinor db invoice.id = .ok v
  due : IsI64 (dueOf db invoice)

theorem word_foldl_lines (lines : List (ℤ × ℤ × ℤ)) (acc : ℤ × ℤ) :
    let r := lines.foldl (fun (subtotalMinor, taxMinor) (quantity, price, rate) ↦
      (asI64 (subtotalMinor + asI64 (quantity * price)),
        asI64 (taxMinor + vatOnNet (asI64 (quantity * price)) rate))) acc
    word (r.1 + r.2) = word (acc.1 + acc.2 + ((lines.map fun l ↦ asI64 (l.1 * l.2.1)).sum +
      (lines.map fun l ↦ vatOnNet (asI64 (l.1 * l.2.1)) l.2.2).sum)) := by
  induction lines generalizing acc with
  | nil => simp
  | cons line lines ih =>
    have hrest := ih (asI64 (acc.1 + asI64 (line.1 * line.2.1)),
      asI64 (acc.2 + vatOnNet (asI64 (line.1 * line.2.1)) line.2.2))
    rw [List.foldl_cons]
    refine hrest.trans ?_
    simp only [List.map_cons, List.sum_cons, word_add, word_asI64]
    abel

theorem word_lineTotals (lines : List (ℤ × ℤ × ℤ)) :
    word (lineTotals lines).totalMinor =
      word ((lines.map fun l ↦ asI64 (l.1 * l.2.1)).sum +
        (lines.map fun l ↦ vatOnNet (asI64 (l.1 * l.2.1)) l.2.2).sum) := by
  have hlines := word_foldl_lines lines (0, 0)
  rw [add_zero, zero_add] at hlines
  rw [lineTotals]
  exact (word_asI64 _).trans hlines

theorem invoiceTotals_eq (hexact : Exact db invoice) :
    ∃ totals, invoiceTotals db invoice.id = .ok totals ∧ totals.dueMinor = dueOf db invoice := by
  obtain ⟨paid, hpaid⟩ := hexact.paid
  have hpaidSum : paid = paidOf db invoice.id := sqlSum_eq_ok hpaid
  rw [invoiceTotals, hpaid]
  refine ⟨_, rfl, ?_⟩
  apply eq_of_word_eq (isI64_asI64 _) hexact.due
  have hperm : (invoiceItemList db invoice.id).Perm
      (db.invoiceItems.filter fun i ↦ i.invoiceId = invoice.id) := List.perm_insertionSort _ _
  have hlines : ∀ i ∈ db.invoiceItems.filter fun i ↦ i.invoiceId = invoice.id,
      asI64 (i.quantity * i.unitPriceMinor) = i.quantity * i.unitPriceMinor := by
    intro i hi
    obtain ⟨hmem, hid⟩ := List.mem_filter.1 hi
    have hword := hexact.lines i hmem (of_decide_eq_true hid)
    exact asI64_of_mem hword.1 hword.2
  rw [word_asI64, word_sub, word_lineTotals, List.map_map, List.map_map,
    (hperm.map _).sum_eq, (hperm.map _).sum_eq, dueOf, word_sub, hpaidSum, totalOf]
  have hnets : ((db.invoiceItems.filter fun i ↦ i.invoiceId = invoice.id).map
      ((fun l : ℤ × ℤ × ℤ ↦ asI64 (l.1 * l.2.1)) ∘ fun i : InvoiceItem ↦
        (i.quantity, i.unitPriceMinor, i.taxRateBps))) =
      (db.invoiceItems.filter fun i ↦ i.invoiceId = invoice.id).map fun i ↦
        i.quantity * i.unitPriceMinor := List.map_congr_left hlines
  have htaxes : ((db.invoiceItems.filter fun i ↦ i.invoiceId = invoice.id).map
      ((fun l : ℤ × ℤ × ℤ ↦ vatOnNet (asI64 (l.1 * l.2.1)) l.2.2) ∘ fun i : InvoiceItem ↦
        (i.quantity, i.unitPriceMinor, i.taxRateBps))) =
      (db.invoiceItems.filter fun i ↦ i.invoiceId = invoice.id).map fun i ↦
        vatOnNet (i.quantity * i.unitPriceMinor) i.taxRateBps :=
    List.map_congr_left fun i hi ↦ congrArg (fun net ↦ vatOnNet net i.taxRateBps) (hlines i hi)
  rw [hnets, htaxes]

end Dues

section Entries

variable {db : Db} {h : Host} {bookId : String} {asOfDate : Date} {invoice : Invoice}
  {invoices : List Invoice}

def daysPast (h : Host) (asOfDate : Date) (invoice : Invoice) : ℤ :=
  ((h.parseDate invoice.dueDate).map fun dueDate ↦ asOfDate.number - dueDate.number).getD 0

def isOpen (db : Db) (invoice : Invoice) : Bool :=
  0 < dueOf db invoice

def openRow (db : Db) (h : Host) (asOfDate : Date) (invoice : Invoice) : String × AgedBucket :=
  (invoice.contactId, AgedBucket.add {} (daysPast h asOfDate invoice) (dueOf db invoice))

def addToRow (db : Db) (h : Host) (asOfDate : Date) (row : String × AgedBucket)
    (invoice : Invoice) : String × AgedBucket :=
  (row.1, row.2.add (daysPast h asOfDate invoice) (dueOf db invoice))

/-- The amounts and dates that the report reads are all there. -/
structure Readable (h : Host) (db : Db) (invoice : Invoice) : Prop where
  exact : Exact db invoice
  date : (h.parseDate invoice.dueDate).isSome

theorem addToContact_eq (invoice : Invoice) (rows : List (String × AgedBucket)) :
    addToContact invoice.contactId (daysPast h asOfDate invoice) (dueOf db invoice) rows =
      accumulate Prod.fst Invoice.contactId (addToRow db h asOfDate) (openRow db h asOfDate) invoice
        rows := by
  induction rows with
  | nil => rfl
  | cons row rows ih =>
    rw [addToContact, accumulate, ih]
    rfl

theorem ageInvoices_eq (hinvoices : ∀ invoice ∈ invoices, Readable h db invoice)
    (rows : List (String × AgedBucket)) :
    ageInvoices h db asOfDate rows invoices =
      .ok ((invoices.filter (isOpen db)).foldl (fun rows invoice ↦
        accumulate Prod.fst Invoice.contactId (addToRow db h asOfDate) (openRow db h asOfDate)
          invoice rows) rows) := by
  induction invoices generalizing rows with
  | nil => rfl
  | cons invoice invoices ih =>
    rw [List.forall_mem_cons] at hinvoices
    obtain ⟨hreadable, hrest⟩ := hinvoices
    obtain ⟨totals, htotals, hdue⟩ := invoiceTotals_eq hreadable.exact
    obtain ⟨dueDate, hdate⟩ := Option.isSome_iff_exists.1 hreadable.date
    have hparse : parseDate h invoice.dueDate = .ok dueDate := by rw [parseDate, hdate]
    have hdays : asOfDate.number - dueDate.number = daysPast h asOfDate invoice := by
      rw [daysPast, hdate]
      rfl
    rw [ageInvoices, htotals]
    change (if totals.dueMinor ≤ 0 then _ else _) = _
    rw [hdue]
    by_cases hopen : 0 < dueOf db invoice
    · rw [if_neg hopen.not_ge, hparse,
        List.filter_cons_of_pos (by simpa [isOpen] using hopen), List.foldl_cons, ← addToContact_eq,
        ← ih hrest, ← hdays]
      rfl
    · rw [if_pos (not_lt.1 hopen), List.filter_cons_of_neg (by simpa [isOpen] using hopen)]
      exact ih hrest rows

theorem keyed_rows : Keyed Prod.fst Invoice.contactId (addToRow db h asOfDate)
    (openRow db h asOfDate) :=
  ⟨fun _ _ ↦ rfl, fun _ ↦ rfl⟩

def inBand (db : Db) (h : Host) (asOfDate : Date) (band : AgeBand) (invoice : Invoice) : ℤ :=
  if bandOf (daysPast h asOfDate invoice) = band then dueOf db invoice else 0

theorem additive_band (band : AgeBand) :
    Additive (addToRow db h asOfDate) (openRow db h asOfDate) (fun row ↦ word (amount row.2 band))
      fun invoice ↦ word (inBand db h asOfDate band invoice) := by
  have hadd : ∀ (bucket : AgedBucket) (invoice : Invoice),
      word (amount (bucket.add (daysPast h asOfDate invoice) (dueOf db invoice)) band) =
        word (amount bucket band) + word (inBand db h asOfDate band invoice) := by
    intro bucket invoice
    rw [amount_add, inBand]
    split
    · rw [word_asI64, word_add]
    · exact (add_eq_left.2 Int.cast_zero).symm
  refine ⟨fun row invoice ↦ hadd row.2 invoice, fun invoice ↦ ?_⟩
  have hempty : word (amount {} band) = 0 := by
    cases band <;> exact Int.cast_zero
  exact (hadd {} invoice).trans (by rw [hempty, zero_add])

theorem additive_total : Additive (addToRow db h asOfDate) (openRow db h asOfDate)
    (fun row ↦ word row.2.totalMinor) fun invoice ↦ word (dueOf db invoice) := by
  refine ⟨fun row invoice ↦ ?_, fun invoice ↦ ?_⟩
  · rw [addToRow, total_add, word_asI64, word_add]
  · rw [openRow, total_add, word_asI64, word_add]
    exact add_eq_right.2 Int.cast_zero

structure Words (bucket : AgedBucket) : Prop where
  amount : ∀ band, IsI64 (amount bucket band)
  total : IsI64 bucket.totalMinor

theorem words_empty : Words {} :=
  ⟨fun band ↦ by cases band <;> exact ⟨by decide, by decide⟩, by decide, by decide⟩

theorem Words.add {bucket : AgedBucket} (hbucket : Words bucket) (days due : ℤ) :
    Words (bucket.add days due) := by
  refine ⟨fun band ↦ ?_, ?_⟩
  · rw [amount_add]
    split
    · exact isI64_asI64 _
    · exact hbucket.amount band
  · rw [total_add]
    exact isI64_asI64 _

theorem words_plus (a b : AgedBucket) : Words (a.plus b) :=
  ⟨fun band ↦ by rw [amount_plus]; exact isI64_asI64 _, isI64_asI64 _⟩

end Entries

section Partition

variable {db : Db} {h : Host} {bookId asOf : String} {asOfDate : Date}

def openInvoices (db : Db) (bookId : String) : List Invoice :=
  (db.invoices.filter fun i ↦ i.bookId = bookId).filter (isOpen db)

def dueSum (db : Db) (bookId : String) (p : Invoice → Prop) [DecidablePred p] : ℤ :=
  (((openInvoices db bookId).filter fun i ↦ p i).map (dueOf db)).sum

/-- The report reads every invoice of the book, and all that is due fits 64 bits. -/
structure Fits (h : Host) (db : Db) (bookId : String) : Prop where
  readable : ∀ invoice ∈ db.invoices, invoice.bookId = bookId → Readable h db invoice
  grand : dueSum db bookId (fun _ ↦ True) < 2 ^ 63

/-- The report divides the open invoices by contact and age. -/
structure Partitions (h : Host) (db : Db) (bookId : String) (asOfDate : Date)
    (report : AgedReceivables) : Prop where
  contacts : (report.rows.map AgedReceivablesRow.contactId).Nodup
  listed : ∀ id, id ∈ report.rows.map AgedReceivablesRow.contactId ↔
    ∃ invoice ∈ openInvoices db bookId, invoice.contactId = id
  band : ∀ invoice ∈ openInvoices db bookId,
    ∃! band : AgeBand, band.Holds (daysPast h asOfDate invoice)
  buckets : ∀ row ∈ report.rows, ∀ band, amount row.buckets band =
    dueSum db bookId fun i ↦ i.contactId = row.contactId ∧ band.Holds (daysPast h asOfDate i)
  total : ∀ row ∈ report.rows,
    row.buckets.totalMinor = dueSum db bookId fun i ↦ i.contactId = row.contactId
  five : ∀ row ∈ report.rows, fiveBuckets row.buckets = row.buckets.totalMinor
  grand : ∀ band, amount report.totals band =
    dueSum db bookId fun i ↦ band.Holds (daysPast h asOfDate i)
  grandTotal : report.totals.totalMinor = dueSum db bookId fun _ ↦ True
  grandFive : fiveBuckets report.totals = report.totals.totalMinor

theorem of_mem_openInvoices {invoice : Invoice} (hinvoice : invoice ∈ openInvoices db bookId) :
    invoice ∈ db.invoices ∧ invoice.bookId = bookId ∧ 0 < dueOf db invoice := by
  obtain ⟨hmem, hopen⟩ := List.mem_filter.1 hinvoice
  obtain ⟨hmem, hbook⟩ := List.mem_filter.1 hmem
  exact ⟨hmem, of_decide_eq_true hbook, of_decide_eq_true hopen⟩

theorem isI64_dueSum (hfits : Fits h db bookId) (p : Invoice → Prop) [DecidablePred p] :
    IsI64 (dueSum db bookId p) := by
  have hnonneg : ∀ v ∈ (openInvoices db bookId).map (dueOf db), 0 ≤ v :=
    List.forall_mem_map.2 fun _ hi ↦ (of_mem_openInvoices hi).2.2.le
  have hsublist : (((openInvoices db bookId).filter fun i ↦ p i).map (dueOf db)).Sublist
      ((openInvoices db bookId).map (dueOf db)) := List.filter_sublist.map _
  have hle := hsublist.sum_le_sum hnonneg
  have hlow : 0 ≤ dueSum db bookId p :=
    List.sum_nonneg fun v hv ↦ hnonneg v (hsublist.subset hv)
  have hgrand := hfits.grand
  rw [dueSum, List.filter_eq_self.2 fun _ _ ↦ decide_eq_true trivial] at hgrand
  rw [← dueSum] at hle
  exact ⟨by omega, by omega⟩

theorem sum_inBand (band : AgeBand) (l : List Invoice) :
    (l.map (inBand db h asOfDate band)).sum =
      ((l.filter fun i ↦ band.Holds (daysPast h asOfDate i)).map (dueOf db)).sum := by
  rw [← sum_ite_zero]
  refine congrArg List.sum (List.map_congr_left fun i _ ↦ ?_)
  rw [inBand]
  exact if_congr holds_iff.symm rfl rfl

theorem sum_bands (l : List Invoice) :
    (l.map (inBand db h asOfDate .current)).sum + (l.map (inBand db h asOfDate .to30)).sum +
        (l.map (inBand db h asOfDate .to60)).sum + (l.map (inBand db h asOfDate .to90)).sum +
        (l.map (inBand db h asOfDate .over90)).sum = (l.map (dueOf db)).sum := by
  induction l with
  | nil => rfl
  | cons invoice l ih =>
    have hone : inBand db h asOfDate .current invoice + inBand db h asOfDate .to30 invoice +
        inBand db h asOfDate .to60 invoice + inBand db h asOfDate .to90 invoice +
        inBand db h asOfDate .over90 invoice = dueOf db invoice := by
      simp only [inBand]
      cases bandOf (daysPast h asOfDate invoice) <;> simp
    simp only [List.map_cons, List.sum_cons]
    omega

def byContact (h : Host) (db : Db) (bookId : String) (asOfDate : Date) :
    List (String × AgedBucket) :=
  collect Prod.fst Invoice.contactId (addToRow db h asOfDate) (openRow db h asOfDate)
    (((db.invoices.filter fun i ↦ i.bookId = bookId).insertionSort fun a b ↦
      a.dueDate ≤ b.dueDate).filter (isOpen db))

def namedRows (db : Db) (rows : List (String × AgedBucket)) : List AgedReceivablesRow :=
  ((rows.insertionSort fun a b ↦ a.1 ≤ b.1).map fun (contactId, buckets) ↦
    ⟨contactId, contactName db contactId, buckets⟩).insertionSort fun a b ↦
      a.contactName ≤ b.contactName

theorem namedRows_perm (db : Db) (rows : List (String × AgedBucket)) :
    ((namedRows db rows).map fun row ↦ (row.contactId, row.buckets)).Perm rows := by
  have hnamed := (List.perm_insertionSort (fun a b : AgedReceivablesRow ↦
    a.contactName ≤ b.contactName) ((rows.insertionSort fun a b ↦ a.1 ≤ b.1).map fun entry ↦
      ⟨entry.1, contactName db entry.1, entry.2⟩)).map fun row ↦ (row.contactId, row.buckets)
  rw [List.map_map] at hnamed
  refine hnamed.trans (List.Perm.trans (List.Perm.of_eq (List.map_id _)) ?_)
  exact List.perm_insertionSort _ _

theorem of_mem_namedRows {rows : List (String × AgedBucket)} {row : AgedReceivablesRow}
    (hrow : row ∈ namedRows db rows) : (row.contactId, row.buckets) ∈ rows :=
  (namedRows_perm db rows).mem_iff.1 (List.mem_map_of_mem hrow)

theorem ids_namedRows (db : Db) (rows : List (String × AgedBucket)) :
    ((namedRows db rows).map AgedReceivablesRow.contactId).Perm (rows.map Prod.fst) := by
  have hmap := (namedRows_perm db rows).map Prod.fst
  rwa [List.map_map] at hmap

def grandTotals (rows : List (String × AgedBucket)) : AgedBucket :=
  (rows.insertionSort fun a b ↦ a.1 ≤ b.1).foldl (fun totals entry ↦ totals.plus entry.2) {}

theorem grandTotals_eq (rows : List (String × AgedBucket)) :
    Words (grandTotals rows) ∧
      (∀ band, word (amount (grandTotals rows) band) =
        (rows.map fun row ↦ word (amount row.2 band)).sum) ∧
      word (grandTotals rows).totalMinor = (rows.map fun row ↦ word row.2.totalMinor).sum := by
  have hfold : ∀ (rows : List (String × AgedBucket)) (totals : AgedBucket), Words totals →
      Words (rows.foldl (fun totals entry ↦ totals.plus entry.2) totals) ∧
      (∀ band, word (amount (rows.foldl (fun totals entry ↦ totals.plus entry.2) totals) band) =
        word (amount totals band) + (rows.map fun row ↦ word (amount row.2 band)).sum) ∧
      word (rows.foldl (fun totals entry ↦ totals.plus entry.2) totals).totalMinor =
        word totals.totalMinor + (rows.map fun row ↦ word row.2.totalMinor).sum := by
    intro rows
    induction rows with
    | nil => intro totals htotals; simp [htotals]
    | cons row rows ih =>
      intro totals _
      obtain ⟨hwords, hband, htotal⟩ := ih (totals.plus row.2) (words_plus totals row.2)
      rw [List.foldl_cons]
      refine ⟨hwords, fun band ↦ ?_, ?_⟩
      · rw [hband, amount_plus, word_asI64, word_add, List.map_cons, List.sum_cons, add_assoc]
      · rw [htotal, AgedBucket.plus, word_asI64, word_add, List.map_cons, List.sum_cons, add_assoc]
  obtain ⟨hwords, hband, htotal⟩ :=
    hfold (rows.insertionSort fun a b ↦ a.1 ≤ b.1) {} words_empty
  have hsorted := List.perm_insertionSort (fun a b : String × AgedBucket ↦ a.1 ≤ b.1) rows
  refine ⟨hwords, fun band ↦ ?_, ?_⟩
  · have hempty : word (amount {} band) = 0 := by cases band <;> exact Int.cast_zero
    rw [grandTotals, hband, hempty, zero_add, (hsorted.map _).sum_eq]
  · have hempty : word ({} : AgedBucket).totalMinor = 0 := Int.cast_zero
    rw [grandTotals, htotal, hempty, zero_add, (hsorted.map _).sum_eq]

theorem agedReceivables_eq (hasOf : h.parseDate asOf = some asOfDate) (hfits : Fits h db bookId) :
    agedReceivables h db bookId asOf = .ok
      { asOf
        rows := namedRows db (byContact h db bookId asOfDate)
        totals := grandTotals (byContact h db bookId asOfDate) } := by
  have hparse : parseDate h asOf = .ok asOfDate := by rw [parseDate, hasOf]
  have hage : ageInvoices h db asOfDate []
      ((db.invoices.filter fun i ↦ i.bookId = bookId).insertionSort fun a b ↦
        a.dueDate ≤ b.dueDate) = .ok (byContact h db bookId asOfDate) := by
    apply ageInvoices_eq
    intro invoice hinvoice
    obtain ⟨hmem, hbook⟩ := List.mem_filter.1 ((List.mem_insertionSort _).1 hinvoice)
    exact hfits.readable invoice hmem (of_decide_eq_true hbook)
  rw [agedReceivables]
  dsimp only
  rw [hparse]
  change (ageInvoices h db asOfDate [] _ >>= _) = _
  rw [hage]
  rfl

theorem byContact_perm_open (db : Db) (bookId : String) :
    (((db.invoices.filter fun i ↦ i.bookId = bookId).insertionSort fun a b ↦
      a.dueDate ≤ b.dueDate).filter (isOpen db)).Perm (openInvoices db bookId) :=
  (List.perm_insertionSort _ _).filter _

theorem words_of_mem_byContact {row : String × AgedBucket}
    (hrow : row ∈ byContact h db bookId asOfDate) : Words row.2 := by
  revert row
  apply mem_collect_induction
  · exact fun _ _ ↦ words_empty.add _ _
  · exact fun _ hrow _ _ _ ↦ hrow.add _ _

theorem dueSum_and (p q : Invoice → Prop) [DecidablePred p] [DecidablePred q] :
    dueSum db bookId (fun i ↦ p i ∧ q i) =
      ((((openInvoices db bookId).filter fun i ↦ p i).filter fun i ↦ q i).map (dueOf db)).sum := by
  rw [dueSum, List.filter_filter]
  refine congrArg (fun l ↦ (List.map (dueOf db) l).sum) (List.filter_congr fun i _ ↦ ?_)
  rw [Bool.and_comm, Bool.decide_and]

theorem of_mem_byContact (hfits : Fits h db bookId) {row : String × AgedBucket}
    (hrow : row ∈ byContact h db bookId asOfDate) :
    (∀ band, amount row.2 band =
      dueSum db bookId fun i ↦ i.contactId = row.1 ∧ band.Holds (daysPast h asOfDate i)) ∧
    row.2.totalMinor = dueSum db bookId fun i ↦ i.contactId = row.1 := by
  have hwords := words_of_mem_byContact hrow
  constructor
  · intro band
    apply eq_of_word_eq (hwords.amount band) (isI64_dueSum hfits _)
    have hvalue := value_of_mem_collect keyed_rows (additive_band band) hrow
    rw [word_groupSum, groupSum_perm (byContact_perm_open db bookId), groupSum,
      sum_inBand] at hvalue
    rw [hvalue, dueSum_and]
  · apply eq_of_word_eq hwords.total (isI64_dueSum hfits _)
    have hvalue := value_of_mem_collect keyed_rows additive_total hrow
    rwa [word_groupSum, groupSum_perm (byContact_perm_open db bookId), groupSum] at hvalue

theorem keys_byContact (h : Host) (db : Db) (bookId : String) (asOfDate : Date) :
    ((byContact h db bookId asOfDate).map Prod.fst).Nodup ∧
      ∀ id, id ∈ (byContact h db bookId asOfDate).map Prod.fst ↔
        ∃ invoice ∈ openInvoices db bookId, invoice.contactId = id := by
  obtain ⟨hnodup, hmem⟩ := keys_collect keyed_rows
    (((db.invoices.filter fun i ↦ i.bookId = bookId).insertionSort fun a b ↦
      a.dueDate ≤ b.dueDate).filter (isOpen db))
  refine ⟨hnodup, fun id ↦ (hmem id).trans ?_⟩
  rw [((byContact_perm_open db bookId).map _).mem_iff, List.mem_map]

theorem fiveBuckets_eq {bucket : AgedBucket} {l : List Invoice}
    (hbucket : ∀ band, amount bucket band =
      ((l.filter fun i ↦ band.Holds (daysPast h asOfDate i)).map (dueOf db)).sum) :
    fiveBuckets bucket = (l.map (dueOf db)).sum := by
  have hcurrent := hbucket .current
  have hto30 := hbucket .to30
  have hto60 := hbucket .to60
  have hto90 := hbucket .to90
  have hover90 := hbucket .over90
  rw [← sum_inBand] at hcurrent hto30 hto60 hto90 hover90
  simp only [amount] at hcurrent hto30 hto60 hto90 hover90
  rw [fiveBuckets, hcurrent, hto30, hto60, hto90, hover90, sum_bands]

theorem fiveBuckets_of_mem_byContact (hfits : Fits h db bookId) {row : String × AgedBucket}
    (hrow : row ∈ byContact h db bookId asOfDate) : fiveBuckets row.2 = row.2.totalMinor := by
  obtain ⟨hbuckets, htotal⟩ := of_mem_byContact hfits hrow
  rw [htotal, dueSum]
  exact fiveBuckets_eq fun band ↦ (hbuckets band).trans (dueSum_and _ _)

theorem dueSum_true :
    dueSum db bookId (fun _ ↦ True) = ((openInvoices db bookId).map (dueOf db)).sum := by
  rw [dueSum, List.filter_eq_self.2 fun _ _ ↦ decide_eq_true trivial]

/-- Every open invoice is counted once, in the bucket of its age under its contact, and the buckets
add up to the totals. -/
theorem agedReceivables_partitions (hasOf : h.parseDate asOf = some asOfDate)
    (hfits : Fits h db bookId) :
    ∃ report, agedReceivables h db bookId asOf = .ok report ∧ report.asOf = asOf ∧
      Partitions h db bookId asOfDate report := by
  refine ⟨_, agedReceivables_eq hasOf hfits, rfl, ?_⟩
  obtain ⟨hnodup, hlisted⟩ := keys_byContact h db bookId asOfDate
  have hids := ids_namedRows db (byContact h db bookId asOfDate)
  obtain ⟨hwords, hband, htotal⟩ := grandTotals_eq (byContact h db bookId asOfDate)
  have hgrand : ∀ band, amount (grandTotals (byContact h db bookId asOfDate)) band =
      dueSum db bookId fun i ↦ band.Holds (daysPast h asOfDate i) := by
    intro band
    apply eq_of_word_eq (hwords.amount band) (isI64_dueSum hfits _)
    rw [hband, byContact, sum_collect (additive_band band), ← word_sum,
      ((byContact_perm_open db bookId).map _).sum_eq, sum_inBand, dueSum]
  have hgrandTotal : (grandTotals (byContact h db bookId asOfDate)).totalMinor =
      dueSum db bookId fun _ ↦ True := by
    apply eq_of_word_eq hwords.total (isI64_dueSum hfits _)
    rw [htotal, byContact, sum_collect additive_total, ← word_sum,
      ((byContact_perm_open db bookId).map _).sum_eq, dueSum_true]
  refine ⟨hids.nodup_iff.2 hnodup, fun id ↦ ?_, fun _ _ ↦ existsUnique_band _, fun row hrow ↦ ?_,
    fun row hrow ↦ ?_, fun row hrow ↦ ?_, hgrand, hgrandTotal, ?_⟩
  · rw [hids.mem_iff, hlisted]
  · exact (of_mem_byContact hfits (of_mem_namedRows hrow)).1
  · exact (of_mem_byContact hfits (of_mem_namedRows hrow)).2
  · exact fiveBuckets_of_mem_byContact hfits (of_mem_namedRows hrow)
  · rw [hgrandTotal, dueSum_true]
    exact fiveBuckets_eq fun band ↦ hgrand band

theorem fits_of (hlines : ∀ i ∈ db.invoiceItems, IsI64 (i.quantity * i.unitPriceMinor))
    (hinvoices : ∀ invoice ∈ db.invoices, (invoicePaidMinor db invoice.id).isOk ∧
      IsI64 (dueOf db invoice) ∧ (h.parseDate invoice.dueDate).isSome)
    (hgrand : dueSum db bookId (fun _ ↦ True) < 2 ^ 63) : Fits h db bookId := by
  refine ⟨fun invoice hinvoice _ ↦ ?_, hgrand⟩
  obtain ⟨hpaid, hdue, hdate⟩ := hinvoices invoice hinvoice
  have hsum : ∃ v, invoicePaidMinor db invoice.id = .ok v := by
    cases hresult : invoicePaidMinor db invoice.id with
    | error fault => rw [hresult] at hpaid; cases hpaid
    | ok v => exact ⟨v, rfl⟩
  exact ⟨⟨fun i hi _ ↦ hlines i hi, hsum, hdue⟩, hdate⟩

def customers : Db where
  contacts := [⟨"a", "book", "Beta"⟩, ⟨"b", "book", "Alpha"⟩]
  invoices :=
    [⟨"1", "book", "a", none, "INV", 1, "2024-01-15", "2024-02-29", "ZAR", none⟩,
      ⟨"2", "book", "a", none, "INV", 2, "2024-01-15", "2024-02-28", "ZAR", none⟩,
      ⟨"3", "book", "b", none, "INV", 3, "2024-01-15", "2024-03-30", "ZAR", none⟩,
      ⟨"4", "book", "b", none, "INV", 4, "2024-01-15", "2024-01-31", "ZAR", none⟩]
  invoiceItems :=
    [⟨"1", "1", "book", none, "Line", 2, 5000, 1500, 0⟩,
      ⟨"2", "2", "book", none, "Line", 1, 7000, 0, 0⟩,
      ⟨"3", "3", "book", none, "Line", 1, 900, 0, 0⟩,
      ⟨"4", "4", "book", none, "Line", 1, 100, 0, 0⟩]
  invoicePayments :=
    [⟨"1", "1", "book", 1500, "2024-03-01", none, none⟩,
      ⟨"2", "4", "book", 100, "2024-03-01", none, none⟩]

theorem agedReceivables_partitions_of_customers :
    ∃ report, agedReceivables plainHost customers "book" "2024-03-30" = .ok report ∧
      report.asOf = "2024-03-30" ∧
      Partitions plainHost customers "book" ⟨2024, 3, 30, by decide, by decide, by decide⟩
        report := by
  apply agedReceivables_partitions (by decide)
  apply fits_of <;> decide

end Partition

end SlipScan.Documents.Ageing
