import SlipScan.Arithmetic.Words
import SlipScan.Ledger.Amounts
import SlipScan.Ledger.Reversal
import SlipScan.Ledger.TaxStability

namespace SlipScan.Ledger.TaxRows

open Model.Domain Model.Database Model.Ledger Model.Money Model.Region Model.Reports Model.Slip
  Model.Service Model.PlainHost Foundation.Transaction Foundation.Table Foundation.Chain
  Foundation.Grouping Foundation.Accumulation Arithmetic.Vat Arithmetic.Words Posting Steps Runs
  Lines Consistency Soundness Amounts Reversal TaxStability

variable {h : Host} {parseSlip : String → Except Fault SlipPayload} {s : Db}
  {bookId fromDate toDate currency : String} {lines : List JournalLine}

section Slices

/-- Output amounts are natural credits, input amounts natural debits. -/
def signedAmount (role : VatRole) (debit credit : ℤ) : ℤ :=
  match role with
  | .outputVat | .outputBase => credit - debit
  | .inputVat | .inputBase => debit - credit

theorem asI64_signedAmount {debit credit : ℤ} (hdebit : 0 ≤ debit) (hdebit' : debit < 2 ^ 63)
    (hcredit : 0 ≤ credit) (hcredit' : credit < 2 ^ 63) (role : VatRole) :
    asI64 (signedAmount role debit credit) = signedAmount role debit credit := by
  cases role <;> exact asI64_of_mem (by simp only [signedAmount]; omega)
    (by simp only [signedAmount]; omega)

def sliceAmount (slice : TaxSlice) : ℤ :=
  signedAmount slice.role slice.debitMinor slice.creditMinor

def sliceKey (slice : TaxSlice) : Option String × VatRole :=
  (slice.vatRateId, slice.role)

def roleSum (lines : List JournalLine) (vatRateId : Option String) (role : VatRole) : ℤ :=
  groupSum (fun l : JournalLine ↦ (l.vatRateId, l.vatRole))
    (fun l ↦ signedAmount role l.debitMinor l.creditMinor) lines (vatRateId, some role)

theorem sum_signedAmount (role : VatRole) (l : List JournalLine) :
    (l.map fun l ↦ signedAmount role l.debitMinor l.creditMinor).sum =
      signedAmount role (l.map JournalLine.debitMinor).sum (l.map JournalLine.creditMinor).sum := by
  cases role <;> exact sum_map_sub _ _ _

theorem roleSum_eq (lines : List JournalLine) (vatRateId : Option String) (role : VatRole) :
    roleSum lines vatRateId role = signedAmount role
      ((lines.filter fun l ↦ l.vatRateId = vatRateId ∧ l.vatRole = some role).map
        JournalLine.debitMinor).sum
      ((lines.filter fun l ↦ l.vatRateId = vatRateId ∧ l.vatRole = some role).map
        JournalLine.creditMinor).sum := by
  rw [roleSum, groupSum, sum_signedAmount]
  simp only [Prod.mk.injEq]

/-- A slice of the return. -/
structure SliceOf (s : Db) (lines : List JournalLine) (group : Option String × VatRole)
    (slice : TaxSlice) : Prop where
  key : sliceKey slice = group
  amount : sliceAmount slice = roleSum lines group.1 group.2
  code : slice.code = ((group.1.bind (lookup VatRate.id s.vatRates)).map VatRate.code).getD ""
  rateBps : slice.rateBps =
    ((group.1.bind (lookup VatRate.id s.vatRates)).map VatRate.rateBps).getD 0
  exact : asI64 (roleSum lines group.1 group.2) = roleSum lines group.1 group.2

def Nonneg (lines : List JournalLine) : Prop :=
  ∀ l ∈ lines, 0 ≤ l.debitMinor ∧ 0 ≤ l.creditMinor

theorem taxSlice_eq_ok (hlines : Nonneg lines) {group : Option String × VatRole}
    {slice : TaxSlice} (hslice : taxSlice s lines group.1 group.2 = .ok slice) :
    SliceOf s lines group slice := by
  simp only [taxSlice, except_bind_eq_ok, except_pure_eq_ok] at hslice
  obtain ⟨_, hdebit, _, hcredit, rfl⟩ := hslice
  have hd := sqlSum_mem hdebit
  have hc := sqlSum_mem hcredit
  rw [sqlSum_eq_ok hdebit] at hd ⊢
  rw [sqlSum_eq_ok hcredit] at hc ⊢
  refine ⟨rfl, (roleSum_eq _ _ _).symm, rfl, rfl, ?_⟩
  have hd₀ : 0 ≤ ((lines.filter fun l ↦ l.vatRateId = group.1 ∧ l.vatRole = some group.2).map
      JournalLine.debitMinor).sum :=
    List.sum_nonneg (List.forall_mem_map.2 fun l hl ↦ (hlines l (List.mem_filter.1 hl).1).1)
  have hc₀ : 0 ≤ ((lines.filter fun l ↦ l.vatRateId = group.1 ∧ l.vatRole = some group.2).map
      JournalLine.creditMinor).sum :=
    List.sum_nonneg (List.forall_mem_map.2 fun l hl ↦ (hlines l (List.mem_filter.1 hl).1).2)
  rw [roleSum_eq]
  exact asI64_signedAmount hd₀ hd.2 hc₀ hc.2 group.2

theorem taxGroups_nodup (lines : List JournalLine) : (taxGroups lines).Nodup :=
  (List.perm_insertionSort _ _).nodup_iff.2 (List.nodup_dedup _)

/-- The slices are one for each rate and role that occurs. -/
theorem taxSlices_eq_ok (hlines : Nonneg lines) {slices : List TaxSlice}
    (hslices : taxSlices s lines = .ok slices) :
    ∃ slices', slices.Perm slices' ∧
      List.Forall₂ (SliceOf s lines) (taxGroups lines) slices' := by
  simp only [taxSlices, except_bind_eq_ok, except_pure_eq_ok] at hslices
  obtain ⟨slices', hslices', rfl⟩ := hslices
  exact ⟨slices', List.perm_insertionSort _ _,
    (except_mapM_eq_ok.1 hslices').imp fun _ _ ↦ taxSlice_eq_ok hlines⟩

theorem roleSum_of_not_mem {group : Option String × VatRole} (hgroup : group ∉ taxGroups lines) :
    roleSum lines group.1 group.2 = 0 := by
  refine groupSum_eq_zero fun l hl heq ↦ hgroup (mem_taxGroups.2 ⟨l, hl, ?_⟩)
  exact ⟨congrArg Prod.fst heq, congrArg Prod.snd heq⟩

theorem groupSum_slices {slices slices' : List TaxSlice} (hperm : slices.Perm slices')
    (hslices : List.Forall₂ (SliceOf s lines) (taxGroups lines) slices')
    (group : Option String × VatRole) :
    groupSum sliceKey sliceAmount slices group = roleSum lines group.1 group.2 := by
  rw [groupSum_perm hperm]
  refine groupSum_of_forall₂ (g := fun group ↦ roleSum lines group.1 group.2)
    (taxGroups_nodup lines) (fun _ ↦ roleSum_of_not_mem) (hslices.imp fun _ _ hslice ↦ ?_) group
  exact ⟨hslice.key, hslice.amount⟩

end Slices

section Rows

def rowAmount (row : TaxSummaryRow) : VatRole → ℤ
  | .outputVat => row.outputVatMinor
  | .outputBase => row.outputBaseMinor
  | .inputVat => row.inputVatMinor
  | .inputBase => row.inputBaseMinor

theorem rowAmount_addSlice (row : TaxSummaryRow) (slice : TaxSlice) (role : VatRole) :
    rowAmount (addSlice row slice) role =
      if slice.role = role then asI64 (rowAmount row role + sliceAmount slice)
      else rowAmount row role := by
  rw [addSlice, sliceAmount]
  cases slice.role <;> cases role <;> rfl

theorem addSlice_head (row : TaxSummaryRow) (slice : TaxSlice) :
    (addSlice row slice).vatRateId = row.vatRateId ∧ (addSlice row slice).code = row.code ∧
      (addSlice row slice).rateBps = row.rateBps := by
  rw [addSlice]
  cases slice.role <;> exact ⟨rfl, rfl, rfl⟩

def openRow (slice : TaxSlice) : TaxSummaryRow :=
  ⟨slice.vatRateId, slice.code, slice.name, slice.rateBps, 0, 0, 0, 0⟩

theorem addToRows_eq (slice : TaxSlice) (rows : List TaxSummaryRow) :
    addToRows slice rows = accumulate TaxSummaryRow.vatRateId TaxSlice.vatRateId addSlice
      (fun slice ↦ addSlice (openRow slice) slice) slice rows := by
  induction rows with
  | nil => rfl
  | cons row rows ih => rw [addToRows, accumulate, ih]

def rowsOf (slices : List TaxSlice) : List TaxSummaryRow :=
  collect TaxSummaryRow.vatRateId TaxSlice.vatRateId addSlice
    (fun slice ↦ addSlice (openRow slice) slice) slices

theorem foldl_addToRows (slices : List TaxSlice) :
    slices.foldl (fun rows slice ↦ addToRows slice rows) [] = rowsOf slices := by
  simp only [addToRows_eq]
  rfl

theorem keyed_addSlice : Keyed TaxSummaryRow.vatRateId TaxSlice.vatRateId addSlice
    fun slice ↦ addSlice (openRow slice) slice where
  add row slice := (addSlice_head row slice).1
  fresh slice := (addSlice_head (openRow slice) slice).1

theorem word_addSlice (row : TaxSummaryRow) (slice : TaxSlice) (role : VatRole) :
    word (rowAmount (addSlice row slice) role) = word (rowAmount row role) +
      word (if slice.role = role then sliceAmount slice else 0) := by
  rw [rowAmount_addSlice]
  split
  · rw [word_asI64, word_add]
  · exact (add_zero _).symm

theorem additive_rowAmount (role : VatRole) :
    Additive addSlice (fun slice ↦ addSlice (openRow slice) slice)
      (fun row ↦ word (rowAmount row role))
      fun slice ↦ word (if slice.role = role then sliceAmount slice else 0) where
  add row slice := word_addSlice row slice role
  fresh slice := by
    have hopen : rowAmount (openRow slice) role = 0 := by cases role <;> rfl
    rw [word_addSlice, hopen]
    exact zero_add _

/-- The slices of a rate come with their roles. -/
theorem groupSum_role (slices : List TaxSlice) (id : Option String) (role : VatRole) :
    groupSum TaxSlice.vatRateId (fun slice ↦ if slice.role = role then sliceAmount slice else 0)
      slices id = groupSum sliceKey sliceAmount slices (id, role) := by
  induction slices with
  | nil => rfl
  | cons slice slices ih =>
    rw [groupSum_cons, groupSum_cons, ih, sliceKey]
    by_cases hid : id = slice.vatRateId
    · by_cases hrole : slice.role = role
      · simp [hid, hrole]
      · simp [hid, hrole, Ne.symm hrole]
    · simp [hid]

theorem isI64_rowAmount {slices : List TaxSlice} (role : VatRole) :
    ∀ row ∈ rowsOf slices, IsI64 (rowAmount row role) := by
  have hadd : ∀ row slice, IsI64 (rowAmount row role) →
      IsI64 (rowAmount (addSlice row slice) role) := by
    intro row slice hrow
    rw [rowAmount_addSlice]
    split
    · exact isI64_asI64 _
    · exact hrow
  refine mem_collect_induction (fun slice _ ↦ hadd _ slice ?_) fun row hrow slice _ _ ↦
    hadd row slice hrow
  have hopen : rowAmount (openRow slice) role = 0 := by cases role <;> rfl
  rw [hopen]
  decide

/-- The rows of some slices: one for each rate, with the sums of its slices. -/
structure RowsOf (slices : List TaxSlice) (rows : List TaxSummaryRow) : Prop where
  keys : (rows.map TaxSummaryRow.vatRateId).Nodup
  mem : ∀ id, id ∈ rows.map TaxSummaryRow.vatRateId ↔ id ∈ slices.map TaxSlice.vatRateId
  amount : ∀ row ∈ rows, ∀ role,
    rowAmount row role = asI64 (groupSum sliceKey sliceAmount slices (row.vatRateId, role))
  head : ∀ row ∈ rows, ∃ slice ∈ slices, slice.vatRateId = row.vatRateId ∧
    slice.code = row.code ∧ slice.rateBps = row.rateBps

theorem rowsOf_foldl (slices : List TaxSlice) :
    RowsOf slices (slices.foldl (fun rows slice ↦ addToRows slice rows) []) := by
  rw [foldl_addToRows]
  refine ⟨(keys_collect keyed_addSlice slices).1, (keys_collect keyed_addSlice slices).2,
    fun row hrow role ↦ ?_, ?_⟩
  · apply eq_of_word_eq (isI64_rowAmount role row hrow) (isI64_asI64 _)
    have hvalue := value_of_mem_collect keyed_addSlice (additive_rowAmount role) hrow
    rw [word_groupSum, groupSum_role] at hvalue
    rw [word_asI64]
    exact hvalue
  · refine mem_collect_induction (fun slice hslice ↦ ?_) fun row hrow slice _ _ ↦ ?_
    · obtain ⟨hid, hcode, hbps⟩ := addSlice_head (openRow slice) slice
      exact ⟨slice, hslice, hid.symm, hcode.symm, hbps.symm⟩
    · obtain ⟨slice', hslice', hhead⟩ := hrow
      obtain ⟨hid, hcode, hbps⟩ := addSlice_head row slice
      exact ⟨slice', hslice', hid ▸ hcode ▸ hbps ▸ hhead⟩

end Rows

section Summary

theorem nonneg_taxLines (hs : Sound s) (hcons : Consistent s) :
    Nonneg (taxLines s bookId fromDate toDate currency) := by
  intro l hl
  obtain ⟨j, hj, hid, -⟩ := hcons.lines l (List.mem_filter.1 hl).1
  have hsides := (hs.journals j hj).sides l
    (mem_linesForJournal.2 ⟨(List.mem_filter.1 hl).1, hid.symm⟩)
  omega

theorem vatRole_of_mem {l : JournalLine}
    (hl : l ∈ taxLines s bookId fromDate toDate currency) : ∃ role, l.vatRole = some role := by
  have hmem := (List.mem_filter.1 hl).2
  simp only [decide_eq_true_eq] at hmem
  exact Option.ne_none_iff_exists'.1 hmem.2.1

def rateCode (s : Db) (vatRateId : Option String) : String :=
  ((vatRateId.bind (lookup VatRate.id s.vatRates)).map VatRate.code).getD ""

def rateBpsOf (s : Db) (vatRateId : Option String) : ℤ :=
  ((vatRateId.bind (lookup VatRate.id s.vatRates)).map VatRate.rateBps).getD 0

structure SummaryOf (s : Db) (lines : List JournalLine) (profile : RegionProfile)
    (r : TaxPeriodSummary) : Prop where
  keys : (r.rows.map TaxSummaryRow.vatRateId).Nodup
  mem : ∀ id, id ∈ r.rows.map TaxSummaryRow.vatRateId ↔ ∃ l ∈ lines, l.vatRateId = id
  amount : ∀ row ∈ r.rows, ∀ role, rowAmount row role = roleSum lines row.vatRateId role
  code : ∀ row ∈ r.rows, row.code = rateCode s row.vatRateId
  rateBps : ∀ row ∈ r.rows, row.rateBps = rateBpsOf s row.vatRateId
  standard : r.standardRatedSuppliesMinor = outputBaseOf r.rows fun r ↦ r.rateBps > 0
  zero : r.zeroRatedSuppliesMinor = outputBaseOf r.rows fun r ↦
    r.rateBps = 0 && !profile.isExemptCode r.code
  exempt : r.exemptSuppliesMinor = outputBaseOf r.rows fun r ↦ profile.isExemptCode r.code
  outputVat : r.outputVatMinor = asI64 (r.rows.map TaxSummaryRow.outputVatMinor).sum
  inputVat : r.inputVatMinor = asI64 (r.rows.map TaxSummaryRow.inputVatMinor).sum
  netVat : r.netVatMinor = asI64 (r.outputVatMinor - r.inputVatMinor)

theorem summaryOf_rows (hlines : Nonneg lines) (hroles : ∀ l ∈ lines, ∃ role, l.vatRole = some role)
    {slices : List TaxSlice} (hslices : taxSlices s lines = .ok slices) :
    RowsOf slices (slices.foldl (fun rows slice ↦ addToRows slice rows) []) ∧
      (∀ id, id ∈ slices.map TaxSlice.vatRateId ↔ ∃ l ∈ lines, l.vatRateId = id) ∧
      (∀ group, asI64 (groupSum sliceKey sliceAmount slices group) =
        roleSum lines group.1 group.2) ∧
      ∀ slice ∈ slices, slice.code = rateCode s slice.vatRateId ∧
        slice.rateBps = rateBpsOf s slice.vatRateId := by
  obtain ⟨slices', hperm, hof⟩ := taxSlices_eq_ok hlines hslices
  refine ⟨rowsOf_foldl slices, fun id ↦ ?_, fun group ↦ ?_, fun slice hslice ↦ ?_⟩
  · rw [(hperm.map _).mem_iff, List.mem_map]
    constructor
    · rintro ⟨slice, hslice, rfl⟩
      obtain ⟨group, hgroup, hsliceOf⟩ := mem_of_forall₂_left hof.flip hslice
      obtain ⟨l, hl, hid, -⟩ := mem_taxGroups.1 hgroup
      exact ⟨l, hl, hid.trans (congrArg Prod.fst hsliceOf.key).symm⟩
    · rintro ⟨l, hl, rfl⟩
      obtain ⟨role, hrole⟩ := hroles l hl
      obtain ⟨slice, hslice, hsliceOf⟩ := mem_of_forall₂_left hof
        (mem_taxGroups.2 ⟨l, hl, rfl, hrole⟩ : (l.vatRateId, role) ∈ taxGroups lines)
      exact ⟨slice, hslice, congrArg Prod.fst hsliceOf.key⟩
  · rw [groupSum_slices hperm hof]
    by_cases hgroup : group ∈ taxGroups lines
    · obtain ⟨_, -, hsliceOf⟩ := mem_of_forall₂_left hof hgroup
      exact hsliceOf.exact
    · rw [roleSum_of_not_mem hgroup, asI64_zero]
  · obtain ⟨group, -, hsliceOf⟩ := mem_of_forall₂_left hof.flip (hperm.mem_iff.1 hslice)
    obtain rfl := hsliceOf.key
    exact ⟨hsliceOf.code, hsliceOf.rateBps⟩

theorem taxPeriodSummary_eq_ok (hs : Sound s) (hcons : Consistent s) {profile : RegionProfile}
    {r : TaxPeriodSummary}
    (hr : taxPeriodSummary s bookId fromDate toDate currency profile = .ok r) :
    SummaryOf s (taxLines s bookId fromDate toDate currency) profile r := by
  simp only [taxPeriodSummary, except_bind_eq_ok, except_pure_eq_ok] at hr
  obtain ⟨slices, hslices, rfl⟩ := hr
  obtain ⟨hrows, hmem, hsums, hheads⟩ :=
    summaryOf_rows (nonneg_taxLines hs hcons) (fun _ ↦ vatRole_of_mem) hslices
  refine ⟨hrows.keys, fun id ↦ (hrows.mem id).trans (hmem id), fun row hrow role ↦ ?_,
    fun row hrow ↦ ?_, fun row hrow ↦ ?_, rfl, rfl, rfl, sumI64_eq _, sumI64_eq _, rfl⟩
  · rw [hrows.amount row hrow, hsums]
  · obtain ⟨slice, hslice, hid, hcode, -⟩ := hrows.head row hrow
    rw [← hcode, ← hid, (hheads slice hslice).1]
  · obtain ⟨slice, hslice, hid, -, hbps⟩ := hrows.head row hrow
    rw [← hbps, ← hid, (hheads slice hslice).2]

def roleTotal (lines : List JournalLine) (role : VatRole) : ℤ :=
  groupSum JournalLine.vatRole (fun l ↦ signedAmount role l.debitMinor l.creditMinor) lines
    (some role)

theorem SummaryOf.total {profile : RegionProfile} {r : TaxPeriodSummary}
    (hof : SummaryOf s lines profile r) (role : VatRole) :
    (r.rows.map fun row ↦ rowAmount row role).sum = roleTotal lines role := by
  have hmem : ∀ l ∈ lines.filter (fun l ↦ l.vatRole = some role),
      l.vatRateId ∈ r.rows.map TaxSummaryRow.vatRateId := fun l hl ↦
    (hof.mem _).2 ⟨l, (List.mem_filter.1 hl).1, rfl⟩
  rw [roleTotal, groupSum, ← sum_groupSum JournalLine.vatRateId _ hof.keys hmem, List.map_map]
  refine congrArg List.sum (List.map_congr_left fun row hrow ↦ ?_)
  rw [hof.amount row hrow, roleSum, groupSum, Function.comp_apply, groupSum, List.filter_filter]
  simp only [Prod.mk.injEq, Bool.decide_and]

end Summary

section Reversals

variable {κ : Type} [DecidableEq κ]

def without (lines : List JournalLine) (ids : List String) : List JournalLine :=
  lines.filter fun l ↦ l.journalId ∉ ids

theorem groupSum_without (key : JournalLine → κ) (f : JournalLine → ℤ) {ids : List String}
    (hids : ids.Nodup) (lines : List JournalLine) (g : κ) :
    groupSum key f lines g = groupSum key f (without lines ids) g +
      (ids.map fun id ↦ groupSum key f (lines.filter fun l ↦ l.journalId = id) g).sum := by
  rw [groupSum, sum_without JournalLine.journalId f hids, groupSum, without, List.filter_filter,
    List.filter_filter]
  congr 3
  · exact List.filter_congr fun l _ ↦ Bool.and_comm _ _
  · funext id
    rw [groupSum, groupSum, List.filter_filter, List.filter_filter]
    exact congrArg (fun l ↦ (List.map f l).sum) (List.filter_congr fun l _ ↦ Bool.and_comm _ _)

structure Within (bookId fromDate toDate : String) (j : Journal) : Prop where
  book : j.bookId = bookId
  range : fromDate ≤ j.postedDate ∧ j.postedDate ≤ toDate

/-- What a journal of the range adds to a group of tagged lines, it adds with all its lines. -/
theorem groupSum_of_within (hcons : Consistent s) {j : Journal} (hj : j ∈ s.journals)
    (hwithin : Within bookId fromDate toDate j) {key : JournalLine → κ} {g : κ}
    (hg : ∀ l, key l = g → l.vatRole ≠ none) (f : JournalLine → ℤ) :
    groupSum key f ((taxLines s bookId fromDate toDate currency).filter fun l ↦
        l.journalId = j.id) g =
      groupSum (fun l ↦ (l.currency, key l)) f (linesForJournal s j.id) (currency, g) := by
  rw [linesForJournal, groupSum_perm (List.perm_insertionSort _ _), groupSum, groupSum, taxLines,
    List.filter_filter, List.filter_filter, List.filter_filter]
  refine congrArg (fun l ↦ (List.map f l).sum) (List.filter_congr fun l hl ↦ ?_)
  obtain ⟨j', hj', hid, hbook⟩ := hcons.lines l hl
  by_cases hjl : l.journalId = j.id ∧ key l = g
  · obtain rfl := hcons.linked.eq_of_key j' hj' j hj (hid.trans hjl.1)
    have hown : ∃ k ∈ s.journals, k.id = j'.id ∧ fromDate ≤ k.postedDate ∧
        k.postedDate ≤ toDate := ⟨j', hj', rfl, hwithin.range⟩
    simp [hjl, hg l hjl.2, hown, ← hbook, hwithin.book]
  · rw [Bool.eq_iff_iff]
    simp only [Bool.and_eq_true, decide_eq_true_eq, Prod.mk.injEq]
    constructor
    · rintro ⟨⟨hkey, hid⟩, -⟩
      exact absurd ⟨hid, hkey⟩ hjl
    · rintro ⟨⟨-, hkey⟩, hid⟩
      exact absurd ⟨hid, hkey⟩ hjl

theorem book_of_reversal (hs : Sound s) (hswapped : Swapped s) {j r : Journal}
    (hj : j ∈ s.journals) (hr : r ∈ s.journals) (hrev : findReversal s j.id = some r.id) :
    r.bookId = j.bookId := by
  have hlines := hswapped _ _ hrev
  obtain ⟨l, hl⟩ := List.exists_mem_of_length_pos
    (lt_of_lt_of_le Nat.two_pos (hs.journals r hr).count)
  obtain ⟨l', hl', hsame⟩ := List.mem_map.1 (hlines ▸ List.mem_map_of_mem hl)
  obtain ⟨a, ha, hbook⟩ := (hs.journals r hr).accounts l hl
  obtain ⟨a', ha', hbook'⟩ := (hs.journals j hj).accounts l' hl'
  have hcoa : l'.coaId = l.coaId := congrArg NewJournalLine.coaId hsame
  rw [hcoa, ha] at ha'
  rw [← hbook, ← hbook', Option.some.inj ha']

theorem signedAmount_neg (role : VatRole) {debit credit debit' credit' : ℤ}
    (hneg : debit' - credit' = -(debit - credit)) :
    signedAmount role debit' credit' = -signedAmount role debit credit := by
  cases role <;> simp only [signedAmount] <;> omega

theorem groupSum_signed (key : JournalLine → κ) (role : VatRole) (l : List JournalLine) (g : κ) :
    groupSum key (fun l ↦ signedAmount role l.debitMinor l.creditMinor) l g =
      signedAmount role (groupSum key JournalLine.debitMinor l g)
        (groupSum key JournalLine.creditMinor l g) :=
  sum_signedAmount role _

theorem groupSum_reversal (hswapped : Swapped s) {k r : String} (hr : findReversal s k = some r)
    {key : JournalLine → κ} (key' : NewJournalLine → κ) (hcontent : ∀ l, key' (content l) = key l)
    (hswap : ∀ l, key' (swapLine l) = key l) (role : VatRole) (g : κ) :
    groupSum key (fun l ↦ signedAmount role l.debitMinor l.creditMinor) (linesForJournal s r) g =
      -groupSum key (fun l ↦ signedAmount role l.debitMinor l.creditMinor)
        (linesForJournal s k) g := by
  have hcancels := hswapped.cancels hr key' hcontent hswap g
  rw [groupSum_sub, groupSum_sub] at hcancels
  rw [groupSum_signed, groupSum_signed]
  exact signedAmount_neg role hcancels

/-- Journals that add nothing to any row or total of a return. -/
structure CancelOut (lines : List JournalLine) (ids : List String) : Prop where
  rows : ∀ vatRateId role, roleSum (without lines ids) vatRateId role =
    roleSum lines vatRateId role
  totals : ∀ role, roleTotal (without lines ids) role = roleTotal lines role

/-- A chain of journals of the range cancels out if it sums to zero group by group. -/
theorem cancelOut_of_sum (hcons : Consistent s) {ids : List String} (hnodup : ids.Nodup)
    (hids : ∀ id ∈ ids, ∃ j ∈ s.journals, j.id = id ∧ Within bookId fromDate toDate j)
    (hsum : ∀ (κ : Type) [DecidableEq κ] (key : NewJournalLine → κ) (role : VatRole) (g : κ),
      (∀ l : JournalLine, key (swapLine l) = key (content l)) →
      (ids.map fun id ↦ groupSum (fun l ↦ key (content l))
        (fun l ↦ signedAmount role l.debitMinor l.creditMinor) (linesForJournal s id) g).sum = 0) :
    CancelOut (taxLines s bookId fromDate toDate currency) ids := by
  have hzero : ∀ (κ : Type) [DecidableEq κ] (key : NewJournalLine → κ) (role : VatRole) (g : κ),
      (∀ l : JournalLine, key (swapLine l) = key (content l)) →
      (∀ l : JournalLine, key (content l) = g → l.vatRole ≠ none) →
      groupSum (fun l ↦ key (content l)) (fun l ↦ signedAmount role l.debitMinor l.creditMinor)
          (without (taxLines s bookId fromDate toDate currency) ids) g =
        groupSum (fun l ↦ key (content l)) (fun l ↦ signedAmount role l.debitMinor l.creditMinor)
          (taxLines s bookId fromDate toDate currency) g := by
    intro κ _ key role g hswap hg
    rw [groupSum_without _ _ hnodup (taxLines s bookId fromDate toDate currency)]
    have hmap : ∀ id ∈ ids, groupSum (fun l ↦ key (content l))
        (fun l ↦ signedAmount role l.debitMinor l.creditMinor)
          ((taxLines s bookId fromDate toDate currency).filter fun l ↦ l.journalId = id) g =
        groupSum (fun l ↦ (l.currency, key (content l)))
          (fun l ↦ signedAmount role l.debitMinor l.creditMinor) (linesForJournal s id)
            (currency, g) := fun id hid ↦ by
      obtain ⟨j, hj, rfl, hwithin⟩ := hids id hid
      exact groupSum_of_within hcons hj hwithin hg _
    have hall := hsum (String × κ) (fun l ↦ (l.currency, key l)) role (currency, g)
      fun l ↦ Prod.ext rfl (hswap l)
    rw [List.map_congr_left hmap]
    exact (add_eq_left.2 hall).symm
  constructor
  · intro vatRateId role
    exact hzero _ (fun l ↦ (l.vatRateId, l.vatRole)) role (vatRateId, some role) (fun _ ↦ rfl)
      fun l hl ↦ by simp [show l.vatRole = some role from congrArg Prod.snd hl]
  · intro role
    exact hzero _ NewJournalLine.vatRole role (some role) (fun _ ↦ rfl)
      fun l (hl : l.vatRole = some role) ↦ by simp [hl]

theorem cancelOut_pair (hs : Sound s) (hcons : Consistent s) (hswapped : Swapped s)
    {j r : Journal} (hj : j ∈ s.journals) (hr : r ∈ s.journals)
    (hrev : findReversal s j.id = some r.id) (hwithin : Within bookId fromDate toDate j)
    (hrange : fromDate ≤ r.postedDate ∧ r.postedDate ≤ toDate) :
    CancelOut (taxLines s bookId fromDate toDate currency) [j.id, r.id] := by
  refine cancelOut_of_sum hcons ?_ ?_ fun κ _ key role g hswap ↦ ?_
  · have hnodup := hcons.linked.nodup_chain j hj
    rw [← reversals_eq_chain hcons,
      (follows_reversals hcons j.id).unique (.cons hrev (follows_reversals hcons r.id))] at hnodup
    exact hnodup.sublist (by simp)
  · have hbook := (book_of_reversal hs hswapped hj hr hrev).trans hwithin.book
    simp only [List.mem_cons, List.not_mem_nil, or_false]
    rintro id (rfl | rfl)
    · exact ⟨j, hj, rfl, hwithin⟩
    · exact ⟨r, hr, rfl, hbook, hrange⟩
  · simp only [List.map_cons, List.map_nil, List.sum_cons, List.sum_nil, add_zero]
    rw [groupSum_reversal hswapped hrev key (fun _ ↦ rfl) hswap, add_neg_cancel]

theorem book_of_follows (hs : Sound s) (hcons : Consistent s) (hswapped : Swapped s)
    {id : String} {ids : List String} (hids : Follows (findReversal s) id ids) {j r : Journal}
    (hj : j ∈ s.journals) (hid : j.id = id) (hr : r ∈ s.journals) (hmem : r.id ∈ ids) :
    r.bookId = j.bookId := by
  induction hids generalizing j with
  | nil => cases hmem
  | @cons k k' ids hk hids ih =>
    obtain ⟨j', hj', hid'⟩ := (mem_of_findReversal hcons hk).2
    subst hid hid'
    have hbook := book_of_reversal hs hswapped hj hj' hk
    rcases List.mem_cons.1 hmem with heq | hmem
    · obtain rfl := hcons.linked.eq_of_key r hr j' hj' heq
      exact hbook
    · exact (ih hj' rfl hmem).trans hbook

/-- A chain with an odd number of reversals cancels out. -/
theorem cancelOut_chain (hs : Sound s) (hcons : Consistent s) (hswapped : Swapped s)
    {root : Journal} (hroot : root ∈ s.journals) (hbook : root.bookId = bookId)
    (hodd : Odd (reversals s root.id).length)
    (hrange : ∀ j ∈ s.journals, j.id ∈ root.id :: reversals s root.id →
      fromDate ≤ j.postedDate ∧ j.postedDate ≤ toDate) :
    CancelOut (taxLines s bookId fromDate toDate currency) (root.id :: reversals s root.id) := by
  refine cancelOut_of_sum hcons ?_ (fun id hid ↦ ?_) fun κ _ key role g hswap ↦ ?_
  · rw [reversals_eq_chain hcons]
    exact hcons.linked.nodup_chain root hroot
  · rcases List.mem_cons.1 hid with rfl | hmem
    · exact ⟨root, hroot, rfl, hbook, hrange root hroot hid⟩
    · obtain ⟨j, hj, rfl⟩ := hcons.linked.exists_of_mem_chain (reversals_eq_chain hcons _ ▸ hmem)
      have hown := book_of_follows hs hcons hswapped (follows_reversals hcons root.id) hroot rfl
        hj hmem
      exact ⟨j, hj, rfl, hown.trans hbook, hrange j hj hid⟩
  · rw [List.map_cons, List.sum_cons]
    rw [(follows_reversals hcons root.id).sum_map fun k r hr ↦
      groupSum_reversal hswapped hr key (fun _ ↦ rfl) hswap role g]
    exact if_neg (Nat.not_even_iff_odd.2 hodd)

end Reversals

/-- The return accounts for every tagged line of the range once, and a journal of the range and
its reversal, or a whole chain of them, add nothing to it. -/
theorem tax_rows_account (h : Host) (parseSlip : String → Except Fault SlipPayload) (s : Db)
    (hs : Reachable h parseSlip anyCall s) (bookId fromDate toDate currency : String)
    (profile : RegionProfile) (summary : TaxPeriodSummary)
    (hsummary : taxPeriodSummary s bookId fromDate toDate currency profile = .ok summary) :
    (∀ l ∈ taxLines s bookId fromDate toDate currency,
      ∃! row, row ∈ summary.rows ∧ row.vatRateId = l.vatRateId) ∧
    (∀ row ∈ summary.rows, ∀ role, rowAmount row role =
      roleSum (taxLines s bookId fromDate toDate currency) row.vatRateId role) ∧
    (∀ role, (summary.rows.map fun row ↦ rowAmount row role).sum =
      roleTotal (taxLines s bookId fromDate toDate currency) role) ∧
    summary.outputVatMinor = asI64 (summary.rows.map TaxSummaryRow.outputVatMinor).sum ∧
    summary.inputVatMinor = asI64 (summary.rows.map TaxSummaryRow.inputVatMinor).sum ∧
    summary.netVatMinor = asI64 (summary.outputVatMinor - summary.inputVatMinor) ∧
    (∀ j ∈ s.journals, Within bookId fromDate toDate j → ∀ r ∈ s.journals,
      findReversal s j.id = some r.id → fromDate ≤ r.postedDate ∧ r.postedDate ≤ toDate →
        CancelOut (taxLines s bookId fromDate toDate currency) [j.id, r.id]) ∧
    ∀ root ∈ s.journals, root.bookId = bookId → Odd (reversals s root.id).length →
      (∀ j ∈ s.journals, j.id ∈ root.id :: reversals s root.id →
        fromDate ≤ j.postedDate ∧ j.postedDate ≤ toDate) →
      CancelOut (taxLines s bookId fromDate toDate currency)
        (root.id :: reversals s root.id) := by
  have hsound := sound_of_reachable hs
  have hcons := consistent_of_reachable hs
  have hswapped := swapped_of_reachable hs
  have hof := taxPeriodSummary_eq_ok hsound hcons hsummary
  refine ⟨fun l hl ↦ ?_, hof.amount, hof.total, hof.outputVat, hof.inputVat, hof.netVat,
    fun j hj hwithin r hr hrev hrange ↦
      cancelOut_pair hsound hcons hswapped hj hr hrev hwithin hrange,
    fun root hroot hbook hodd hrange ↦
      cancelOut_chain hsound hcons hswapped hroot hbook hodd hrange⟩
  obtain ⟨row, hrow, hid⟩ := List.mem_map.1 ((hof.mem l.vatRateId).2 ⟨l, hl, rfl⟩)
  refine ⟨row, ⟨hrow, hid⟩, fun row' ⟨hrow', hid'⟩ ↦ ?_⟩
  exact List.inj_on_of_nodup_map hof.keys hrow' hrow (hid'.trans hid.symm)

def reversedSale : Db :=
  runs setup [.coaSeed "book", taxedSale "2025-01-30", taxedSale "2025-01-31",
    .journalReverse (seeded 40) none none]

theorem tax_rows_account_of_sale :
    ∃ summary, taxPeriodSummary reversedSale "book" "2025-01-01" "2025-01-31" "ZAR" za =
        .ok summary ∧
      summary.rows.map TaxSummaryRow.outputBaseMinor = [100] ∧
      roleTotal (taxLines reversedSale "book" "2025-01-01" "2025-01-31" "ZAR") .outputBase = 100 ∧
      CancelOut (taxLines reversedSale "book" "2025-01-01" "2025-01-31" "ZAR")
        [seeded 40, seeded 46] := by
  have hsome : (taxPeriodSummary reversedSale "book" "2025-01-01" "2025-01-31" "ZAR" za).toOption.map
      (fun r ↦ r.rows.map TaxSummaryRow.outputBaseMinor) = some [100] := by decide +kernel
  have hpair : ∃ j ∈ reversedSale.journals, ∃ r ∈ reversedSale.journals, j.id = seeded 40 ∧
      r.id = seeded 46 ∧ findReversal reversedSale j.id = some r.id ∧ j.bookId = "book" ∧
      ("2025-01-01" ≤ j.postedDate ∧ j.postedDate ≤ "2025-01-31") ∧
      "2025-01-01" ≤ r.postedDate ∧ r.postedDate ≤ "2025-01-31" := by decide +kernel
  obtain ⟨j, hj, r, hr, hjid, hrid, hrev, hbook, hrange, hrange'⟩ := hpair
  cases hsummary : taxPeriodSummary reversedSale "book" "2025-01-01" "2025-01-31" "ZAR" za with
  | error e => simp [hsummary, Except.toOption] at hsome
  | ok summary =>
    have haccount := tax_rows_account plainHost noSlip reversedSale
      (reachable_runs reachable_setup _) "book" "2025-01-01" "2025-01-31" "ZAR" za summary hsummary
    obtain ⟨-, -, htotal, -, -, -, hpair, -⟩ := haccount
    have hrows : summary.rows.map TaxSummaryRow.outputBaseMinor = [100] := by
      simpa [hsummary, Except.toOption] using hsome
    refine ⟨summary, rfl, hrows, ?_, ?_⟩
    · rw [← htotal]
      exact congrArg List.sum hrows
    · rw [← hjid, ← hrid]
      exact hpair j hj ⟨hbook, hrange⟩ r hr hrev hrange'

end SlipScan.Ledger.TaxRows
