import SlipScan.Ledger.Calls
import SlipScan.Ledger.Consistency
import SlipScan.Model.PlainHost
import SlipScan.Model.Reports

namespace SlipScan.Ledger.Soundness

open Model.Domain Model.Database Model.Ledger Model.Money Model.Reports Model.Scheduling Model.Slip
  Model.Service Model.PlainHost Foundation.Transaction Foundation.Table Foundation.Chain
  Foundation.Grouping Posting Steps Runs Lines Consistency Calls Relation

variable {h : Host} {parseSlip : String → Except Fault SlipPayload} {s s' : Db} {book : Book}
  {new : NewJournal} {reversalOf : Option String} {lines : List NewJournalLine}

section Journals

/-- A journal with its lines as double entry wants them. -/
structure SoundJournal (s : Db) (j : Journal) : Prop where
  count : 2 ≤ (linesForJournal s j.id).length
  sides : ∀ l ∈ linesForJournal s j.id,
    l.debitMinor = 0 ∧ 0 < l.creditMinor ∨ l.creditMinor = 0 ∧ 0 < l.debitMinor
  balance : ∀ currency,
    groupSum JournalLine.currency JournalLine.debitMinor (linesForJournal s j.id) currency =
      groupSum JournalLine.currency JournalLine.creditMinor (linesForJournal s j.id) currency
  accounts : ∀ l ∈ linesForJournal s j.id, ∃ a, getCoa s l.coaId = some a ∧ a.bookId = j.bookId

structure Sound (s : Db) : Prop where
  journals : ∀ j ∈ s.journals, SoundJournal s j
  accountIds : (s.coa.map CoaAccount.id).Nodup

theorem SoundJournal.mono {j : Journal} (hj : SoundJournal s j)
    (hlines : linesForJournal s' j.id = linesForJournal s j.id)
    (hcoa : ∀ id a, getCoa s id = some a → ∃ a', getCoa s' id = some a' ∧ a'.bookId = a.bookId) :
    SoundJournal s' j where
  count := hlines ▸ hj.count
  sides := hlines ▸ hj.sides
  balance := hlines ▸ hj.balance
  accounts l hl := by
    obtain ⟨a, ha, hbook⟩ := hj.accounts l (hlines ▸ hl)
    obtain ⟨a', ha', hbook'⟩ := hcoa _ a ha
    exact ⟨a', ha', hbook'.trans hbook⟩

theorem soundJournal_posted (hs : Consistent s)
    (hposts : Posts h s book new reversalOf lines) :
    SoundJournal (withPosted s (postedJournal h s book new reversalOf lines))
      (postedJournal h s book new reversalOf lines).journal := by
  have haccepted := hposts.accepted
  have hstored : linesForJournal (withPosted s (postedJournal h s book new reversalOf lines))
      (postedJournal h s book new reversalOf lines).journal.id =
        (postedJournal h s book new reversalOf lines).lines :=
    linesForJournal_withPosted_self (hs.fresh hposts)
  constructor
  · rw [hstored, postedJournal, length_storedLines, ← haccepted.normalized.length_eq]
    exact haccepted.count
  · rw [hstored]
    exact fun l hl ↦ (haccepted.sides (content l) (content_mem hl)).1
  · intro currency
    rw [hstored]
    exact (groupSum_storedLines NewJournalLine.currency NewJournalLine.debitMinor _ _ _).trans
      ((haccepted.balance currency).trans
        (groupSum_storedLines NewJournalLine.currency NewJournalLine.creditMinor _ _ _).symm)
  · rw [hstored]
    intro l hl
    obtain ⟨a, ha, hbook, -⟩ := haccepted.accounts (content l) (content_mem hl)
    exact ⟨a, ha, hbook⟩

theorem sound_empty : Sound {} :=
  ⟨by simp, by simp⟩

theorem Sound.other (hs : Sound s) (hother : Preserves s s') : Sound s' := by
  refine ⟨fun j hj ↦ ?_, hother.coaNodup hs.accountIds⟩
  refine (hs.journals j (hother.journals ▸ hj)).mono ?_ fun id a ha ↦ ?_
  · simp only [linesForJournal, hother.journalLines]
  · obtain ⟨_, ha'⟩ := hother.coa id a ha
    exact ⟨_, ha', rfl⟩

theorem Sound.step {c : Call} {held : List Held} (hs : Sound s) (hcons : Consistent s)
    (hstep : LedgerStep h c held s s') : Sound s' := by
  rcases posted_or_other hstep with ⟨_, _, _, _, -, hposts, -, rfl⟩ | hother
  · refine ⟨fun j hj ↦ ?_, hs.accountIds⟩
    rcases List.mem_append.1 hj with hj | hj
    · exact (hs.journals j hj).mono (linesForJournal_withPosted_of_ne (hposts.fresh j hj))
        fun id a ha ↦ ⟨a, ha, rfl⟩
    · obtain rfl := List.mem_singleton.1 hj
      exact soundJournal_posted hcons hposts
  · exact hs.other hother

theorem Sound.change {D : Call → Prop} (hs : Sound s) (hcons : Consistent s)
    (hchange : Change h D s s') : Sound s' := by
  have hsame : ∀ j ∈ s.journals, ∀ id a, getCoa s id = some a →
      ∃ a', getCoa s id = some a' ∧ a'.bookId = a.bookId := fun _ _ id a ha ↦ ⟨a, ha, rfl⟩
  cases hchange with
  | ledger _ _ hstep => exact hs.step hcons hstep
  | other hother => exact hs.other hother
  | lock => exact ⟨fun j hj ↦ (hs.journals j hj).mono rfl (hsame j hj), hs.accountIds⟩
  | rate => exact ⟨fun j hj ↦ (hs.journals j hj).mono rfl (hsame j hj), hs.accountIds⟩

theorem sound_of_reachable {C : Call → Db → Prop} (hs : Reachable h parseSlip C s) : Sound s := by
  refine (invariant_of_changes (I := fun t ↦ Sound t ∧ Consistent t)
    ⟨sound_empty, consistent_empty⟩ (fun t t' ht hchange ↦ ?_) hs).1
  exact ⟨ht.1.change ht.2 hchange, ht.2.change hchange⟩

end Journals

section TrialBalance

def lineNet (l : JournalLine) : ℤ :=
  l.debitMinor - l.creditMinor

def rowNet (row : TrialBalanceRow) : ℤ :=
  row.debitMinor - row.creditMinor

theorem sqlSum_eq_ok {l : List ℤ} {v : ℤ} (hv : sqlSum l = .ok v) : v = l.sum := by
  have hfold : ∀ (l : List ℤ) (acc v : ℤ), l.foldlM (fun acc v ↦
      if -2 ^ 63 ≤ acc + v ∧ acc + v < 2 ^ 63 then Except.ok (acc + v)
      else .error (Fault.sqlite "integer overflow")) acc = .ok v → v = acc + l.sum := by
    intro l
    induction l with
    | nil =>
      intro acc v hv
      simpa [pure, Except.pure, eq_comm] using hv
    | cons x l ih =>
      intro acc v hv
      rw [List.foldlM_cons, except_bind_eq_ok] at hv
      obtain ⟨acc', hacc', hv⟩ := hv
      split at hacc'
      · obtain rfl := Except.ok.inj hacc'
        rw [ih _ _ hv, List.sum_cons, add_assoc]
      · cases hacc'
  simpa using hfold l 0 v hv

theorem trialBalanceRow_eq_ok {account : CoaAccount} {currency : String} {l : List JournalLine}
    {row : TrialBalanceRow} (hrow : trialBalanceRow account currency l = .ok row) :
    row.currency = currency ∧ rowNet row = (l.map lineNet).sum := by
  simp only [trialBalanceRow, except_bind_eq_ok, except_pure_eq_ok] at hrow
  obtain ⟨debit, hdebit, credit, hcredit, rfl⟩ := hrow
  refine ⟨rfl, ?_⟩
  rw [sqlSum_eq_ok hdebit, sqlSum_eq_ok hcredit]
  exact (sum_map_sub _ _ _).symm

/-- One row for each key makes the totals of the groups. -/
theorem groupSum_rows {keys : List String} {rows : List TrialBalanceRow} {l : List JournalLine}
    (hkeys : keys.Nodup) (hl : ∀ a ∈ l, a.currency ∈ keys)
    (hrows : List.Forall₂ (fun key row ↦ row.currency = key ∧
      rowNet row = groupSum JournalLine.currency lineNet l key) keys rows) (c : String) :
    groupSum TrialBalanceRow.currency rowNet rows c =
      groupSum JournalLine.currency lineNet l c :=
  groupSum_of_forall₂ hkeys
    (fun k hk ↦ groupSum_eq_zero fun a ha (heq : a.currency = k) ↦ hk (heq ▸ hl a ha)) hrows c

theorem accountRows_net {bookCurrency : String} {account : CoaAccount}
    {rows : List TrialBalanceRow} (hrows : accountRows s bookCurrency account = .ok rows)
    (c : String) : groupSum TrialBalanceRow.currency rowNet rows c =
      groupSum JournalLine.currency lineNet
        (s.journalLines.filter fun l ↦ l.coaId = account.id) c := by
  rw [accountRows] at hrows
  generalize s.journalLines.filter (fun l ↦ l.coaId = account.id) = l at hrows ⊢
  split at hrows
  · rename_i hempty
    simp only [except_bind_eq_ok, except_pure_eq_ok] at hrows
    obtain ⟨row, hrow, rfl⟩ := hrows
    obtain ⟨-, hnet⟩ := trialBalanceRow_eq_ok hrow
    rw [List.isEmpty_iff.1 hempty, groupSum_cons, hnet]
    simp [groupSum]
  · refine groupSum_rows (List.nodup_dedup _) (fun a ha ↦ ?_)
      ((except_mapM_eq_ok.1 hrows).imp fun key row ↦ trialBalanceRow_eq_ok) c
    exact List.mem_dedup.2 (List.mem_map_of_mem ha)

theorem getCoa_of_mem (hs : Sound s) {a : CoaAccount} (ha : a ∈ s.coa) : getCoa s a.id = some a :=
  lookup_of_mem (List.pairwise_map.1 hs.accountIds) ha

def bookLines (s : Db) (bookId currency : String) : List JournalLine :=
  s.journalLines.filter fun l ↦ l.bookId = bookId ∧ l.currency = currency

def bookLinesOf (s : Db) (bookId currency : String) (P : Journal → Bool) : List JournalLine :=
  s.journalLines.filter fun l ↦ l.bookId = bookId ∧ l.currency = currency ∧
    ∃ j ∈ s.journals, j.id = l.journalId ∧ P j = true

/-- The lines of the journals of a book that satisfy `P` net out, journal by journal. -/
theorem bookLinesOf_net (hs : Sound s) (hcons : Consistent s) (bookId currency : String)
    (P : Journal → Bool) : ((bookLinesOf s bookId currency P).map lineNet).sum = 0 := by
  have hkeys : ((s.journals.filter fun j ↦ j.bookId = bookId ∧ P j = true).map Journal.id).Nodup :=
    hcons.linked.nodup.sublist (List.filter_sublist.map _)
  rw [← sum_groupSum JournalLine.journalId _ hkeys fun l hl ↦ ?_]
  · refine List.sum_eq_zero fun v hv ↦ ?_
    obtain ⟨_, hk, rfl⟩ := List.mem_map.1 hv
    obtain ⟨j, hj, rfl⟩ := List.mem_map.1 hk
    obtain ⟨hj, hbook⟩ := List.mem_filter.1 hj
    have hnet : groupSum JournalLine.currency lineNet (linesForJournal s j.id) currency = 0 := by
      rw [← sub_eq_zero_of_eq ((hs.journals j hj).balance currency)]
      exact groupSum_sub _ _ _ _
    rw [← hnet, linesForJournal, groupSum_perm (List.perm_insertionSort _ _), groupSum, groupSum,
      bookLinesOf, List.filter_filter, List.filter_filter]
    refine congrArg (fun l ↦ (List.map lineNet l).sum) (List.filter_congr fun l hl ↦ ?_)
    obtain ⟨j', hj', hid, hbook'⟩ := hcons.lines l hl
    by_cases hjl : l.journalId = j.id
    · obtain rfl := hcons.linked.eq_of_key j' hj' j hj (hid.trans hjl)
      have hown : ∃ k ∈ s.journals, k.id = j'.id ∧ P k = true := ⟨j', hj', rfl, by simp_all⟩
      simp_all
    · simp [hjl]
  · obtain ⟨hl, hline⟩ := List.mem_filter.1 hl
    obtain ⟨hbook, -, j, hj, hid, hP⟩ := of_decide_eq_true hline
    obtain ⟨j', hj', hid', hbook'⟩ := hcons.lines l hl
    obtain rfl := hcons.linked.eq_of_key j' hj' j hj (hid'.trans hid.symm)
    refine List.mem_map.2 ⟨j', List.mem_filter.2 ⟨hj, ?_⟩, hid⟩
    simp [hbook', hbook, hP]

theorem bookLines_net (hs : Sound s) (hcons : Consistent s) (bookId currency : String) :
    ((bookLines s bookId currency).map lineNet).sum = 0 := by
  rw [← bookLinesOf_net hs hcons bookId currency fun _ ↦ true, bookLines, bookLinesOf]
  refine congrArg (fun l ↦ (List.map lineNet l).sum) (List.filter_congr fun l hl ↦ ?_)
  obtain ⟨j, hj, hid, -⟩ := hcons.lines l hl
  simp [show ∃ j ∈ s.journals, j.id = l.journalId from ⟨j, hj, hid⟩]

/-- Every line on an account of the book is a line of the book, and the other way round. -/
theorem mem_accounts_iff (hs : Sound s) (hcons : Consistent s) {bookId : String}
    {l : JournalLine} (hl : l ∈ s.journalLines) :
    l.coaId ∈ (s.coa.filter fun a ↦ a.bookId = bookId).map CoaAccount.id ↔ l.bookId = bookId := by
  obtain ⟨j, hj, hid, hbook⟩ := hcons.lines l hl
  obtain ⟨a, ha, habook⟩ := (hs.journals j hj).accounts l (mem_linesForJournal.2 ⟨hl, hid.symm⟩)
  obtain ⟨hmem, hcoa⟩ := lookup_eq_some ha
  simp only [List.mem_map, List.mem_filter, decide_eq_true_eq]
  constructor
  · rintro ⟨a', ⟨ha', rfl⟩, hid'⟩
    have hsame := getCoa_of_mem hs ha'
    rw [hid', ha] at hsame
    rw [← hbook, ← habook, Option.some.inj hsame]
  · rintro rfl
    exact ⟨a, ⟨hmem, habook.trans hbook⟩, hcoa⟩

theorem flatten_net {bookCurrency : String} {accounts : List CoaAccount}
    {rowss : List (List TrialBalanceRow)}
    (hrowss : List.Forall₂ (fun a rows ↦ accountRows s bookCurrency a = .ok rows) accounts rowss)
    (c : String) : groupSum TrialBalanceRow.currency rowNet rowss.flatten c =
      ((accounts.map CoaAccount.id).map fun k ↦ groupSum JournalLine.currency lineNet
        (s.journalLines.filter fun l ↦ l.coaId = k) c).sum := by
  induction hrowss with
  | nil => rfl
  | cons hrow _ ih =>
    simp only [List.flatten_cons, groupSum_append, ih, accountRows_net hrow, List.map_cons,
      List.sum_cons]

/-- Debits equal credits in every currency of every trial balance. -/
theorem trialBalance_net {bookId bookCurrency : String} {rows : List TrialBalanceRow}
    (hs : Sound s) (hcons : Consistent s) (hrows : trialBalance s bookId bookCurrency = .ok rows)
    (c : String) : groupSum TrialBalanceRow.currency rowNet rows c = 0 := by
  simp only [trialBalance, except_bind_eq_ok, except_pure_eq_ok] at hrows
  obtain ⟨rowss, hrowss, rfl⟩ := hrows
  have hids : ((s.coa.filter fun a ↦ a.bookId = bookId).map CoaAccount.id).Nodup :=
    hs.accountIds.sublist (List.filter_sublist.map _)
  rw [groupSum_perm (List.perm_insertionSort _ _), flatten_net (except_mapM_eq_ok.1 hrowss),
    ← bookLines_net hs hcons bookId c,
    ← sum_groupSum JournalLine.coaId _ hids fun l hl ↦ ?_]
  · refine congrArg List.sum (List.map_congr_left fun k hk ↦ ?_)
    rw [groupSum, groupSum, bookLines, List.filter_filter, List.filter_filter]
    refine congrArg (fun l ↦ (List.map lineNet l).sum) (List.filter_congr fun l hl ↦ ?_)
    by_cases hlk : l.coaId = k
    · simp [hlk, (mem_accounts_iff hs hcons hl).1 (hlk ▸ hk)]
    · simp [hlk]
  · obtain ⟨hl, hbook⟩ := List.mem_filter.1 hl
    exact (mem_accounts_iff hs hcons hl).2 (by simp_all)

theorem trialBalance_balances {bookId bookCurrency : String} {rows : List TrialBalanceRow}
    (hs : Sound s) (hcons : Consistent s) (hrows : trialBalance s bookId bookCurrency = .ok rows)
    (currency : String) :
    groupSum TrialBalanceRow.currency TrialBalanceRow.debitMinor rows currency =
      groupSum TrialBalanceRow.currency TrialBalanceRow.creditMinor rows currency :=
  sub_eq_zero.1 ((groupSum_sub _ _ _ _).symm.trans (trialBalance_net hs hcons hrows currency))

end TrialBalance

/-- The ledger is sound after every run, so every trial balance balances, and an operation that
fails leaves the journals as they were. Catching up with schedules is a run of operations, one for
each occurrence. -/
theorem ledger_sound (h : Host) (parseSlip : String → Except Fault SlipPayload) :
    (∀ s, Reachable h parseSlip anyCall s → Sound s ∧
      (∀ l ∈ s.journalLines, ∃ j ∈ s.journals, l ∈ linesForJournal s j.id) ∧
      ∀ bookId bookCurrency rows, trialBalance s bookId bookCurrency = .ok rows → ∀ currency,
        groupSum TrialBalanceRow.currency TrialBalanceRow.debitMinor rows currency =
          groupSum TrialBalanceRow.currency TrialBalanceRow.creditMinor rows currency) ∧
    (∀ (s : Db) (c : Call) e, (∀ rounds bookId asOf, c ≠ .recurringRunDue rounds bookId asOf) →
      ((c.program h parseSlip).run s).1 = .error e →
        (c.run h parseSlip s).journals = s.journals ∧
          (c.run h parseSlip s).journalLines = s.journalLines) ∧
    ∀ s schedule skip e, ((recurringProcessOccurrence h schedule skip).run s).1 = .error e →
      ((recurringProcessOccurrence h schedule skip).run s).2.journals = s.journals ∧
        ((recurringProcessOccurrence h schedule skip).run s).2.journalLines = s.journalLines := by
  refine ⟨fun s hs ↦ ?_, fun s c e hc he ↦ ?_, fun s schedule skip e he ↦ ?_⟩
  · have hsound := sound_of_reachable hs
    have hcons := consistent_of_reachable hs
    refine ⟨hsound, fun l hl ↦ ?_, fun _ _ _ hrows ↦ trialBalance_balances hsound hcons hrows⟩
    obtain ⟨j, hj, hid, -⟩ := hcons.lines l hl
    exact ⟨j, hj, mem_linesForJournal.2 ⟨hl, hid.symm⟩⟩
  · rw [run_of_error hc he]
    exact ⟨rfl, rfl⟩
  · rw [recurringProcessOccurrence_settled.run_error he]
    exact ⟨rfl, rfl⟩

theorem ledger_sound_of_sale :
    (Sound (runs setup (bankAndIncome ++ [sale "2025-01-31" 100 100])) ∧
      ∃ rows, trialBalance (runs setup (bankAndIncome ++ [sale "2025-01-31" 100 100])) "book" "ZAR" = .ok rows ∧
        groupSum TrialBalanceRow.currency TrialBalanceRow.debitMinor rows "ZAR" =
          groupSum TrialBalanceRow.currency TrialBalanceRow.creditMinor rows "ZAR") ∧
    ((sale "2025-01-31" 100 50).run plainHost noSlip (runs setup bankAndIncome)).journals =
      (runs setup bankAndIncome).journals := by
  have hsale := (ledger_sound plainHost noSlip).1 _
    (reachable_runs reachable_setup (bankAndIncome ++ [sale "2025-01-31" 100 100]))
  have hrows : ∃ rows, trialBalance (runs setup (bankAndIncome ++ [sale "2025-01-31" 100 100])) "book" "ZAR" =
      .ok rows := ⟨[⟨"x", "1000", "Bank", .asset, "ZAR", 100, 0⟩,
        ⟨"xx", "4200", "Income", .income, "ZAR", 0, 100⟩], by decide +kernel⟩
  obtain ⟨rows, hrows⟩ := hrows
  refine ⟨⟨hsale.1, rows, hrows, hsale.2.2 _ _ _ hrows _⟩, ?_⟩
  exact ((ledger_sound plainHost noSlip).2.1 (runs setup bankAndIncome) (sale "2025-01-31" 100 50)
    (.unbalancedJournal 100 50) (by simp [sale]) (by decide +kernel)).1

end SlipScan.Ledger.Soundness
