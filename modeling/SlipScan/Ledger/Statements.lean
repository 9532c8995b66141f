import SlipScan.Ledger.Amounts
import SlipScan.Model.Statements
import Mathlib.Algebra.BigOperators.Ring.List
import Mathlib.Data.List.ReduceOption

namespace SlipScan.Ledger.Statements

open Model.Domain Model.Database Model.Ledger Model.Money Model.Statements Model.Slip Model.Service
  Model.PlainHost Foundation.Transaction Foundation.Table Foundation.Grouping Posting Steps Runs
  Lines Consistency Soundness Amounts Relation

variable {h : Host} {parseSlip : String → Except Fault SlipPayload} {s s' : Db}
  {bookId currency : String} {P : Journal → Bool}

section Dates

def Dated (h : Host) (s : Db) : Prop :=
  ∀ j ∈ s.journals, (h.parseDate j.postedDate).isSome

theorem dated_change {D : Call → Prop} (hs : Dated h s) (hchange : Change h D s s') :
    Dated h s' := by
  cases hchange with
  | ledger _ _ hstep =>
    rcases posted_or_other hstep with ⟨_, _, _, _, -, hposts, -, rfl⟩ | hother
    · intro j hj
      rcases List.mem_append.1 hj with hj | hj
      · exact hs j hj
      · obtain rfl := List.mem_singleton.1 hj
        exact hposts.accepted.date
    · exact fun j hj ↦ hs j (hother.journals ▸ hj)
  | other hother => exact fun j hj ↦ hs j (hother.journals ▸ hj)
  | lock => exact hs
  | rate => exact hs

theorem dated_of_reachable {C : Call → Db → Prop} (hs : Reachable h parseSlip C s) : Dated h s :=
  invariant_of_changes (by simp [Dated]) (fun _ _ ht hchange ↦ dated_change ht hchange) hs

/-- No date lies between the end of one range and the start of the next. -/
def Adjacent (h : Host) (toDate fromDate : String) : Prop :=
  toDate < fromDate ∧ ∀ date, (h.parseDate date).isSome → date ≤ toDate ∨ fromDate ≤ date

end Dates

section Accounts

theorem sides_of_mem (hs : Sound s) (hcons : Consistent s) {l : JournalLine}
    (hl : l ∈ s.journalLines) :
    0 ≤ l.debitMinor ∧ 0 ≤ l.creditMinor ∧ ¬(l.debitMinor = 0 ∧ l.creditMinor = 0) := by
  obtain ⟨j, hj, hid, -⟩ := hcons.lines l hl
  have hsides := (hs.journals j hj).sides l (mem_linesForJournal.2 ⟨hl, hid.symm⟩)
  omega

def net (s : Db) (currency : String) (P : Journal → Bool) (a : CoaAccount) : ℤ :=
  ((accountLines s currency P a.id).map lineNet).sum

theorem mem_of_accountLines {coaId : String} {l : JournalLine}
    (hl : l ∈ accountLines s currency P coaId) : l ∈ s.journalLines :=
  (List.mem_filter.1 hl).1

theorem nonneg_sides (hs : Sound s) (hcons : Consistent s) (currency : String)
    (P : Journal → Bool) (coaId : String) :
    (∀ v ∈ (accountLines s currency P coaId).map JournalLine.debitMinor, 0 ≤ v) ∧
      ∀ v ∈ (accountLines s currency P coaId).map JournalLine.creditMinor, 0 ≤ v := by
  simp only [List.forall_mem_map]
  exact ⟨fun l hl ↦ (sides_of_mem hs hcons (mem_of_accountLines hl)).1,
    fun l hl ↦ (sides_of_mem hs hcons (mem_of_accountLines hl)).2.1⟩

theorem sides_eq_ok (hs : Sound s) (hcons : Consistent s) {a : CoaAccount} {debit credit : ℤ}
    (hsides : sides (accountLines s currency P a.id) = .ok (debit, credit)) :
    debit - credit = net s currency P a ∧ asI64 (debit - credit) = debit - credit ∧
      asI64 (credit - debit) = credit - debit ∧
      (debit = 0 ∧ credit = 0 ↔ accountLines s currency P a.id = []) := by
  simp only [sides, except_bind_eq_ok, except_pure_eq_ok, Prod.mk.injEq] at hsides
  obtain ⟨_, hdebit, _, hcredit, rfl, rfl⟩ := hsides
  have hd := sqlSum_mem hdebit
  have hc := sqlSum_mem hcredit
  obtain ⟨hnonneg, hnonneg'⟩ := nonneg_sides hs hcons currency P a.id
  have hd₀ := List.sum_nonneg hnonneg
  have hc₀ := List.sum_nonneg hnonneg'
  rw [sqlSum_eq_ok hdebit] at hd ⊢
  rw [sqlSum_eq_ok hcredit] at hc ⊢
  refine ⟨(sum_map_sub _ _ _).symm, asI64_of_mem (by omega) (by omega),
    asI64_of_mem (by omega) (by omega), ?_⟩
  constructor
  · rintro ⟨hzero, hzero'⟩
    refine List.eq_nil_iff_forall_not_mem.2 fun l hl ↦ ?_
    have hmem := sides_of_mem hs hcons (mem_of_accountLines hl)
    have hle := List.single_le_sum hnonneg _ (List.mem_map_of_mem hl)
    have hle' := List.single_le_sum hnonneg' _ (List.mem_map_of_mem hl)
    omega
  · intro hnil
    simp [hnil]

/-- The two sides of an account fit the machine integers. -/
def Fits (s : Db) (currency : String) (P : Journal → Bool) (coaId : String) : Prop :=
  ((accountLines s currency P coaId).map JournalLine.debitMinor).sum < 2 ^ 63 ∧
    ((accountLines s currency P coaId).map JournalLine.creditMinor).sum < 2 ^ 63

theorem sides_isOk_iff (hs : Sound s) (hcons : Consistent s) {coaId : String} :
    (∃ r, sides (accountLines s currency P coaId) = .ok r) ↔ Fits s currency P coaId := by
  obtain ⟨hnonneg, hnonneg'⟩ := nonneg_sides hs hcons currency P coaId
  constructor
  · rintro ⟨r, hr⟩
    simp only [sides, except_bind_eq_ok, except_pure_eq_ok] at hr
    obtain ⟨_, hdebit, _, hcredit, -⟩ := hr
    have hd := (sqlSum_mem hdebit).2
    have hc := (sqlSum_mem hcredit).2
    rw [sqlSum_eq_ok hdebit] at hd
    rw [sqlSum_eq_ok hcredit] at hc
    exact ⟨hd, hc⟩
  · rintro ⟨hdebit, hcredit⟩
    refine ⟨(((accountLines s currency P coaId).map JournalLine.debitMinor).sum,
      ((accountLines s currency P coaId).map JournalLine.creditMinor).sum), ?_⟩
    rw [sides, sqlSum_of_nonneg hnonneg hdebit, sqlSum_of_nonneg hnonneg' hcredit]
    rfl

def Splits (s : Db) (P Q R : Journal → Bool) : Prop :=
  ∀ j ∈ s.journals, (R j = true ↔ P j = true ∨ Q j = true) ∧ ¬(P j = true ∧ Q j = true)

theorem line_splits (hcons : Consistent s) {P Q R : Journal → Bool} (hsplits : Splits s P Q R)
    (currency coaId : String) (l : JournalLine) :
    (l ∈ accountLines s currency R coaId ↔
      l ∈ accountLines s currency P coaId ∨ l ∈ accountLines s currency Q coaId) ∧
      ¬(l ∈ accountLines s currency P coaId ∧ l ∈ accountLines s currency Q coaId) := by
  simp only [accountLines, List.mem_filter, decide_eq_true_eq]
  constructor
  · constructor
    · rintro ⟨hl, hcoa, hcurrency, j, hj, hid, hR⟩
      rcases (hsplits j hj).1.1 hR with hP | hQ
      · exact .inl ⟨hl, hcoa, hcurrency, j, hj, hid, hP⟩
      · exact .inr ⟨hl, hcoa, hcurrency, j, hj, hid, hQ⟩
    · rintro (⟨hl, hcoa, hcurrency, j, hj, hid, hP⟩ | ⟨hl, hcoa, hcurrency, j, hj, hid, hQ⟩)
      · exact ⟨hl, hcoa, hcurrency, j, hj, hid, (hsplits j hj).1.2 (.inl hP)⟩
      · exact ⟨hl, hcoa, hcurrency, j, hj, hid, (hsplits j hj).1.2 (.inr hQ)⟩
  · rintro ⟨⟨-, -, -, j, hj, hid, hP⟩, -, -, -, j', hj', hid', hQ⟩
    obtain rfl := hcons.linked.eq_of_key j hj j' hj' (hid.trans hid'.symm)
    exact (hsplits j hj).2 ⟨hP, hQ⟩

theorem sum_splits (hcons : Consistent s) {P Q R : Journal → Bool} (hsplits : Splits s P Q R)
    (f : JournalLine → ℤ) (coaId : String) :
    ((accountLines s currency R coaId).map f).sum =
      ((accountLines s currency P coaId).map f).sum +
        ((accountLines s currency Q coaId).map f).sum := by
  refine sum_filter_or f fun l hl ↦ ?_
  have hline := line_splits hcons hsplits currency coaId l
  simpa only [accountLines, List.mem_filter, hl, true_and] using hline

theorem Fits.splits (hs : Sound s) (hcons : Consistent s) {P Q R : Journal → Bool}
    (hsplits : Splits s P Q R) {coaId : String} (hfits : Fits s currency R coaId) :
    Fits s currency P coaId ∧ Fits s currency Q coaId := by
  obtain ⟨hdebit, hcredit⟩ := hfits
  rw [sum_splits hcons hsplits] at hdebit hcredit
  obtain ⟨hdebits, hcredits⟩ := nonneg_sides hs hcons currency P coaId
  obtain ⟨hdebits', hcredits'⟩ := nonneg_sides hs hcons currency Q coaId
  have h₁ := List.sum_nonneg hdebits
  have h₂ := List.sum_nonneg hcredits
  have h₃ := List.sum_nonneg hdebits'
  have h₄ := List.sum_nonneg hcredits'
  exact ⟨⟨by omega, by omega⟩, by omega, by omega⟩

def kindNet (s : Db) (bookId currency : String) (P : Journal → Bool)
    (K : String → CoaKind → Bool) : ℤ :=
  ((s.coa.filter fun a ↦ a.bookId = bookId && K a.id a.kind).map (net s currency P)).sum

theorem kindNet_or {K K' K'' : String → CoaKind → Bool}
    (hK : ∀ id k, (K'' id k = true ↔ K id k = true ∨ K' id k = true) ∧
      ¬(K id k = true ∧ K' id k = true)) :
    kindNet s bookId currency P K'' =
      kindNet s bookId currency P K + kindNet s bookId currency P K' := by
  refine sum_filter_or _ fun a _ ↦ ?_
  have ha := hK a.id a.kind
  simp only [Bool.and_eq_true]
  tauto

theorem kindNet_splits (hcons : Consistent s) {P Q R : Journal → Bool}
    (hsplits : Splits s P Q R) (K : String → CoaKind → Bool) :
    kindNet s bookId currency R K =
      kindNet s bookId currency P K + kindNet s bookId currency Q K := by
  rw [kindNet, kindNet, kindNet, ← List.sum_map_add]
  exact congrArg List.sum
    (List.map_congr_left fun a _ ↦ sum_splits hcons hsplits lineNet a.id)

theorem kindNet_all (hs : Sound s) (hcons : Consistent s) (bookId currency : String)
    (P : Journal → Bool) :
    kindNet s bookId currency P (fun _ _ ↦ true) = 0 := by
  simp only [kindNet, Bool.and_true]
  have hids : ((s.coa.filter fun a ↦ a.bookId = bookId).map CoaAccount.id).Nodup :=
    hs.accountIds.sublist (List.filter_sublist.map _)
  rw [← bookLinesOf_net hs hcons bookId currency P,
    ← sum_groupSum JournalLine.coaId _ hids fun l hl ↦ ?_, List.map_map]
  · refine congrArg List.sum (List.map_congr_left fun a ha ↦ ?_)
    rw [Function.comp_apply, net, groupSum, accountLines, bookLinesOf, List.filter_filter]
    refine congrArg (fun l ↦ (List.map lineNet l).sum) (List.filter_congr fun l hl ↦ ?_)
    by_cases hla : l.coaId = a.id
    · have hbook := (mem_accounts_iff hs hcons hl).1 (List.mem_map.2 ⟨a, ha, hla.symm⟩)
      simp [hla, hbook]
    · simp [hla]
  · obtain ⟨hl, hbook⟩ := List.mem_filter.1 hl
    exact (mem_accounts_iff hs hcons hl).2 (of_decide_eq_true hbook).1

end Accounts

section Rows

def sheetRow (s : Db) (currency : String) (P : Journal → Bool) (a : CoaAccount) : StatementRow :=
  ⟨a.id, a.code, a.name, a.kind, if a.kind = .asset then net s currency P a else -net s currency P a⟩

def movementRow (s : Db) (currency : String) (P : Journal → Bool) (a : CoaAccount) :
    Option StatementRow :=
  if accountLines s currency P a.id = [] then none
  else some ⟨a.id, a.code, a.name, a.kind,
    if a.kind = .income then -net s currency P a else net s currency P a⟩

theorem balanceRow_eq_ok (hs : Sound s) (hcons : Consistent s) {date : String} {a : CoaAccount}
    {row : StatementRow} (hrow : balanceRow s date currency a = .ok row) :
    row = sheetRow s currency (asOf date) a := by
  simp only [balanceRow, except_bind_eq_ok, except_pure_eq_ok] at hrow
  obtain ⟨⟨debit, credit⟩, hsides, rfl⟩ := hrow
  obtain ⟨hnet, hdebit, hcredit, -⟩ := sides_eq_ok hs hcons hsides
  rw [sheetRow, ← hnet, neg_sub]
  cases a.kind <;> simp [balance, hdebit, hcredit]

theorem incomeRow_eq_ok (hs : Sound s) (hcons : Consistent s) {fromDate toDate : String}
    {a : CoaAccount} {row : Option StatementRow}
    (hrow : incomeRow s fromDate toDate currency a = .ok row) :
    row = movementRow s currency (inRange fromDate toDate) a := by
  simp only [incomeRow, except_bind_eq_ok, except_pure_eq_ok] at hrow
  obtain ⟨⟨debit, credit⟩, hsides, rfl⟩ := hrow
  obtain ⟨hnet, hdebit, hcredit, hnil⟩ := sides_eq_ok hs hcons hsides
  simp only [movementRow, hnil]
  split
  · rfl
  · rw [← hnet, neg_sub]
    cases a.kind <;> simp [movement, hdebit, hcredit]

theorem balanceRow_isOk_iff (hs : Sound s) (hcons : Consistent s) {date : String}
    {a : CoaAccount} :
    (∃ row, balanceRow s date currency a = .ok row) ↔ Fits s currency (asOf date) a.id := by
  simp only [balanceRow, except_bind_eq_ok, except_pure_eq_ok, ← sides_isOk_iff hs hcons]
  constructor
  · rintro ⟨_, r, hr, -⟩
    exact ⟨r, hr⟩
  · rintro ⟨r, hr⟩
    exact ⟨_, r, hr, rfl⟩

theorem incomeRow_isOk_iff (hs : Sound s) (hcons : Consistent s) {fromDate toDate : String}
    {a : CoaAccount} : (∃ row, incomeRow s fromDate toDate currency a = .ok row) ↔
      Fits s currency (inRange fromDate toDate) a.id := by
  simp only [incomeRow, except_bind_eq_ok, except_pure_eq_ok, ← sides_isOk_iff hs hcons]
  constructor
  · rintro ⟨_, r, hr, -⟩
    exact ⟨r, hr⟩
  · rintro ⟨r, hr⟩
    exact ⟨_, r, hr, rfl⟩

def total (rows : List StatementRow) : ℤ :=
  (rows.map StatementRow.amountMinor).sum

theorem total_perm {rows rows' : List StatementRow} (hrows : rows.Perm rows') :
    total rows = total rows' :=
  (hrows.map _).sum_eq

theorem sum_kind {K : String → CoaKind → Bool} {f : CoaAccount → ℤ} {c : ℤ}
    (hf : ∀ a, K a.id a.kind = true → f a = c * net s currency P a) :
    (((s.coa.filter fun a ↦ a.bookId = bookId).filter fun a ↦ K a.id a.kind).map f).sum =
      c * kindNet s bookId currency P K := by
  have hboth : ∀ a ∈ s.coa, (K a.id a.kind && decide (a.bookId = bookId)) =
      (decide (a.bookId = bookId) && K a.id a.kind) := fun a _ ↦ Bool.and_comm _ _
  rw [kindNet, ← List.sum_map_mul_left, List.filter_filter, List.filter_congr hboth]
  refine congrArg List.sum (List.map_congr_left fun a ha ↦ hf a ?_)
  have hmem := (List.mem_filter.1 ha).2
  simp_all

/-- The rows of a kind add up to what its accounts moved. Rows of nothing may be left out. -/
theorem total_sheetRows (accounts : List CoaAccount) {Q : StatementRow → Bool}
    {K : String → CoaKind → Bool}
    (hQ : ∀ a, Q (sheetRow s currency P a) = true → K a.id a.kind = true)
    (hzero : ∀ a, Q (sheetRow s currency P a) = false → K a.id a.kind = true →
      (sheetRow s currency P a).amountMinor = 0) :
    total ((accounts.map (sheetRow s currency P)).filter Q) =
      ((accounts.filter fun a ↦ K a.id a.kind).map fun a ↦
        (sheetRow s currency P a).amountMinor).sum := by
  induction accounts with
  | nil => rfl
  | cons a accounts ih =>
    rw [List.map_cons, List.filter_cons, List.filter_cons]
    cases hq : Q (sheetRow s currency P a) with
    | true => simpa [total, hQ a hq] using ih
    | false =>
      cases hk : K a.id a.kind with
      | false => simpa using ih
      | true => simpa [hzero a hq hk] using ih

theorem net_of_nil {a : CoaAccount} (ha : accountLines s currency P a.id = []) :
    net s currency P a = 0 := by
  rw [net, ha]
  rfl

theorem total_movementRows (accounts : List CoaAccount) (K : String → CoaKind → Bool) :
    total ((accounts.map (movementRow s currency P)).reduceOption.filter fun r ↦
        K r.coaId r.kind) =
      ((accounts.filter fun a ↦ K a.id a.kind).map fun a ↦
        if a.kind = .income then -net s currency P a else net s currency P a).sum := by
  induction accounts with
  | nil => rfl
  | cons a accounts ih =>
    rw [List.map_cons, List.filter_cons]
    by_cases hnil : accountLines s currency P a.id = []
    · rw [movementRow, if_pos hnil, List.reduceOption_cons_of_none]
      cases hk : K a.id a.kind with
      | false => simpa using ih
      | true => simpa [net_of_nil hnil] using ih
    · rw [movementRow, if_neg hnil, List.reduceOption_cons_of_some, List.filter_cons]
      cases hk : K a.id a.kind with
      | false => simpa using ih
      | true => simpa [total] using ih

end Rows

section Reports

def ofKind (kind : CoaKind) (_ : String) (k : CoaKind) : Bool :=
  k = kind

def isMoving (_ : String) (k : CoaKind) : Bool :=
  k = .income || k = .expense

theorem kindNet_moving : kindNet s bookId currency P isMoving =
    kindNet s bookId currency P (ofKind .income) + kindNet s bookId currency P (ofKind .expense) :=
  kindNet_or fun _ k ↦ by cases k <;> simp [ofKind, isMoving]

theorem kindNet_equation (hs : Sound s) (hcons : Consistent s) (bookId currency : String)
    (P : Journal → Bool) :
    kindNet s bookId currency P (ofKind .asset) = -kindNet s bookId currency P (ofKind .liability) +
      -kindNet s bookId currency P (ofKind .equity) + -kindNet s bookId currency P isMoving := by
  have hall := kindNet_all hs hcons bookId currency P
  have hsplit : kindNet s bookId currency P (fun _ _ ↦ true) =
      kindNet s bookId currency P (ofKind .asset) + kindNet s bookId currency P fun _ k ↦
        k ≠ .asset := kindNet_or fun _ k ↦ by cases k <;> simp [ofKind]
  have hclaims : kindNet s bookId currency P (fun _ k ↦ k ≠ .asset) =
      kindNet s bookId currency P (ofKind .liability) + kindNet s bookId currency P fun _ k ↦
        k = .equity || (k = .income || k = .expense) :=
    kindNet_or fun _ k ↦ by cases k <;> simp [ofKind]
  have hequity : kindNet s bookId currency P (fun _ k ↦
      k = .equity || (k = .income || k = .expense)) =
      kindNet s bookId currency P (ofKind .equity) + kindNet s bookId currency P isMoving :=
    kindNet_or fun _ k ↦ by cases k <;> simp [ofKind, isMoving]
  omega

def movementRows (s : Db) (bookId currency : String) (P : Journal → Bool) : List StatementRow :=
  ((s.coa.filter fun a ↦ a.bookId = bookId ∧ (a.kind = .income ∨ a.kind = .expense)).map
    (movementRow s currency P)).reduceOption

theorem mem_movementRows {r : StatementRow} :
    r ∈ movementRows s bookId currency P ↔ ∃ a ∈ s.coa, a.bookId = bookId ∧
      (a.kind = .income ∨ a.kind = .expense) ∧ movementRow s currency P a = some r := by
  simp [movementRows, List.reduceOption_mem_iff, and_assoc]

theorem movementRow_eq_some {a : CoaAccount} {r : StatementRow}
    (hr : movementRow s currency P a = some r) :
    r.coaId = a.id ∧ r.kind = a.kind ∧ accountLines s currency P a.id ≠ [] := by
  rw [movementRow] at hr
  split at hr
  · cases hr
  · obtain rfl := Option.some.inj hr
    exact ⟨rfl, rfl, ‹_›⟩

def rowsFor (s : Db) (bookId currency : String) (P : Journal → Bool) (kind : CoaKind) :
    List StatementRow :=
  (movementRows s bookId currency P).filter fun r ↦ r.kind = kind

structure IncomeStatementOf (s : Db) (bookId currency : String) (P : Journal → Bool)
    (r : IncomeStatement) : Prop where
  income : r.income.Perm (rowsFor s bookId currency P .income)
  expenses : r.expenses.Perm (rowsFor s bookId currency P .expense)
  incomeTotal : r.incomeTotalMinor = asI64 (total r.income)
  expenseTotal : r.expenseTotalMinor = asI64 (total r.expenses)
  netProfit : r.netProfitMinor = asI64 (r.incomeTotalMinor - r.expenseTotalMinor)

theorem kind_of_mem {r : StatementRow} (hr : r ∈ movementRows s bookId currency P) :
    r.kind = .income ∨ r.kind = .expense := by
  obtain ⟨a, -, -, hkind, hrow⟩ := mem_movementRows.1 hr
  rwa [(movementRow_eq_some hrow).2.1]

theorem incomeStatement_eq_ok (hs : Sound s) (hcons : Consistent s) {fromDate toDate : String}
    {r : IncomeStatement} (hr : incomeStatement s bookId fromDate toDate currency = .ok r) :
    IncomeStatementOf s bookId currency (inRange fromDate toDate) r := by
  simp only [incomeStatement, except_bind_eq_ok, except_pure_eq_ok] at hr
  obtain ⟨rows, hrows, rfl⟩ := hr
  obtain rfl := except_mapM_eq_map (fun _ _ hrow ↦ incomeRow_eq_ok hs hcons hrow) hrows
  have hperm := List.perm_insertionSort byCode
    (movementRows s bookId currency (inRange fromDate toDate))
  have hexpenses : (movementRows s bookId currency (inRange fromDate toDate)).filter
      (fun r ↦ r.kind ≠ .income) = rowsFor s bookId currency (inRange fromDate toDate) .expense :=
    List.filter_congr fun r hr ↦ by rcases kind_of_mem hr with hkind | hkind <;> simp [hkind]
  exact ⟨hperm.filter _, hexpenses ▸ hperm.filter _, sumI64_eq _, sumI64_eq _, rfl⟩

theorem incomeStatement_isOk_iff (hs : Sound s) (hcons : Consistent s)
    {fromDate toDate : String} :
    (∃ r, incomeStatement s bookId fromDate toDate currency = .ok r) ↔
      ∀ a ∈ s.coa, a.bookId = bookId → (a.kind = .income ∨ a.kind = .expense) →
        Fits s currency (inRange fromDate toDate) a.id := by
  have hrows := except_mapM_isOk_iff (f := incomeRow s fromDate toDate currency)
    (l := s.coa.filter fun a ↦ a.bookId = bookId ∧ (a.kind = .income ∨ a.kind = .expense))
  simp only [List.mem_filter, decide_eq_true_eq, incomeRow_isOk_iff hs hcons, and_imp] at hrows
  rw [← hrows]
  simp only [incomeStatement, except_bind_eq_ok, except_pure_eq_ok]
  constructor
  · rintro ⟨_, rows, hr, -⟩
    exact ⟨rows, hr⟩
  · rintro ⟨rows, hr⟩
    exact ⟨_, rows, hr, rfl⟩

theorem nodup_rowsFor (hs : Sound s) (kind : CoaKind) :
    ((rowsFor s bookId currency P kind).map StatementRow.coaId).Nodup := by
  refine (?_ : ((movementRows s bookId currency P).map StatementRow.coaId).Nodup).sublist
    (List.filter_sublist.map _)
  rw [movementRows, List.reduceOption, List.filterMap_map, List.nodup_iff_pairwise_ne,
    List.pairwise_map]
  have hids : s.coa.Pairwise fun a b ↦ a.id ≠ b.id := List.pairwise_map.1 hs.accountIds
  refine (hids.sublist List.filter_sublist).filterMap _ fun a b hab r hr r' hr' heq ↦ hab ?_
  rw [← (movementRow_eq_some hr).1, ← (movementRow_eq_some hr').1, heq]

structure BalanceSheetOf (s : Db) (bookId currency : String) (P : Journal → Bool)
    (r : BalanceSheet) : Prop where
  rows : ∀ kind rows, (kind, rows) ∈ [(.asset, r.assets), (.liability, r.liabilities),
    (CoaKind.equity, r.equity)] → rows.Perm (rowsOfKind kind
      ((s.coa.filter fun a ↦ a.bookId = bookId).map (sheetRow s currency P)))
  retained : r.retainedEarningsMinor = asI64 (total
    (((s.coa.filter fun a ↦ a.bookId = bookId).map (sheetRow s currency P)).filter isMovement))
  assetsTotal : r.assetsTotalMinor = asI64 (total r.assets)
  liabilitiesTotal : r.liabilitiesTotalMinor = asI64 (total r.liabilities)
  equityTotal : r.equityTotalMinor = asI64 (total r.equity + r.retainedEarningsMinor)

theorem balanceSheet_eq_ok (hs : Sound s) (hcons : Consistent s) {date : String}
    {r : BalanceSheet} (hr : balanceSheet s bookId date currency = .ok r) :
    BalanceSheetOf s bookId currency (asOf date) r := by
  simp only [balanceSheet, except_bind_eq_ok, except_pure_eq_ok] at hr
  obtain ⟨rows, hrows, rfl⟩ := hr
  obtain rfl := except_mapM_eq_map (fun _ _ hrow ↦ balanceRow_eq_ok hs hcons hrow) hrows
  have hperm := List.perm_insertionSort byCode
    ((s.coa.filter fun a ↦ a.bookId = bookId).map (sheetRow s currency (asOf date)))
  constructor
  · simp only [List.mem_cons, Prod.mk.injEq, List.not_mem_nil, or_false]
    rintro kind rows (⟨rfl, rfl⟩ | ⟨rfl, rfl⟩ | ⟨rfl, rfl⟩) <;> exact hperm.filter _
  · rw [sumI64_eq]
    exact congrArg asI64 (total_perm (hperm.filter _))
  · exact sumI64_eq _
  · exact sumI64_eq _
  · simp [sumI64_eq, total]

theorem balanceSheet_isOk_iff (hs : Sound s) (hcons : Consistent s) {date : String} :
    (∃ r, balanceSheet s bookId date currency = .ok r) ↔
      ∀ a ∈ s.coa, a.bookId = bookId → Fits s currency (asOf date) a.id := by
  have hrows := except_mapM_isOk_iff (f := balanceRow s date currency)
    (l := s.coa.filter fun a ↦ a.bookId = bookId)
  simp only [List.mem_filter, decide_eq_true_eq, balanceRow_isOk_iff hs hcons, and_imp] at hrows
  rw [← hrows]
  simp only [balanceSheet, except_bind_eq_ok, except_pure_eq_ok]
  constructor
  · rintro ⟨_, rows, hr, -⟩
    exact ⟨rows, hr⟩
  · rintro ⟨rows, hr⟩
    exact ⟨_, rows, hr, rfl⟩

theorem total_rowsOfKind (kind : CoaKind) :
    total (rowsOfKind kind ((s.coa.filter fun a ↦ a.bookId = bookId).map (sheetRow s currency P))) =
      (if kind = .asset then 1 else -1) * kindNet s bookId currency P (ofKind kind) := by
  rw [rowsOfKind, total_sheetRows (K := ofKind kind)]
  · refine sum_kind fun a ha ↦ ?_
    obtain rfl : a.kind = kind := of_decide_eq_true ha
    rw [sheetRow]
    split <;> simp
  · intro a ha
    exact decide_eq_true (of_decide_eq_true ha).1
  · intro a ha hkind
    by_contra hne
    exact of_decide_eq_false ha ⟨of_decide_eq_true hkind, hne⟩

theorem total_retained :
    total (((s.coa.filter fun a ↦ a.bookId = bookId).map (sheetRow s currency P)).filter
      isMovement) = -kindNet s bookId currency P isMoving := by
  rw [total_sheetRows (K := isMoving) _ (fun a ha ↦ ha) fun a ha hkind ↦ ?_]
  · rw [neg_eq_neg_one_mul]
    refine sum_kind fun a ha ↦ ?_
    have hkind : a.kind ≠ .asset := by
      rintro heq
      simp [isMoving, heq] at ha
    simp [sheetRow, hkind]
  · exact absurd (ha.symm.trans hkind) (by decide)

theorem total_movementRows_kind {Q : StatementRow → Bool} {K : String → CoaKind → Bool}
    {kind : CoaKind} (hkind : kind = .income ∨ kind = .expense)
    (hQ : ∀ r ∈ movementRows s bookId currency P, Q r = K r.coaId r.kind)
    (hK : ∀ id k, K id k = true → k = kind) :
    total ((movementRows s bookId currency P).filter Q) =
      (if kind = .income then -1 else 1) * kindNet s bookId currency P K := by
  rw [List.filter_congr hQ, movementRows, total_movementRows, List.filter_filter]
  have hmoving : ∀ a ∈ s.coa, (K a.id a.kind && decide (a.bookId = bookId ∧
      (a.kind = .income ∨ a.kind = .expense))) =
        (K a.id a.kind && decide (a.bookId = bookId)) := by
    intro a _
    cases hka : K a.id a.kind with
    | false => rfl
    | true =>
      obtain rfl := hK _ _ hka
      simp [hkind]
  rw [List.filter_congr hmoving, ← List.filter_filter]
  refine sum_kind fun a ha ↦ ?_
  obtain rfl := hK _ _ ha
  split <;> simp

theorem total_rowsFor {kind : CoaKind} (hkind : kind = .income ∨ kind = .expense) :
    total (rowsFor s bookId currency P kind) =
      (if kind = .income then -1 else 1) * kindNet s bookId currency P (ofKind kind) :=
  total_movementRows_kind hkind (fun _ _ ↦ rfl) fun _ _ ↦ of_decide_eq_true

variable {statement : IncomeStatement} {sheet : BalanceSheet}

theorem IncomeStatementOf.profit (hof : IncomeStatementOf s bookId currency P statement) :
    total statement.income - total statement.expenses = -kindNet s bookId currency P isMoving := by
  rw [total_perm hof.income, total_perm hof.expenses, total_rowsFor (.inl rfl),
    total_rowsFor (.inr rfl), kindNet_moving]
  simp only [reduceCtorEq, if_true, if_false]
  omega

/-- The accounting equation of the sheet, with what the year has earned. -/
theorem BalanceSheetOf.equation (hs : Sound s) (hcons : Consistent s)
    (hof : BalanceSheetOf s bookId currency P sheet) :
    total sheet.assets = total sheet.liabilities + total sheet.equity +
      -kindNet s bookId currency P isMoving := by
  rw [total_perm (hof.rows .asset sheet.assets (by simp)),
    total_perm (hof.rows .liability sheet.liabilities (by simp)),
    total_perm (hof.rows .equity sheet.equity (by simp)), total_rowsOfKind, total_rowsOfKind,
    total_rowsOfKind]
  have hequation := kindNet_equation hs hcons bookId currency P
  simp only [reduceCtorEq, if_true, if_false]
  omega

theorem accountLines_congr {Q : Journal → Bool} (hPQ : ∀ j ∈ s.journals, P j = Q j)
    (coaId : String) : accountLines s currency P coaId = accountLines s currency Q coaId := by
  refine List.filter_congr fun l _ ↦ ?_
  refine decide_eq_decide.2 (and_congr_right fun _ ↦ and_congr_right fun _ ↦ ?_)
  exact exists_congr fun j ↦ and_congr_right fun hj ↦ by rw [hPQ j hj]

theorem kindNet_congr {Q : Journal → Bool} {K : String → CoaKind → Bool}
    (hPQ : ∀ j ∈ s.journals, P j = Q j) :
    kindNet s bookId currency P K = kindNet s bookId currency Q K :=
  congrArg List.sum (List.map_congr_left fun a _ ↦ by
    rw [net, net, accountLines_congr hPQ])

end Reports

section Lines

def amountOf (rows : List StatementRow) (coaId : String) : ℤ :=
  groupSum StatementRow.coaId StatementRow.amountMinor rows coaId

/-- The whole is the sum of its parts, line by line. -/
structure SumOf (whole first second : IncomeStatement) : Prop where
  incomeRows : ∀ coaId, coaId ∈ whole.income.map StatementRow.coaId ↔
    coaId ∈ first.income.map StatementRow.coaId ∨ coaId ∈ second.income.map StatementRow.coaId
  expenseRows : ∀ coaId, coaId ∈ whole.expenses.map StatementRow.coaId ↔
    coaId ∈ first.expenses.map StatementRow.coaId ∨ coaId ∈ second.expenses.map StatementRow.coaId
  income : ∀ coaId, amountOf whole.income coaId =
    amountOf first.income coaId + amountOf second.income coaId
  expenses : ∀ coaId, amountOf whole.expenses coaId =
    amountOf first.expenses coaId + amountOf second.expenses coaId
  incomeTotal : whole.incomeTotalMinor = asI64 (first.incomeTotalMinor + second.incomeTotalMinor)
  expenseTotal : whole.expenseTotalMinor =
    asI64 (first.expenseTotalMinor + second.expenseTotalMinor)
  netProfit : whole.netProfitMinor = asI64 (first.netProfitMinor + second.netProfitMinor)

theorem mem_rowsFor {kind : CoaKind} (hkind : kind = .income ∨ kind = .expense)
    {coaId : String} : coaId ∈ (rowsFor s bookId currency P kind).map StatementRow.coaId ↔
      ∃ a ∈ s.coa, a.id = coaId ∧ a.bookId = bookId ∧ a.kind = kind ∧
        ∃ l, l ∈ accountLines s currency P a.id := by
  simp only [rowsFor, List.mem_map, List.mem_filter, mem_movementRows, decide_eq_true_eq]
  constructor
  · rintro ⟨r, ⟨⟨a, ha, hbook, -, hrow⟩, rfl⟩, rfl⟩
    obtain ⟨hid, hsame, hlines⟩ := movementRow_eq_some hrow
    exact ⟨a, ha, hid.symm, hbook, hsame.symm, List.exists_mem_of_ne_nil _ hlines⟩
  · rintro ⟨a, ha, rfl, hbook, rfl, l, hl⟩
    exact ⟨_, ⟨⟨a, ha, hbook, hkind, if_neg (List.ne_nil_of_mem hl)⟩, rfl⟩, rfl⟩

theorem amountOf_rowsFor {kind : CoaKind} (hkind : kind = .income ∨ kind = .expense)
    (coaId : String) : amountOf (rowsFor s bookId currency P kind) coaId =
      (if kind = .income then -1 else 1) *
        kindNet s bookId currency P fun id k ↦ id = coaId && k = kind := by
  rw [amountOf, groupSum, rowsFor, List.filter_filter]
  exact total_movementRows_kind hkind (fun _ _ ↦ rfl) (by simp)

section Splitting

variable {Q R : Journal → Bool} {kind : CoaKind}

theorem mem_rowsFor_splits (hcons : Consistent s) (hsplits : Splits s P Q R)
    (hkind : kind = .income ∨ kind = .expense) (coaId : String) :
    coaId ∈ (rowsFor s bookId currency R kind).map StatementRow.coaId ↔
      coaId ∈ (rowsFor s bookId currency P kind).map StatementRow.coaId ∨
        coaId ∈ (rowsFor s bookId currency Q kind).map StatementRow.coaId := by
  simp only [mem_rowsFor hkind, (line_splits hcons hsplits _ _ _).1]
  constructor
  · rintro ⟨a, ha, hid, hbook, hsame, l, hl | hl⟩
    · exact .inl ⟨a, ha, hid, hbook, hsame, l, hl⟩
    · exact .inr ⟨a, ha, hid, hbook, hsame, l, hl⟩
  · rintro (⟨a, ha, hid, hbook, hsame, l, hl⟩ | ⟨a, ha, hid, hbook, hsame, l, hl⟩)
    · exact ⟨a, ha, hid, hbook, hsame, l, .inl hl⟩
    · exact ⟨a, ha, hid, hbook, hsame, l, .inr hl⟩

theorem amountOf_splits (hcons : Consistent s) (hsplits : Splits s P Q R)
    (hkind : kind = .income ∨ kind = .expense) (coaId : String) :
    amountOf (rowsFor s bookId currency R kind) coaId =
      amountOf (rowsFor s bookId currency P kind) coaId +
        amountOf (rowsFor s bookId currency Q kind) coaId := by
  rw [amountOf_rowsFor hkind, amountOf_rowsFor hkind, amountOf_rowsFor hkind,
    kindNet_splits hcons hsplits, mul_add]

theorem total_rowsFor_splits (hcons : Consistent s) (hsplits : Splits s P Q R)
    (hkind : kind = .income ∨ kind = .expense) :
    total (rowsFor s bookId currency R kind) =
      total (rowsFor s bookId currency P kind) + total (rowsFor s bookId currency Q kind) := by
  rw [total_rowsFor hkind, total_rowsFor hkind, total_rowsFor hkind,
    kindNet_splits hcons hsplits, mul_add]

theorem IncomeStatementOf.splits (hcons : Consistent s) (hsplits : Splits s P Q R)
    {whole first second : IncomeStatement} (hwhole : IncomeStatementOf s bookId currency R whole)
    (hfirst : IncomeStatementOf s bookId currency P first)
    (hsecond : IncomeStatementOf s bookId currency Q second) : SumOf whole first second := by
  have hincome : whole.incomeTotalMinor =
      asI64 (first.incomeTotalMinor + second.incomeTotalMinor) := by
    rw [hwhole.incomeTotal, hfirst.incomeTotal, hsecond.incomeTotal, asI64_add_left,
      asI64_add_right, total_perm hwhole.income, total_perm hfirst.income,
      total_perm hsecond.income, total_rowsFor_splits hcons hsplits (.inl rfl)]
  have hexpense : whole.expenseTotalMinor =
      asI64 (first.expenseTotalMinor + second.expenseTotalMinor) := by
    rw [hwhole.expenseTotal, hfirst.expenseTotal, hsecond.expenseTotal, asI64_add_left,
      asI64_add_right, total_perm hwhole.expenses, total_perm hfirst.expenses,
      total_perm hsecond.expenses, total_rowsFor_splits hcons hsplits (.inr rfl)]
  refine ⟨fun coaId ↦ ?_, fun coaId ↦ ?_, fun coaId ↦ ?_, fun coaId ↦ ?_, hincome, hexpense, ?_⟩
  · rw [(hwhole.income.map _).mem_iff, (hfirst.income.map _).mem_iff,
      (hsecond.income.map _).mem_iff]
    exact mem_rowsFor_splits hcons hsplits (.inl rfl) coaId
  · rw [(hwhole.expenses.map _).mem_iff, (hfirst.expenses.map _).mem_iff,
      (hsecond.expenses.map _).mem_iff]
    exact mem_rowsFor_splits hcons hsplits (.inr rfl) coaId
  · rw [amountOf, amountOf, amountOf, groupSum_perm hwhole.income, groupSum_perm hfirst.income,
      groupSum_perm hsecond.income]
    exact amountOf_splits hcons hsplits (.inl rfl) coaId
  · rw [amountOf, amountOf, amountOf, groupSum_perm hwhole.expenses,
      groupSum_perm hfirst.expenses, groupSum_perm hsecond.expenses]
    exact amountOf_splits hcons hsplits (.inr rfl) coaId
  · rw [hwhole.netProfit, hincome, hexpense, asI64_sub, hfirst.netProfit, hsecond.netProfit,
      asI64_add_left, asI64_add_right]
    exact congrArg asI64 (by omega)

end Splitting

end Lines

section Ranges

theorem splits_of_adjacent (hdated : Dated h s) {start₁ stop₁ start₂ stop₂ : String}
    (h₁ : start₁ ≤ stop₁) (h₂ : start₂ ≤ stop₂) (hadjacent : Adjacent h stop₁ start₂) :
    Splits s (inRange start₁ stop₁) (inRange start₂ stop₂) (inRange start₁ stop₂) := by
  obtain ⟨hlt, hcover⟩ := hadjacent
  intro j hj
  simp only [inRange, Bool.and_eq_true, decide_eq_true_eq]
  refine ⟨⟨fun ⟨hfrom, hto⟩ ↦ ?_, ?_⟩, fun ⟨⟨_, hto⟩, hfrom, _⟩ ↦ ?_⟩
  · rcases hcover _ (hdated j hj) with hleft | hright
    · exact .inl ⟨hfrom, hleft⟩
    · exact .inr ⟨hright, hto⟩
  · rintro (⟨hfrom, hto⟩ | ⟨hfrom, hto⟩)
    · exact ⟨hfrom, hto.trans (hlt.le.trans h₂)⟩
    · exact ⟨h₁.trans (hlt.le.trans hfrom), hto⟩
  · exact absurd (hlt.trans_le hfrom) (not_lt.2 hto)

theorem asOf_eq_inRange {fromDate : String} (hfrom : ∀ j ∈ s.journals, fromDate ≤ j.postedDate)
    (date : String) : ∀ j ∈ s.journals, inRange fromDate date j = asOf date j := fun j hj ↦ by
  simp [inRange, asOf, hfrom j hj]

/-- The two reports of every book in every run. The sheet satisfies the accounting equation, what
it retains is the profit of all dates up to its own, and the statement of two adjacent ranges is
the sum of their statements. -/
theorem statements_agree (h : Host) (parseSlip : String → Except Fault SlipPayload) (s : Db)
    (hs : Reachable h parseSlip anyCall s) (bookId currency : String) :
    (∀ date sheet, balanceSheet s bookId date currency = .ok sheet → ∃ retained,
      total sheet.assets = total sheet.liabilities + total sheet.equity + retained ∧
      sheet.retainedEarningsMinor = asI64 retained ∧
      sheet.assetsTotalMinor = asI64 (total sheet.assets) ∧
      sheet.assetsTotalMinor = asI64 (sheet.liabilitiesTotalMinor + sheet.equityTotalMinor) ∧
      ∀ fromDate, (∀ j ∈ s.journals, fromDate ≤ j.postedDate) →
        ∃ statement, incomeStatement s bookId fromDate date currency = .ok statement ∧
          sheet.retainedEarningsMinor = statement.netProfitMinor ∧
          retained = total statement.income - total statement.expenses) ∧
    (∀ start₁ stop₁ start₂ stop₂, start₁ ≤ stop₁ → start₂ ≤ stop₂ → Adjacent h stop₁ start₂ →
      ∀ whole, incomeStatement s bookId start₁ stop₂ currency = .ok whole →
        ∃ first second, incomeStatement s bookId start₁ stop₁ currency = .ok first ∧
          incomeStatement s bookId start₂ stop₂ currency = .ok second ∧ SumOf whole first second) ∧
    (∀ fromDate toDate statement,
      incomeStatement s bookId fromDate toDate currency = .ok statement →
        (statement.income.map StatementRow.coaId).Nodup ∧
          (statement.expenses.map StatementRow.coaId).Nodup) ∧
    (∀ date, (∃ sheet, balanceSheet s bookId date currency = .ok sheet) ↔
      ∀ a ∈ s.coa, a.bookId = bookId → Fits s currency (asOf date) a.id) ∧
    ∀ fromDate toDate,
      (∃ statement, incomeStatement s bookId fromDate toDate currency = .ok statement) ↔
        ∀ a ∈ s.coa, a.bookId = bookId → (a.kind = .income ∨ a.kind = .expense) →
          Fits s currency (inRange fromDate toDate) a.id := by
  have hsound := sound_of_reachable hs
  have hcons := consistent_of_reachable hs
  have hdated := dated_of_reachable hs
  refine ⟨fun date sheet hsheet ↦ ?_, fun start₁ stop₁ start₂ stop₂ h₁ h₂ hadjacent whole hwhole ↦ ?_,
    fun _ _ statement hstatement ↦ ?_, fun _ ↦ balanceSheet_isOk_iff hsound hcons,
    fun _ _ ↦ incomeStatement_isOk_iff hsound hcons⟩
  · have hof := balanceSheet_eq_ok hsound hcons hsheet
    have hequation := hof.equation hsound hcons
    refine ⟨_, hequation, by rw [hof.retained, total_retained], hof.assetsTotal, ?_,
      fun fromDate hfrom ↦ ?_⟩
    · rw [hof.assetsTotal, hof.liabilitiesTotal, hof.equityTotal, asI64_add_left, asI64_add_right,
        hequation, ← add_assoc, hof.retained, asI64_add_right, total_retained]
    · have hsame := asOf_eq_inRange hfrom date
      obtain ⟨statement, hstatement⟩ := (incomeStatement_isOk_iff hsound hcons).2
        fun a ha hbook _ ↦ by
          have hfits := (balanceSheet_isOk_iff hsound hcons).1 ⟨sheet, hsheet⟩ a ha hbook
          rwa [Fits, accountLines_congr hsame, ← Fits]
      have hprofit := incomeStatement_eq_ok hsound hcons hstatement
      refine ⟨statement, hstatement, ?_, ?_⟩
      · rw [hof.retained, total_retained, hprofit.netProfit, hprofit.incomeTotal,
          hprofit.expenseTotal, asI64_sub, hprofit.profit, kindNet_congr hsame]
      · rw [hprofit.profit, kindNet_congr hsame]
  · have hsplits := splits_of_adjacent hdated h₁ h₂ hadjacent
    have hfits := (incomeStatement_isOk_iff hsound hcons).1 ⟨whole, hwhole⟩
    obtain ⟨first, hfirst⟩ := (incomeStatement_isOk_iff hsound hcons).2 fun a ha hbook hkind ↦
      ((hfits a ha hbook hkind).splits hsound hcons hsplits).1
    obtain ⟨second, hsecond⟩ := (incomeStatement_isOk_iff hsound hcons).2 fun a ha hbook hkind ↦
      ((hfits a ha hbook hkind).splits hsound hcons hsplits).2
    exact ⟨first, second, hfirst, hsecond, (incomeStatement_eq_ok hsound hcons hwhole).splits hcons
      hsplits (incomeStatement_eq_ok hsound hcons hfirst)
      (incomeStatement_eq_ok hsound hcons hsecond)⟩
  · have hof := incomeStatement_eq_ok hsound hcons hstatement
    exact ⟨(hof.income.map _).nodup_iff.2 (nodup_rowsFor hsound _),
      (hof.expenses.map _).nodup_iff.2 (nodup_rowsFor hsound _)⟩

theorem lex_between {l : List Char} {c d : Char} (p : List Char)
    (hl : l.length = p.length + 1) (hcd : d.toNat ≤ c.toNat + 1)
    (hlow : p ++ [c] < l) (hhigh : l < p ++ [d]) : False := by
  induction p generalizing l with
  | nil =>
    obtain ⟨x, rfl⟩ := List.length_eq_one_iff.1 hl
    simp only [List.nil_append, List.cons_lt_cons_iff, List.not_lt_nil, and_false, or_false]
      at hlow hhigh
    have h₁ : c.toNat < x.toNat := hlow
    have h₂ : x.toNat < d.toNat := hhigh
    omega
  | cons y p ih =>
    obtain ⟨x, l, rfl⟩ := List.exists_cons_of_length_eq_add_one hl
    simp only [List.cons_append, List.cons_lt_cons_iff] at hlow hhigh
    rcases hlow with hlow | ⟨rfl, hlow⟩
    · rcases hhigh with hhigh | ⟨rfl, -⟩
      · exact absurd hlow hhigh.asymm
      · exact absurd hlow (Char.lt_irrefl _)
    · rcases hhigh with hhigh | ⟨-, hhigh⟩
      · exact absurd hhigh (Char.lt_irrefl _)
      · exact ih (by simpa using hl) hlow hhigh

theorem adjacent_plain : Adjacent plainHost "2025-01-30" "2025-01-31" := by
  refine ⟨by decide +kernel, fun date hdate ↦ ?_⟩
  by_contra! hbetween
  obtain ⟨hlow, hhigh⟩ := hbetween
  rw [String.lt_iff_toList_lt] at hlow hhigh
  have hlength : date.toList.length = 10 := by
    change (plainParse date).isSome at hdate
    rw [plainParse] at hdate
    split at hdate
    · rename_i hlist
      simp [hlist]
    · cases hdate
  exact lex_between "2025-01-3".toList hlength (c := '0') (d := '1') (by decide) hlow hhigh

def twoSales : Db :=
  runs setup (bankAndIncome ++ [sale "2025-01-30" 100 100, sale "2025-01-31" 50 50])

theorem statements_agree_of_sales :
    (∃ sheet, balanceSheet twoSales "book" "2025-01-31" "ZAR" = .ok sheet ∧
      sheet.retainedEarningsMinor = 150 ∧
      ∃ retained, total sheet.assets = total sheet.liabilities + total sheet.equity + retained ∧
        sheet.retainedEarningsMinor = asI64 retained) ∧
    ∃ whole first second,
      incomeStatement twoSales "book" "2025-01-01" "2025-01-31" "ZAR" = .ok whole ∧
      incomeStatement twoSales "book" "2025-01-01" "2025-01-30" "ZAR" = .ok first ∧
      incomeStatement twoSales "book" "2025-01-31" "2025-01-31" "ZAR" = .ok second ∧
      whole.netProfitMinor = 150 ∧ SumOf whole first second := by
  have hagree := statements_agree plainHost noSlip twoSales
    (reachable_runs reachable_setup _) "book" "ZAR"
  have hsheet : balanceSheet twoSales "book" "2025-01-31" "ZAR" = .ok
      ⟨"book", "2025-01-31", "ZAR", [⟨"x", "1000", "Bank", .asset, 150⟩], [], [], 150, 150, 0,
        150⟩ := by decide +kernel
  have hwhole : incomeStatement twoSales "book" "2025-01-01" "2025-01-31" "ZAR" = .ok
      ⟨"book", "2025-01-01", "2025-01-31", "ZAR", [⟨"xx", "4200", "Income", .income, 150⟩], [],
        150, 0, 150⟩ := by decide +kernel
  obtain ⟨retained, hequation, hretained, -⟩ := hagree.1 _ _ hsheet
  obtain ⟨first, second, hfirst, hsecond, hsum⟩ := hagree.2.1 "2025-01-01" "2025-01-30"
    "2025-01-31" "2025-01-31" (by decide +kernel) le_rfl adjacent_plain _ hwhole
  exact ⟨⟨_, hsheet, rfl, retained, hequation, hretained⟩, _, first, second, hwhole, hfirst,
    hsecond, rfl, hsum⟩

end Ranges

end SlipScan.Ledger.Statements
