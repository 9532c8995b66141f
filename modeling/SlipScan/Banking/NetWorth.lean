import SlipScan.Model.NetWorth
import SlipScan.Foundation.Grouping
import SlipScan.Ledger.Amounts
import SlipScan.Model.PlainHost

namespace SlipScan.Banking.NetWorth

open Relation Foundation.Transaction Foundation.Interleaving Foundation.Table Foundation.Grouping
open Model.Domain Model.Database Model.Money Model.NetWorth Model.PlainHost Ledger.Amounts
  Ledger.Soundness

section Balances

variable {db : WorthDb} {accountId currency : String}

def upTo (db : WorthDb) (accountId currency asOfDate : String) : List ℤ :=
  ((ownTransactions db accountId currency).filter fun t ↦ t.postedDate ≤ asOfDate).map
    Transaction.amountMinor

/-- The sums of an account's movements stay within 64 bits, however many of them are taken. -/
def Fits (db : WorthDb) (account : BalanceAccount) : Prop :=
  ∀ amounts : List ℤ, amounts.Sublist
      ((ownTransactions db account.id account.currency).map Transaction.amountMinor) →
    -2 ^ 63 ≤ amounts.sum ∧ amounts.sum < 2 ^ 63

theorem balanceAsOf_eq_ok {opening v : ℤ} {asOfDate : String}
    (hv : balanceAsOf db accountId currency opening asOfDate = .ok v) :
    v = asI64 (opening + (upTo db accountId currency asOfDate).sum) := by
  rw [balanceAsOf, except_bind_eq_ok] at hv
  obtain ⟨sum, hsum, hv⟩ := hv
  rw [except_pure_eq_ok, sqlSum_eq_ok hsum] at hv
  exact hv.symm

theorem balanceAsOf_of_fits {account : BalanceAccount} (hfits : Fits db account)
    (asOfDate : String) :
    balanceAsOf db account.id account.currency account.openingBalanceMinor asOfDate =
      .ok (asI64 (account.openingBalanceMinor +
        (upTo db account.id account.currency asOfDate).sum)) := by
  have hsum : sqlSum (upTo db account.id account.currency asOfDate) =
      .ok (upTo db account.id account.currency asOfDate).sum := by
    apply sqlSum_of_prefixes
    intro amounts hprefix
    apply hfits
    exact hprefix.sublist.trans ((List.filter_sublist).map _)
  rw [upTo] at hsum
  rw [balanceAsOf, hsum]
  rfl

def movementDates (db : WorthDb) (accountId currency : String) : List String :=
  ((ownTransactions db accountId currency).map Transaction.postedDate).dedup.insertionSort (· ≤ ·)

theorem nodup_movementDates : (movementDates db accountId currency).Nodup :=
  (List.perm_insertionSort _ _).nodup_iff.2 (List.nodup_dedup _)

theorem mem_movementDates {date : String} :
    date ∈ movementDates db accountId currency ↔
      ∃ t ∈ ownTransactions db accountId currency, t.postedDate = date := by
  rw [movementDates, List.mem_insertionSort, List.mem_dedup, List.mem_map]

theorem pairwise_movementDates (db : WorthDb) (accountId currency : String) :
    (movementDates db accountId currency).Pairwise (· < ·) := by
  have hsorted : (movementDates db accountId currency).Pairwise (· ≤ ·) :=
    List.pairwise_insertionSort _ _
  exact (hsorted.and nodup_movementDates).imp fun hle ↦ lt_of_le_of_ne hle.1 hle.2

def dayTotal (db : WorthDb) (accountId currency date : String) : ℤ :=
  groupSum Transaction.postedDate Transaction.amountMinor (ownTransactions db accountId currency)
    date

theorem ownCurrencyDeltasByDate_eq_ok {deltas : List (String × ℤ)}
    (hdeltas : ownCurrencyDeltasByDate db accountId currency = .ok deltas) :
    deltas = (movementDates db accountId currency).map fun date ↦
      (date, dayTotal db accountId currency date) := by
  apply except_mapM_eq_map _ hdeltas
  intro date delta hdelta
  rw [except_bind_eq_ok] at hdelta
  obtain ⟨total, htotal, hdelta⟩ := hdelta
  rw [except_pure_eq_ok, sqlSum_eq_ok htotal] at hdelta
  exact hdelta.symm

/-- The days up to a date add up to the movements up to that date. -/
theorem sum_dayTotal (asOfDate : String) :
    (((movementDates db accountId currency).filter (· ≤ asOfDate)).map
      (dayTotal db accountId currency)).sum = (upTo db accountId currency asOfDate).sum := by
  rw [upTo, ← sum_groupSum Transaction.postedDate Transaction.amountMinor
    (nodup_movementDates.filter fun date ↦ decide (date ≤ asOfDate))]
  · refine congrArg List.sum (List.map_congr_left fun date hdate ↦ ?_)
    have hle : date ≤ asOfDate := by simpa using (List.mem_filter.1 hdate).2
    rw [dayTotal, groupSum, groupSum, List.filter_filter]
    refine congrArg (fun l ↦ (List.map Transaction.amountMinor l).sum)
      (List.filter_congr fun t _ ↦ ?_)
    by_cases ht : t.postedDate = date
    · simp [ht, hle]
    · simp [ht]
  · intro t ht
    rw [List.mem_filter] at ht ⊢
    exact ⟨mem_movementDates.2 ⟨t, ht.1, rfl⟩, ht.2⟩

/-- From the current total, what came after a day is taken off to reach the end of that day. -/
theorem sum_walkedBack {days : List (String × ℤ)}
    (hdays : ownCurrencyDeltasByDate db accountId currency = .ok days) (asOfDate : String) :
    (days.map Prod.snd).sum - ((days.filter fun day ↦ asOfDate < day.1).map Prod.snd).sum =
      (upTo db accountId currency asOfDate).sum := by
  have hsplit := sum_filter_or (l := days) (r := fun _ ↦ true)
    (p := fun day ↦ decide (day.1 ≤ asOfDate)) (q := fun day ↦ decide (asOfDate < day.1))
    Prod.snd fun day _ ↦ by
      simp only [decide_eq_true_eq, true_iff, not_and, not_lt]
      exact ⟨le_or_gt _ _, id⟩
  rw [List.filter_true] at hsplit
  rw [hsplit, add_sub_cancel_right, ← sum_dayTotal, ownCurrencyDeltasByDate_eq_ok hdays,
    List.filter_map, List.map_map]
  rfl

end Balances

section Writes

variable {h : Host} {s t u : WorthDb} {created created' : List NetWorthSnapshot}

/-- From `s` to `t` some snapshots were added and nothing else was changed. -/
structure Records (s : WorthDb) (created : List NetWorthSnapshot) (t : WorthDb) : Prop where
  snapshots : t.snapshots = s.snapshots ++ created
  books : t.books = s.books
  accounts : t.accounts = s.accounts
  transactions : t.transactions = s.transactions

theorem Records.refl (s : WorthDb) : Records s [] s :=
  ⟨by simp, rfl, rfl, rfl⟩

theorem Records.trans (hst : Records s created t) (htu : Records t created' u) :
    Records s (created ++ created') u where
  snapshots := by rw [htu.snapshots, hst.snapshots, List.append_assoc]
  books := htu.books.trans hst.books
  accounts := htu.accounts.trans hst.accounts
  transactions := htu.transactions.trans hst.transactions

theorem Records.ownTransactions (hst : Records s created t) (accountId currency : String) :
    ownTransactions t accountId currency = ownTransactions s accountId currency := by
  rw [Model.NetWorth.ownTransactions, hst.transactions, Model.NetWorth.ownTransactions]

theorem Records.deltas (hst : Records s created t) (accountId currency : String) :
    ownCurrencyDeltasByDate t accountId currency = ownCurrencyDeltasByDate s accountId currency := by
  rw [ownCurrencyDeltasByDate, hst.ownTransactions, ownCurrencyDeltasByDate]

theorem Records.listAccounts (hst : Records s created t) (bookId : String) :
    listAccounts t bookId = listAccounts s bookId := by
  rw [Model.NetWorth.listAccounts, hst.accounts, Model.NetWorth.listAccounts]

def dayOf (snapshot : NetWorthSnapshot) : String × String :=
  (snapshot.accountId, snapshot.asOfDate)

def Unique (snapshots : List NetWorthSnapshot) : Prop :=
  (snapshots.map dayOf).Nodup

theorem mem_datesForAccount {accountId date : String} :
    date ∈ datesForAccount s accountId ↔
      ∃ snapshot ∈ s.snapshots, dayOf snapshot = (accountId, date) := by
  simp only [datesForAccount, List.mem_dedup, List.mem_map, List.mem_filter, decide_eq_true_eq,
    dayOf, Prod.mk.injEq, and_assoc]

theorem ensures_insertSnapshot (snapshot : NetWorthSnapshot) :
    Ensures (insertSnapshot snapshot) s fun _ t ↦ Records s [snapshot] t := by
  simp only [insertSnapshot, enforce, ensures_bind, ensures_get, ensures_ite, ensures_pure,
    ensures_throw, ensures_modify, implies_true, and_true]
  exact fun _ _ _ ↦ ⟨rfl, rfl, rfl, rfl⟩

theorem ensures_newSnapshotId : Ensures (newSnapshotId h) s fun _ t ↦ Records s [] t := by
  simp only [newSnapshotId, ensures_bind, ensures_get, ensures_modify, ensures_pure]
  exact ⟨by simp, rfl, rfl, rfl⟩

end Writes

section Walk

variable {h : Host} {s t : WorthDb} {account : BalanceAccount} {existing : List String}
  {total : ℤ} {date : String} {dayTotal : ℤ} {days : List (String × ℤ)}
  {created : List NetWorthSnapshot}

def walkedBack (total : ℤ) (days : List (String × ℤ)) (asOfDate : String) : ℤ :=
  total - ((days.filter fun day ↦ asOfDate < day.1).map Prod.snd).sum

structure Fills (account : BalanceAccount) (existing : List String) (total : ℤ)
    (days : List (String × ℤ)) (created : List NetWorthSnapshot) : Prop where
  keys : created.map dayOf =
    ((days.map Prod.fst).filter (· ∉ existing)).map fun date ↦ (account.id, date)
  balance : ∀ snapshot ∈ created, snapshot.source = .backfilled ∧
    snapshot.currency = account.currency ∧
    snapshot.balanceMinor = asI64 (walkedBack total days snapshot.asOfDate)

theorem Fills.mem (hfills : Fills account existing total days created) {snapshot : NetWorthSnapshot}
    (hsnapshot : snapshot ∈ created) :
    snapshot.accountId = account.id ∧ snapshot.asOfDate ∉ existing ∧
      ∃ day ∈ days, day.1 = snapshot.asOfDate := by
  have hmem : dayOf snapshot ∈ created.map dayOf := List.mem_map_of_mem hsnapshot
  rw [hfills.keys, List.mem_map] at hmem
  obtain ⟨date, hdate, heq⟩ := hmem
  rw [dayOf, Prod.mk.injEq] at heq
  obtain ⟨haccount, rfl⟩ := heq
  rw [List.mem_filter, List.mem_map] at hdate
  exact ⟨haccount.symm, by simpa using hdate.2, hdate.1⟩

theorem walkedBack_cons {day : String × ℤ} (hlt : day.1 < date) :
    walkedBack total ((date, dayTotal) :: days) day.1 =
      walkedBack (total - dayTotal) days day.1 := by
  rw [walkedBack, List.filter_cons_of_pos (by simpa using hlt), List.map_cons, List.sum_cons,
    ← sub_sub, walkedBack]

theorem Fills.cons_balance (hfills : Fills account existing (total - dayTotal) days created)
    (hearlier : ∀ day ∈ days, day.1 < date) :
    ∀ snapshot ∈ created, snapshot.source = .backfilled ∧ snapshot.currency = account.currency ∧
      snapshot.balanceMinor =
        asI64 (walkedBack total ((date, dayTotal) :: days) snapshot.asOfDate) := by
  intro snapshot hsnapshot
  obtain ⟨hsource, hcurrency, hbalance⟩ := hfills.balance snapshot hsnapshot
  obtain ⟨-, -, day, hday, hdate⟩ := hfills.mem hsnapshot
  refine ⟨hsource, hcurrency, ?_⟩
  rw [hbalance, ← hdate, walkedBack_cons (hearlier day hday)]

theorem Fills.skip (hfills : Fills account existing (total - dayTotal) days created)
    (hearlier : ∀ day ∈ days, day.1 < date) (hdate : date ∈ existing) :
    Fills account existing total ((date, dayTotal) :: days) created where
  keys := by
    rw [hfills.keys, List.map_cons, List.filter_cons_of_neg (by simpa using hdate)]
  balance := hfills.cons_balance hearlier

theorem Fills.add (hfills : Fills account existing (total - dayTotal) days created)
    (hearlier : ∀ day ∈ days, day.1 < date) (hdate : date ∉ existing)
    {snapshot : NetWorthSnapshot} (haccount : dayOf snapshot = (account.id, date))
    (hsource : snapshot.source = .backfilled) (hcurrency : snapshot.currency = account.currency)
    (hbalance : snapshot.balanceMinor = asI64 total) :
    Fills account existing total ((date, dayTotal) :: days) (snapshot :: created) where
  keys := by
    rw [List.map_cons, hfills.keys, List.map_cons, List.filter_cons_of_pos (by simpa using hdate),
      List.map_cons, haccount]
  balance := by
    rw [List.forall_mem_cons]
    refine ⟨⟨hsource, hcurrency, ?_⟩, hfills.cons_balance hearlier⟩
    -- nothing was taken off for the latest day
    have hnone : ((date, dayTotal) :: days).filter (fun day ↦ snapshot.asOfDate < day.1) = [] := by
      obtain rfl : snapshot.asOfDate = date := congrArg Prod.snd haccount
      simp only [List.filter_eq_nil_iff, decide_eq_true_eq, not_lt, List.forall_mem_cons, le_refl,
        true_and]
      exact fun day hday ↦ (hearlier day hday).le
    rw [hbalance, walkedBack, hnone, List.map_nil, List.sum_nil, sub_zero]

/-- The walk over some days, latest first, from the balance at the end of the first of them. -/
theorem ensures_backfillDays (bookId now : String)
    (hdays : days.Pairwise fun day earlier ↦ earlier.1 < day.1) :
    Ensures (backfillDays h bookId now account existing (asI64 total) days) s fun created t ↦
      Records s created t ∧ Fills account existing total days created := by
  induction days generalizing s total with
  | nil =>
    rw [backfillDays, ensures_pure]
    exact ⟨.refl s, rfl, by simp⟩
  | cons day days ih =>
    obtain ⟨date, dayTotal⟩ := day
    rw [List.pairwise_cons] at hdays
    obtain ⟨hearlier, hdays⟩ := hdays
    have hwalk : asI64 (asI64 total - dayTotal) = asI64 (total - dayTotal) := by
      rw [sub_eq_add_neg, asI64_add_left, sub_eq_add_neg]
    rw [backfillDays, hwalk]
    by_cases hdate : date ∈ existing
    · rw [if_pos hdate]
      exact (ih hdays).mono fun created t hcreated ↦
        ⟨hcreated.1, hcreated.2.skip hearlier hdate⟩
    · rw [if_neg hdate]
      simp only [ensures_bind, ensures_pure]
      refine ensures_newSnapshotId.mono fun id s₁ hs₁ ↦ ?_
      refine (ensures_insertSnapshot _).mono fun _ s₂ hs₂ ↦ ?_
      refine (ih hdays).mono fun created t ht ↦ ?_
      obtain ⟨hrec, hfills⟩ := ht
      exact ⟨(hs₁.trans hs₂).trans hrec, hfills.add hearlier hdate rfl rfl rfl rfl⟩

theorem backfillDays_of_covered (bookId now : String) (running : ℤ)
    (hcovered : ∀ day ∈ days, day.1 ∈ existing) :
    backfillDays h bookId now account existing running days s = .ok ([], s) := by
  induction days generalizing running with
  | nil => rfl
  | cons day days ih =>
    rw [List.forall_mem_cons] at hcovered
    rw [backfillDays, if_pos hcovered.1]
    exact ih _ hcovered.2

end Walk

section Backfill

variable {h : Host} {s t u : WorthDb} {bookId now : String} {accounts : List BalanceAccount}
  {account : BalanceAccount} {created : List NetWorthSnapshot} {total : ℤ}
  {days : List (String × ℤ)}

/-- A snapshot says what the account's movements up to its day add up to. -/
structure Exact (db : WorthDb) (account : BalanceAccount) (snapshot : NetWorthSnapshot) : Prop where
  accountId : snapshot.accountId = account.id
  source : snapshot.source = .backfilled
  currency : snapshot.currency = account.currency
  balance : snapshot.balanceMinor = asI64 (account.openingBalanceMinor +
    (upTo db account.id account.currency snapshot.asOfDate).sum)

def Covered (db : WorthDb) (account : BalanceAccount) : Prop :=
  ∃ deltas, ownCurrencyDeltasByDate db account.id account.currency = .ok deltas ∧
    ∀ delta ∈ deltas, delta.1 ∈ datesForAccount db account.id

theorem Records.upTo (hst : Records s created t) (accountId currency asOfDate : String) :
    upTo t accountId currency asOfDate = upTo s accountId currency asOfDate := by
  rw [NetWorth.upTo, hst.ownTransactions, NetWorth.upTo]

theorem Records.covered (hst : Records s created t) (hcovered : Covered s account) :
    Covered t account := by
  obtain ⟨deltas, hdeltas, hdates⟩ := hcovered
  refine ⟨deltas, (hst.deltas _ _).trans hdeltas, fun delta hdelta ↦ ?_⟩
  obtain ⟨snapshot, hsnapshot, hday⟩ := mem_datesForAccount.1 (hdates delta hdelta)
  apply mem_datesForAccount.2
  exact ⟨snapshot, by simp [hst.snapshots, hsnapshot], hday⟩

structure Backfilled (accounts : List BalanceAccount) (s : WorthDb)
    (created : List NetWorthSnapshot) (t : WorthDb) : Prop where
  records : Records s created t
  exact : ∀ snapshot ∈ created, ∃ account ∈ accounts, Exact s account snapshot
  covered : ∀ account ∈ accounts, Covered t account
  unique : Unique s.snapshots → Unique t.snapshots

theorem Fills.unique (hrec : Records s created t)
    (hfills : Fills account (datesForAccount s account.id) total days created)
    (hdays : (days.map Prod.fst).Nodup) (hunique : Unique s.snapshots) :
    Unique t.snapshots := by
  rw [Unique, hrec.snapshots, List.map_append, List.nodup_append]
  refine ⟨hunique, ?_, ?_⟩
  · rw [hfills.keys]
    exact (hdays.filter _).map fun a b hab ↦ congrArg Prod.snd hab
  · intro key hkey key' hkey' heq
    subst heq
    obtain ⟨snapshot, hsnapshot, rfl⟩ := List.mem_map.1 hkey'
    obtain ⟨haccount, hnew, -⟩ := hfills.mem hsnapshot
    obtain ⟨old, hold, hday⟩ := List.mem_map.1 hkey
    apply hnew
    apply mem_datesForAccount.2
    exact ⟨old, hold, by rw [hday, dayOf, haccount]⟩

theorem ensures_backfillAccount (bookId now : String) (account : BalanceAccount)
    {deltas : List (String × ℤ)}
    (hdeltas : ownCurrencyDeltasByDate s account.id account.currency = .ok deltas) :
    Ensures (backfillDays h bookId now account (datesForAccount s account.id)
      (asI64 (account.openingBalanceMinor + sumI64 (deltas.map Prod.snd))) deltas.reverse) s
      fun created t ↦ Backfilled [account] s created t := by
  have hdates : deltas.map Prod.fst = movementDates s account.id account.currency := by
    rw [ownCurrencyDeltasByDate_eq_ok hdeltas, List.map_map]
    exact List.map_id _
  have hlatest : deltas.reverse.Pairwise fun day earlier ↦ earlier.1 < day.1 := by
    rw [List.pairwise_reverse]
    have hsorted := pairwise_movementDates s account.id account.currency
    rw [← hdates, List.pairwise_map] at hsorted
    exact hsorted
  rw [sumI64_eq, asI64_add_right]
  refine (ensures_backfillDays bookId now hlatest).mono fun created t ⟨hrec, hfills⟩ ↦ ?_
  refine ⟨hrec, fun snapshot hsnapshot ↦ ⟨account, by simp, ?_⟩, ?_, ?_⟩
  · obtain ⟨hsource, hcurrency, hbalance⟩ := hfills.balance snapshot hsnapshot
    refine ⟨(hfills.mem hsnapshot).1, hsource, hcurrency, ?_⟩
    rw [hbalance, walkedBack, List.filter_reverse, List.map_reverse, List.sum_reverse,
      add_sub_assoc, sum_walkedBack hdeltas]
  · rw [List.forall_mem_singleton]
    refine ⟨deltas, (hrec.deltas _ _).trans hdeltas, fun delta hdelta ↦ ?_⟩
    by_cases hold : delta.1 ∈ datesForAccount s account.id
    · obtain ⟨snapshot, hsnapshot, hday⟩ := mem_datesForAccount.1 hold
      exact mem_datesForAccount.2 ⟨snapshot, by simp [hrec.snapshots, hsnapshot], hday⟩
    · have hnew : (account.id, delta.1) ∈ created.map dayOf := by
        rw [hfills.keys, List.map_reverse]
        apply List.mem_map_of_mem
        simp only [List.mem_filter, List.mem_reverse, decide_eq_true_eq]
        exact ⟨List.mem_map_of_mem hdelta, hold⟩
      obtain ⟨snapshot, hsnapshot, hday⟩ := List.mem_map.1 hnew
      exact mem_datesForAccount.2 ⟨snapshot, by simp [hrec.snapshots, hsnapshot], hday⟩
  · apply hfills.unique hrec
    rw [List.map_reverse, List.nodup_reverse, hdates]
    exact nodup_movementDates

theorem ensures_backfillAccounts (bookId now : String) (accounts : List BalanceAccount) :
    Ensures (backfillAccounts h bookId now accounts) s fun created t ↦
      Backfilled accounts s created t := by
  induction accounts generalizing s with
  | nil =>
    rw [backfillAccounts, ensures_pure]
    exact ⟨.refl s, by simp, by simp, id⟩
  | cons account accounts ih =>
    simp only [backfillAccounts, ensures_bind, ensures_get, ensures_check, ensures_pure]
    intro deltas hdeltas
    refine (ensures_backfillAccount bookId now account hdeltas).mono fun first u hfirst ↦ ?_
    refine ih.mono fun rest t hrest ↦ ?_
    refine ⟨hfirst.records.trans hrest.records, ?_, ?_, hrest.unique ∘ hfirst.unique⟩
    · intro snapshot hsnapshot
      rcases List.mem_append.1 hsnapshot with hsnapshot | hsnapshot
      · obtain ⟨account', hmem, hexact⟩ := hfirst.exact snapshot hsnapshot
        obtain rfl := List.mem_singleton.1 hmem
        exact ⟨account', by simp, hexact⟩
      · obtain ⟨account', hmem, hexact⟩ := hrest.exact snapshot hsnapshot
        refine ⟨account', by simp [hmem], hexact.accountId, hexact.source, hexact.currency, ?_⟩
        rw [hexact.balance, hfirst.records.upTo]
    · rw [List.forall_mem_cons]
      exact ⟨hrest.records.covered (hfirst.covered account (by simp)), hrest.covered⟩

theorem backfillAccounts_of_covered (bookId now : String)
    (hcovered : ∀ account ∈ accounts, Covered s account) :
    backfillAccounts h bookId now accounts s = .ok ([], s) := by
  induction accounts with
  | nil => rfl
  | cons account accounts ih =>
    rw [List.forall_mem_cons] at hcovered
    obtain ⟨⟨deltas, hdeltas, hdates⟩, hrest⟩ := hcovered
    have hdays : backfillDays h bookId now account (datesForAccount s account.id)
        (asI64 (account.openingBalanceMinor + sumI64 (deltas.map Prod.snd))) deltas.reverse s =
          .ok ([], s) :=
      backfillDays_of_covered bookId now _ fun day hday ↦ hdates day (List.mem_reverse.1 hday)
    rw [backfillAccounts, bind_of_ok rfl, bind_of_ok (check_of_ok hdeltas), bind_of_ok hdays,
      bind_of_ok (ih hrest)]
    rfl

end Backfill

section Series

variable {db : WorthDb} {bookId fromDate toDate point : String}

theorem freshest_eq_some {snapshots : List NetWorthSnapshot} {s : NetWorthSnapshot}
    (hs : freshest snapshots = some s) :
    s ∈ snapshots ∧ ∀ s' ∈ snapshots, s'.asOfDate ≤ s.asOfDate := by
  have htotal : Std.Total fun a b : NetWorthSnapshot ↦ recency b ≤ recency a :=
    ⟨fun a b ↦ le_total (recency b) (recency a)⟩
  have htrans : IsTrans NetWorthSnapshot fun a b ↦ recency b ≤ recency a :=
    ⟨fun _ _ _ hab hbc ↦ hbc.trans hab⟩
  have hsorted := List.pairwise_insertionSort (fun a b ↦ recency b ≤ recency a) snapshots
  have hmem : ∀ s', s' ∈ snapshots.insertionSort (fun a b ↦ recency b ≤ recency a) ↔
      s' ∈ snapshots := fun s' ↦ List.mem_insertionSort _
  rw [freshest] at hs
  cases hlist : snapshots.insertionSort fun a b ↦ recency b ≤ recency a with
  | nil => simp [hlist] at hs
  | cons a rest =>
    obtain rfl : a = s := by simpa [hlist] using hs
    rw [hlist] at hsorted hmem
    refine ⟨(hmem a).1 (by simp), fun s' hs' ↦ ?_⟩
    rcases List.mem_cons.1 ((hmem s').2 hs') with rfl | hs'
    · exact le_rfl
    · have hle := (List.pairwise_cons.1 hsorted).1 s' hs'
      rw [recency, recency, Prod.Lex.toLex_le_toLex] at hle
      rcases hle with hlt | ⟨heq, -⟩
      · exact hlt.le
      · exact heq.le

theorem freshest_isSome (snapshots : List NetWorthSnapshot) {s : NetWorthSnapshot}
    (hs : s ∈ snapshots) : ∃ s', freshest snapshots = some s' := by
  rw [freshest]
  cases hlist : snapshots.insertionSort fun a b ↦ recency b ≤ recency a with
  | nil =>
    rw [← List.mem_insertionSort (fun a b ↦ recency b ≤ recency a), hlist] at hs
    cases hs
  | cons a rest => exact ⟨a, rfl⟩

structure Latest (db : WorthDb) (bookId point : String) (s : NetWorthSnapshot) : Prop where
  mem : s ∈ db.snapshots
  book : s.bookId = bookId
  upTo : s.asOfDate ≤ point
  latest : ∀ s' ∈ db.snapshots, s'.bookId = bookId → s'.accountId = s.accountId →
    s'.asOfDate ≤ point → s'.asOfDate ≤ s.asOfDate

def known (db : WorthDb) (bookId point : String) : List NetWorthSnapshot :=
  (db.snapshots.filter fun s ↦ s.bookId = bookId).filter fun s ↦ s.asOfDate ≤ point

theorem mem_known {s : NetWorthSnapshot} :
    s ∈ known db bookId point ↔ s ∈ db.snapshots ∧ s.bookId = bookId ∧ s.asOfDate ≤ point := by
  simp only [known, List.mem_filter, decide_eq_true_eq, and_assoc]

def rowOf (db : WorthDb) (bookId point accountId : String) : Option SeriesRow :=
  (freshest ((known db bookId point).filter fun s ↦ s.accountId = accountId)).map fun s ↦
    ⟨point, accountId, s.currency, s.balanceMinor⟩

def knownAccounts (db : WorthDb) (bookId point : String) : List String :=
  ((known db bookId point).map NetWorthSnapshot.accountId).dedup.insertionSort (· ≤ ·)

def pointRows (db : WorthDb) (bookId point : String) : List SeriesRow :=
  (knownAccounts db bookId point).filterMap (rowOf db bookId point)

def pointDates (db : WorthDb) (bookId fromDate toDate : String) : List String :=
  ((((db.snapshots.filter fun s ↦ s.bookId = bookId).filter fun s ↦
    fromDate ≤ s.asOfDate ∧ s.asOfDate ≤ toDate).map NetWorthSnapshot.asOfDate).dedup).insertionSort
      (· ≤ ·)

theorem series_eq :
    series db bookId fromDate toDate =
      (pointDates db bookId fromDate toDate).flatMap (pointRows db bookId) :=
  rfl

theorem rowOf_eq_some {accountId : String} {row : SeriesRow}
    (hrow : rowOf db bookId point accountId = some row) :
    row.pointDate = point ∧ row.accountId = accountId ∧ ∃ s, Latest db bookId point s ∧
      s.accountId = accountId ∧ s.currency = row.currency ∧ s.balanceMinor = row.balanceMinor := by
  rw [rowOf, Option.map_eq_some_iff] at hrow
  obtain ⟨s, hs, rfl⟩ := hrow
  obtain ⟨hmem, hlatest⟩ := freshest_eq_some hs
  simp only [List.mem_filter, mem_known, decide_eq_true_eq] at hmem hlatest
  obtain ⟨⟨hmem, hbook, hupTo⟩, haccount⟩ := hmem
  refine ⟨rfl, rfl, s, ⟨hmem, hbook, hupTo, ?_⟩, haccount, rfl, rfl⟩
  intro s' hs' hbook' haccount' hupTo'
  exact hlatest s' ⟨⟨hs', hbook', hupTo'⟩, haccount'.trans haccount⟩

theorem mem_knownAccounts {accountId : String} :
    accountId ∈ knownAccounts db bookId point ↔
      ∃ s ∈ known db bookId point, s.accountId = accountId := by
  rw [knownAccounts, List.mem_insertionSort, List.mem_dedup, List.mem_map]

/-- One row for each account that the book knows something about. -/
theorem map_pointRows :
    (pointRows db bookId point).map SeriesRow.accountId = knownAccounts db bookId point := by
  rw [pointRows, List.map_filterMap]
  refine (List.filterMap_congr fun accountId haccount ↦ ?_).trans List.filterMap_some
  obtain ⟨s, hs, hsaccount⟩ := mem_knownAccounts.1 haccount
  obtain ⟨s', hs'⟩ := freshest_isSome ((known db bookId point).filter fun s ↦
    s.accountId = accountId) (List.mem_filter.2 ⟨hs, by simpa using hsaccount⟩)
  rw [rowOf, hs']
  rfl

theorem pointRows_ne_nil (hpoint : point ∈ pointDates db bookId fromDate toDate) :
    pointRows db bookId point ≠ [] := by
  simp only [pointDates, List.mem_insertionSort, List.mem_dedup, List.mem_map, List.mem_filter,
    decide_eq_true_eq] at hpoint
  obtain ⟨s, ⟨⟨hs, hbook⟩, -⟩, hdate⟩ := hpoint
  have haccount : s.accountId ∈ knownAccounts db bookId point :=
    mem_knownAccounts.2 ⟨s, mem_known.2 ⟨hs, hbook, hdate.le⟩, rfl⟩
  rw [← map_pointRows] at haccount
  intro hnil
  rw [hnil] at haccount
  cases haccount

theorem pointDate_of_mem_pointRows {row : SeriesRow} (hrow : row ∈ pointRows db bookId point) :
    row.pointDate = point := by
  obtain ⟨accountId, -, hrow⟩ := List.mem_filterMap.1 hrow
  exact (rowOf_eq_some hrow).1

end Series

section Points

variable {bookCurrency date : String} {row : SeriesRow} {rows : List SeriesRow}
  {points : List NetWorthPoint} {point : NetWorthPoint}

theorem pushRow_same (hdate : point.asOfDate = row.pointDate) :
    pushRow bookCurrency row (points ++ [point]) =
      points ++ [{ point with byAccount := point.byAccount ++ [balanceOf row] }] := by
  induction points with
  | nil => rw [List.nil_append, pushRow, if_pos hdate, List.nil_append]
  | cons p points ih =>
    cases points with
    | nil => simp [pushRow, hdate]
    | cons q points => simpa [pushRow] using ih

theorem pushRow_other (hdate : ∀ p ∈ points, p.asOfDate ≠ row.pointDate) :
    pushRow bookCurrency row points =
      points ++ [⟨row.pointDate, [balanceOf row], bookCurrency, 0, []⟩] := by
  induction points with
  | nil => rfl
  | cons p points ih =>
    rw [List.forall_mem_cons] at hdate
    cases points with
    | nil => simp [pushRow, hdate.1]
    | cons q points =>
      rw [pushRow, ih hdate.2]
      rfl

theorem foldl_pushRow_same (hrows : ∀ row ∈ rows, row.pointDate = point.asOfDate) :
    rows.foldl (fun points row ↦ pushRow bookCurrency row points) (points ++ [point]) =
      points ++ [{ point with byAccount := point.byAccount ++ rows.map balanceOf }] := by
  induction rows generalizing point with
  | nil => simp
  | cons row rows ih =>
    rw [List.forall_mem_cons] at hrows
    have hnext : rows.foldl (fun points row ↦ pushRow bookCurrency row points)
        (points ++ [{ point with byAccount := point.byAccount ++ [balanceOf row] }]) = _ :=
      ih hrows.2
    rw [List.foldl_cons, pushRow_same hrows.1.symm, hnext, List.map_cons, List.append_assoc,
      List.singleton_append]

def pointOf (bookCurrency date : String) (rows : List SeriesRow) : NetWorthPoint :=
  ⟨date, rows.map balanceOf, bookCurrency, 0, []⟩

theorem foldl_pushRow_new (hne : rows ≠ []) (hrows : ∀ row ∈ rows, row.pointDate = date)
    (hpoints : ∀ p ∈ points, p.asOfDate ≠ date) :
    rows.foldl (fun points row ↦ pushRow bookCurrency row points) points =
      points ++ [pointOf bookCurrency date rows] := by
  cases rows with
  | nil => exact absurd rfl hne
  | cons row rows =>
    rw [List.forall_mem_cons] at hrows
    obtain ⟨rfl, hrows⟩ := hrows
    rw [List.foldl_cons, pushRow_other hpoints, foldl_pushRow_same hrows]
    rfl

/-- The rows of the series make one point for each date. -/
theorem foldl_pushRow_flatMap {dates : List String} {rowsOf : String → List SeriesRow}
    (hdates : dates.Nodup)
    (hrows : ∀ date ∈ dates, rowsOf date ≠ [] ∧ ∀ row ∈ rowsOf date, row.pointDate = date)
    (hpoints : ∀ p ∈ points, p.asOfDate ∉ dates) :
    (dates.flatMap rowsOf).foldl (fun points row ↦ pushRow bookCurrency row points) points =
      points ++ dates.map fun date ↦ pointOf bookCurrency date (rowsOf date) := by
  induction dates generalizing points with
  | nil => simp
  | cons date dates ih =>
    rw [List.forall_mem_cons] at hrows
    obtain ⟨hdate, hdates⟩ := List.nodup_cons.1 hdates
    have hother : ∀ p ∈ points, p.asOfDate ≠ date := fun p hp heq ↦
      hpoints p hp (List.mem_cons.2 (.inl heq))
    rw [List.flatMap_cons, List.foldl_append, foldl_pushRow_new hrows.1.1 hrows.1.2 hother,
      ih hdates hrows.2, List.map_cons, List.append_assoc, List.singleton_append]
    intro p hp hmem
    rcases List.mem_append.1 hp with hp | hp
    · exact hpoints p hp (List.mem_cons.2 (.inr hmem))
    · obtain rfl := List.mem_singleton.1 hp
      exact hdate hmem

end Points

section Runs

variable {Rate : Type} {h : Host} {s t u : WorthDb}

theorem ensures_captureAccounts (bookId asOfDate now : String) (accounts : List BalanceAccount) :
    Ensures (captureAccounts h bookId asOfDate now accounts) s fun _ t ↦
      ∃ created, Records s created t ∧ (Unique s.snapshots → Unique t.snapshots) := by
  induction accounts generalizing s with
  | nil =>
    rw [captureAccounts, ensures_pure]
    exact ⟨[], .refl s, id⟩
  | cons account accounts ih =>
    simp only [captureAccounts, ensures_bind, ensures_get]
    cases hexisting : getForAccountDate s account.id asOfDate with
    | some existing =>
      simp only [ensures_bind, ensures_pure]
      exact ih
    | none =>
      simp only [ensures_bind, ensures_check, ensures_pure]
      intro balanceMinor _
      refine ensures_newSnapshotId.mono fun id s₁ hs₁ ↦ ?_
      refine (ensures_insertSnapshot _).mono fun _ s₂ hs₂ ↦ ?_
      refine ih.mono fun _ t ht ↦ ?_
      obtain ⟨created, hrec, hunique⟩ := ht
      have hone := hs₁.trans hs₂
      refine ⟨_, hone.trans hrec, fun hs ↦ hunique ?_⟩
      rw [Unique, hone.snapshots]
      refine nodup_concat (fun old hold heq ↦ ?_) hs
      obtain ⟨found, hfound⟩ := freshest_isSome (s.snapshots.filter fun s ↦
        s.accountId = account.id ∧ s.asOfDate = asOfDate) (s := old) (by
          rw [List.mem_filter]
          exact ⟨hold, by simpa [dayOf] using heq⟩)
      rw [getForAccountDate, hfound] at hexisting
      cases hexisting

inductive Step (h : Host) (s : WorthDb) : WorthDb → Prop
  | capture (bookId asOfDate : String) : Step h s ((networthCapture h bookId asOfDate).run s).2
  | backfill (bookId : String) : Step h s ((networthBackfill h bookId).run s).2
  | elsewhere {t : WorthDb} (hsnapshots : t.snapshots = s.snapshots) : Step h s t

/-- The snapshots on record stay, and no second one is added to a day. -/
def Grows (s t : WorthDb) : Prop :=
  s.snapshots <+: t.snapshots ∧ (Unique s.snapshots → Unique t.snapshots)

theorem Grows.refl (s : WorthDb) : Grows s s :=
  ⟨List.prefix_refl _, id⟩

theorem Grows.trans (hst : Grows s t) (htu : Grows t u) : Grows s u :=
  ⟨hst.1.trans htu.1, htu.2 ∘ hst.2⟩

theorem Records.grows {created : List NetWorthSnapshot} (hst : Records s created t)
    (hunique : Unique s.snapshots → Unique t.snapshots) : Grows s t :=
  ⟨⟨created, hst.snapshots.symm⟩, hunique⟩

theorem moves_captureAccounts (bookId asOfDate now : String) (accounts : List BalanceAccount) :
    Moves Grows (captureAccounts h bookId asOfDate now accounts) := fun _ ↦
  (ensures_captureAccounts bookId asOfDate now accounts).mono fun _ _ ⟨_, hrec, hunique⟩ ↦
    hrec.grows hunique

theorem moves_backfillAccounts (bookId now : String) (accounts : List BalanceAccount) :
    Moves Grows (backfillAccounts h bookId now accounts) := fun _ ↦
  (ensures_backfillAccounts bookId now accounts).mono fun _ _ hfilled ↦
    hfilled.records.grows hfilled.unique

instance : IsPreorder WorthDb Grows where
  refl := Grows.refl
  trans _ _ _ := Grows.trans

theorem grows_capture (bookId asOfDate : String) :
    Grows s ((networthCapture h bookId asOfDate).run s).2 := by
  apply Process.Within.run_store
  simp only [networthCapture, within_query_bind, within_ofExcept_bind, within_atomically]
  intros
  apply moves_captureAccounts

theorem grows_backfill (bookId : String) : Grows s ((networthBackfill h bookId).run s).2 := by
  apply Process.Within.run_store
  simp only [networthBackfill, within_query_bind, within_ofExcept_bind, within_atomically]
  intros
  apply moves_backfillAccounts

theorem grows_of_run (hrun : ReflTransGen (Step h) s t) : Grows s t := by
  induction hrun with
  | refl => exact .refl s
  | tail _ hstep ih =>
    apply ih.trans
    cases hstep with
    | capture bookId asOfDate => exact grows_capture bookId asOfDate
    | backfill bookId => exact grows_backfill bookId
    | elsewhere hsnapshots => rw [Grows, hsnapshots]; exact ⟨List.prefix_refl _, id⟩

end Runs

section Results

variable {Rate : Type} {h : Host} {exchange : Exchange Rate} {s t : WorthDb} {bookId : String}

theorem networthBackfill_eq_ok {created : List NetWorthSnapshot} :
    (networthBackfill h bookId).run s = (.ok created, t) ↔
      (∃ book, lookup Book.id s.books bookId = some book) ∧
        backfillAccounts h bookId (h.nowIso s.minted) (listAccounts s bookId) s =
          .ok (created, t) := by
  simp only [networthBackfill, run_query_bind, run_ofExcept_bind_eq_ok, run_atomically,
    exists_and_right]
  refine and_congr ?_ ⟨commit_ok, commit_of_ok⟩
  cases hbook : lookup Book.id s.books bookId with
  | none => simp [orNotFound]
  | some book => simp [orNotFound]

theorem backfilled_of_run {created : List NetWorthSnapshot}
    (hrun : (networthBackfill h bookId).run s = (.ok created, t)) :
    Backfilled (listAccounts s bookId) s created t :=
  ensures_backfillAccounts bookId (h.nowIso s.minted) _ _ _ (networthBackfill_eq_ok.1 hrun).2

/-- The snapshot holds the balance of its account at its day, computed from scratch. -/
structure FromScratch (db : WorthDb) (account : BalanceAccount) (snapshot : NetWorthSnapshot) :
    Prop where
  accountId : snapshot.accountId = account.id
  currency : snapshot.currency = account.currency
  balance : ∀ v, balanceAsOf db account.id account.currency account.openingBalanceMinor
    snapshot.asOfDate = .ok v → snapshot.balanceMinor = v
  fits : Fits db account → balanceAsOf db account.id account.currency account.openingBalanceMinor
    snapshot.asOfDate = .ok snapshot.balanceMinor

theorem Exact.fromScratch {account : BalanceAccount} {snapshot : NetWorthSnapshot}
    (hexact : Exact s account snapshot) : FromScratch s account snapshot where
  accountId := hexact.accountId
  currency := hexact.currency
  balance v hv := by rw [hexact.balance, balanceAsOf_eq_ok hv]
  fits hfits := by rw [balanceAsOf_of_fits hfits, hexact.balance]

theorem backfill_exact {created : List NetWorthSnapshot}
    (hrun : (networthBackfill h bookId).run s = (.ok created, t)) :
    t.snapshots = s.snapshots ++ created ∧
      (∀ snapshot ∈ created, ∃ account ∈ listAccounts s bookId, FromScratch s account snapshot) ∧
      (networthBackfill h bookId).run t = (.ok [], t) := by
  obtain ⟨hbook, -⟩ := networthBackfill_eq_ok.1 hrun
  have hfilled := backfilled_of_run hrun
  refine ⟨hfilled.records.snapshots, fun snapshot hsnapshot ↦ ?_, ?_⟩
  · obtain ⟨account, haccount, hexact⟩ := hfilled.exact snapshot hsnapshot
    exact ⟨account, haccount, hexact.fromScratch⟩
  · apply networthBackfill_eq_ok.2
    rw [hfilled.records.books, hfilled.records.listAccounts]
    exact ⟨hbook, backfillAccounts_of_covered bookId _ hfilled.covered⟩

/-- A point of the series carries one balance for each account that the book knows something about,
that of its latest snapshot. -/
structure Carries (db : WorthDb) (bookId : String) (point : NetWorthPoint) : Prop where
  distinct : (point.byAccount.map NetWorthAccountBalance.accountId).Nodup
  latest : ∀ balance ∈ point.byAccount, ∃ snapshot, Latest db bookId point.asOfDate snapshot ∧
    snapshot.accountId = balance.accountId ∧ snapshot.currency = balance.currency ∧
    snapshot.balanceMinor = balance.balanceMinor
  every : ∀ snapshot ∈ db.snapshots, snapshot.bookId = bookId →
    snapshot.asOfDate ≤ point.asOfDate →
    ∃ balance ∈ point.byAccount, balance.accountId = snapshot.accountId

theorem carries_pointOf (s : WorthDb) (bookId bookCurrency date : String) :
    Carries s bookId (pointOf bookCurrency date (pointRows s bookId date)) := by
  have haccounts : (pointOf bookCurrency date (pointRows s bookId date)).byAccount.map
      NetWorthAccountBalance.accountId = knownAccounts s bookId date := by
    rw [← map_pointRows, pointOf, List.map_map]
    rfl
  refine ⟨?_, fun balance hbalance ↦ ?_, fun snapshot hsnapshot hbook hdate ↦ ?_⟩
  · rw [haccounts]
    exact (List.perm_insertionSort _ _).nodup_iff.2 (List.nodup_dedup _)
  · obtain ⟨row, hrow, rfl⟩ := List.mem_map.1 hbalance
    obtain ⟨accountId, -, hrow⟩ := List.mem_filterMap.1 hrow
    obtain ⟨-, haccount, snapshot, hlatest, hsnapshot, hcurrency, hminor⟩ := rowOf_eq_some hrow
    exact ⟨snapshot, hlatest, hsnapshot.trans haccount.symm, hcurrency, hminor⟩
  · apply List.mem_map.1
    rw [haccounts]
    exact mem_knownAccounts.2 ⟨snapshot, mem_known.2 ⟨hsnapshot, hbook, hdate⟩, rfl⟩

theorem totalPoint_eq_ok {bookCurrency : String} {rates : List (String × Option Rate)}
    {point total : NetWorthPoint} (htotal : totalPoint exchange bookCurrency rates point = .ok total) :
    total.asOfDate = point.asOfDate ∧ total.byAccount = point.byAccount := by
  rw [totalPoint, except_bind_eq_ok] at htotal
  obtain ⟨⟨totalMinor, unconverted⟩, -, htotal⟩ := htotal
  rw [except_pure_eq_ok] at htotal
  subst htotal
  exact ⟨rfl, rfl⟩

theorem foldl_series (s : WorthDb) (bookId bookCurrency fromDate toDate : String) :
    (series s bookId fromDate toDate).foldl (fun points row ↦ pushRow bookCurrency row points) [] =
      (pointDates s bookId fromDate toDate).map fun date ↦
        pointOf bookCurrency date (pointRows s bookId date) := by
  rw [series_eq, foldl_pushRow_flatMap, List.nil_append]
  · exact (List.perm_insertionSort _ _).nodup_iff.2 (List.nodup_dedup _)
  · exact fun date hdate ↦ ⟨pointRows_ne_nil hdate, fun row ↦ pointDate_of_mem_pointRows⟩
  · simp

theorem series_carries {fromDate toDate : String} {result : NetWorthSeries Rate}
    (hrun : (networthSeries exchange h bookId fromDate toDate).run s = (.ok result, t)) :
    ∀ point ∈ result.points, Carries s bookId point := by
  simp only [networthSeries, run_query_bind, run_ofExcept_bind_eq_ok] at hrun
  obtain ⟨book, -, -, -, -, -, rates, -, points, hpoints, hresult⟩ := hrun
  obtain rfl := Except.ok.inj (congrArg Prod.fst hresult)
  intro total htotal
  rw [foldl_series, except_mapM_eq_ok] at hpoints
  obtain ⟨point, hpoint, htotals⟩ := mem_of_forall₂_left hpoints.flip htotal
  obtain ⟨date, -, rfl⟩ := List.mem_map.1 hpoint
  obtain ⟨hdate, hbalances⟩ := totalPoint_eq_ok htotals
  have hcarries := carries_pointOf s bookId book.currency date
  constructor
  · rw [hbalances]
    exact hcarries.distinct
  · rw [hbalances, hdate]
    exact hcarries.latest
  · rw [hbalances, hdate]
    exact hcarries.every

/-- Along every run the snapshots on record stay as they are and none is added to a day that has
one. A backfill writes what the direct query computes, and nothing the second time. The series
carries the latest snapshots. -/
theorem networth_exact (h : Host) (exchange : Exchange Rate) (s t : WorthDb)
    (hrun : ReflTransGen (Step h) s t) :
    s.snapshots <+: t.snapshots ∧ (Unique s.snapshots → Unique t.snapshots) ∧
      (∀ bookId created u, (networthBackfill h bookId).run t = (.ok created, u) →
        u.snapshots = t.snapshots ++ created ∧
          (∀ snapshot ∈ created, ∃ account ∈ listAccounts t bookId,
            FromScratch t account snapshot) ∧
          (networthBackfill h bookId).run u = (.ok [], u)) ∧
      ∀ bookId fromDate toDate result u,
        (networthSeries exchange h bookId fromDate toDate).run t = (.ok result, u) →
          ∀ point ∈ result.points, Carries t bookId point := by
  have hgrows := grows_of_run hrun
  refine ⟨hgrows.1, hgrows.2, fun bookId created u hbackfill ↦ backfill_exact hbackfill, ?_⟩
  exact fun bookId fromDate toDate result u hseries ↦ series_carries hseries

def twoDays : WorthDb :=
  let movement (id postedDate : String) (amountMinor : ℤ) : Transaction :=
    ⟨id, "book", "account", none, .manual, none, id, postedDate, amountMinor, "ZAR", none, none,
      none, .pending⟩
  { books := [plainBook]
    accounts := [⟨⟨"account", "book", "ZAR"⟩, 100, "2025-01-01T00:00:00Z"⟩]
    transactions := [movement "first" "2025-01-30" 30, movement "second" "2025-01-31" 20] }

theorem networth_exact_of_capture :
    let t := ((networthCapture plainHost "book" "2025-01-31").run twoDays).2
    ∃ created u, (networthBackfill plainHost "book").run t = (.ok created, u) ∧
      created.map (fun s ↦ (s.asOfDate, s.balanceMinor)) = [("2025-01-30", 130)] ∧
      balanceAsOf t "account" "ZAR" 100 "2025-01-30" = .ok 130 ∧
      (networthBackfill plainHost "book").run u = (.ok [], u) := by
  have hrun : ReflTransGen (Step plainHost) {}
      ((networthCapture plainHost "book" "2025-01-31").run twoDays).2 :=
    .tail (.single (.elsewhere (t := twoDays) rfl)) (.capture _ _)
  have hexact := networth_exact plainHost (⟨fun _ _ ↦ .ok none, fun v (_ : Unit) ↦ .ok v⟩) _ _ hrun
  have hcreated : ((networthBackfill plainHost "book").run
      ((networthCapture plainHost "book" "2025-01-31").run twoDays).2).1 = .ok
        [⟨"xx", "book", "account", "2025-01-30", 130, "ZAR", .backfilled, "2025-06-15T00:00:00Z"⟩] :=
    by decide +kernel
  obtain ⟨-, -, hagain⟩ := hexact.2.2.1 "book" _ _ (Prod.ext hcreated rfl)
  exact ⟨_, _, Prod.ext hcreated rfl, rfl, by decide +kernel, hagain⟩

end Results

end SlipScan.Banking.NetWorth
