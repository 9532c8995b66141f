import SlipScan.Arithmetic.Words
import SlipScan.Banking.NetWorth

namespace SlipScan.Banking.Worth

open Foundation.Transaction Foundation.Interleaving Foundation.Table Foundation.Grouping
open Model.Domain Model.Database Model.Money Model.NetWorth Model.PlainHost Ledger.Amounts
  Arithmetic.Words NetWorth

section Held

variable {s t : WorthDb} {bookId date date' : String} {account : BalanceAccount}

abbrev daysOf (db : WorthDb) (account : BalanceAccount) : List String :=
  movementDates db account.id account.currency

def heldAt (db : WorthDb) (account : BalanceAccount) (date : String) : ℤ :=
  asI64 (account.openingBalanceMinor + (upTo db account.id account.currency date).sum)

def movedBy (db : WorthDb) (account : BalanceAccount) (date : String) : Bool :=
  (daysOf db account).any fun day ↦ day ≤ date

theorem movedBy_iff : movedBy s account date = true ↔ ∃ day ∈ daysOf s account, day ≤ date := by
  rw [movedBy, List.any_eq_true]
  simp only [decide_eq_true_eq]

theorem heldAt_of_not_movedBy (hmoved : movedBy s account date = false) :
    heldAt s account date = asI64 account.openingBalanceMinor := by
  have hnone : (ownTransactions s account.id account.currency).filter
      (fun t ↦ t.postedDate ≤ date) = [] := by
    rw [List.filter_eq_nil_iff]
    intro t ht hle
    have hday : movedBy s account date = true :=
      movedBy_iff.2 ⟨_, mem_movementDates.2 ⟨t, ht, rfl⟩, of_decide_eq_true hle⟩
    rw [hmoved] at hday
    cases hday
  rw [heldAt, upTo, hnone, List.map_nil, List.sum_nil, add_zero]

theorem heldAt_congr (hle : date ≤ date') (hlast : ∀ day ∈ daysOf s account, day ≤ date' → day ≤ date) :
    heldAt s account date = heldAt s account date' := by
  have hfilter : (ownTransactions s account.id account.currency).filter (fun t ↦ t.postedDate ≤ date) =
      (ownTransactions s account.id account.currency).filter fun t ↦ t.postedDate ≤ date' := by
    apply List.filter_congr
    intro t ht
    apply decide_eq_decide.2
    exact ⟨fun h ↦ h.trans hle, hlast _ (mem_movementDates.2 ⟨t, ht, rfl⟩)⟩
  rw [heldAt, heldAt, upTo, upTo, hfilter]

/-- The sum of what all accounts of the book hold, each asked for its balance at the date. -/
def realWorth (db : WorthDb) (bookId date : String) : Except Fault ℤ := do
  let balances ← (listAccounts db bookId).mapM fun account ↦
    balanceAsOf db account.id account.currency account.openingBalanceMinor date
  return sumI64 balances

def Defined (db : WorthDb) (bookId : String) : Prop :=
  ∀ account ∈ listAccounts db bookId, ∀ date, ∃ v,
    balanceAsOf db account.id account.currency account.openingBalanceMinor date = .ok v

theorem Records.realWorth {created : List NetWorthSnapshot} (hst : Records s created t)
    (bookId date : String) : realWorth t bookId date = realWorth s bookId date := by
  have hbalance : ∀ account : BalanceAccount,
      balanceAsOf t account.id account.currency account.openingBalanceMinor date =
        balanceAsOf s account.id account.currency account.openingBalanceMinor date := by
    intro account
    rw [balanceAsOf, hst.ownTransactions, balanceAsOf]
  rw [Worth.realWorth, hst.listAccounts]
  simp only [hbalance]
  rfl

theorem realWorth_eq (hdefined : Defined s bookId) (date : String) :
    realWorth s bookId date =
      .ok (asI64 ((listAccounts s bookId).map fun account ↦ heldAt s account date).sum) := by
  have hheld : ∀ accounts : List BalanceAccount, (∀ account ∈ accounts, ∃ v,
      balanceAsOf s account.id account.currency account.openingBalanceMinor date = .ok v) →
      (accounts.mapM fun account ↦
        balanceAsOf s account.id account.currency account.openingBalanceMinor date) =
      .ok (accounts.map fun account ↦ heldAt s account date) := by
    intro accounts haccounts
    rw [except_mapM_eq_ok, List.forall₂_map_right_iff, List.forall₂_same]
    intro account haccount
    obtain ⟨v, hv⟩ := haccounts account haccount
    rw [hv, balanceAsOf_eq_ok hv, heldAt]
  rw [realWorth, hheld _ fun account haccount ↦ hdefined account haccount date]
  change Except.ok (sumI64 _) = _
  rw [sumI64_eq]

def unmovedOpening (db : WorthDb) (bookId date : String) : ℤ :=
  (((listAccounts db bookId).filter fun account ↦ !movedBy db account date).map
    BalanceAccount.openingBalanceMinor).sum

/-- Some account of the book moves on the date. -/
def MovesOn (db : WorthDb) (bookId date : String) : Prop :=
  ∃ account ∈ listAccounts db bookId, date ∈ daysOf db account

/-- All accounts hold what those that have moved hold, and the opening balances of the others. -/
theorem word_held (s : WorthDb) (bookId date : String) :
    word ((listAccounts s bookId).map fun account ↦ heldAt s account date).sum =
      word (((listAccounts s bookId).filter fun account ↦ movedBy s account date).map
        fun account ↦ heldAt s account date).sum + word (unmovedOpening s bookId date) := by
  have hsplit := sum_filter_or (l := listAccounts s bookId) (r := fun _ ↦ true)
    (p := fun account ↦ movedBy s account date) (q := fun account ↦ !movedBy s account date)
    (fun account ↦ heldAt s account date) fun account _ ↦ by
      cases movedBy s account date <;> simp
  rw [List.filter_true] at hsplit
  rw [hsplit, word_add, unmovedOpening, word_sum, word_sum, word_sum]
  refine congrArg _ (congrArg List.sum (List.map_congr_left fun account haccount ↦ ?_))
  have hunmoved : movedBy s account date = false := by simpa using (List.mem_filter.1 haccount).2
  rw [heldAt_of_not_movedBy hunmoved, word_asI64]

end Held

section Charting

variable {h : Host} {s t u : WorthDb} {bookId now date : String} {account : BalanceAccount}
  {accounts : List BalanceAccount} {created : List NetWorthSnapshot}

theorem ensures_backfillDays_origin {existing : List String} {running : ℤ}
    {days : List (String × ℤ)} :
    Ensures (backfillDays h bookId now account existing running days) s fun created _ ↦
      ∀ snapshot ∈ created, snapshot.bookId = bookId ∧ snapshot.accountId = account.id ∧
        snapshot.asOfDate ∈ days.map Prod.fst := by
  induction days generalizing s running with
  | nil =>
    rw [backfillDays, ensures_pure]
    simp
  | cons day days ih =>
    rw [backfillDays]
    have hlater : ∀ {created : List NetWorthSnapshot},
        (∀ snapshot ∈ created, snapshot.bookId = bookId ∧ snapshot.accountId = account.id ∧
          snapshot.asOfDate ∈ days.map Prod.fst) →
        ∀ snapshot ∈ created, snapshot.bookId = bookId ∧ snapshot.accountId = account.id ∧
          snapshot.asOfDate ∈ (day :: days).map Prod.fst :=
      fun hcreated snapshot hsnapshot ↦ ⟨(hcreated snapshot hsnapshot).1,
        (hcreated snapshot hsnapshot).2.1, List.mem_cons_of_mem _ (hcreated snapshot hsnapshot).2.2⟩
    split
    · exact ih.mono fun _ _ ↦ hlater
    · simp only [ensures_bind, ensures_pure]
      refine ensures_newSnapshotId.mono fun id s₁ _ ↦ ?_
      refine (ensures_insertSnapshot _).mono fun _ s₂ _ ↦ ?_
      refine ih.mono fun created _ hcreated ↦ ?_
      exact List.forall_mem_cons.2 ⟨⟨rfl, rfl, List.mem_cons_self ..⟩, hlater hcreated⟩

theorem ensures_backfillAccounts_origin :
    Ensures (backfillAccounts h bookId now accounts) s fun created _ ↦
      ∀ snapshot ∈ created, snapshot.bookId = bookId ∧ ∃ account ∈ accounts,
        snapshot.accountId = account.id ∧ snapshot.asOfDate ∈ daysOf s account := by
  induction accounts generalizing s with
  | nil =>
    rw [backfillAccounts, ensures_pure]
    simp
  | cons account accounts ih =>
    simp only [backfillAccounts, ensures_bind, ensures_get, ensures_check, ensures_pure]
    intro deltas hdeltas
    have hdays : deltas.map Prod.fst = daysOf s account := by
      rw [ownCurrencyDeltasByDate_eq_ok hdeltas, List.map_map]
      exact List.map_id _
    refine (ensures_backfillDays_origin.and (ensures_backfillAccount bookId now account
      hdeltas)).mono fun first u hu ↦ ?_
    obtain ⟨hfirst, hfilled⟩ := hu
    refine ih.mono fun rest t hrest ↦ List.forall_mem_append.2 ⟨?_, ?_⟩
    · intro snapshot hsnapshot
      obtain ⟨hbook, haccount, hdate⟩ := hfirst snapshot hsnapshot
      rw [List.map_reverse, List.mem_reverse, hdays] at hdate
      exact ⟨hbook, account, List.mem_cons_self .., haccount, hdate⟩
    · intro snapshot hsnapshot
      obtain ⟨hbook, account', hmem, haccount, hdate⟩ := hrest snapshot hsnapshot
      rw [daysOf, movementDates, hfilled.records.ownTransactions] at hdate
      exact ⟨hbook, account', List.mem_cons_of_mem _ hmem, haccount, hdate⟩

/-- The snapshots of the book: one balance for every day on which one of its accounts moves. -/
structure Charted (s t : WorthDb) (bookId : String) : Prop where
  accounts : listAccounts t bookId = listAccounts s bookId
  exact : ∀ snapshot ∈ t.snapshots, snapshot.bookId = bookId → ∃ account ∈ listAccounts s bookId,
    snapshot.accountId = account.id ∧ snapshot.currency = account.currency ∧
      snapshot.asOfDate ∈ daysOf s account ∧ snapshot.balanceMinor = heldAt s account snapshot.asOfDate
  every : ∀ account ∈ listAccounts s bookId, ∀ day ∈ daysOf s account,
    ∃ snapshot ∈ t.snapshots, snapshot.bookId = bookId ∧ snapshot.accountId = account.id ∧
      snapshot.asOfDate = day

def Unrecorded (db : WorthDb) (bookId : String) : Prop :=
  ∀ snapshot ∈ db.snapshots, snapshot.bookId ≠ bookId ∧
    ∀ account ∈ listAccounts db bookId, snapshot.accountId ≠ account.id

theorem eq_of_id (hids : (s.accounts.map fun a ↦ a.id).Nodup) {account account' : BalanceAccount}
    (haccount : account ∈ listAccounts s bookId) (haccount' : account' ∈ listAccounts s bookId)
    (hid : account.id = account'.id) : account = account' := by
  rw [listAccounts, List.mem_insertionSort, List.mem_filter] at haccount haccount'
  exact List.inj_on_of_nodup_map hids haccount.1 haccount'.1 hid

theorem charted_of_backfill (hids : (s.accounts.map fun a ↦ a.id).Nodup)
    (hnone : Unrecorded s bookId)
    (hrun : (networthBackfill h bookId).run s = (.ok created, t)) : Charted s t bookId := by
  obtain ⟨-, hbody⟩ := networthBackfill_eq_ok.1 hrun
  have hfilled := backfilled_of_run hrun
  have horigin := ensures_backfillAccounts_origin _ _ hbody
  have hnew : ∀ snapshot ∈ t.snapshots, (snapshot.bookId = bookId ∨
      ∃ account ∈ listAccounts s bookId, snapshot.accountId = account.id) → snapshot ∈ created := by
    intro snapshot hsnapshot hbelongs
    rw [hfilled.records.snapshots] at hsnapshot
    rcases List.mem_append.1 hsnapshot with hold | hcreated
    · obtain ⟨hbook, haccounts⟩ := hnone snapshot hold
      rcases hbelongs with hbelongs | ⟨account, haccount, hbelongs⟩
      · exact absurd hbelongs hbook
      · exact absurd hbelongs (haccounts account haccount)
    · exact hcreated
  refine ⟨hfilled.records.listAccounts bookId, ?_, ?_⟩
  · intro snapshot hsnapshot hbook
    have hcreated := hnew snapshot hsnapshot (.inl hbook)
    obtain ⟨account, haccount, hexact⟩ := hfilled.exact snapshot hcreated
    obtain ⟨-, account', haccount', hid, hday⟩ := horigin snapshot hcreated
    obtain rfl := eq_of_id hids haccount haccount' (hexact.accountId.symm.trans hid)
    exact ⟨account, haccount, hid, hexact.currency, hday, hexact.balance⟩
  · intro account haccount day hday
    obtain ⟨deltas, hdeltas, hdates⟩ := hfilled.covered account haccount
    rw [hfilled.records.deltas] at hdeltas
    have hmem : day ∈ deltas.map Prod.fst := by
      rw [ownCurrencyDeltasByDate_eq_ok hdeltas, List.map_map]
      exact List.mem_map.2 ⟨day, hday, rfl⟩
    obtain ⟨delta, hdelta, rfl⟩ := List.mem_map.1 hmem
    obtain ⟨snapshot, hsnapshot, hkey⟩ := mem_datesForAccount.1 (hdates delta hdelta)
    rw [dayOf, Prod.mk.injEq] at hkey
    have hcreated := hnew snapshot hsnapshot (.inr ⟨account, haccount, hkey.1⟩)
    exact ⟨snapshot, hsnapshot, (horigin snapshot hcreated).1, hkey.1, hkey.2⟩

variable (hcharted : Charted s t bookId) (hids : (s.accounts.map fun a ↦ a.id).Nodup)
include hcharted

/-- The points of the chart are the days on which some account moves. -/
theorem mem_pointDates_iff {fromDate toDate : String} :
    date ∈ pointDates t bookId fromDate toDate ↔
      MovesOn s bookId date ∧ fromDate ≤ date ∧ date ≤ toDate := by
  simp only [pointDates, List.mem_insertionSort, List.mem_dedup, List.mem_map, List.mem_filter,
    decide_eq_true_eq]
  constructor
  · intro hpoint
    obtain ⟨snapshot, ⟨⟨hsnapshot, hbook⟩, hrange⟩, rfl⟩ := hpoint
    obtain ⟨account, haccount, -, -, hday, -⟩ := hcharted.exact snapshot hsnapshot hbook
    exact ⟨⟨account, haccount, hday⟩, hrange⟩
  · intro hpoint
    obtain ⟨⟨account, haccount, hday⟩, hrange⟩ := hpoint
    obtain ⟨snapshot, hsnapshot, hbook, -, hdate⟩ := hcharted.every account haccount date hday
    exact ⟨snapshot, ⟨⟨hsnapshot, hbook⟩, hdate.symm ▸ hrange⟩, hdate⟩

theorem held_of_row {row : SeriesRow} (hrow : row ∈ pointRows t bookId date) :
    ∃ account ∈ listAccounts s bookId, row.accountId = account.id ∧
      row.currency = account.currency ∧ row.balanceMinor = heldAt s account date := by
  obtain ⟨accountId, -, hrow⟩ := List.mem_filterMap.1 hrow
  obtain ⟨-, hid, snapshot, hlatest, hsnapshotId, hcurrency, hbalance⟩ := rowOf_eq_some hrow
  obtain ⟨account, haccount, haccountId, hcurrency', -, hheld⟩ :=
    hcharted.exact snapshot hlatest.mem hlatest.book
  refine ⟨account, haccount, hid.trans (hsnapshotId.symm.trans haccountId),
    hcurrency.symm.trans hcurrency', ?_⟩
  rw [← hbalance, hheld]
  apply heldAt_congr hlatest.upTo
  intro day hday hle
  obtain ⟨other, hother, hbook, hotherId, rfl⟩ := hcharted.every account haccount day hday
  exact hlatest.latest other hother hbook (hotherId.trans haccountId.symm) hle

include hids

theorem knownAccounts_perm (date : String) :
    (knownAccounts t bookId date).Perm
      (((listAccounts s bookId).filter fun account ↦ movedBy s account date).map fun a ↦ a.id) := by
  have hknown : (knownAccounts t bookId date).Nodup :=
    (List.perm_insertionSort _ _).nodup_iff.2 (List.nodup_dedup _)
  have hmoved : (((listAccounts s bookId).filter fun account ↦ movedBy s account date).map
      fun a ↦ a.id).Nodup := by
    have hall : ((listAccounts s bookId).map fun a ↦ a.id).Nodup := by
      rw [listAccounts, ((List.perm_insertionSort _ _).map _).nodup_iff]
      exact hids.sublist (List.filter_sublist.map _)
    exact hall.sublist (List.filter_sublist.map _)
  apply (List.perm_ext_iff_of_nodup hknown hmoved).2
  intro accountId
  rw [mem_knownAccounts, List.mem_map]
  constructor
  · intro hmem
    obtain ⟨snapshot, hsnapshot, rfl⟩ := hmem
    obtain ⟨hmem, hbook, hle⟩ := mem_known.1 hsnapshot
    obtain ⟨account, haccount, hid, -, hday, -⟩ := hcharted.exact snapshot hmem hbook
    exact ⟨account, List.mem_filter.2 ⟨haccount, movedBy_iff.2 ⟨_, hday, hle⟩⟩, hid.symm⟩
  · intro hmem
    obtain ⟨account, haccount, rfl⟩ := hmem
    obtain ⟨haccount, hmoved⟩ := List.mem_filter.1 haccount
    obtain ⟨day, hday, hle⟩ := movedBy_iff.1 hmoved
    obtain ⟨snapshot, hsnapshot, hbook, hid, hdate⟩ := hcharted.every account haccount day hday
    exact ⟨snapshot, mem_known.2 ⟨hsnapshot, hbook, hdate.trans_le hle⟩, hid⟩

theorem sum_pointRows (date : String) :
    ((pointRows t bookId date).map SeriesRow.balanceMinor).sum =
      (((listAccounts s bookId).filter fun account ↦ movedBy s account date).map
        fun account ↦ heldAt s account date).sum := by
  -- what an account holds, by its identifier
  let held (id : String) : ℤ :=
    (((listAccounts s bookId).find? fun a ↦ a.id = id).map fun a ↦ heldAt s a date).getD 0
  have hheld : ∀ account ∈ listAccounts s bookId, held account.id = heldAt s account date := by
    intro account haccount
    obtain ⟨found, hfound⟩ : ∃ found,
        ((listAccounts s bookId).find? fun a ↦ a.id = account.id) = some found :=
      Option.isSome_iff_exists.1 (List.find?_isSome.2 ⟨account, haccount, by simp⟩)
    have hid : found.id = account.id := by simpa using List.find?_some hfound
    obtain rfl := eq_of_id hids (List.mem_of_find?_eq_some hfound) haccount hid
    simp only [held, hfound, Option.map_some, Option.getD_some]
  have hrows : (pointRows t bookId date).map SeriesRow.balanceMinor =
      ((pointRows t bookId date).map SeriesRow.accountId).map held := by
    rw [List.map_map]
    apply List.map_congr_left
    intro row hrow
    obtain ⟨account, haccount, hid, -, hbalance⟩ := held_of_row hcharted hrow
    rw [Function.comp_apply, hid, hheld account haccount, hbalance]
  rw [hrows, map_pointRows, ((knownAccounts_perm hcharted hids date).map held).sum_eq, List.map_map]
  refine congrArg List.sum (List.map_congr_left fun account haccount ↦ ?_)
  exact hheld account (List.mem_filter.1 haccount).1

end Charting

section Totals

variable {Rate : Type} {h : Host} {exchange : Exchange Rate} {s t u : WorthDb}
  {bookId fromDate toDate : String} {book : Book} {created : List NetWorthSnapshot}
  {result : NetWorthSeries Rate}

theorem foldlM_addBalance {bookCurrency : String} {rates : List (String × Option Rate)}
    {balances : List NetWorthAccountBalance} (hbalances : ∀ b ∈ balances, b.currency = bookCurrency)
    (acc : ℤ) (unconverted : List String) :
    balances.foldlM (addBalance exchange bookCurrency rates) (asI64 acc, unconverted) =
      .ok (asI64 (acc + (balances.map NetWorthAccountBalance.balanceMinor).sum), unconverted) := by
  induction balances generalizing acc with
  | nil => simp [pure, Except.pure]
  | cons b balances ih =>
    rw [List.forall_mem_cons] at hbalances
    rw [List.foldlM_cons, addBalance, if_pos hbalances.1, asI64_add_left]
    change balances.foldlM _ (asI64 (acc + b.balanceMinor), unconverted) = _
    rw [ih hbalances.2, List.map_cons, List.sum_cons, add_assoc]

/-- The points of a series in one currency are its dates with what their rows come to. -/
theorem points_eq (hbook : lookup Book.id t.books bookId = some book)
    (hrows : ∀ date, ∀ row ∈ pointRows t bookId date, row.currency = book.currency)
    (hrun : (networthSeries exchange h bookId fromDate toDate).run t = (.ok result, u)) :
    result.points = (pointDates t bookId fromDate toDate).map fun date ↦
      { pointOf book.currency date (pointRows t bookId date) with
        totalMinor := asI64 ((pointRows t bookId date).map SeriesRow.balanceMinor).sum } := by
  simp only [networthSeries, run_query_bind, run_ofExcept_bind_eq_ok] at hrun
  obtain ⟨book', hbook', -, -, -, -, rates, -, points, hpoints, hresult⟩ := hrun
  obtain rfl := Except.ok.inj (congrArg Prod.fst hresult)
  rw [hbook, orNotFound, Except.ok.injEq] at hbook'
  subst hbook'
  rw [foldl_series] at hpoints
  apply Except.ok.inj
  rw [← hpoints, List.mapM_map, except_mapM_eq_ok, List.forall₂_map_right_iff, List.forall₂_same]
  intro date _
  have hcurrencies : ∀ b ∈ (pointRows t bookId date).map balanceOf, b.currency = book.currency := by
    intro b hb
    obtain ⟨row, hrow, rfl⟩ := List.mem_map.1 hb
    exact hrows date row hrow
  have hsum : ((pointRows t bookId date).map balanceOf).foldlM
      (addBalance exchange book.currency rates) (asI64 0, []) = _ :=
    foldlM_addBalance hcurrencies 0 []
  rw [asI64_zero, zero_add, List.map_map] at hsum
  rw [Function.comp_apply, totalPoint, pointOf, hsum]
  rfl

/-- The chart shows what all accounts of the book hold exactly when, on every day in the range on
which some account moves, the opening balances of the accounts that have not moved yet cancel
out. -/
theorem chart_is_worth_iff (hbook : lookup Book.id s.books bookId = some book)
    (hcurrency : ∀ account ∈ listAccounts s bookId, account.currency = book.currency)
    (hids : (s.accounts.map fun a ↦ a.id).Nodup) (hnone : Unrecorded s bookId)
    (hdefined : Defined s bookId) (hbackfill : (networthBackfill h bookId).run s = (.ok created, t))
    (hseries : (networthSeries exchange h bookId fromDate toDate).run t = (.ok result, u)) :
    (∀ point ∈ result.points, realWorth t bookId point.asOfDate = .ok point.totalMinor) ↔
      ∀ date, MovesOn s bookId date → fromDate ≤ date → date ≤ toDate →
        asI64 (unmovedOpening s bookId date) = 0 := by
  have hcharted := charted_of_backfill hids hnone hbackfill
  have hrecords := (backfilled_of_run hbackfill).records
  have hbooks : lookup Book.id t.books bookId = some book := by rw [hrecords.books, hbook]
  have hrows : ∀ date, ∀ row ∈ pointRows t bookId date, row.currency = book.currency := by
    intro date row hrow
    obtain ⟨account, haccount, -, hrowCurrency, -⟩ := held_of_row hcharted hrow
    rw [hrowCurrency, hcurrency account haccount]
  have hshows : ∀ date, realWorth t bookId date =
      .ok (asI64 ((pointRows t bookId date).map SeriesRow.balanceMinor).sum) ↔
        asI64 (unmovedOpening s bookId date) = 0 := by
    intro date
    rw [Records.realWorth hrecords, realWorth_eq hdefined, Except.ok.injEq,
      sum_pointRows hcharted hids, asI64_eq_iff, word_held, add_eq_left, ← asI64_zero, asI64_eq_iff]
    exact Iff.of_eq (congrArg _ Int.cast_zero.symm)
  rw [points_eq hbooks hrows hseries, List.forall_mem_map]
  constructor
  · intro hpoints date hmoves hfrom hto
    exact (hshows date).1 (hpoints date ((mem_pointDates_iff hcharted).2 ⟨hmoves, hfrom, hto⟩))
  · intro hopening date hdate
    obtain ⟨hmoves, hfrom, hto⟩ := (mem_pointDates_iff hcharted).1 hdate
    exact (hshows date).2 (hopening date hmoves hfrom hto)

/-- Movements that only add to an account have a balance at every date. -/
theorem defined_of_nonneg (hmovements : ∀ account ∈ listAccounts s bookId,
    (∀ v ∈ (ownTransactions s account.id account.currency).map Transaction.amountMinor, 0 ≤ v) ∧
      ((ownTransactions s account.id account.currency).map Transaction.amountMinor).sum < 2 ^ 63) :
    Defined s bookId := by
  intro account haccount date
  obtain ⟨hnonneg, htotal⟩ := hmovements account haccount
  have hsublist : (upTo s account.id account.currency date).Sublist
      ((ownTransactions s account.id account.currency).map Transaction.amountMinor) :=
    List.filter_sublist.map _
  have hsum := hsublist.sum_le_sum hnonneg
  have hupTo : sqlSum (upTo s account.id account.currency date) = _ :=
    sqlSum_of_nonneg (fun v hv ↦ hnonneg v (hsublist.subset hv)) (hsum.trans_lt htotal)
  rw [upTo] at hupTo
  exact ⟨_, by rw [balanceAsOf, hupTo]; rfl⟩

def plainExchange : Exchange Unit :=
  ⟨fun _ _ ↦ .ok none, fun v _ ↦ .ok v⟩

def laterSavings : WorthDb :=
  { twoDays with
    accounts := twoDays.accounts ++ [⟨⟨"savings", "book", "ZAR"⟩, 0, "2025-01-01T00:00:00Z"⟩]
    transactions := twoDays.transactions ++
      [⟨"third", "book", "savings", none, .manual, none, "third", "2025-02-05", 40, "ZAR", none, none,
        none, .pending⟩] }

/-- The account is charted with its opening balance of 100, and the savings from their first
movement on. -/
theorem chart_is_worth_of_savings :
    ∃ t result u, ((networthBackfill plainHost "book").run laterSavings).2 = t ∧
      (networthSeries plainExchange plainHost "book" "2025-01-01" "2025-12-31").run t =
        (.ok result, u) ∧
      result.points.map NetWorthPoint.totalMinor = [130, 150, 190] ∧
      ∀ point ∈ result.points, realWorth t "book" point.asOfDate = .ok point.totalMinor := by
  have hbackfill : ((networthBackfill plainHost "book").run laterSavings).1.map List.length =
      .ok 3 := by
    decide +kernel
  have htotals : ((networthSeries plainExchange plainHost "book" "2025-01-01" "2025-12-31").run
      ((networthBackfill plainHost "book").run laterSavings).2).1.map
        (fun r ↦ r.points.map NetWorthPoint.totalMinor) = .ok [130, 150, 190] := by
    decide +kernel
  obtain ⟨created, hcreated, -⟩ := except_map_eq_ok.1 hbackfill
  obtain ⟨result, hresult, hpoints⟩ := except_map_eq_ok.1 htotals
  have haccounts : listAccounts laterSavings "book" = laterSavings.accounts := by decide +kernel
  have hbook : lookup Book.id laterSavings.books "book" = some plainBook := by decide +kernel
  have hopening : ∀ account ∈ laterSavings.accounts, ∀ date ∈ daysOf laterSavings account,
      asI64 (unmovedOpening laterSavings "book" date) = 0 := by
    decide +kernel
  refine ⟨_, result, _, rfl, Prod.ext hresult rfl, hpoints, ?_⟩
  refine (chart_is_worth_iff hbook ?_ (by decide) (by simp [Unrecorded, laterSavings, twoDays]) ?_
    (Prod.ext hcreated rfl) (Prod.ext hresult rfl)).2 ?_
  · rw [haccounts]
    decide
  · apply defined_of_nonneg
    rw [haccounts]
    decide +kernel
  · intro date hmoves _ _
    obtain ⟨account, haccount, hday⟩ := hmoves
    exact hopening account (haccounts ▸ haccount) date hday

def withSavings : WorthDb :=
  { twoDays with
    accounts := [⟨⟨"account", "book", "ZAR"⟩, 0, "2025-01-01T00:00:00Z"⟩,
      ⟨⟨"savings", "book", "ZAR"⟩, 100, "2025-01-01T00:00:00Z"⟩] }

/-- The savings are missing from the chart. -/
theorem chart_misses_savings :
    ¬∀ (h : Host) (exchange : Exchange Unit) (s t u : WorthDb) (bookId fromDate toDate : String)
      (book : Book) (created : List NetWorthSnapshot) (result : NetWorthSeries Unit),
      lookup Book.id s.books bookId = some book →
      (∀ account ∈ listAccounts s bookId, account.currency = book.currency) →
      (s.accounts.map fun a ↦ a.id).Nodup → s.snapshots = [] → Defined s bookId →
      (networthBackfill h bookId).run s = (.ok created, t) →
      (networthSeries exchange h bookId fromDate toDate).run t = (.ok result, u) →
      ∀ point ∈ result.points, realWorth t bookId point.asOfDate = .ok point.totalMinor := by
  intro hclaim
  have hbackfill : ((networthBackfill plainHost "book").run withSavings).1.map List.length = .ok 2 := by
    decide +kernel
  have htotals : ((networthSeries plainExchange plainHost "book" "2025-01-30" "2025-01-30").run
      ((networthBackfill plainHost "book").run withSavings).2).1.map
        (fun r ↦ r.points.map fun p ↦ (p.asOfDate, p.totalMinor)) = .ok [("2025-01-30", 30)] := by
    decide +kernel
  have hworth : realWorth ((networthBackfill plainHost "book").run withSavings).2 "book"
      "2025-01-30" = .ok 130 := by
    decide +kernel
  obtain ⟨created, hcreated, -⟩ := except_map_eq_ok.1 hbackfill
  obtain ⟨result, hresult, hpoints⟩ := except_map_eq_ok.1 htotals
  have haccounts : listAccounts withSavings "book" = withSavings.accounts := by decide +kernel
  have hall := hclaim plainHost plainExchange withSavings _ _ "book" "2025-01-30" "2025-01-30"
    plainBook created result (by decide +kernel) (by rw [haccounts]; decide) (by decide) rfl
    (by
      apply defined_of_nonneg
      rw [haccounts]
      decide +kernel)
    (Prod.ext hcreated rfl) (Prod.ext hresult rfl)
  have hpoint : ("2025-01-30", (30 : ℤ)) ∈ result.points.map fun p ↦ (p.asOfDate, p.totalMinor) := by
    rw [hpoints]
    exact List.mem_singleton_self _
  obtain ⟨point, hpoint, heq⟩ := List.mem_map.1 hpoint
  rw [Prod.mk.injEq] at heq
  obtain ⟨hdate, htotal⟩ := heq
  have hshown := hall point hpoint
  rw [hdate, htotal, hworth] at hshown
  revert hshown
  decide

end Totals

end SlipScan.Banking.Worth
