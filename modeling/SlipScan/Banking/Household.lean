import SlipScan.Foundation.Grouping
import SlipScan.Ledger.Soundness
import SlipScan.Model.Household
import SlipScan.Model.PlainHost

namespace SlipScan.Banking.Household

open Model.Domain Model.Database Model.Money Model.Household Model.PlainHost
  Foundation.Transaction Foundation.Interleaving Foundation.Table Foundation.Grouping
  Ledger.Soundness Ledger.Posting

variable {db : HouseholdDb}

section Portions

def splitsOf (db : HouseholdDb) (transactionId : String) : List TransactionSplit :=
  db.splits.filter fun s ↦ s.transactionId = transactionId

/-- Who has what of a transaction. One that is not split goes to one member or to nobody. -/
def portionsOf (db : HouseholdDb) (t : AttributedTransaction) : List Portion :=
  if splitsOf db t.id = [] then [⟨t.attributedMemberId, t.categoryId, |t.amountMinor|⟩]
  else (splitsOf db t.id).map fun s ↦ ⟨some s.memberId, t.categoryId, s.shareMinor⟩

variable {covers : AttributedTransaction → Bool} {expense : Bool}

theorem splitsOf_eq_nil {id : String} :
    splitsOf db id = [] ↔ ∀ s ∈ db.splits, s.transactionId ≠ id := by
  simp [splitsOf, List.filter_eq_nil_iff]

/-- The two branches of the query divide the transactions between them. -/
theorem perMember_perm (hamount : ∀ t, covers t = true →
    (if expense then -t.amountMinor else t.amountMinor) = |t.amountMinor|) :
    (perMember db covers expense).Perm
      ((db.transactions.filter covers).flatMap (portionsOf db)) := by
  have hsplit : (db.splits.flatMap fun s ↦
      (db.transactions.filter fun t ↦ t.id = s.transactionId ∧ covers t).map fun t ↦
        (⟨some s.memberId, t.categoryId, s.shareMinor⟩ : Portion)).Perm
      ((db.transactions.filter covers).flatMap fun t ↦
        (splitsOf db t.id).map fun s ↦ ⟨some s.memberId, t.categoryId, s.shareMinor⟩) := by
    have hfilter : ∀ s : TransactionSplit,
        (db.transactions.filter fun t ↦ t.id = s.transactionId ∧ covers t) =
          (db.transactions.filter covers).filter fun t ↦ s.transactionId = t.id := by
      intro s
      rw [List.filter_filter]
      refine List.filter_congr fun t _ ↦ ?_
      by_cases hid : s.transactionId = t.id
      · simp [hid]
      · simp [hid, Ne.symm hid]
    simp only [hfilter]
    exact flatMap_filter_perm (fun (s : TransactionSplit) (t : AttributedTransaction) ↦
      decide (s.transactionId = t.id)) _ _ _
  have hwhole : ((db.transactions.filter fun t ↦
      covers t ∧ ∀ s ∈ db.splits, s.transactionId ≠ t.id).map fun t ↦
        (⟨t.attributedMemberId, t.categoryId,
          if expense then -t.amountMinor else t.amountMinor⟩ : Portion)) =
      (db.transactions.filter covers).flatMap fun t ↦
        if splitsOf db t.id = [] then [⟨t.attributedMemberId, t.categoryId, |t.amountMinor|⟩]
        else [] := by
    have hfilter : (db.transactions.filter fun t ↦
        covers t ∧ ∀ s ∈ db.splits, s.transactionId ≠ t.id) =
          (db.transactions.filter covers).filter fun t ↦ splitsOf db t.id = [] := by
      rw [List.filter_filter]
      refine List.filter_congr fun t _ ↦ ?_
      rw [Bool.decide_and, Bool.decide_eq_true, Bool.and_comm]
      exact congrArg (· && covers t) (decide_eq_decide.2 splitsOf_eq_nil.symm)
    rw [hfilter, map_filter_eq_flatMap]
    refine List.flatMap_congr fun t ht ↦ ?_
    rw [hamount t (List.mem_filter.1 ht).2]
    simp only [decide_eq_true_eq]
  have hportions : portionsOf db = fun t ↦
      ((splitsOf db t.id).map fun s ↦ ⟨some s.memberId, t.categoryId, s.shareMinor⟩) ++
        if splitsOf db t.id = [] then [⟨t.attributedMemberId, t.categoryId, |t.amountMinor|⟩]
        else [] := by
    funext t
    by_cases hnil : splitsOf db t.id = [] <;> simp [portionsOf, hnil]
  rw [perMember, hwhole, hportions]
  exact (hsplit.append_right _).trans (List.flatMap_append_perm _ _ _)

theorem map_shareMinor_portionsOf (t : AttributedTransaction) :
    ((portionsOf db t).map Portion.shareMinor).sum =
      if splitsOf db t.id = [] then |t.amountMinor|
      else ((splitsOf db t.id).map fun s ↦ s.shareMinor).sum := by
  rw [portionsOf]
  split
  · simp
  · rw [List.map_map]
    rfl

end Portions

section Totals

variable {κ : Type} [DecidableEq κ] {key : Portion → κ}

def portion (db : HouseholdDb) (key : Portion → κ) (t : AttributedTransaction) (k : κ) : ℤ :=
  groupSum key Portion.shareMinor (portionsOf db t) k

/-- Rows with distinct keys whose totals are made of what the transactions add to them, and that
have every transaction whole. -/
structure Distributes (db : HouseholdDb) (key : Portion → κ) (ts : List AttributedTransaction)
    (rows : List (κ × ℤ)) : Prop where
  distinct : (rows.map Prod.fst).Nodup
  totals : ∀ row ∈ rows, row.2 = (ts.map fun t ↦ portion db key t row.1).sum
  whole : ∀ t ∈ ts, (rows.map fun row ↦ portion db key t row.1).sum = |t.amountMinor|
  total : (rows.map Prod.snd).sum = (ts.map fun t ↦ |t.amountMinor|).sum

variable {ts : List AttributedTransaction} {rows rows' : List (κ × ℤ)} {portions : List Portion}

theorem Distributes.perm (hd : Distributes db key ts rows) (hrows : rows'.Perm rows) :
    Distributes db key ts rows' where
  distinct := (hrows.map Prod.fst).nodup_iff.2 hd.distinct
  totals row hrow := hd.totals row (hrows.mem_iff.1 hrow)
  whole t ht := ((hrows.map _).sum_eq).trans (hd.whole t ht)
  total := ((hrows.map Prod.snd).sum_eq).trans hd.total

theorem distributes_of_totals (hperm : portions.Perm (ts.flatMap (portionsOf db)))
    (hts : ∀ t ∈ ts, ((portionsOf db t).map Portion.shareMinor).sum = |t.amountMinor|)
    (hdistinct : (rows.map Prod.fst).Nodup) (hkeys : ∀ p ∈ portions, key p ∈ rows.map Prod.fst)
    (hrows : ∀ row ∈ rows, row.2 = groupSum key Portion.shareMinor portions row.1) :
    Distributes db key ts rows where
  distinct := hdistinct
  totals row hrow := by
    rw [hrows row hrow, groupSum_perm hperm, groupSum_flatMap]
    rfl
  whole t ht := by
    have hmem : ∀ p ∈ portionsOf db t, key p ∈ rows.map Prod.fst := fun p hp ↦
      hkeys p (hperm.mem_iff.2 (List.mem_flatMap.2 ⟨t, ht, hp⟩))
    rw [← hts t ht, ← sum_groupSum key Portion.shareMinor hdistinct hmem, List.map_map]
    rfl
  total := by
    have hsnd : rows.map Prod.snd =
        (rows.map Prod.fst).map (groupSum key Portion.shareMinor portions) := by
      rw [List.map_map]
      exact List.map_congr_left hrows
    rw [hsnd, sum_groupSum key Portion.shareMinor hdistinct hkeys, (hperm.map _).sum_eq,
      List.map_flatMap, List.flatMap_def, List.sum_flatten, List.map_map]
    exact congrArg List.sum (List.map_congr_left hts)

theorem totals_eq_ok (hrows : totals key portions = .ok rows) :
    rows.map Prod.fst = (portions.map key).dedup ∧
      ∀ row ∈ rows, row.2 = groupSum key Portion.shareMinor portions row.1 := by
  rw [totals, except_mapM_eq_ok] at hrows
  generalize (portions.map key).dedup = keys at hrows
  induction hrows with
  | nil => exact ⟨rfl, by simp⟩
  | @cons k row keys rows hrow _ ih =>
    simp only [except_bind_eq_ok, except_pure_eq_ok] at hrow
    obtain ⟨total, htotal, rfl⟩ := hrow
    refine ⟨by rw [List.map_cons, ih.1], List.forall_mem_cons.2 ⟨sqlSum_eq_ok htotal, ih.2⟩⟩

theorem distributes_totals (hperm : portions.Perm (ts.flatMap (portionsOf db)))
    (hts : ∀ t ∈ ts, ((portionsOf db t).map Portion.shareMinor).sum = |t.amountMinor|)
    (hrows : totals key portions = .ok rows) : Distributes db key ts rows := by
  obtain ⟨hkeys, htotals⟩ := totals_eq_ok hrows
  apply distributes_of_totals hperm hts _ _ htotals
  · rw [hkeys]
    exact List.nodup_dedup _
  · intro p hp
    rw [hkeys, List.mem_dedup]
    exact List.mem_map_of_mem hp

theorem lookup_totals {key : Portion → Option String} {rows : List (Option String × ℤ)}
    (hrows : totals key portions = .ok rows) (k : Option String) :
    (rows.lookup k).getD 0 = groupSum key Portion.shareMinor portions k := by
  obtain ⟨hkeys, htotals⟩ := totals_eq_ok hrows
  cases hk : rows.lookup k with
  | some total =>
    obtain ⟨l, l', rfl, -⟩ := List.lookup_eq_some_iff.1 hk
    exact htotals (k, total) (by simp)
  | none =>
    refine (groupSum_eq_zero fun p hp heq ↦ ?_).symm
    have hmem : k ∈ rows.map Prod.fst := by
      rw [hkeys, List.mem_dedup, ← heq]
      exact List.mem_map_of_mem hp
    obtain ⟨row, hrow, rfl⟩ := List.mem_map.1 hmem
    simpa using List.lookup_eq_none_iff.1 hk row hrow

end Totals

section Reports

structure Shared (db : HouseholdDb) (t : AttributedTransaction) : Prop where
  positive : ∀ s ∈ splitsOf db t.id, 0 < s.shareMinor
  whole : ((splitsOf db t.id).map fun s ↦ s.shareMinor).sum = |t.amountMinor|
  once : ((splitsOf db t.id).map fun s ↦ s.memberId).Nodup
  own : ∀ s ∈ splitsOf db t.id, ∃ m ∈ db.members, m.id = s.memberId ∧ m.bookId = t.bookId

/-- Transactions are split as a whole among members of their book, or not at all, and they are
attributed to members of their book. -/
structure Fair (db : HouseholdDb) : Prop where
  memberIds : (db.members.map Member.id).Nodup
  transactionIds : (db.transactions.map fun t ↦ t.id).Nodup
  splitIds : (db.splits.map fun s ↦ s.id).Nodup
  known : ∀ s ∈ db.splits, ∃ t ∈ db.transactions, t.id = s.transactionId
  attributed : ∀ t ∈ db.transactions, ∀ k ∈ t.attributedMemberId,
    ∃ m ∈ db.members, m.id = k ∧ m.bookId = t.bookId
  shared : ∀ t ∈ db.transactions, splitsOf db t.id = [] ∨ Shared db t

variable {bookId fromDate toDate currency : String}

def coveredTransactions (db : HouseholdDb) (bookId fromDate toDate currency : String)
    (expense : Bool) : List AttributedTransaction :=
  db.transactions.filter (covered bookId fromDate toDate currency expense)

theorem Fair.whole (hs : Fair db) {t : AttributedTransaction} (ht : t ∈ db.transactions) :
    ((portionsOf db t).map Portion.shareMinor).sum = |t.amountMinor| := by
  rw [map_shareMinor_portionsOf]
  split
  · rfl
  · exact ((hs.shared t ht).resolve_left ‹_›).whole

theorem amount_of_covered {expense : Bool} {t : AttributedTransaction}
    (ht : covered bookId fromDate toDate currency expense t = true) :
    (if expense then -t.amountMinor else t.amountMinor) = |t.amountMinor| := by
  simp only [covered, Bool.and_eq_true] at ht
  obtain ⟨-, hsign⟩ := ht
  cases expense with
  | true =>
    have hneg : t.amountMinor < 0 := by simpa using hsign
    exact (abs_of_neg hneg).symm
  | false =>
    have hpos : 0 < t.amountMinor := by simpa using hsign
    exact (abs_of_pos hpos).symm

theorem perMember_covered (expense : Bool) :
    (perMember db (covered bookId fromDate toDate currency expense) expense).Perm
      ((coveredTransactions db bookId fromDate toDate currency expense).flatMap (portionsOf db)) :=
  perMember_perm fun _ ↦ amount_of_covered

theorem Fair.memberAmount (hs : Fair db) {expense : Bool} {rows : List MemberAmountRow}
    (hrows : memberAmount db bookId fromDate toDate currency expense = .ok rows) :
    Distributes db Portion.memberId
      (coveredTransactions db bookId fromDate toDate currency expense)
      (rows.map fun row ↦ (row.memberId, row.totalMinor)) := by
  simp only [Model.Household.memberAmount, except_bind_eq_ok, except_pure_eq_ok] at hrows
  obtain ⟨found, hfound, rfl⟩ := hrows
  have hd := distributes_totals (perMember_covered expense)
    (fun t ht ↦ hs.whole (List.mem_filter.1 ht).1) hfound
  refine hd.perm (((List.perm_insertionSort _ _).map _).trans ?_)
  rw [List.map_map]
  exact List.Perm.of_eq (List.map_id' found)

theorem Fair.memberCategory (hs : Fair db) {rows : List MemberCategoryRow}
    (hrows : memberCategory db bookId fromDate toDate currency = .ok rows) :
    Distributes db (fun p ↦ (p.memberId, p.categoryId))
      (coveredTransactions db bookId fromDate toDate currency true)
      (rows.map fun row ↦ ((row.memberId, row.categoryId), row.totalMinor)) := by
  simp only [Model.Household.memberCategory, except_bind_eq_ok, except_pure_eq_ok] at hrows
  obtain ⟨found, hfound, rfl⟩ := hrows
  have hd := distributes_totals (perMember_covered true)
    (fun t ht ↦ hs.whole (List.mem_filter.1 ht).1) hfound
  refine hd.perm (((List.perm_insertionSort _ _).map _).trans ?_)
  rw [List.map_map]
  exact List.Perm.of_eq (List.map_id' found)

theorem Fair.own (hs : Fair db) {t : AttributedTransaction} (ht : t ∈ db.transactions)
    {p : Portion} (hp : p ∈ portionsOf db t) {memberId : String}
    (hmember : p.memberId = some memberId) :
    ∃ m ∈ db.members, m.id = memberId ∧ m.bookId = t.bookId := by
  rw [portionsOf] at hp
  split at hp
  · obtain rfl := List.mem_singleton.1 hp
    exact hs.attributed t ht memberId hmember
  · obtain ⟨s, hmem, rfl⟩ := List.mem_map.1 hp
    obtain rfl := Option.some.inj hmember
    exact ((hs.shared t ht).resolve_left ‹_›).own s hmem

def settleTotals (db : HouseholdDb) (bookId : String) (found : List (Option String × ℤ)) :
    List (Option String × ℤ) :=
  ((db.members.filter fun m ↦ m.bookId = bookId).map fun m ↦
    (some m.id, (found.lookup (some m.id)).getD 0)) ++ [(none, (found.lookup none).getD 0)]

theorem map_fst_settleTotals {found : List (Option String × ℤ)} :
    (settleTotals db bookId found).map Prod.fst =
      ((db.members.filter fun m ↦ m.bookId = bookId).map Member.id).map some ++ [none] := by
  simp [settleTotals, Function.comp_def]

theorem Fair.distributes_settleTotals (hs : Fair db) {expense : Bool}
    {found : List (Option String × ℤ)} (hfound : totals Portion.memberId
      (perMember db (covered bookId fromDate toDate currency expense) expense) = .ok found) :
    Distributes db Portion.memberId
      (coveredTransactions db bookId fromDate toDate currency expense)
      (settleTotals db bookId found) := by
  apply distributes_of_totals (perMember_covered expense)
    (fun t ht ↦ hs.whole (List.mem_filter.1 ht).1)
  · rw [map_fst_settleTotals]
    have hids : ((db.members.filter fun m ↦ m.bookId = bookId).map Member.id).Nodup :=
      hs.memberIds.sublist (List.filter_sublist.map _)
    rw [List.nodup_append]
    refine ⟨hids.map (Option.some_injective _), by simp, fun a ha b hb ↦ ?_⟩
    obtain ⟨id, -, rfl⟩ := List.mem_map.1 ha
    rw [List.mem_singleton.1 hb]
    exact Option.some_ne_none id
  · intro p hp
    obtain ⟨t, ht, hp⟩ := List.mem_flatMap.1 ((perMember_covered expense).mem_iff.1 hp)
    obtain ⟨ht, hcovered⟩ := List.mem_filter.1 ht
    have hbook : t.bookId = bookId := by
      simp only [covered, Bool.and_eq_true, decide_eq_true_eq] at hcovered
      exact hcovered.1.1.1.1.1
    rw [map_fst_settleTotals]
    cases hmember : p.memberId with
    | none => simp
    | some memberId =>
      obtain ⟨m, hm, rfl, hown⟩ := hs.own ht hp hmember
      refine List.mem_append_left _ (List.mem_map_of_mem (List.mem_map_of_mem ?_))
      simp [hm, hown, hbook]
  · intro row hrow
    rcases List.mem_append.1 hrow with hrow | hrow
    · obtain ⟨m, -, rfl⟩ := List.mem_map.1 hrow
      exact lookup_totals hfound _
    · obtain rfl := List.mem_singleton.1 hrow
      exact lookup_totals hfound none

/-- A settlement has a row for every member of the book and one for the rest, its two columns have
every transaction whole, and its balance is their difference. -/
structure Settles (db : HouseholdDb) (bookId fromDate toDate currency : String)
    (rows : List MemberSettleRow) : Prop where
  members : (rows.map MemberSettleRow.memberId).Perm
    (((db.members.filter fun m ↦ m.bookId = bookId).map Member.id).map some ++ [none])
  contributions : Distributes db Portion.memberId
    (coveredTransactions db bookId fromDate toDate currency false)
    (rows.map fun row ↦ (row.memberId, row.contributionsMinor))
  expenses : Distributes db Portion.memberId
    (coveredTransactions db bookId fromDate toDate currency true)
    (rows.map fun row ↦ (row.memberId, row.expensesMinor))
  net : ∀ row ∈ rows, row.netMinor = row.contributionsMinor - row.expensesMinor

theorem Fair.settleUp (hs : Fair db) {rows : List MemberSettleRow}
    (hrows : settleUp db bookId fromDate toDate currency = .ok rows) :
    Settles db bookId fromDate toDate currency rows := by
  simp only [Model.Household.settleUp, except_bind_eq_ok, except_pure_eq_ok] at hrows
  obtain ⟨contribution, hcontribution, expense, hexpense, rfl⟩ := hrows
  refine ⟨?_, (hs.distributes_settleTotals hcontribution).perm ?_,
    (hs.distributes_settleTotals hexpense).perm ?_, ?_⟩
  · refine ((List.perm_insertionSort _ _).map _).trans (List.Perm.of_eq ?_)
    simp [settleRow, Function.comp_def]
  · refine ((List.perm_insertionSort _ _).map _).trans (List.Perm.of_eq ?_)
    simp [settleRow, settleTotals, Function.comp_def]
  · refine ((List.perm_insertionSort _ _).map _).trans (List.Perm.of_eq ?_)
    simp [settleRow, settleTotals, Function.comp_def]
  · intro row hrow
    rcases List.mem_append.1 ((List.perm_insertionSort _ _).mem_iff.1 hrow) with hrow | hrow
    · obtain ⟨m, -, rfl⟩ := List.mem_map.1 hrow
      rfl
    · obtain rfl := List.mem_singleton.1 hrow
      rfl

end Reports

section Rules

variable {s : HouseholdDb}

theorem ensures_enforce {c : Prop} [Decidable c] {message : String}
    {Q : Unit → HouseholdDb → Prop} : Ensures (enforce c message) s Q ↔ (c → Q () s) := by
  rw [enforce]
  simp

theorem ensures_newRowId {h : Host} {Q : String → HouseholdDb → Prop} :
    Ensures (newRowId h) s Q ↔ Q (h.newId s.minted) { s with minted := s.minted + 1 } := by
  simp [newRowId]

theorem getMember_eq_ok {id : String} {m : Member} :
    getMember db id = .ok m ↔ lookup Member.id db.members id = some m := by
  rw [getMember]
  cases lookup Member.id db.members id <;> simp [orNotFound]

theorem getTransaction_eq_ok {id : String} {t : AttributedTransaction} :
    getTransaction db id = .ok t ↔ lookup (fun t ↦ t.id) db.transactions id = some t := by
  rw [getTransaction]
  cases lookup (fun t ↦ t.id) db.transactions id <;> simp [orNotFound]

end Rules

section Transactions

variable {s s' : HouseholdDb}

def MembersStay (s s' : HouseholdDb) : Prop :=
  ∀ m ∈ s.members, ∃ m' ∈ s'.members, m'.id = m.id ∧ m'.bookId = m.bookId

theorem MembersStay.own (hm : MembersStay s s') {k bookId : String}
    (hk : ∃ m ∈ s.members, m.id = k ∧ m.bookId = bookId) :
    ∃ m ∈ s'.members, m.id = k ∧ m.bookId = bookId := by
  obtain ⟨m, hmem, rfl, rfl⟩ := hk
  exact hm m hmem

theorem Shared.congr {t t' : AttributedTransaction} (hs : Shared s t) (hm : MembersStay s s')
    (hsplits : splitsOf s' t'.id = splitsOf s t.id) (hbook : t'.bookId = t.bookId)
    (hamount : t'.amountMinor = t.amountMinor) : Shared s' t' where
  positive := by
    rw [hsplits]
    exact hs.positive
  whole := by
    rw [hsplits, hamount]
    exact hs.whole
  once := by
    rw [hsplits]
    exact hs.once
  own := by
    rw [hsplits, hbook]
    exact fun r hr ↦ hm.own (hs.own r hr)

theorem Fair.change (hs : Fair s) (hm : MembersStay s s')
    (hids : (s'.members.map Member.id).Nodup) (hsplits : s'.splits = s.splits)
    (change : AttributedTransaction → AttributedTransaction)
    (htransactions : s'.transactions = s.transactions.map change)
    (hkeep : ∀ t, (change t).id = t.id ∧ (change t).bookId = t.bookId ∧
      (change t).amountMinor = t.amountMinor)
    (hattributed : ∀ t ∈ s.transactions, ∀ k ∈ (change t).attributedMemberId,
      ∃ m ∈ s'.members, m.id = k ∧ m.bookId = t.bookId) : Fair s' where
  memberIds := hids
  transactionIds := by
    rw [htransactions, List.map_map]
    have hid : (fun t : AttributedTransaction ↦ t.id) ∘ change = fun t ↦ t.id :=
      funext fun t ↦ (hkeep t).1
    rw [hid]
    exact hs.transactionIds
  splitIds := by
    rw [hsplits]
    exact hs.splitIds
  known := by
    rw [hsplits]
    intro r hr
    obtain ⟨t, ht, hid⟩ := hs.known r hr
    exact ⟨change t, htransactions ▸ List.mem_map_of_mem ht, (hkeep t).1.trans hid⟩
  attributed := by
    rw [htransactions]
    intro t' ht'
    obtain ⟨t, ht, rfl⟩ := List.mem_map.1 ht'
    rw [(hkeep t).2.1]
    exact hattributed t ht
  shared := by
    rw [htransactions]
    intro t' ht'
    obtain ⟨t, ht, rfl⟩ := List.mem_map.1 ht'
    have hof : splitsOf s' (change t).id = splitsOf s t.id := by
      rw [splitsOf, splitsOf, hsplits, (hkeep t).1]
    refine (hs.shared t ht).imp (fun hnil ↦ hof.trans hnil) fun hshared ↦ ?_
    exact hshared.congr hm hof (hkeep t).2.1 (hkeep t).2.2

theorem Fair.elsewhere (hs : Fair s) (he : Elsewhere s s') : Fair s' := by
  obtain ⟨change, htransactions, hkeep⟩ := he.transactions
  apply hs.change he.members (he.distinct hs.memberIds) he.splits change htransactions
  · exact fun t ↦ ⟨(hkeep t).1, (hkeep t).2.1, (hkeep t).2.2.1⟩
  · intro t ht k hk
    rw [(hkeep t).2.2.2] at hk
    exact MembersStay.own he.members (hs.attributed t ht k hk)

theorem mem_of_findDefaultOwner {bookId accountId : String} {m : Member}
    (hm : findDefaultOwner s bookId accountId = some m) : m ∈ s.members ∧ m.bookId = bookId := by
  have hmem := List.mem_of_head? hm
  rw [List.mem_insertionSort, List.mem_filter] at hmem
  obtain ⟨hmem, hcond⟩ := hmem
  exact ⟨hmem, (of_decide_eq_true hcond).1⟩

/-- A new transaction is not split, and its attribution is to a member of its book. -/
theorem insertTransaction_fair (txn : Transaction) (hs : Fair s) :
    Ensures (insertTransaction txn) s fun _ s' ↦ Fair s' := by
  simp only [insertTransaction, ensures_bind, ensures_get, ensures_enforce, ensures_modify]
  intro hfresh
  refine ⟨hs.memberIds, nodup_concat hfresh hs.transactionIds, hs.splitIds, ?_, ?_, ?_⟩
  · intro r hr
    obtain ⟨t, ht, hid⟩ := hs.known r hr
    exact ⟨t, List.mem_append_left _ ht, hid⟩
  · intro t ht k hk
    rcases List.mem_append.1 ht with ht | ht
    · exact hs.attributed t ht k hk
    · obtain rfl := List.mem_singleton.1 ht
      obtain ⟨m, hm, rfl⟩ := Option.map_eq_some_iff.1 hk
      obtain ⟨hmem, hbook⟩ := mem_of_findDefaultOwner hm
      exact ⟨m, hmem, rfl, hbook⟩
  · intro t ht
    rcases List.mem_append.1 ht with ht | ht
    · refine (hs.shared t ht).imp id fun hshared ↦ ?_
      exact ⟨hshared.positive, hshared.whole, hshared.once, hshared.own⟩
    · obtain rfl := List.mem_singleton.1 ht
      refine .inl (splitsOf_eq_nil.2 fun r hr heq ↦ ?_)
      obtain ⟨t, ht, hid⟩ := hs.known r hr
      exact hfresh t ht (hid.trans heq)

theorem eq_of_id {α : Type} {key : α → String} {l : List α} (hl : (l.map key).Nodup) {a b : α}
    (ha : a ∈ l) (hb : b ∈ l) (hab : key a = key b) : a = b :=
  List.inj_on_of_nodup_map hl ha hb hab

theorem setAttribution_fair {id : String} {memberId : Option String}
    {before : AttributedTransaction} (hs : Fair s)
    (hbefore : before ∈ s.transactions ∧ before.id = id)
    (hmember : ∀ k ∈ memberId, ∃ m ∈ s.members, m.id = k ∧ m.bookId = before.bookId) :
    Ensures (setAttribution id memberId) s fun _ s' ↦ Fair s' := by
  simp only [setAttribution, ensures_bind, ensures_get, ensures_enforce, ensures_modify]
  intro _
  refine hs.change (fun m hm ↦ ⟨m, hm, rfl, rfl⟩) hs.memberIds rfl
    (fun t ↦ if t.id = id then { t with attributedMemberId := memberId } else t) rfl
    (fun t ↦ ?_) fun t ht k hk ↦ ?_
  · split <;> exact ⟨rfl, rfl, rfl⟩
  · split at hk
    · obtain rfl := eq_of_id hs.transactionIds ht hbefore.1 (‹t.id = id›.trans hbefore.2.symm)
      exact hmember k hk
    · exact hs.attributed t ht k hk

theorem Fair.without {id : String} (hs : Fair s) (hsplits : ∀ r ∈ s.splits, r.memberId ≠ id)
    (hattributed : ∀ t ∈ s.transactions, t.attributedMemberId ≠ some id) :
    Fair { s with members := s.members.filter fun m ↦ m.id ≠ id } := by
  have hown : ∀ {k bookId : String}, k ≠ id → (∃ m ∈ s.members, m.id = k ∧ m.bookId = bookId) →
      ∃ m ∈ s.members.filter (fun m ↦ m.id ≠ id), m.id = k ∧ m.bookId = bookId := by
    intro k bookId hne hk
    obtain ⟨m, hm, rfl, rfl⟩ := hk
    exact ⟨m, List.mem_filter.2 ⟨hm, decide_eq_true hne⟩, rfl, rfl⟩
  refine ⟨hs.memberIds.sublist (List.filter_sublist.map _), hs.transactionIds, hs.splitIds,
    hs.known, ?_, ?_⟩
  · intro t ht k hk
    refine hown (fun heq ↦ hattributed t ht ?_) (hs.attributed t ht k hk)
    rw [← heq]
    exact hk
  · intro t ht
    refine (hs.shared t ht).imp (fun hnil ↦ hnil) fun hshared ↦ ?_
    refine ⟨hshared.positive, hshared.whole, hshared.once, fun r hr ↦ ?_⟩
    exact hown (hsplits r (List.mem_of_mem_filter hr)) (hshared.own r hr)

/-- Deleting a member that no split refers to takes it out of the attributions. -/
theorem deleteMember_fair {id : String} (hs : Fair s) :
    Ensures (deleteMember id) s fun _ s' ↦ Fair s' := by
  simp only [deleteMember, ensures_bind, ensures_get, ensures_enforce, ensures_modify]
  intro hsplits
  have hcleared : Fair { s with
      transactions := s.transactions.map fun t ↦
        if t.attributedMemberId = some id then { t with attributedMemberId := none } else t } := by
    refine hs.change (fun m hm ↦ ⟨m, hm, rfl, rfl⟩) hs.memberIds rfl _ rfl (fun t ↦ ?_)
      fun t ht k hk ↦ ?_
    · split <;> exact ⟨rfl, rfl, rfl⟩
    · split at hk
      · cases hk
      · exact hs.attributed t ht k hk
  refine hcleared.without hsplits fun t' ht' ↦ ?_
  obtain ⟨t, -, rfl⟩ := List.mem_map.1 ht'
  split
  · simp
  · assumption

end Transactions

section Shares

variable {s : HouseholdDb} {h : Host}

/-- The shares that a split may have: positive, of members of the book, each named once. -/
structure Shares (s : HouseholdDb) (bookId : String) (shares : List SplitShare) : Prop where
  positive : ∀ share ∈ shares, 0 < share.shareMinor
  once : (shares.map SplitShare.memberId).Nodup
  own : ∀ share ∈ shares, ∃ m ∈ s.members, m.id = share.memberId ∧ m.bookId = bookId

theorem checkedAdd_eq_ok {a b c : ℤ} (hc : checkedAdd a b = .ok c) : c = a + b := by
  rw [checkedAdd] at hc
  split at hc
  · exact (Except.ok.inj hc).symm
  · cases hc

/-- What the checks of the shares establish, and the sum that they find. -/
theorem checkShares_meets {R : List Unit → HouseholdDb → HouseholdDb → Prop} {bookId : String}
    {shares : List SplitShare} {seen : List String} {sum : ℤ} :
    (checkShares bookId shares seen sum).Meets Eq R s (OnSuccess fun total s' ↦
      s' = s ∧ Shares s bookId shares ∧ (∀ share ∈ shares, share.memberId ∉ seen) ∧
        total = sum + (shares.map SplitShare.shareMinor).sum) := by
  induction shares generalizing seen sum with
  | nil =>
    simp only [checkShares, meets_pure, onSuccess_ok]
    exact ⟨trivial, ⟨by simp, by simp, by simp⟩, by simp, by simp⟩
  | cons share shares ih =>
    simp only [checkShares, memberGet, meets_bind, meets_ofExcept, meets_query,
      continues_onSuccess, continues_ok, getMember_eq_ok]
    intro _ hunseen _ hpositive _ heq member hmember _ hbook sum' hsum
    subst heq
    refine ih.mono (fun _ _ _ hR ↦ hR) fun r s' hr ↦ ?_
    cases r with
    | error e => trivial
    | ok total =>
      obtain ⟨hsame, hshares, hnotin, htotal⟩ := hr
      obtain ⟨hmem, hid⟩ := lookup_eq_some hmember
      have hother : ∀ share' ∈ shares, share'.memberId ≠ share.memberId := fun share' hshare' heq ↦
        hnotin share' hshare' (heq ▸ List.mem_cons_self)
      refine ⟨hsame, ⟨?_, ?_, ?_⟩, ?_, ?_⟩
      · exact List.forall_mem_cons.2 ⟨require_eq_ok.1 hpositive, hshares.positive⟩
      · rw [List.map_cons, List.nodup_cons]
        refine ⟨fun hmem ↦ ?_, hshares.once⟩
        obtain ⟨share', hshare', heq⟩ := List.mem_map.1 hmem
        exact hother share' hshare' heq
      · exact List.forall_mem_cons.2 ⟨⟨member, hmem, hid, require_eq_ok.1 hbook⟩, hshares.own⟩
      · refine List.forall_mem_cons.2 ⟨require_eq_ok.1 hunseen, fun share' hshare' hseen ↦ ?_⟩
        exact hnotin share' hshare' (List.mem_cons_of_mem _ hseen)
      · rw [htotal, checkedAdd_eq_ok hsum, List.map_cons, List.sum_cons, add_assoc]

structure Filled (s : HouseholdDb) (transactionId : String) (shares : List SplitShare)
    (s' : HouseholdDb) : Prop where
  members : s'.members = s.members
  transactions : s'.transactions = s.transactions
  own : (splitsOf s' transactionId).map TransactionSplit.toSplitShare = shares
  others : ∀ id, id ≠ transactionId → splitsOf s' id = splitsOf s id
  splitIds : (s'.splits.map fun r ↦ r.id).Nodup
  known : ∀ r ∈ s'.splits, r ∈ s.splits ∨ r.transactionId = transactionId

theorem insertSplit_filled {u : HouseholdDb} {transactionId bookId now : String}
    {share : SplitShare} {done : List SplitShare} (hu : Filled s transactionId done u) :
    Ensures (do insertSplit { share with
        id := ← newRowId h, transactionId, bookId, createdAt := now } : HouseholdTx Unit) u
      fun _ u' ↦ Filled s transactionId (done ++ [share]) u' := by
  simp only [insertSplit, ensures_bind, ensures_newRowId, ensures_get, ensures_enforce,
    ensures_modify]
  intro hfresh _ _ _
  refine ⟨hu.members, hu.transactions, ?_, fun id hne ↦ ?_, nodup_concat hfresh hu.splitIds, ?_⟩
  · rw [← hu.own]
    simp [splitsOf, List.filter_append]
  · rw [← hu.others id hne]
    simp [splitsOf, List.filter_append, Ne.symm hne]
  · intro r hr
    rcases List.mem_append.1 hr with hr | hr
    · exact hu.known r hr
    · rw [List.mem_singleton.1 hr]
      exact .inr rfl

theorem setSplits_filled {transactionId bookId now : String} {shares : List SplitShare}
    (hids : (s.splits.map fun r ↦ r.id).Nodup) :
    Ensures (setSplits h transactionId bookId now shares) s fun _ s' ↦
      Filled s transactionId shares s' := by
  simp only [setSplits, ensures_bind, ensures_modify]
  have hempty : Filled s transactionId [] { s with
      splits := s.splits.filter fun r ↦ r.transactionId ≠ transactionId } := by
    refine ⟨rfl, rfl, ?_, fun id hne ↦ ?_, hids.sublist (List.filter_sublist.map _), ?_⟩
    · simp [splitsOf, List.filter_filter]
    · rw [splitsOf, splitsOf, List.filter_filter]
      refine List.filter_congr fun r _ ↦ ?_
      by_cases hid : r.transactionId = id <;> simp [hid, hne]
    · exact fun r hr ↦ .inl (List.mem_of_mem_filter hr)
  have hloop := ensures_forM_rest (I := fun left u ↦ ∃ done, done ++ left = shares ∧
    Filled s transactionId done u) (f := fun share : SplitShare ↦ (do
      insertSplit { share with
        id := ← newRowId h, transactionId, bookId, createdAt := now } : HouseholdTx Unit))
    shares ⟨[], rfl, hempty⟩ ?_
  · refine hloop.mono fun _ s' hs' ↦ ?_
    obtain ⟨done, hdone, hfilled⟩ := hs'
    rw [List.append_nil] at hdone
    rwa [← hdone]
  · intro share left u hu
    obtain ⟨done, hdone, hfilled⟩ := hu
    refine (insertSplit_filled hfilled).mono fun _ u' hu' ↦ ?_
    exact ⟨done ++ [share], by rw [List.append_assoc, List.singleton_append, hdone], hu'⟩

/-- Shares that sum to the amount of their transaction keep it fair, and so does clearing them. -/
theorem Filled.fair {s' : HouseholdDb} {t : AttributedTransaction} {shares : List SplitShare}
    (hfilled : Filled s t.id shares s') (hs : Fair s) (ht : t ∈ s.transactions)
    (hshares : Shares s t.bookId shares)
    (hsum : shares = [] ∨ (shares.map SplitShare.shareMinor).sum = |t.amountMinor|) : Fair s' := by
  have hmap : ∀ {β : Type} (f : SplitShare → β),
      (splitsOf s' t.id).map (fun r ↦ f r.toSplitShare) = shares.map f := by
    intro β f
    rw [← hfilled.own, List.map_map]
    rfl
  have hmem : ∀ r ∈ splitsOf s' t.id, r.toSplitShare ∈ shares := fun r hr ↦
    hfilled.own ▸ List.mem_map_of_mem hr
  refine ⟨hfilled.members ▸ hs.memberIds, hfilled.transactions ▸ hs.transactionIds,
    hfilled.splitIds, fun r hr ↦ ?_, ?_, fun t' ht' ↦ ?_⟩
  · rw [hfilled.transactions]
    rcases hfilled.known r hr with hr | hid
    · exact hs.known r hr
    · exact ⟨t, ht, hid.symm⟩
  · rw [hfilled.members, hfilled.transactions]
    exact hs.attributed
  · rw [hfilled.transactions] at ht'
    by_cases hid : t'.id = t.id
    · obtain rfl := eq_of_id hs.transactionIds ht' ht hid
      refine hsum.imp (fun hnil ↦ ?_) fun hsum ↦ ⟨fun r hr ↦ ?_, ?_, ?_, fun r hr ↦ ?_⟩
      · exact List.map_eq_nil_iff.1 (hfilled.own.trans hnil)
      · exact hshares.positive _ (hmem r hr)
      · exact (congrArg List.sum (hmap SplitShare.shareMinor)).trans hsum
      · exact (hmap SplitShare.memberId) ▸ hshares.once
      · rw [hfilled.members]
        exact hshares.own _ (hmem r hr)
    · have hsame := hfilled.others t'.id hid
      refine (hs.shared t' ht').imp (fun hnil ↦ hsame.trans hnil) fun hshared ↦ ?_
      exact hshared.congr (fun m hm ↦ ⟨m, hfilled.members ▸ hm, rfl, rfl⟩) hsame rfl rfl

end Shares

section Reassignment

variable {s : HouseholdDb}

def raised (share : ℤ) (r : TransactionSplit) : TransactionSplit :=
  { r with shareMinor := r.shareMinor + share }

def heldBy (memberId : String) (r : TransactionSplit) : TransactionSplit :=
  { r with memberId }

def merged (l : List TransactionSplit) (target split : TransactionSplit) : List TransactionSplit :=
  (update (fun r ↦ r.id) l target.id (raised split.shareMinor)).filter fun r ↦ r.id ≠ split.id

def handed (l : List TransactionSplit) (split : TransactionSplit) (toId : String) :
    List TransactionSplit :=
  update (fun r ↦ r.id) l split.id (heldBy toId)

variable {l : List TransactionSplit} {target split : TransactionSplit} {toId : String}

theorem sum_merged (hl : (l.map fun r ↦ r.id).Nodup) (htarget : target ∈ l) (hsplit : split ∈ l)
    (hne : split.id ≠ target.id) :
    ((merged l target split).map fun r ↦ r.shareMinor).sum =
      (l.map fun r ↦ r.shareMinor).sum := by
  have hids : ((update (fun r ↦ r.id) l target.id (raised split.shareMinor)).map
      fun r ↦ r.id).Nodup := by
    rwa [map_update_of_eq (raised split.shareMinor) fun _ ↦ rfl]
  have hmem : split ∈ update (fun r ↦ r.id) l target.id (raised split.shareMinor) :=
    mem_update.2 ⟨split, hsplit, if_neg hne⟩
  have hraised : (raised split.shareMinor target).shareMinor =
      target.shareMinor + split.shareMinor := rfl
  rw [merged, sum_remove (fun r : TransactionSplit ↦ r.shareMinor) hids hmem, update,
    sum_change (fun r : TransactionSplit ↦ r.shareMinor) _ hl htarget, hraised]
  omega

theorem sum_handed : ((handed l split toId).map fun r ↦ r.shareMinor).sum =
    (l.map fun r ↦ r.shareMinor).sum := by
  rw [handed, map_update_of_eq (heldBy toId) fun _ ↦ rfl]

theorem of_mem_merged {r : TransactionSplit} (hr : r ∈ merged l target split) :
    ∃ a ∈ l, r.id = a.id ∧ r.transactionId = a.transactionId ∧ r.memberId = a.memberId ∧
      (r.shareMinor = a.shareMinor ∨ r.shareMinor = a.shareMinor + split.shareMinor) := by
  obtain ⟨a, ha, hra⟩ := mem_update.1 (List.mem_of_mem_filter hr)
  split at hra
  · subst hra
    exact ⟨a, ha, rfl, rfl, rfl, .inr rfl⟩
  · subst hra
    exact ⟨a, ha, rfl, rfl, rfl, .inl rfl⟩

theorem of_mem_handed {r : TransactionSplit} (hr : r ∈ handed l split toId) :
    ∃ a ∈ l, r.id = a.id ∧ r.transactionId = a.transactionId ∧ r.shareMinor = a.shareMinor ∧
      (r.memberId = a.memberId ∨ a.id = split.id ∧ r.memberId = toId) := by
  obtain ⟨a, ha, hra⟩ := mem_update.1 hr
  split at hra
  · subst hra
    exact ⟨a, ha, rfl, rfl, rfl, .inr ⟨‹_›, rfl⟩⟩
  · subst hra
    exact ⟨a, ha, rfl, rfl, rfl, .inl rfl⟩

theorem nodup_members_merged (hl : (l.map fun r ↦ r.memberId).Nodup) :
    ((merged l target split).map fun r ↦ r.memberId).Nodup := by
  refine List.Nodup.sublist (List.filter_sublist.map _) ?_
  rwa [map_update_of_eq (raised split.shareMinor) fun _ ↦ rfl]

theorem nodup_members_handed (hids : (l.map fun r ↦ r.id).Nodup)
    (hl : (l.map fun r ↦ r.memberId).Nodup) (hto : ∀ r ∈ l, r.memberId ≠ toId) :
    ((handed l split toId).map fun r ↦ r.memberId).Nodup := by
  rw [handed, update, List.map_map]
  refine (List.Nodup.of_map _ hids).map_on fun a ha b hb hab ↦ ?_
  simp only [Function.comp_apply] at hab
  rw [apply_ite (fun r : TransactionSplit ↦ r.memberId),
    apply_ite (fun r : TransactionSplit ↦ r.memberId)] at hab
  by_cases hsplit : a.id = split.id
  · by_cases hsplit' : b.id = split.id
    · exact eq_of_id hids ha hb (hsplit.trans hsplit'.symm)
    · rw [if_pos hsplit, if_neg hsplit'] at hab
      exact absurd hab.symm (hto b hb)
  · by_cases hsplit' : b.id = split.id
    · rw [if_neg hsplit, if_pos hsplit'] at hab
      exact absurd hab (hto a ha)
    · rw [if_neg hsplit, if_neg hsplit'] at hab
      exact eq_of_id hl ha hb hab

theorem filter_merged (transactionId : String) :
    (merged l target split).filter (fun r ↦ r.transactionId = transactionId) =
      merged (l.filter fun r ↦ r.transactionId = transactionId) target split := by
  rw [merged, merged, ← filter_update (raised split.shareMinor) fun _ ↦ rfl, List.filter_comm]

theorem filter_handed (transactionId : String) :
    (handed l split toId).filter (fun r ↦ r.transactionId = transactionId) =
      handed (l.filter fun r ↦ r.transactionId = transactionId) split toId := by
  rw [handed, handed, filter_update (heldBy toId) fun _ ↦ rfl]

theorem merged_of_ne (htarget : ∀ r ∈ l, r.id ≠ target.id) (hsplit : ∀ r ∈ l, r.id ≠ split.id) :
    merged l target split = l := by
  rw [merged, update_of_ne _ htarget]
  exact List.filter_eq_self.2 fun r hr ↦ decide_eq_true (hsplit r hr)

theorem handed_of_ne (hsplit : ∀ r ∈ l, r.id ≠ split.id) : handed l split toId = l :=
  update_of_ne _ hsplit

theorem Fair.id_ne (hs : Fair s) {r : TransactionSplit} (hr : r ∈ s.splits)
    {transactionId : String} (hne : r.transactionId ≠ transactionId) :
    ∀ a ∈ splitsOf s transactionId, a.id ≠ r.id := by
  intro a ha heq
  obtain ⟨ha, hid⟩ := List.mem_filter.1 ha
  obtain rfl := eq_of_id hs.splitIds ha hr heq
  exact hne (of_decide_eq_true hid)

theorem Fair.nodup_splitsOf (hs : Fair s) (transactionId : String) :
    ((splitsOf s transactionId).map fun r ↦ r.id).Nodup :=
  hs.splitIds.sublist (List.filter_sublist.map _)

theorem Fair.splits (hs : Fair s) {splits : List TransactionSplit}
    (hids : (splits.map fun r ↦ r.id).Nodup)
    (hknown : ∀ r ∈ splits, ∃ a ∈ s.splits, r.transactionId = a.transactionId)
    (hshared : ∀ t ∈ s.transactions, Shared s t →
      splitsOf { s with splits } t.id = splitsOf s t.id ∨ Shared { s with splits } t) :
    Fair { s with splits } := by
  have hnil : ∀ t ∈ s.transactions, splitsOf s t.id = [] →
      splitsOf { s with splits } t.id = [] := by
    intro t _ hnil
    refine splitsOf_eq_nil.2 fun r hr heq ↦ ?_
    obtain ⟨a, ha, hra⟩ := hknown r hr
    exact splitsOf_eq_nil.1 hnil a ha (hra.symm.trans heq)
  refine ⟨hs.memberIds, hs.transactionIds, hids, fun r hr ↦ ?_, hs.attributed, fun t ht ↦ ?_⟩
  · obtain ⟨a, ha, hra⟩ := hknown r hr
    rw [hra]
    exact hs.known a ha
  · rcases hs.shared t ht with hempty | hwhole
    · exact .inl (hnil t ht hempty)
    · rcases hshared t ht hwhole with hsame | hshared
      · exact .inr (hwhole.congr (fun m hm ↦ ⟨m, hm, rfl, rfl⟩) hsame rfl rfl)
      · exact .inr hshared

/-- The share of a leaving member goes to the row that the new one has on the transaction. -/
theorem Fair.merged (hs : Fair s) (htarget : target ∈ s.splits) (hsplit : split ∈ s.splits)
    (htransaction : target.transactionId = split.transactionId)
    (hne : split.id ≠ target.id) : Fair { s with splits := merged s.splits target split } := by
  apply hs.splits
  · refine List.Nodup.sublist (List.filter_sublist.map _) ?_
    rw [map_update_of_eq (raised split.shareMinor) fun _ ↦ rfl]
    exact hs.splitIds
  · intro r hr
    obtain ⟨a, ha, -, htransaction, -⟩ := of_mem_merged hr
    exact ⟨a, ha, htransaction⟩
  · intro t ht hwhole
    have hof : splitsOf { s with splits := Household.merged s.splits target split } t.id =
        Household.merged (splitsOf s t.id) target split := filter_merged t.id
    by_cases hid : split.transactionId = t.id
    · refine .inr ⟨fun r hr ↦ ?_, ?_, ?_, fun r hr ↦ ?_⟩
      · obtain ⟨a, ha, -, -, -, hshare⟩ := of_mem_merged (hof ▸ hr)
        have hpositive := hwhole.positive a ha
        have hmore := hwhole.positive split (List.mem_filter.2 ⟨hsplit, decide_eq_true hid⟩)
        omega
      · rw [hof, sum_merged (hs.nodup_splitsOf t.id)
          (List.mem_filter.2 ⟨htarget, decide_eq_true (htransaction.trans hid)⟩)
          (List.mem_filter.2 ⟨hsplit, decide_eq_true hid⟩) hne]
        exact hwhole.whole
      · rw [hof]
        exact nodup_members_merged hwhole.once
      · obtain ⟨a, ha, -, -, hmember, -⟩ := of_mem_merged (hof ▸ hr)
        rw [hmember]
        exact hwhole.own a ha
    · refine .inl (hof.trans (merged_of_ne ?_ ?_))
      · exact hs.id_ne htarget (htransaction ▸ hid)
      · exact hs.id_ne hsplit hid

/-- The row of a leaving member goes to one who has none on the transaction. -/
theorem Fair.handed (hs : Fair s) (hsplit : split ∈ s.splits)
    (hto : ∀ r ∈ s.splits, r.transactionId = split.transactionId → r.memberId ≠ toId)
    (hown : ∀ bookId, (∃ m ∈ s.members, m.id = split.memberId ∧ m.bookId = bookId) →
      ∃ m ∈ s.members, m.id = toId ∧ m.bookId = bookId) :
    Fair { s with splits := handed s.splits split toId } := by
  apply hs.splits
  · rw [Household.handed, map_update_of_eq (heldBy toId) fun _ ↦ rfl]
    exact hs.splitIds
  · intro r hr
    obtain ⟨a, ha, -, htransaction, -⟩ := of_mem_handed hr
    exact ⟨a, ha, htransaction⟩
  · intro t ht hwhole
    have hof : splitsOf { s with splits := Household.handed s.splits split toId } t.id =
        Household.handed (splitsOf s t.id) split toId := filter_handed t.id
    by_cases hid : split.transactionId = t.id
    · have hmem : split ∈ splitsOf s t.id := List.mem_filter.2 ⟨hsplit, decide_eq_true hid⟩
      refine .inr ⟨fun r hr ↦ ?_, ?_, ?_, fun r hr ↦ ?_⟩
      · obtain ⟨a, ha, -, -, hshare, -⟩ := of_mem_handed (hof ▸ hr)
        rw [hshare]
        exact hwhole.positive a ha
      · rw [hof, sum_handed]
        exact hwhole.whole
      · rw [hof]
        refine nodup_members_handed (hs.nodup_splitsOf t.id) hwhole.once fun r hr ↦ ?_
        obtain ⟨hr, htransaction⟩ := List.mem_filter.1 hr
        exact hto r hr ((of_decide_eq_true htransaction).trans hid.symm)
      · obtain ⟨a, ha, -, -, -, hmember⟩ := of_mem_handed (hof ▸ hr)
        rcases hmember with hmember | ⟨-, hmember⟩
        · rw [hmember]
          exact hwhole.own a ha
        · rw [hmember]
          exact hown _ (hwhole.own split hmem)
    · exact .inl (hof.trans (handed_of_ne (hs.id_ne hsplit hid)))

def Joint (s : HouseholdDb) (fromId toId : String) : Prop :=
  ∀ bookId, (∃ m ∈ s.members, m.id = fromId ∧ m.bookId = bookId) →
    ∃ m ∈ s.members, m.id = toId ∧ m.bookId = bookId

structure Leaving (s : HouseholdDb) (fromId : String) (left : List TransactionSplit) : Prop where
  fair : Fair s
  rows : ∀ r ∈ left, r ∈ s.splits ∧ r.memberId = fromId
  distinct : (left.map fun r ↦ r.id).Nodup

theorem reassignSplit_leaving {fromId : String} {left : List TransactionSplit}
    (hs : Leaving s fromId (split :: left)) (hne : fromId ≠ toId) (hjoint : Joint s fromId toId) :
    Ensures (reassignSplit toId split) s fun _ s' ↦
      Leaving s' fromId left ∧ s'.members = s.members := by
  obtain ⟨⟨hsplit, hmember⟩, hrows⟩ := List.forall_mem_cons.1 hs.rows
  obtain ⟨hfresh, hdistinct⟩ := List.nodup_cons.1 hs.distinct
  have hother : ∀ r ∈ left, r.id ≠ split.id := fun r hr heq ↦
    hfresh (List.mem_map.2 ⟨r, hr, heq⟩)
  simp only [reassignSplit, ensures_bind, ensures_get]
  split
  · rename_i target hfind
    have htarget := List.mem_of_find?_eq_some hfind
    obtain ⟨htransaction, hto⟩ : target.transactionId = split.transactionId ∧
        target.memberId = toId := by
      simpa using List.find?_some hfind
    have hunlike : ∀ r ∈ s.splits, r.memberId = fromId → r.id ≠ target.id := by
      intro r hr hfrom heq
      obtain rfl := eq_of_id hs.fair.splitIds hr htarget heq
      exact hne (hfrom.symm.trans hto)
    simp only [ensures_bind, ensures_modify]
    refine ⟨⟨hs.fair.merged htarget hsplit htransaction (hunlike split hsplit hmember),
      fun r hr ↦ ?_, hdistinct⟩, trivial⟩
    obtain ⟨hmem, hfrom⟩ := hrows r hr
    refine ⟨List.mem_filter.2 ⟨?_, decide_eq_true (hother r hr)⟩, hfrom⟩
    exact mem_update.2 ⟨r, hmem, if_neg (hunlike r hmem hfrom)⟩
  · rename_i hfind
    have hnone : ∀ r ∈ s.splits, r.transactionId = split.transactionId → r.memberId ≠ toId := by
      intro r hr htransaction hto
      exact of_decide_eq_false (Bool.not_eq_true _ ▸ List.find?_eq_none.1 hfind r hr)
        ⟨htransaction, hto⟩
    rw [ensures_modify]
    refine ⟨⟨hs.fair.handed hsplit hnone (hmember ▸ hjoint), fun r hr ↦ ?_, hdistinct⟩, rfl⟩
    obtain ⟨hmem, hfrom⟩ := hrows r hr
    exact ⟨mem_update.2 ⟨r, hmem, if_neg (hother r hr)⟩, hfrom⟩

theorem reassignAttributions_fair {fromId : String} (hs : Fair s) (hne : fromId ≠ toId)
    (hjoint : Joint s fromId toId) :
    Ensures (reassignAttributions fromId toId) s fun _ s' ↦ Fair s' := by
  simp only [reassignAttributions, ensures_bind, ensures_modify, ensures_get]
  have hmoved : Fair { s with
      transactions := s.transactions.map fun t ↦
        if t.attributedMemberId = some fromId then { t with attributedMemberId := some toId }
        else t } := by
    refine hs.change (fun m hm ↦ ⟨m, hm, rfl, rfl⟩) hs.memberIds rfl _ rfl (fun t ↦ ?_)
      fun t ht k hk ↦ ?_
    · split <;> exact ⟨rfl, rfl, rfl⟩
    · split at hk
      · obtain rfl := Option.some.inj hk
        exact hjoint _ (hs.attributed t ht fromId ‹_›)
      · exact hs.attributed t ht k hk
  have hloop := ensures_forM_rest (I := fun left u ↦ Leaving u fromId left ∧
      u.members = s.members) (f := reassignSplit toId)
    (s.splits.filter fun r ↦ r.memberId = fromId) ⟨⟨hmoved, fun r hr ↦ ?_, ?_⟩, rfl⟩ ?_
  · exact hloop.mono fun _ _ hs' ↦ hs'.1.fair
  · obtain ⟨hr, hfrom⟩ := List.mem_filter.1 hr
    exact ⟨hr, of_decide_eq_true hfrom⟩
  · exact hs.splitIds.sublist (List.filter_sublist.map _)
  · intro split left u hu
    obtain ⟨hleaving, hmembers⟩ := hu
    have hjoint' : Joint u fromId toId := by
      rw [Joint, hmembers]
      exact hjoint
    exact (reassignSplit_leaving hleaving hne hjoint').mono fun _ _ hu' ↦
      ⟨hu'.1, hu'.2.trans hmembers⟩

end Reassignment

section Runs

variable {h : Host} {s s' : HouseholdDb}

abbrev KeepsFair {α : Type} (p : HouseholdService α) (s : HouseholdDb) : Prop :=
  p.Guarantees Eq (fun _ t t' ↦ Fair t → Fair t') s

theorem checkAttribution_meets {R : List Unit → HouseholdDb → HouseholdDb → Prop}
    {bookId : String} {memberId : Option String} :
    (checkAttribution bookId memberId).Meets Eq R s (OnSuccess fun _ s' ↦
      s' = s ∧ ∀ k ∈ memberId, ∃ m ∈ s.members, m.id = k ∧ m.bookId = bookId) := by
  cases memberId with
  | none => simp [checkAttribution]
  | some memberId =>
    simp only [checkAttribution, memberGet, meets_bind, meets_query, continues_ok,
      meets_ofExcept, continues_onSuccess, getMember_eq_ok]
    intro _ heq member hmember
    subst heq
    obtain ⟨hmem, hid⟩ := lookup_eq_some hmember
    cases hbook : require (member.bookId = bookId) "member does not belong to this book" with
    | error e => trivial
    | ok u =>
      refine ⟨rfl, fun k hk ↦ ⟨member, hmem, ?_, require_eq_ok.1 hbook⟩⟩
      exact hid.trans (Option.some.inj hk)

theorem transactionAttribute_fair {id : String} {memberId : Option String} :
    KeepsFair (transactionAttribute id memberId) s := by
  simp only [KeepsFair, transactionAttribute, transactionGet, meets_bind, meets_query,
    continues_ok, meets_ofExcept, continues_true, getTransaction_eq_ok]
  intro _ heq before hbefore
  subst heq
  refine checkAttribution_meets.mono (fun _ _ _ hR ↦ hR) fun r s' hr ↦ continues_true.2 ?_
  rintro _ rfl
  obtain ⟨rfl, hown⟩ := hr
  simp only [meets_atomically, meets_pure, continues_true, implies_true, and_true]
  rintro _ rfl a s' hrun hs
  exact setAttribution_fair hs (lookup_eq_some hbefore) hown a s' hrun

theorem splitTarget_eq_ok {amount target : ℤ} (htarget : splitTarget amount = .ok target) :
    target = |amount| := by
  rw [splitTarget] at htarget
  split at htarget
  · cases htarget
  · exact (Except.ok.inj htarget).symm

theorem transactionSplitSet_fair {id : String} {shares : List SplitShare} :
    KeepsFair (transactionSplitSet h id shares) s := by
  simp only [KeepsFair, transactionSplitSet, transactionGet, meets_bind, meets_query,
    continues_ok, meets_ofExcept, continues_true, getTransaction_eq_ok]
  intro _ heq txn htxn target htarget
  subst heq
  refine checkShares_meets.mono (fun _ _ _ hR ↦ hR) fun r s' hr ↦ continues_true.2 ?_
  rintro sum rfl
  obtain ⟨rfl, hshares, -, hsum⟩ := hr
  simp only [meets_atomically, continues_true, implies_true, and_true]
  rintro _ hwhole _ rfl _ rfl a s' hrun hs
  obtain ⟨hmem, rfl⟩ := lookup_eq_some htxn
  refine (setSplits_filled hs.splitIds a s' hrun).fair hs hmem hshares ?_
  refine (require_eq_ok.1 hwhole).imp (fun hnil ↦ hnil) fun heq ↦ ?_
  rw [← splitTarget_eq_ok htarget, ← heq, hsum, zero_add]

/-- The member that takes over is another one of the same book. -/
theorem reassignTarget_meets {R : List Unit → HouseholdDb → HouseholdDb → Prop} {before : Member}
    (hbefore : before ∈ s.members) {reassignTo : Option String} :
    (reassignTarget before reassignTo).Meets Eq R s (OnSuccess fun target s' ↦
      s' = s ∧ ∀ m ∈ target, before.id ≠ m.id ∧
        ((s.members.map Member.id).Nodup → Joint s before.id m.id)) := by
  cases reassignTo with
  | none =>
    simp only [reassignTarget, meets_bind, meets_query, continues_ok, meets_ofExcept, meets_pure,
      continues_onSuccess, onSuccess_ok]
    rintro _ rfl _ _
    simp
  | some targetId =>
    simp only [reassignTarget, memberGet, meets_bind, meets_query, continues_ok, meets_ofExcept,
      meets_pure, continues_onSuccess, onSuccess_ok, getMember_eq_ok]
    rintro _ hother _ rfl target htarget _ hbook
    obtain ⟨hmem, rfl⟩ := lookup_eq_some htarget
    refine ⟨rfl, fun m hm ↦ ?_⟩
    obtain rfl := Option.some.inj hm
    refine ⟨(require_eq_ok.1 hother).symm, fun hids bookId hfrom ↦ ⟨target, hmem, rfl, ?_⟩⟩
    obtain ⟨m, hm, hid, rfl⟩ := hfrom
    obtain rfl := eq_of_id hids hm hbefore hid
    exact require_eq_ok.1 hbook

theorem memberRemove_fair {id : String} {reassignTo : Option String} :
    KeepsFair (memberRemove id reassignTo) s := by
  simp only [KeepsFair, memberRemove, memberGet, meets_bind, meets_query, continues_ok,
    meets_ofExcept, continues_true, getMember_eq_ok]
  rintro _ rfl before hbefore _ _
  obtain ⟨hmem, rfl⟩ := lookup_eq_some hbefore
  refine (reassignTarget_meets hmem).mono (fun _ _ _ hR ↦ hR) fun r s' hr ↦ continues_true.2 ?_
  rintro target rfl
  obtain ⟨rfl, htarget⟩ := hr
  simp only [meets_atomically, and_true]
  rintro _ rfl a s' hrun hs
  revert a s' hrun
  change Ensures _ s' (fun _ t' ↦ Fair t')
  cases target with
  | none => exact deleteMember_fair hs
  | some target =>
    obtain ⟨hne, hjoint⟩ := htarget target rfl
    refine (ensures_bind _).2 ?_
    exact (reassignAttributions_fair hs hne (hjoint hs.memberIds)).mono
      fun _ _ hs' ↦ deleteMember_fair hs'

theorem program_fair (c : HouseholdCall) : KeepsFair (c.program h) s := by
  cases c with
  | transactionCreate txn =>
    simp only [HouseholdCall.program, KeepsFair, meets_atomically, and_true]
    exact fun t _ a t' hrun ht ↦ insertTransaction_fair txn ht a t' hrun
  | transactionAttribute id memberId =>
    refine (meets_bind _).2 (transactionAttribute_fair.mono (fun _ _ _ hR ↦ hR) fun r t _ ↦ ?_)
    exact continues_true.2 fun _ _ ↦ (meets_pure _).2 trivial
  | transactionSplitSet id shares =>
    refine (meets_bind _).2 (transactionSplitSet_fair.mono (fun _ _ _ hR ↦ hR) fun r t _ ↦ ?_)
    exact continues_true.2 fun _ _ ↦ (meets_pure _).2 trivial
  | memberRemove id reassignTo => exact memberRemove_fair

def Keeps (s s' : HouseholdDb) : Prop :=
  Fair s → Fair s'

instance : IsPreorder HouseholdDb Keeps where
  refl _ hs := hs
  trans _ _ _ hs hs' ht := hs' (hs ht)

theorem fair_of_run (c : HouseholdCall) (hs : Fair s) : Fair ((c.program h).run s).2 :=
  run_of_guarantees (E := Keeps) (program_fair c) hs

theorem fair_of_reachable (hs : Reachable h s) : Fair s := by
  induction hs with
  | refl => exact ⟨.nil, .nil, .nil, by simp, by simp, by simp⟩
  | tail _ hstep ih =>
    cases hstep with
    | elsewhere he => exact ih.elsewhere he
    | call c => exact fair_of_run c ih

/-- In every state the splits of a transaction are absent or positive shares of distinct members of
its book that sum to its amount, and the reports have every transaction of the book, the currency
and the range whole. -/
theorem household_adds_up (hs : Reachable h s) :
    (∀ t ∈ s.transactions, splitsOf s t.id = [] ∨ Shared s t) ∧
      ∀ bookId fromDate toDate currency,
        (∀ expense rows, memberAmount s bookId fromDate toDate currency expense = .ok rows →
          Distributes s Portion.memberId
            (coveredTransactions s bookId fromDate toDate currency expense)
            (rows.map fun row ↦ (row.memberId, row.totalMinor))) ∧
        (∀ rows, memberCategory s bookId fromDate toDate currency = .ok rows →
          Distributes s (fun p ↦ (p.memberId, p.categoryId))
            (coveredTransactions s bookId fromDate toDate currency true)
            (rows.map fun row ↦ ((row.memberId, row.categoryId), row.totalMinor))) ∧
        ∀ rows, settleUp s bookId fromDate toDate currency = .ok rows →
          Settles s bookId fromDate toDate currency rows := by
  have hfair := fair_of_reachable hs
  refine ⟨hfair.shared, fun bookId fromDate toDate currency ↦ ⟨?_, ?_, ?_⟩⟩
  · exact fun expense rows hrows ↦ hfair.memberAmount hrows
  · exact fun rows hrows ↦ hfair.memberCategory hrows
  · exact fun rows hrows ↦ hfair.settleUp hrows

def family : HouseholdDb :=
  { books := [plainBook]
    members := [⟨"anna", "book", "Anna", none, "2025", false⟩,
      ⟨"ben", "book", "Ben", none, "2025", false⟩] }

def groceries : Transaction :=
  { id := "groceries"
    bookId := "book"
    accountId := "account"
    categoryId := none
    source := .manual
    providerTxnId := none
    dedupeHash := ""
    postedDate := "2025-06-15"
    amountMinor := -100
    currency := "ZAR"
    merchant := none
    description := none
    notes := none
    status := .pending }

def sharedGroceries : HouseholdDb :=
  [HouseholdCall.transactionCreate groceries,
    .transactionSplitSet "groceries" [⟨"anna", 60⟩, ⟨"ben", 40⟩],
    .memberRemove "ben" (some "anna")].foldl (fun s c ↦ ((c.program plainHost).run s).2) family

theorem reachable_sharedGroceries : Reachable plainHost sharedGroceries := by
  have hfamily : Elsewhere {} family :=
    ⟨by simp, fun _ ↦ by decide, ⟨fun t ↦ t, rfl, fun _ ↦ ⟨rfl, rfl, rfl, rfl⟩⟩, rfl⟩
  exact (((Relation.ReflTransGen.single (.elsewhere hfamily)).tail (.call _)).tail (.call _)).tail
    (.call _)

theorem household_adds_up_of_groceries :
    ∃ rows, memberAmount sharedGroceries "book" "2025-06-01" "2025-06-30" "ZAR" true = .ok rows ∧
      rows = [⟨some "anna", "Anna", "ZAR", 100⟩] ∧
      Distributes sharedGroceries Portion.memberId
        (coveredTransactions sharedGroceries "book" "2025-06-01" "2025-06-30" "ZAR" true)
        (rows.map fun row ↦ (row.memberId, row.totalMinor)) := by
  have hrows : memberAmount sharedGroceries "book" "2025-06-01" "2025-06-30" "ZAR" true =
      .ok [⟨some "anna", "Anna", "ZAR", 100⟩] := by
    decide +kernel
  exact ⟨_, hrows, rfl, ((household_adds_up reachable_sharedGroceries).2 "book" "2025-06-01"
    "2025-06-30" "ZAR").1 true _ hrows⟩

end Runs

end SlipScan.Banking.Household
