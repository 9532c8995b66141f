import SlipScan.Banking.ImportSteps
import SlipScan.Model.PlainHost
import Mathlib.Algebra.Order.Group.Abs
import Mathlib.Algebra.Order.Group.Int

namespace SlipScan.Banking.StatementImport

open Model.Domain Model.Database Model.Banking Model.Dedupe Model.StatementImport
  Foundation.Framing Foundation.Transaction Foundation.Interleaving Foundation.Table
  Foundation.Occurrences Deduplication ImportSteps Function

variable {h : Host} {account : Account} {source : TransactionSource} {s : Db}

section Batches

variable (h account source)

def afterAll (batches : List (List StatementLine)) (s : Db) : Db :=
  batches.foldl (fun s lines ↦ after h account source lines (fun _ ↦ 0) s) s

variable {h account} {U : CharClasses} {sha256 : List UInt8 → List UInt8}
  {kept : List (LineKey × ℕ)} {lines : List StatementLine} {batches : List (List StatementLine)}

theorem run_importStatementLines_eq (hs : Ready h account s) :
    (importStatementLines h account.bookId account.id source lines).run s =
      (importLines h account account.bookId account.id source lines (fun _ ↦ 0) {}).run s := by
  change (Process.ofExcept (accountGet s account.id) >>= fun account' ↦
    importLines h account' account.bookId account.id source lines (fun _ ↦ 0) {}).run s = _
  rw [accountGet_of_ready hs]
  rfl

theorem run_importStatementLines (ha : Accepting h) (hh : Hashing h U sha256)
    (hs : Ready h account s) (hheld : Holds sha256 account.id s kept)
    (hlines : ∀ line ∈ lines, Importable h account line) :
    ∃ outcome, (importStatementLines h account.bookId account.id source lines).run s =
      (.ok outcome, after h account source lines (fun _ ↦ 0) s) := by
  rw [run_importStatementLines_eq source hs]
  exact run_importLines ha hh hs hheld hlines {}

def batchItems (account : Account) (lines : List StatementLine) : List (LineKey × ℕ) :=
  itemsOf normalKey (2 ^ 32) (lines.map (occurrenceKey account))

theorem afterAll_spec (ha : Accepting h) (hh : Hashing h U sha256) (hs : Ready h account s)
    (hheld : Holds sha256 account.id s kept)
    (hlines : ∀ lines ∈ batches, ∀ line ∈ lines, Importable h account line) :
    Ready h account (afterAll h account source batches s) ∧
      Holds sha256 account.id (afterAll h account source batches s)
        (keepAll (itemCode sha256 account.id) kept (batches.flatMap (batchItems account))) := by
  induction batches generalizing s kept with
  | nil => exact ⟨hs, hheld⟩
  | cons lines batches ih =>
    rw [List.forall_mem_cons] at hlines
    obtain ⟨hs', hheld'⟩ := after_spec source ha hh hs hheld counts_zero hlines.1
    rw [List.flatMap_cons, keepAll_append]
    exact ih hs' hheld' hlines.2

theorem run_importBatches (ha : Accepting h) (hh : Hashing h U sha256) (hs : Ready h account s)
    (hheld : Holds sha256 account.id s kept)
    (hlines : ∀ lines ∈ batches, ∀ line ∈ lines, Importable h account line) :
    (importBatches h account.bookId account.id source batches).run s =
      (.ok (), afterAll h account source batches s) := by
  induction batches generalizing s kept with
  | nil => rfl
  | cons lines batches ih =>
    rw [List.forall_mem_cons] at hlines
    obtain ⟨outcome, hrun⟩ := run_importStatementLines source ha hh hs hheld hlines.1
    obtain ⟨hs', hheld'⟩ := after_spec source ha hh hs hheld counts_zero hlines.1
    rw [importBatches, run_bind, hrun]
    exact ih hs' hheld' hlines.2

theorem importable_of_run_importBatches (ha : Accepting h) (hh : Hashing h U sha256)
    (hs : Ready h account s) (hheld : Holds sha256 account.id s kept)
    (hlines : ∀ lines ∈ batches, ∀ line ∈ lines, Valid h line)
    (hrun : ((importBatches h account.bookId account.id source batches).run s).1 = .ok ()) :
    ∀ lines ∈ batches, ∀ line ∈ lines, Importable h account line := by
  induction batches generalizing s kept with
  | nil => exact fun lines hmem ↦ absurd hmem List.not_mem_nil
  | cons lines batches ih =>
    rw [List.forall_mem_cons] at hlines ⊢
    rw [importBatches, run_bind] at hrun
    have hfirst : ∀ line ∈ lines, Importable h account line := by
      cases hline : ((importStatementLines h account.bookId account.id source lines).run s).1 with
      | error e =>
        rw [hline] at hrun
        cases hrun
      | ok outcome =>
        rw [run_importStatementLines_eq source hs] at hline
        exact importable_of_run ha hh hs hheld hlines.1 hline
    obtain ⟨outcome, hline⟩ := run_importStatementLines source ha hh hs hheld hfirst
    obtain ⟨hs', hheld'⟩ := after_spec source ha hh hs hheld counts_zero hfirst
    rw [hline] at hrun
    exact ⟨hfirst, ih hs' hheld' hlines.2 hrun⟩

def storedCount (s : Db) (accountId : String) (key : LineKey) : ℕ :=
  (s.transactions.filter fun t ↦ t.accountId = accountId ∧ transactionKey t = key).length

theorem storedCount_eq (hheld : Holds sha256 account.id s kept) (key : LineKey) :
    storedCount s account.id key = (kept.filter (·.1 = key)).length := by
  have hkeys := congrArg (List.map Prod.fst) hheld
  simp only [List.map_map, comp_def] at hkeys
  have hcount := congrArg (List.countP (· = key)) hkeys
  simp only [List.countP_map, List.countP_filter, comp_def] at hcount
  simpa [storedCount, List.countP_eq_length_filter, Bool.and_comm] using hcount

def maxMultiplicity (account : Account) (batches : List (List StatementLine)) (key : LineKey) : ℕ :=
  batches.toFinset.sup fun lines ↦
    lines.countP fun line ↦ normalKey (occurrenceKey account line) = key

theorem most_eq (key : LineKey) :
    most normalKey (batches.map (List.map (occurrenceKey account))) key =
      maxMultiplicity account batches key := by
  have himage : (batches.map (List.map (occurrenceKey account))).toFinset =
      batches.toFinset.image (List.map (occurrenceKey account)) := by
    ext keys
    simp
  rw [most, himage, Finset.sup_image]
  simp only [comp_def, List.countP_map]
  rfl

/-- No description reads as that of another line, like it otherwise, with the mark of one of the
occurrences that this line has in some batch. -/
def Unmarked (account : Account) (batches : List (List StatementLine)) : Prop :=
  ∀ lines ∈ batches, ∀ line ∈ lines, ∀ lines' ∈ batches, ∀ line' ∈ lines',
    line.postedDate = line'.postedDate → line.amountMinor = line'.amountMinor →
    normalCurrency (line.currency.getD account.currency) =
      normalCurrency (line'.currency.getD account.currency) →
    ∀ n : UInt32, n ≠ 0 →
      n.toNat < lines'.countP (fun l ↦ occurrenceKey account l = occurrenceKey account line') →
      asBytes line.description ≠ asBytes line'.description ++ occurrenceMark n

/-- What makes the import count right: each currency is valid, each key reaches its number in
lines that write the currency alike, the counter holds that number, and no description reads as
another line's description with the mark of one of its occurrences. -/
structure Distinguishable (account : Account) (batches : List (List StatementLine)) : Prop where
  currency : ∀ lines ∈ batches, ∀ line ∈ lines, line.currency = none →
    ∃ code, normalizeCurrencyCode account.currency = .ok code
  spelling : ∀ key, 0 < maxMultiplicity account batches key → ∃ lines ∈ batches, ∃ line ∈ lines,
    normalKey (occurrenceKey account line) = key ∧
      lines.countP (fun line' ↦ occurrenceKey account line' = occurrenceKey account line) =
        maxMultiplicity account batches key
  counter : ∀ key, maxMultiplicity account batches key ≤ 2 ^ 32
  unmarked : Unmarked account batches

theorem importable_of_currency (hlines : ∀ lines ∈ batches, ∀ line ∈ lines, Valid h line)
    (hcurrency : ∀ lines ∈ batches, ∀ line ∈ lines, line.currency = none →
      ∃ code, normalizeCurrencyCode account.currency = .ok code) :
    ∀ lines ∈ batches, ∀ line ∈ lines, Importable h account line := by
  intro lines hmem line hline
  refine ⟨hlines lines hmem line hline, ?_⟩
  cases hc : line.currency with
  | none => exact hcurrency lines hmem line hline hc
  | some c => exact ⟨c, (hlines lines hmem line hline).currency c hc⟩

theorem attained_iff : (∀ key, Attained normalKey (2 ^ 32)
      (batches.map (List.map (occurrenceKey account))) key) ↔
    (∀ key, maxMultiplicity account batches key ≤ 2 ^ 32) ∧
      ∀ key, 0 < maxMultiplicity account batches key → ∃ lines ∈ batches, ∃ line ∈ lines,
        normalKey (occurrenceKey account line) = key ∧
          lines.countP (fun line' ↦ occurrenceKey account line' = occurrenceKey account line) =
            maxMultiplicity account batches key := by
  rw [← forall_and]
  refine forall_congr' fun key ↦ ?_
  rw [Attained, most_eq]
  refine and_congr_right fun _ ↦ forall_congr' fun hpos ↦ ?_
  constructor
  · rintro ⟨keys, hkeys, r, hr, hcount⟩
    obtain ⟨lines, hlines, rfl⟩ := List.mem_map.1 hkeys
    rw [List.countP_map] at hcount
    obtain ⟨line, hline, heq⟩ := List.countP_pos_iff.1 (hcount ▸ hpos)
    obtain rfl := of_decide_eq_true heq
    exact ⟨lines, hlines, line, hline, hr, hcount⟩
  · rintro ⟨lines, hlines, line, hline, hkey, hcount⟩
    refine ⟨_, List.mem_map_of_mem hlines, occurrenceKey account line, hkey, ?_⟩
    rw [List.countP_map]
    exact hcount

theorem mem_items {i : LineKey × ℕ} : i ∈ batches.flatMap (batchItems account) ↔
    i.2 < 2 ^ 32 ∧ ∃ lines ∈ batches, ∃ line ∈ lines, normalKey (occurrenceKey account line) = i.1 ∧
      i.2 < lines.countP fun l ↦ occurrenceKey account l = occurrenceKey account line := by
  obtain ⟨key, n⟩ := i
  rw [List.mem_flatMap]
  constructor
  · rintro ⟨lines, hlines, hmem⟩
    obtain ⟨hlt, r, hr, hcount⟩ := (mem_itemsOf (by decide)).1 hmem
    rw [List.countP_map] at hcount
    obtain ⟨line, hline, heq⟩ := List.countP_pos_iff.1 (Nat.zero_lt_of_lt hcount)
    obtain rfl := of_decide_eq_true heq
    exact ⟨hlt, lines, hlines, line, hline, hr, hcount⟩
  · rintro ⟨hlt, lines, hlines, line, hline, hkey, hcount⟩
    refine ⟨lines, hlines, (mem_itemsOf (by decide)).2 ⟨hlt, _, hkey, ?_⟩⟩
    rw [List.countP_map]
    exact hcount

theorem amount_ofInt_inj {line line' : StatementLine} (hline : Valid h line)
    (hline' : Valid h line') (hamount : Int64.ofInt line.amountMinor = Int64.ofInt line'.amountMinor) :
    line.amountMinor = line'.amountMinor := by
  have hbound : ∀ {line : StatementLine}, Valid h line →
      (Int64.ofInt line.amountMinor).toInt = line.amountMinor := by
    intro line hline
    have hle : |line.amountMinor| ≤ Model.Ledger.maxLineAmountMinor := by
      have hamount := hline.amount
      rw [checkAmount, require] at hamount
      split at hamount
      · assumption
      · cases hamount
    rw [Model.Ledger.maxLineAmountMinor] at hle
    obtain ⟨hlow, hhigh⟩ := abs_le.1 hle
    exact Int64.toInt_ofInt_of_le (by omega) (by omega)
  rw [← hbound hline, ← hbound hline', hamount]

theorem separatedFields_itemInput (hh : Hashing h U sha256) {line : StatementLine}
    (hline : Importable h account line) (n : ℕ) :
    SeparatedFields (itemInput account.id (normalKey (occurrenceKey account line), n)) := by
  obtain ⟨d, hd⟩ := Option.isSome_iff_exists.1 hline.date
  obtain ⟨hseparator, hpid⟩ := hh.dates _ _ hd
  exact ⟨separator_notMem hseparator, hpid, separator_notMem_currency hline.normalCurrency,
    List.not_mem_nil⟩

/-- The codes tell the items of the batches apart when no description reads as a marked one. -/
theorem injOn_itemCode_iff (hh : Hashing h U sha256) (hsha : Injective sha256)
    (hlines : ∀ lines ∈ batches, ∀ line ∈ lines, Importable h account line) :
    Set.InjOn (itemCode sha256 account.id) {i | i ∈ batches.flatMap (batchItems account)} ↔
      Unmarked account batches := by
  constructor
  · intro hinj lines hmem line hline lines' hmem' line' hline' hdate hamount hcurrency n hn hcount
      hbytes
    have hi : (normalKey (occurrenceKey account line), 0) ∈ batches.flatMap (batchItems account) :=
      mem_items.2 ⟨Nat.two_pow_pos 32, lines, hmem, line, hline, rfl,
        List.countP_pos_iff.2 ⟨line, hline, decide_eq_true rfl⟩⟩
    have hj : (normalKey (occurrenceKey account line'), n.toNat) ∈
        batches.flatMap (batchItems account) :=
      mem_items.2 ⟨n.toNat_lt, lines', hmem', line', hline', rfl, hcount⟩
    have hmarked : asBytes line.description =
        asBytes line'.description ++ occurrenceMark (UInt32.ofNat n.toNat) := by
      rw [hbytes, UInt32.ofNat_toNat]
    have hreads : ReadsAs (itemInput account.id (normalKey (occurrenceKey account line), 0))
        (itemInput account.id (normalKey (occurrenceKey account line'), n.toNat)) :=
      { provider := ⟨rfl, rfl⟩
        account := rfl
        date := hdate
        amount := congrArg Int64.ofInt hamount
        currency := hcurrency
        merchant := rfl
        description := ⟨rfl, by simpa [itemInput] using hn, hmarked⟩ }
    have heq := hinj hi hj ((transactionDedupeHash_eq_iff hsha).2 hreads.dedupePreimage_eq)
    have hzero : 0 = n.toNat := congrArg Prod.snd heq
    exact hn (UInt32.toNat_inj.1 hzero.symm)
  · rintro hunmarked ⟨key, m⟩ hi ⟨key', n⟩ hj hcode
    obtain ⟨hm, lines, hmem, line, hline, hkey, hcount⟩ := mem_items.1 hi
    obtain ⟨hn, lines', hmem', line', hline', hkey', hcount'⟩ := mem_items.1 hj
    obtain rfl : normalKey (occurrenceKey account line) = key := hkey
    obtain rfl : normalKey (occurrenceKey account line') = key' := hkey'
    have hvalid := hlines lines hmem line hline
    have hvalid' := hlines lines' hmem' line' hline'
    have hto : ∀ {k}, k < 2 ^ 32 → (UInt32.ofNat k).toNat = k := fun hk ↦ by
      rw [UInt32.toNat_ofNat', Nat.mod_eq_of_lt hk]
    rcases fields_of_dedupePreimage_eq (separatedFields_itemInput hh hvalid m)
      (separatedFields_itemInput hh hvalid' n) rfl rfl rfl
      ((transactionDedupeHash_eq_iff hsha).1 hcode) with hsame | hreads | hreads
    · simp only [dedupeKey, itemInput, DedupeKey.fields.injEq] at hsame
      obtain ⟨-, hdate, hamount, hcurrency, -, hdescription, hoccurrence⟩ := hsame
      have hamount' := amount_ofInt_inj hvalid.toValid hvalid'.toValid hamount
      have hnumber : m = n :=
        (hto hm).symm.trans ((congrArg UInt32.toNat hoccurrence).trans (hto hn))
      exact Prod.ext (Prod.ext hdate (Prod.ext hamount' (Prod.ext hcurrency hdescription))) hnumber
    · have hamount := amount_ofInt_inj hvalid.toValid hvalid'.toValid hreads.amount
      exact absurd hreads.description.2.2 (hunmarked lines hmem line hline lines' hmem' line' hline'
        hreads.date hamount hreads.currency _ hreads.description.2.1 ((hto hn).trans_lt hcount'))
    · have hamount := amount_ofInt_inj hvalid'.toValid hvalid.toValid hreads.amount
      exact absurd hreads.description.2.2 (hunmarked lines' hmem' line' hline' lines hmem line hline
        hreads.date hamount hreads.currency _ hreads.description.2.1 ((hto hm).trans_lt hcount))

variable (h account)

/-- After the batches in some order: all were taken, each key is stored as often as the batch with
the most lines of it has it, a batch imported again adds nothing, and an import that was stopped
after some lines and is repeated ends like one that was not stopped. -/
structure Imported (s : Db) (order : List (List StatementLine)) (s' : Db) : Prop where
  succeeds : (importBatches h account.bookId account.id source order).run s = (.ok (), s')
  counts : ∀ key, storedCount s' account.id key = maxMultiplicity account order key
  idempotent : ∀ lines ∈ order,
    ((importStatementLines h account.bookId account.id source lines).run s').2 = s'
  resumes : ∀ before lines, before ++ [lines] <+: order → ∀ n t,
    t = ((importBatches h account.bookId account.id source before).run s).2 →
      ((importStatementLines h account.bookId account.id source lines).run
          ((importStatementLines h account.bookId account.id source (lines.take n)).run t).2).2 =
        ((importStatementLines h account.bookId account.id source lines).run t).2

variable {h account}

theorem holds_nil (hempty : ∀ t ∈ s.transactions, t.accountId ≠ account.id) :
    Holds sha256 account.id s [] := by
  have hnil : s.transactions.filter (·.accountId = account.id) = [] := by
    simpa [List.filter_eq_nil_iff] using hempty
  rw [Holds, hnil]
  rfl

theorem counts_iff (hheld : Holds sha256 account.id s
      (keepAll (itemCode sha256 account.id) [] (batches.flatMap (batchItems account)))) :
    (∀ key, storedCount s account.id key = maxMultiplicity account batches key) ↔
      Set.InjOn (itemCode sha256 account.id) {i | i ∈ batches.flatMap (batchItems account)} ∧
        ∀ key, Attained normalKey (2 ^ 32)
          (batches.map (List.map (occurrenceKey account))) key := by
  have hitems : batches.flatMap (batchItems account) =
      (batches.map (List.map (occurrenceKey account))).flatMap (itemsOf normalKey (2 ^ 32)) := by
    rw [List.flatMap_map]
    rfl
  have hcounts : (∀ key, storedCount s account.id key = maxMultiplicity account batches key) ↔
      ∀ key, ((keepAll (itemCode sha256 account.id) []
        (batches.flatMap (batchItems account))).filter (·.1 = key)).length =
          most normalKey (batches.map (List.map (occurrenceKey account))) key :=
    forall_congr' fun key ↦ by rw [storedCount_eq hheld, most_eq]
  rw [hcounts, hitems]
  exact length_keepAll_batches_iff (Nat.two_pow_pos 32)

theorem imported_of_distinguishable (ha : Accepting h) (hh : Hashing h U sha256)
    (hsha : Injective sha256) (hs : Ready h account s)
    (hempty : ∀ t ∈ s.transactions, t.accountId ≠ account.id)
    (hlines : ∀ lines ∈ batches, ∀ line ∈ lines, Valid h line)
    (hd : Distinguishable account batches) : ∃ s', Imported h account source s batches s' := by
  have himportable := importable_of_currency hlines hd.currency
  have hnil : Holds sha256 account.id s [] := holds_nil hempty
  obtain ⟨hs', hheld'⟩ := afterAll_spec source ha hh hs hnil himportable
  refine ⟨afterAll h account source batches s,
    run_importBatches source ha hh hs hnil himportable, ?_, fun lines hmem ↦ ?_, ?_⟩
  · exact (counts_iff hheld').2 ⟨(injOn_itemCode_iff hh hsha himportable).2 hd.unmarked,
      attained_iff.2 ⟨hd.counter, hd.spelling⟩⟩
  · obtain ⟨outcome, hrun⟩ := run_importStatementLines source ha hh hs' hheld'
      (himportable lines hmem)
    rw [hrun]
    refine after_of_known source ha hh hs' hheld' counts_zero (himportable lines hmem) fun i hi ↦ ?_
    exact mem_map_keepAll.2
      (.inr (List.mem_map_of_mem (List.mem_flatMap.2 ⟨lines, hmem, hi⟩)))
  · rintro before lines hpart n t rfl
    have hbefore : ∀ lines ∈ before, ∀ line ∈ lines, Importable h account line := fun lines hmem ↦
      himportable lines (hpart.subset (List.mem_append_left _ hmem))
    have hthis : ∀ line ∈ lines, Importable h account line :=
      himportable lines (hpart.subset (List.mem_append_right _ (List.mem_singleton_self _)))
    obtain ⟨ht, hheld⟩ := afterAll_spec source ha hh hs hnil hbefore
    rw [run_importBatches source ha hh hs hnil hbefore]
    have htake : ∀ line ∈ lines.take n, Importable h account line := fun line hline ↦
      hthis line (List.mem_of_mem_take hline)
    obtain ⟨ht', hheld'⟩ := after_spec source ha hh ht hheld counts_zero htake
    obtain ⟨_, hfirst⟩ := run_importStatementLines source ha hh ht hheld htake
    obtain ⟨_, hagain⟩ := run_importStatementLines source ha hh ht' hheld' hthis
    obtain ⟨_, honce⟩ := run_importStatementLines source ha hh ht hheld hthis
    have hretry := after_retry source ha hh ht hheld (lines.drop n) htake
    rw [List.take_append_drop] at hretry
    rw [hfirst, hagain, honce, hretry]

theorem distinguishable_of_imported (ha : Accepting h) (hh : Hashing h U sha256)
    (hsha : Injective sha256) (hs : Ready h account s)
    (hempty : ∀ t ∈ s.transactions, t.accountId ≠ account.id)
    (hlines : ∀ lines ∈ batches, ∀ line ∈ lines, Valid h line) {s' : Db}
    (himported : Imported h account source s batches s') : Distinguishable account batches := by
  have hnil : Holds sha256 account.id s [] := holds_nil hempty
  have himportable := importable_of_run_importBatches source ha hh hs hnil hlines
    (congrArg Prod.fst himported.succeeds)
  have hrun := run_importBatches source ha hh hs hnil himportable
  obtain ⟨-, hheld'⟩ := afterAll_spec source ha hh hs hnil himportable
  rw [himported.succeeds] at hrun
  rw [← (Prod.mk.inj hrun).2] at hheld'
  obtain ⟨hinj, hattained⟩ := (counts_iff hheld').1 himported.counts
  obtain ⟨hcounter, hspelling⟩ := attained_iff.1 hattained
  exact
    { currency := fun lines hmem line hline ↦ (himportable lines hmem line hline).account_currency
      spelling := hspelling
      counter := hcounter
      unmarked := (injOn_itemCode_iff hh hsha himportable).1 hinj }

theorem Distinguishable.perm {order : List (List StatementLine)} (hp : order.Perm batches)
    (hd : Distinguishable account batches) : Distinguishable account order := by
  have hmax : maxMultiplicity account order = maxMultiplicity account batches := by
    funext key
    rw [maxMultiplicity, maxMultiplicity, List.toFinset_eq_of_perm _ _ hp]
  obtain ⟨hcurrency, hspelling, hcounter, hunmarked⟩ := hd
  refine ⟨fun lines hmem ↦ hcurrency lines (hp.mem_iff.1 hmem), ?_, hmax ▸ hcounter,
    fun lines hmem line hline lines' hmem' ↦
      hunmarked lines (hp.mem_iff.1 hmem) line hline lines' (hp.mem_iff.1 hmem')⟩
  rw [hmax]
  intro key hpos
  obtain ⟨lines, hmem, hline⟩ := hspelling key hpos
  exact ⟨lines, hp.mem_iff.2 hmem, hline⟩

/-- Statements are imported without loss and without repetition, in any order, exactly when their
lines can be told apart. -/
theorem import_counts_iff (ha : Accepting h) (hh : Hashing h U sha256) (hsha : Injective sha256)
    (hs : Ready h account s) (hempty : ∀ t ∈ s.transactions, t.accountId ≠ account.id)
    (hlines : ∀ lines ∈ batches, ∀ line ∈ lines, Valid h line) :
    (∀ order, order.Perm batches → ∃ s', Imported h account source s order s') ↔
      Distinguishable account batches := by
  constructor
  · intro himported
    obtain ⟨s', hs'⟩ := himported batches (List.Perm.refl _)
    exact distinguishable_of_imported source ha hh hsha hs hempty hlines hs'
  · intro hd order hp
    exact imported_of_distinguishable source ha hh hsha hs hempty
      (fun lines hmem ↦ hlines lines (hp.mem_iff.1 hmem)) (hd.perm hp)

end Batches

section Coffee

open Model.PlainHost

def asciiClasses : CharClasses := ⟨Char.isAlphanum, fun c ↦ [c.toLower]⟩

/-- The plain host with the dedupe hash of the source, where the hash function returns its input. -/
def hashingHost : Host :=
  { plainHost with dedupeHash := fun new ↦ transactionDedupeHash id (hashInput asciiClasses new) }

theorem accepting_hashingHost : Accepting hashingHost where
  newId m n heq := by
    have hlength := congrArg String.length heq
    simpa [hashingHost, plainHost] using hlength
  categories _ _ _ hc := by cases hc
  watches _ _ := rfl

theorem notMem_of_digits {l : List Char} {n : ℕ} (hn : digits l = some n) : '\x1f' ∉ l := by
  intro hmem
  rw [digits] at hn
  split at hn
  · rename_i hall
    exact absurd (List.all_eq_true.1 hall _ hmem) (by decide)
  · cases hn

theorem plainParse_separated {text : String} {d : Foundation.Calendar.Date}
    (hd : plainParse text = some d) : '\x1f' ∉ text.toList ∧ text ≠ "pid" := by
  rw [plainParse] at hd
  split at hd
  · rename_i y₁ y₂ y₃ y₄ m₁ m₂ d₁ d₂ htext
    simp only [Option.bind_eq_bind, Option.bind_eq_some_iff] at hd
    obtain ⟨y, hy, m, hm, n, hn, -⟩ := hd
    constructor
    · have hyear := notMem_of_digits hy
      have hmonth := notMem_of_digits hm
      have hday := notMem_of_digits hn
      have hdash : '\x1f' ≠ '-' := by decide
      simp only [htext, List.mem_cons, List.not_mem_nil, or_false] at hyear hmonth hday ⊢
      tauto
    · rintro rfl
      cases htext
  · cases hd

theorem toLower_ne_separator : ∀ n : Fin 123, (Char.ofNat n).isAlphanum →
    '\x1f' ≠ (Char.ofNat n).toLower := by
  decide

theorem hashing_hashingHost : Hashing hashingHost asciiClasses id where
  dedupeHash _ := rfl
  dates _ _ := plainParse_separated
  lowercase c hc := by
    have hlt : c.toNat < 123 := by
      unfold asciiClasses Char.isAlphanum Char.isAlpha Char.isUpper Char.isLower Char.isDigit at hc
      simp only [Bool.or_eq_true, Bool.and_eq_true, decide_eq_true_eq] at hc
      have hle : c.toNat ≤ 122 := by
        change c.val.toNat ≤ 122
        rcases hc with (⟨-, hle⟩ | ⟨-, hle⟩) | ⟨-, hle⟩
        all_goals
          rw [UInt32.le_iff_toNat_le] at hle
          exact hle.trans (by decide)
      omega
    have hne := toLower_ne_separator ⟨c.toNat, hlt⟩
    simp only [Char.ofNat_toNat] at hne
    exact fun hmem ↦ hne hc (List.mem_singleton.1 hmem)

def coffeeAccount : Account := ⟨"account", "book", "ZAR"⟩

def coffee : StatementLine := ⟨"2025-01-31", "COFFEE", -3500, none, none⟩

def markedCoffee : StatementLine :=
  ⟨"2025-01-31", "COFFEE\x1focc\x01\x00\x00\x00", -3500, none, none⟩

theorem ready_setup : Ready hashingHost coffeeAccount setup where
  account_mem := rfl
  book_mem := rfl
  fresh _ ht := absurd ht List.not_mem_nil

theorem valid_coffee : Valid hashingHost coffee where
  date := by decide
  amount := by decide
  currency _ hc := by cases hc
  provider := rfl

theorem valid_markedCoffee : Valid hashingHost markedCoffee where
  date := by decide
  amount := by decide
  currency _ hc := by cases hc
  provider := rfl

theorem coffees_not_counted : ¬∀ batches : List (List StatementLine),
    (∀ lines ∈ batches, ∀ line ∈ lines, Valid hashingHost line) →
      ∃ s', Imported hashingHost coffeeAccount .import setup batches s' := by
  intro hall
  have hlines : ∀ lines ∈ [[coffee, coffee, markedCoffee]], ∀ line ∈ lines,
      Valid hashingHost line := by
    simp [valid_coffee, valid_markedCoffee]
  obtain ⟨s', hs'⟩ := hall [[coffee, coffee, markedCoffee]] hlines
  have hd := distinguishable_of_imported .import accepting_hashingHost hashing_hashingHost
    injective_id ready_setup (by simp [setup]) hlines hs'
  exact hd.unmarked _ (List.mem_singleton_self _) markedCoffee (by simp) _
    (List.mem_singleton_self _) coffee (by simp) rfl rfl rfl 1 (by decide) (by decide) (by decide)

theorem maxMultiplicity_coffees (key : LineKey) :
    maxMultiplicity coffeeAccount [[coffee, coffee], [coffee]] key =
      if normalKey (occurrenceKey coffeeAccount coffee) = key then 2 else 0 := by
  split
  · rename_i hkey
    simp [maxMultiplicity, hkey]
  · rename_i hkey
    simp [maxMultiplicity, hkey]

theorem distinguishable_coffees :
    Distinguishable coffeeAccount [[coffee, coffee], [coffee]] where
  currency _ _ _ _ _ := ⟨"ZAR", by decide⟩
  spelling key hpos := by
    rw [maxMultiplicity_coffees] at hpos ⊢
    split at hpos
    · rename_i hkey
      exact ⟨[coffee, coffee], by simp, coffee, by simp, hkey, by simp [hkey]⟩
    · cases hpos
  counter key := by
    rw [maxMultiplicity_coffees]
    split <;> decide
  unmarked lines hmem line hline lines' hmem' line' hline' _ _ _ n _ _ hbytes := by
    have hcoffee : ∀ lines ∈ [[coffee, coffee], [coffee]], ∀ line ∈ lines, line = coffee := by
      simp
    rw [hcoffee lines hmem line hline, hcoffee lines' hmem' line' hline'] at hbytes
    have hlength := congrArg List.length hbytes
    rw [List.length_append, length_occurrenceMark] at hlength
    omega

theorem coffees_counted : ∃ s', Imported hashingHost coffeeAccount .import setup
    [[coffee, coffee], [coffee]] s' :=
  (import_counts_iff .import accepting_hashingHost hashing_hashingHost injective_id ready_setup
    (by simp [setup]) (by simp [valid_coffee])).2 distinguishable_coffees _ (List.Perm.refl _)

end Coffee

end SlipScan.Banking.StatementImport
