import SlipScan.Banking.Deduplication
import SlipScan.Foundation.Occurrences
import SlipScan.Model.StatementImport

namespace SlipScan.Banking.ImportSteps

open Model.Domain Model.Database Model.Banking Model.Dedupe Model.StatementImport
  Foundation.Framing Foundation.Transaction Foundation.Interleaving Foundation.Table
  Foundation.Occurrences Deduplication Function

/-- What the host does for a transaction that an import creates: identifiers do not repeat, a
merchant rule names a category that exists, and the payment watches do not refuse it. -/
structure Accepting (h : Host) : Prop where
  newId : Injective h.newId
  categories : ∀ s new c, h.merchantCategory s new = some c → references Category.id s.categories c
  watches : ∀ s txn, h.detectPaymentMatches s txn = .ok ()

structure Ready (h : Host) (account : Account) (s : Db) : Prop where
  account_mem : lookup Account.id s.accounts account.id = some account
  book_mem : references Book.id s.books account.bookId
  fresh : ∀ t ∈ s.transactions, ∀ n, s.minted ≤ n → t.id ≠ h.newId n

variable {h : Host} {account : Account} {source : TransactionSource} {line : StatementLine}
  {occurrence : UInt32} {s : Db} {code : String}

/-- A line with a date and an amount that the service takes, without a provider's id, whose
currency is missing or in its normal form. -/
structure Valid (h : Host) (line : StatementLine) : Prop where
  date : (h.parseDate line.postedDate).isSome
  amount : checkAmount line.amountMinor = .ok ()
  currency : ∀ c, line.currency = some c → normalizeCurrencyCode c = .ok c
  provider : line.providerTxnId = none

section Create

variable (h account source)

abbrev lineTransaction (line : StatementLine) (occurrence : UInt32) : NewTransaction :=
  newTransaction account account.bookId account.id source line occurrence

def lineHash (line : StatementLine) (occurrence : UInt32) (code : String) : String :=
  h.dedupeHash { lineTransaction account source line occurrence with currency := code }

def storedRow (line : StatementLine) (occurrence : UInt32) (code : String) (s : Db) :
    Transaction where
  id := h.newId s.minted
  bookId := account.bookId
  accountId := account.id
  categoryId := h.merchantCategory s (lineTransaction account source line occurrence)
  source := source
  providerTxnId := none
  dedupeHash := lineHash h account source line occurrence code
  postedDate := line.postedDate
  amountMinor := line.amountMinor
  currency := code
  merchant := none
  description := some line.description
  notes := none
  status := .pending

def addRow (s : Db) (txn : Transaction) : Db :=
  { s with minted := s.minted + 1, transactions := s.transactions ++ [txn] }

variable {h account source}

theorem accountGet_of_ready (hs : Ready h account s) : accountGet s account.id = .ok account := by
  rw [accountGet, hs.account_mem]
  rfl

theorem length_of_normalizeCurrencyCode {raw : String}
    (hcode : normalizeCurrencyCode raw = .ok code) : code.length = 3 := by
  simp only [normalizeCurrencyCode] at hcode
  split at hcode
  · rename_i hletters
    obtain rfl := Except.ok.inj hcode
    rw [String.length_ofList, List.length_map, hletters.1]
  · cases hcode

theorem constraint_of {c : Prop} [Decidable c] {m : String} (hc : c) :
    constraint c m s = .ok ((), s) := by
  rw [constraint, if_pos hc]
  rfl

theorem createTransactionInTx_checked (hs : Ready h account s) (hline : Valid h line)
    (hcode : normalizeCurrencyCode (line.currency.getD account.currency) = .ok code)
    {r : Except Fault (Transaction × Db)}
    (hnext : (do
      check (checkDuplicate
        (findByDedupeHash s account.id (lineHash h account source line occurrence code)))
      let txn : Transaction :=
        { storedRow h account source line occurrence code s with id := ← newId h }
      insertTransaction txn
      check (h.detectPaymentMatches (← get) txn)
      return txn : Action Transaction) s = r) :
    createTransactionInTx h (lineTransaction account source line occurrence) s = r := by
  obtain ⟨d, hd⟩ := Option.isSome_iff_exists.1 hline.date
  have hdate : parseDate h line.postedDate = .ok d := by rw [parseDate, hd]
  obtain ⟨postedDate, description, amountMinor, providerTxnId, currency⟩ := line
  obtain rfl : providerTxnId = none := hline.provider
  have hbook : require (account.bookId = account.bookId) "account does not belong to this book" =
      .ok () := if_pos rfl
  refine (bind_of_ok rfl _).trans ?_
  refine (bind_of_ok (check_of_ok (accountGet_of_ready hs)) _).trans ?_
  refine (bind_of_ok (check_of_ok hbook) _).trans ?_
  refine (bind_of_ok (check_of_ok hcode) _).trans ?_
  refine (bind_of_ok (check_of_ok hdate) _).trans ?_
  refine (bind_of_ok (check_of_ok hline.amount) _).trans ?_
  refine (bind_of_ok rfl _).trans ?_
  exact (bind_of_ok rfl _).trans hnext

theorem createTransactionInTx_of_known (hs : Ready h account s) (hline : Valid h line)
    (hcode : normalizeCurrencyCode (line.currency.getD account.currency) = .ok code)
    (hknown : ∃ t ∈ s.transactions, t.accountId = account.id ∧
      t.dedupeHash = lineHash h account source line occurrence code) :
    ∃ id, createTransactionInTx h (lineTransaction account source line occurrence) s =
      .error (.duplicateTransaction id) := by
  have hfound : ∃ id, findByDedupeHash s account.id
      (lineHash h account source line occurrence code) = some id := by
    obtain ⟨t, ht, haccount, hhash⟩ := hknown
    rw [← Option.isSome_iff_exists, findByDedupeHash, Option.isSome_map, List.find?_isSome]
    exact ⟨t, ht, decide_eq_true ⟨haccount, hhash⟩⟩
  obtain ⟨id, hid⟩ := hfound
  refine ⟨id, createTransactionInTx_checked hs hline hcode ?_⟩
  exact bind_of_error (check_of_error (by rw [hid]; rfl)) _

theorem createTransactionInTx_of_new (hh : Accepting h) (hs : Ready h account s)
    (hline : Valid h line)
    (hcode : normalizeCurrencyCode (line.currency.getD account.currency) = .ok code)
    (hnew : ∀ t ∈ s.transactions, t.accountId = account.id →
      t.dedupeHash ≠ lineHash h account source line occurrence code) :
    createTransactionInTx h (lineTransaction account source line occurrence) s =
      .ok (storedRow h account source line occurrence code s,
        addRow s (storedRow h account source line occurrence code s)) := by
  have hfind : findByDedupeHash s account.id
      (lineHash h account source line occurrence code) = none := by
    rw [findByDedupeHash, Option.map_eq_none_iff, List.find?_eq_none]
    intro t ht
    simpa using hnew t ht
  refine createTransactionInTx_checked hs hline hcode ?_
  rw [bind_of_ok (check_of_ok (by rw [hfind]; rfl))]
  have haccount : references Account.id s.accounts account.id :=
    isSome_lookup.2 ⟨account, lookup_eq_some hs.account_mem⟩
  have hinsert : insertTransaction (storedRow h account source line occurrence code s)
      { s with minted := s.minted + 1 } =
        .ok ((), addRow s (storedRow h account source line occurrence code s)) := by
    refine (bind_of_ok rfl _).trans ?_
    refine (bind_of_ok (constraint_of (fun t ht ↦ hs.fresh t ht _ le_rfl)) _).trans ?_
    refine (bind_of_ok (constraint_of ⟨hs.book_mem, haccount, hh.categories _ _⟩) _).trans ?_
    exact (bind_of_ok (constraint_of (length_of_normalizeCurrencyCode hcode)) _).trans rfl
  have hid : newId h s = .ok (h.newId s.minted, { s with minted := s.minted + 1 }) := rfl
  refine (bind_of_ok hid _).trans ?_
  refine (bind_of_ok hinsert _).trans ?_
  refine (bind_of_ok rfl _).trans ?_
  exact (bind_of_ok (check_of_ok (hh.watches _ _)) _).trans rfl

variable (source occurrence) in
theorem createTransactionInTx_of_currency_error (hs : Ready h account s) {e : Fault}
    (he : normalizeCurrencyCode (line.currency.getD account.currency) = .error e) :
    ∃ message, createTransactionInTx h (lineTransaction account source line occurrence) s =
      .error (.validation message) := by
  have hvalidation : ∃ message, e = .validation message := by
    simp only [normalizeCurrencyCode] at he
    split at he
    · cases he
    · exact ⟨_, (Except.error.inj he).symm⟩
  obtain ⟨message, rfl⟩ := hvalidation
  have hbook : require (account.bookId = account.bookId) "account does not belong to this book" =
      .ok () := if_pos rfl
  refine ⟨message, (bind_of_ok rfl _).trans ?_⟩
  refine (bind_of_ok (check_of_ok (accountGet_of_ready hs)) _).trans ?_
  refine (bind_of_ok (check_of_ok hbook) _).trans ?_
  exact bind_of_error (check_of_error he) _

end Create

section Lines

variable (h account source)

def place (line : StatementLine) (occurrence : UInt32) (s : Db) : Db :=
  ((transactionCreate h (lineTransaction account source line occurrence)).run s).2

def after : List StatementLine → (LineKey → UInt32) → Db → Db
  | [], _, s => s
  | line :: lines, occurrences, s =>
    let key := occurrenceKey account line
    after lines (update occurrences key (occurrences key + 1))
      (place h account source line (occurrences key) s)

def transactionKey (t : Transaction) : LineKey :=
  (t.postedDate, t.amountMinor, t.currency, t.description.getD "")

def itemInput (accountId : String) (i : LineKey × ℕ) : HashInput where
  accountId
  postedDate := i.1.1
  amountMinor := Int64.ofInt i.1.2.1
  currency := i.1.2.2.1
  providerTxnId := none
  merchantNormalized := none
  description := some i.1.2.2.2
  occurrence := UInt32.ofNat i.2

def itemCode (sha256 : List UInt8 → List UInt8) (accountId : String) (i : LineKey × ℕ) : String :=
  transactionDedupeHash sha256 (itemInput accountId i)

/-- The account has the transactions of the given keys, in this order. -/
def Holds (sha256 : List UInt8 → List UInt8) (accountId : String) (s : Db)
    (kept : List (LineKey × ℕ)) : Prop :=
  (s.transactions.filter (·.accountId = accountId)).map
      (fun t ↦ (transactionKey t, t.dedupeHash)) =
    kept.map fun i ↦ (i.1, itemCode sha256 accountId i)

def lineItem (line : StatementLine) (code : String) (occurrence : UInt32) : LineKey × ℕ :=
  ((line.postedDate, line.amountMinor, code, line.description), occurrence.toNat)

variable {h account source} {U : CharClasses} {sha256 : List UInt8 → List UInt8}
  {kept : List (LineKey × ℕ)}

theorem lineHash_eq (hh : Hashing h U sha256) (hline : Valid h line) :
    lineHash h account source line occurrence code =
      itemCode sha256 account.id (lineItem line code occurrence) := by
  obtain ⟨postedDate, description, amountMinor, providerTxnId, currency⟩ := line
  obtain rfl : providerTxnId = none := hline.provider
  exact hh.dedupeHash _

theorem Holds.known_iff (hheld : Holds sha256 account.id s kept) {c : String} :
    (∃ t ∈ s.transactions, t.accountId = account.id ∧ t.dedupeHash = c) ↔
      c ∈ kept.map (itemCode sha256 account.id) := by
  have hcodes := congrArg (List.map Prod.snd) hheld
  simp only [List.map_map, comp_def] at hcodes
  change _ ↔ c ∈ kept.map fun i ↦ itemCode sha256 account.id i
  rw [← hcodes]
  simp [and_assoc]

variable (source occurrence) in
/-- What one line does: nothing if its code is known, else it adds a row. -/
theorem run_line (ha : Accepting h) (hh : Hashing h U sha256) (hs : Ready h account s)
    (hheld : Holds sha256 account.id s kept) (hline : Valid h line)
    (hcode : normalizeCurrencyCode (line.currency.getD account.currency) = .ok code) :
    (itemCode sha256 account.id (lineItem line code occurrence) ∈
          kept.map (itemCode sha256 account.id) ∧
        ∃ id, (transactionCreate h (lineTransaction account source line occurrence)).run s =
          (.error (.duplicateTransaction id), s)) ∨
      (itemCode sha256 account.id (lineItem line code occurrence) ∉
          kept.map (itemCode sha256 account.id) ∧
        (transactionCreate h (lineTransaction account source line occurrence)).run s =
          (.ok (storedRow h account source line occurrence code s),
            addRow s (storedRow h account source line occurrence code s))) := by
  rw [transactionCreate, run_atomically, ← lineHash_eq hh hline, ← hheld.known_iff]
  by_cases hknown : ∃ t ∈ s.transactions, t.accountId = account.id ∧
      t.dedupeHash = lineHash h account source line occurrence code
  · obtain ⟨id, herror⟩ := createTransactionInTx_of_known hs hline hcode hknown
    exact .inl ⟨hknown, id, commit_of_error herror⟩
  · have hok := createTransactionInTx_of_new ha hs hline hcode fun t ht haccount hhash ↦
      hknown ⟨t, ht, haccount, hhash⟩
    exact .inr ⟨hknown, commit_of_ok hok⟩

theorem Ready.addRow (ha : Accepting h) (hs : Ready h account s) :
    Ready h account (addRow s (storedRow h account source line occurrence code s)) where
  account_mem := hs.account_mem
  book_mem := hs.book_mem
  fresh t ht n hn := by
    rcases List.mem_append.1 ht with ht | ht
    · exact hs.fresh t ht n (Nat.le_of_succ_le hn)
    · rw [List.mem_singleton.1 ht]
      intro heq
      have hminted : s.minted = n := ha.newId heq
      change s.minted + 1 ≤ n at hn
      omega

theorem Holds.addRow (hh : Hashing h U sha256) (hline : Valid h line)
    (hheld : Holds sha256 account.id s kept) :
    Holds sha256 account.id (addRow s (storedRow h account source line occurrence code s))
      (kept ++ [lineItem line code occurrence]) := by
  have hrow : (storedRow h account source line occurrence code s).accountId = account.id := rfl
  have hhash : (storedRow h account source line occurrence code s).dedupeHash =
      itemCode sha256 account.id (lineItem line code occurrence) := lineHash_eq hh hline
  rw [Holds, ImportSteps.addRow, List.filter_append, List.map_append, hheld, List.map_append]
  congr 1
  simp only [List.filter_cons, hrow, decide_true, if_true, List.filter_nil, List.map_cons,
    List.map_nil, hhash]
  rfl

variable (source occurrence) in
theorem place_spec (ha : Accepting h) (hh : Hashing h U sha256) (hs : Ready h account s)
    (hheld : Holds sha256 account.id s kept) (hline : Valid h line)
    (hcode : normalizeCurrencyCode (line.currency.getD account.currency) = .ok code) :
    Ready h account (place h account source line occurrence s) ∧
      Holds sha256 account.id (place h account source line occurrence s)
        (keep (itemCode sha256 account.id) kept (lineItem line code occurrence)) := by
  rw [place, keep]
  rcases run_line source occurrence ha hh hs hheld hline hcode with
    ⟨hknown, id, hrun⟩ | ⟨hnew, hrun⟩
  · rw [hrun, if_pos hknown]
    exact ⟨hs, hheld⟩
  · rw [hrun, if_neg hnew]
    exact ⟨hs.addRow ha, hheld.addRow hh hline⟩

theorem place_of_known (ha : Accepting h) (hh : Hashing h U sha256) (hs : Ready h account s)
    (hheld : Holds sha256 account.id s kept) (hline : Valid h line)
    (hcode : normalizeCurrencyCode (line.currency.getD account.currency) = .ok code)
    (hknown : itemCode sha256 account.id (lineItem line code occurrence) ∈
      kept.map (itemCode sha256 account.id)) :
    place h account source line occurrence s = s := by
  rw [place]
  rcases run_line source occurrence ha hh hs hheld hline hcode with ⟨-, id, hrun⟩ | ⟨hnew, -⟩
  · rw [hrun]
  · exact absurd hknown hnew

@[irreducible]
def normalCurrency (raw : String) : String :=
  (normalizeCurrencyCode raw).toOption.getD raw

theorem normalCurrency_of_ok {raw : String} (hcode : normalizeCurrencyCode raw = .ok code) :
    normalCurrency raw = code := by
  rw [normalCurrency, hcode]
  rfl

def normalKey (key : LineKey) : LineKey :=
  (key.1, key.2.1, normalCurrency key.2.2.1, key.2.2.2)

structure Importable (h : Host) (account : Account) (line : StatementLine) : Prop
    extends Valid h line where
  code : ∃ c, normalizeCurrencyCode (line.currency.getD account.currency) = .ok c

theorem Importable.account_currency (hline : Importable h account line)
    (hnone : line.currency = none) : ∃ code, normalizeCurrencyCode account.currency = .ok code := by
  have hcode := hline.code
  rwa [hnone] at hcode

theorem Importable.normalCurrency (hline : Importable h account line) :
    normalizeCurrencyCode (line.currency.getD account.currency) =
      .ok (normalCurrency (line.currency.getD account.currency)) := by
  obtain ⟨c, hc⟩ := hline.code
  rw [normalCurrency_of_ok hc, hc]

def itemsFrom (account : Account) (seen : LineKey → ℕ) (lines : List StatementLine) :
    List (LineKey × ℕ) :=
  (numbered seen (lines.map (occurrenceKey account))).map fun p ↦ (normalKey p.1, p.2 % 2 ^ 32)

variable {lines : List StatementLine} {seen : LineKey → ℕ}

def Counts (occurrences : LineKey → UInt32) (seen : LineKey → ℕ) : Prop :=
  ∀ key, occurrences key = UInt32.ofNat (seen key)

variable {occurrences : LineKey → UInt32}

theorem Counts.update (hc : Counts occurrences seen) (key : LineKey) :
    Counts (update occurrences key (occurrences key + 1)) (update seen key (seen key + 1)) := by
  intro key'
  by_cases heq : key' = key
  · rw [heq, update_self, update_self, hc key, UInt32.ofNat_add]
    rfl
  · rw [update_of_ne heq, update_of_ne heq, hc key']

theorem lineItem_eq (hc : Counts occurrences seen) :
    lineItem line (normalCurrency (line.currency.getD account.currency))
        (occurrences (occurrenceKey account line)) =
      (normalKey (occurrenceKey account line), seen (occurrenceKey account line) % 2 ^ 32) := by
  rw [lineItem, hc, UInt32.toNat_ofNat']
  rfl

theorem itemsFrom_cons (hc : Counts occurrences seen) : itemsFrom account seen (line :: lines) =
    lineItem line (normalCurrency (line.currency.getD account.currency))
        (occurrences (occurrenceKey account line)) ::
      itemsFrom account (update seen (occurrenceKey account line)
        (seen (occurrenceKey account line) + 1)) lines := by
  rw [lineItem_eq hc]
  rfl

variable (source) in
theorem after_spec (ha : Accepting h) (hh : Hashing h U sha256) (hs : Ready h account s)
    (hheld : Holds sha256 account.id s kept) (hc : Counts occurrences seen)
    (hlines : ∀ line ∈ lines, Importable h account line) :
    Ready h account (after h account source lines occurrences s) ∧
      Holds sha256 account.id (after h account source lines occurrences s)
        (keepAll (itemCode sha256 account.id) kept (itemsFrom account seen lines)) := by
  induction lines generalizing s kept seen occurrences with
  | nil => exact ⟨hs, hheld⟩
  | cons line lines ih =>
    rw [List.forall_mem_cons] at hlines
    obtain ⟨hs', hheld'⟩ := place_spec source _ ha hh hs hheld hlines.1.toValid
      hlines.1.normalCurrency
    rw [itemsFrom_cons hc]
    exact ih hs' hheld' (hc.update _) hlines.2

variable (source) in
theorem after_of_known (ha : Accepting h) (hh : Hashing h U sha256) (hs : Ready h account s)
    (hheld : Holds sha256 account.id s kept) (hc : Counts occurrences seen)
    (hlines : ∀ line ∈ lines, Importable h account line)
    (hknown : ∀ i ∈ itemsFrom account seen lines,
      itemCode sha256 account.id i ∈ kept.map (itemCode sha256 account.id)) :
    after h account source lines occurrences s = s := by
  induction lines generalizing seen occurrences with
  | nil => rfl
  | cons line lines ih =>
    rw [List.forall_mem_cons] at hlines
    rw [itemsFrom_cons hc, List.forall_mem_cons] at hknown
    rw [after, place_of_known ha hh hs hheld hlines.1.toValid hlines.1.normalCurrency hknown.1]
    exact ih (hc.update _) hlines.2 hknown.2

theorem run_importLines (ha : Accepting h) (hh : Hashing h U sha256) (hs : Ready h account s)
    (hheld : Holds sha256 account.id s kept) (hlines : ∀ line ∈ lines, Importable h account line)
    (outcome : StatementImportOutcome) :
    ∃ outcome', (importLines h account account.bookId account.id source lines occurrences
      outcome).run s = (.ok outcome', after h account source lines occurrences s) := by
  induction lines generalizing s kept occurrences outcome with
  | nil => exact ⟨outcome, rfl⟩
  | cons line lines ih =>
    rw [List.forall_mem_cons] at hlines
    have hprovider : line.providerTxnId.isNone = true := by rw [hlines.1.provider]; rfl
    have hplace := place_spec source (occurrences (occurrenceKey account line)) ha hh hs hheld
      hlines.1.toValid hlines.1.normalCurrency
    rw [place] at hplace
    rw [importLines]
    simp only [hprovider, if_true]
    rw [run_bind, run_attempt, after, place]
    rcases run_line source (occurrences (occurrenceKey account line)) ha hh hs hheld
      hlines.1.toValid hlines.1.normalCurrency with ⟨-, id, hrun⟩ | ⟨-, hrun⟩
    · rw [hrun] at hplace ⊢
      exact ih hplace.1 hplace.2 hlines.2 _
    · rw [hrun] at hplace ⊢
      exact ih hplace.1 hplace.2 hlines.2 _

/-- An import that succeeds has read a valid currency for each of its lines. -/
theorem importable_of_run (ha : Accepting h) (hh : Hashing h U sha256) (hs : Ready h account s)
    (hheld : Holds sha256 account.id s kept) (hlines : ∀ line ∈ lines, Valid h line)
    {outcome outcome' : StatementImportOutcome}
    (hrun : ((importLines h account account.bookId account.id source lines occurrences outcome).run
      s).1 = .ok outcome') : ∀ line ∈ lines, Importable h account line := by
  induction lines generalizing s kept occurrences outcome with
  | nil => exact fun line hline ↦ absurd hline List.not_mem_nil
  | cons line lines ih =>
    rw [List.forall_mem_cons] at hlines ⊢
    have hprovider : line.providerTxnId.isNone = true := by rw [hlines.1.provider]; rfl
    rw [importLines] at hrun
    simp only [hprovider, if_true] at hrun
    rw [run_bind, run_attempt] at hrun
    cases hcode : normalizeCurrencyCode (line.currency.getD account.currency) with
    | error e =>
      obtain ⟨message, herror⟩ := createTransactionInTx_of_currency_error source
        (occurrences (occurrenceKey account line)) hs hcode
      rw [transactionCreate, run_atomically, commit_of_error herror] at hrun
      cases hrun
    | ok code =>
      have hplace := place_spec source (occurrences (occurrenceKey account line)) ha hh hs hheld
        hlines.1 hcode
      rw [place] at hplace
      refine ⟨⟨hlines.1, code, hcode⟩, ?_⟩
      rcases run_line source (occurrences (occurrenceKey account line)) ha hh hs hheld
        hlines.1 hcode with ⟨-, id, hline⟩ | ⟨-, hline⟩
      · rw [hline] at hplace hrun
        exact ih hplace.1 hplace.2 hlines.2 hrun
      · rw [hline] at hplace hrun
        exact ih hplace.1 hplace.2 hlines.2 hrun

theorem exists_after_append (lines' : List StatementLine) (occurrences : LineKey → UInt32) :
    ∃ occurrences', ∀ s, after h account source (lines ++ lines') occurrences s =
      after h account source lines' occurrences' (after h account source lines occurrences s) := by
  induction lines generalizing occurrences with
  | nil => exact ⟨occurrences, fun s ↦ rfl⟩
  | cons line lines ih =>
    obtain ⟨occurrences', h'⟩ := ih (update occurrences (occurrenceKey account line)
      (occurrences (occurrenceKey account line) + 1))
    exact ⟨occurrences', fun s ↦ h' _⟩

theorem counts_zero : Counts (fun _ ↦ 0) fun _ ↦ 0 := fun _ ↦ rfl

variable (source) in
/-- Lines imported again after a part of them leave the same database as lines imported once. -/
theorem after_retry (ha : Accepting h) (hh : Hashing h U sha256) (hs : Ready h account s)
    (hheld : Holds sha256 account.id s kept) (lines' : List StatementLine)
    (hlines : ∀ line ∈ lines, Importable h account line) :
    after h account source (lines ++ lines') (fun _ ↦ 0)
        (after h account source lines (fun _ ↦ 0) s) =
      after h account source (lines ++ lines') (fun _ ↦ 0) s := by
  have hafter : ∃ occurrences', ∀ s, after h account source (lines ++ lines') (fun _ ↦ 0) s =
      after h account source lines' occurrences' (after h account source lines (fun _ ↦ 0) s) :=
    exists_after_append lines' _
  obtain ⟨occurrences', hafter⟩ := hafter
  obtain ⟨hs', hheld'⟩ := after_spec source ha hh hs hheld counts_zero hlines
  have hsame := after_of_known source ha hh hs' hheld' counts_zero hlines fun i hi ↦
    mem_map_keepAll.2 (.inr (List.mem_map_of_mem hi))
  rw [hafter, hafter, hsame]

end Lines

end SlipScan.Banking.ImportSteps
