import SlipScan.Ingest.MailFiles
import SlipScan.Ledger.Posting
import SlipScan.Model.Alerts

namespace SlipScan.Ingest.AlertImport

open Model.Domain Model.Database Model.Banking Model.StatementImport Model.Alerts MailFiles
  Ledger.Posting Foundation.Transaction Foundation.Interleaving Foundation.Table Process
open Model.Mail (InboundMessage CoreError)

variable {h : Host} {new : NewTransaction} {s s' : Db} {e : Fault}

/-- The transaction that an import looks for: one with the provider's id, or with the hash. -/
def Records (h : Host) (new : NewTransaction) (t : Transaction) : Prop :=
  t.accountId = new.accountId ∧
    ((∃ id, new.providerTxnId = some id ∧ t.providerTxnId = some id) ∨
      ∃ code, normalizeCurrencyCode new.currency = .ok code ∧
        t.dedupeHash = h.dedupeHash { new with currency := code })

section Creating

theorem createTransactionInTx_adds :
    Ensures (createTransactionInTx h new) s fun txn s' ↦
      Records h new txn ∧ s'.accounts = s.accounts ∧ s'.transactions = s.transactions ++ [txn] := by
  simp only [createTransactionInTx, ensures_bind, ensures_get, ensures_check, ensures_newId,
    insertTransaction, ensures_constraint, ensures_modify, ensures_pure]
  intro account _ _ _ code hcode
  intros
  exact ⟨⟨rfl, .inr ⟨code, hcode, rfl⟩⟩, trivial, trivial⟩

def Novel (e : Fault) : Prop :=
  ∀ id, e ≠ .duplicateTransaction id

theorem require_novel {c : Prop} [Decidable c] {message : String} {e : Fault}
    (he : require c message = .error e) : Novel e := by
  rw [require] at he
  split at he
  · cases he
  · cases he
    simp [Novel]

theorem insertTransaction_novel (txn : Transaction) : Refuses (insertTransaction txn) s Novel := by
  have hconstraint : ∀ (c : Prop) [Decidable c] (message : String) (s : Db),
      Refuses (constraint c message) s Novel := by
    intro c _ message s
    rw [constraint, refuses_ite, refuses_throw]
    exact ⟨fun _ ↦ refuses_pure _, fun _ _ ↦ by simp⟩
  simp only [insertTransaction, refuses_bind, refuses_get, refuses_modify, true_and]
  exact fun db _ _ ↦ ⟨hconstraint _ _ _, fun _ s _ ↦ ⟨hconstraint _ _ _, fun _ s _ ↦
    ⟨hconstraint _ _ _, fun _ _ _ ↦ trivial⟩⟩⟩

theorem records_of_provider (hfound : checkDuplicate
      (new.providerTxnId.bind (findByProviderTxnId s new.accountId)) = .error e) :
    ∃ t ∈ s.transactions, Records h new t := by
  cases hprovider : new.providerTxnId with
  | none => rw [hprovider] at hfound; cases hfound
  | some providerId =>
    rw [hprovider, Option.bind_some] at hfound
    cases hid : findByProviderTxnId s new.accountId providerId with
    | none => rw [hid] at hfound; cases hfound
    | some id =>
      obtain ⟨t, ht, -⟩ := Option.map_eq_some_iff.1 hid
      have hsame := List.find?_some ht
      rw [decide_eq_true_eq] at hsame
      exact ⟨t, List.mem_of_find?_eq_some ht, hsame.1, .inl ⟨providerId, hprovider, hsame.2⟩⟩

theorem records_of_hash {code : String} (hcode : normalizeCurrencyCode new.currency = .ok code)
    (hfound : checkDuplicate (findByDedupeHash s new.accountId
      (h.dedupeHash { new with currency := code })) = .error e) :
    ∃ t ∈ s.transactions, Records h new t := by
  cases hid : findByDedupeHash s new.accountId (h.dedupeHash { new with currency := code }) with
  | none => rw [hid] at hfound; cases hfound
  | some id =>
    obtain ⟨t, ht, -⟩ := Option.map_eq_some_iff.1 hid
    have hsame := List.find?_some ht
    rw [decide_eq_true_eq] at hsame
    exact ⟨t, List.mem_of_find?_eq_some ht, hsame.1, .inr ⟨code, hcode, hsame.2⟩⟩

/-- A transaction that is refused as a duplicate is there. -/
theorem createTransactionInTx_refuses
    (hwatches : ∀ s txn e, h.detectPaymentMatches s txn = .error e → Novel e) :
    Refuses (createTransactionInTx h new) s fun e ↦
      Novel e ∨ ∃ t ∈ s.transactions, Records h new t := by
  have haccount : ∀ e, accountGet s new.accountId = .error e → Novel e := by
    intro e he
    rw [accountGet] at he
    cases hrow : lookup Account.id s.accounts new.accountId with
    | none =>
      rw [hrow] at he
      cases he
      simp [Novel]
    | some account => rw [hrow] at he; cases he
  have hcurrency : ∀ e, normalizeCurrencyCode new.currency = .error e → Novel e := by
    intro e he
    simp only [normalizeCurrencyCode] at he
    split at he
    · cases he
    · cases he
      simp [Novel]
  have hdate : ∀ e, parseDate h new.postedDate = .error e → Novel e := by
    intro e he
    rw [parseDate] at he
    split at he
    · cases he
    · cases he
      simp [Novel]
  have hget : ∀ (s : Db) (P : Fault → Prop), Refuses (get : Action Db) s P := fun _ _ ↦ refuses_get
  simp only [createTransactionInTx, refuses_bind, refuses_check, ensures_get, ensures_check, hget,
    true_and]
  refine ⟨fun e he ↦ .inl (haccount e he), fun _ _ ↦ ⟨fun e he ↦ .inl (require_novel he),
    fun _ _ ↦ ⟨fun e he ↦ .inl (hcurrency e he), fun code hcode ↦
      ⟨fun e he ↦ .inl (hdate e he), fun _ _ ↦ ⟨fun e he ↦ .inl (require_novel he), fun _ _ ↦
        ⟨fun e he ↦ .inr (records_of_provider he), fun _ _ ↦
          ⟨fun e he ↦ .inr (records_of_hash hcode he), fun _ _ ↦ ⟨?_, fun id s' _ ↦
            ⟨(insertTransaction_novel _).mono fun _ ↦ .inl, fun _ t _ ↦
              ⟨fun e he ↦ .inl (hwatches _ _ e he), fun _ _ ↦ refuses_pure _⟩⟩⟩⟩⟩⟩⟩⟩⟩⟩
  intro e he
  cases he

end Creating

section Importing

variable {maskedNumber : String → Option String} {bookId accountId : String}
  {rules : InboundMessage → Except AlertDecline ParsedAlert} {coreError : Fault → CoreError}

structure Gains (s s' : Db) : Prop where
  accounts : s'.accounts = s.accounts
  transactions : s.transactions ⊆ s'.transactions

instance : IsPreorder Db Gains where
  refl _ := ⟨rfl, fun _ ht ↦ ht⟩
  trans _ _ _ h h' :=
    ⟨h'.accounts.trans h.accounts, fun _ ht ↦ h'.transactions (h.transactions ht)⟩

theorem transactionCreate_within (new : NewTransaction) :
    (transactionCreate h new).Within fun _ ↦ Gains := by
  refine (within_atomically _ _).2 fun s txn s' hs ↦ ?_
  obtain ⟨-, haccounts, htransactions⟩ := createTransactionInTx_adds txn s' hs
  exact ⟨haccounts, htransactions ▸ List.subset_append_left _ _⟩

theorem importLines_within {account : Account} {source : TransactionSource}
    (lines : List StatementLine) (occurrences : LineKey → UInt32)
    (outcome : StatementImportOutcome) :
    (importLines h account bookId accountId source lines occurrences outcome).Within
      fun _ ↦ Gains := by
  induction lines generalizing occurrences outcome with
  | nil => exact (within_pure _).2 trivial
  | cons line lines ih =>
    refine (transactionCreate_within _).attempt.bind fun r ↦ ?_
    split
    · exact ih _ _
    · exact ih _ _
    · exact (within_fail _).2 trivial

theorem importAlerts_within (alerts : List ParsedAlert) :
    (importAlerts h maskedNumber bookId accountId alerts).Within fun _ ↦ Gains := by
  refine Within.ite (fun _ ↦ (within_pure _).2 trivial) fun _ ↦ ?_
  refine (within_query_bind _).2 fun _ ↦ (within_ofExcept_bind _).2 fun account _ ↦ ?_
  refine Within.bind ?_ fun _ ↦ (within_pure _).2 trivial
  exact (within_query_bind _).2 fun _ ↦ (within_ofExcept_bind _).2 fun _ _ ↦
    importLines_within _ _ _

/-- The transaction of a line that was imported is there. -/
theorem importLines_records (hwatches : ∀ s txn e, h.detectPaymentMatches s txn = .error e → Novel e)
    {account : Account} {source : TransactionSource} {line : StatementLine}
    {outcome outcome' : StatementImportOutcome}
    (hrun : (importLines h account bookId accountId source [line] (fun _ ↦ 0) outcome).run s =
      (.ok outcome', s')) :
    ∃ t ∈ s'.transactions, Records h (newTransaction account bookId accountId source line 0) t := by
  simp only [importLines, ite_self] at hrun
  rw [run_bind_of_ok (run_attempt _ _), transactionCreate, run_atomically] at hrun
  cases hcreate : createTransactionInTx h
      (newTransaction account bookId accountId source line 0) s with
  | ok r =>
    obtain ⟨hrecords, -, htransactions⟩ := createTransactionInTx_adds r.1 r.2 hcreate
    rw [commit_of_ok hcreate] at hrun
    cases hrun
    exact ⟨r.1, htransactions ▸ List.mem_append_right _ (List.mem_singleton.2 rfl), hrecords⟩
  | error e =>
    rw [commit_of_error hcreate] at hrun
    rcases createTransactionInTx_refuses hwatches e hcreate with hnovel | hfound
    · split at hrun
      · rename_i heq
        cases heq
      · rename_i heq
        cases heq
        exact absurd rfl (hnovel _)
      · cases hrun
    · split at hrun
      · rename_i heq
        cases heq
      · cases hrun
        exact hfound
      · cases hrun

/-- The transaction of the alert in a message, if the rules read one and the account takes it, is in
the account. -/
def Booked (h : Host) (maskedNumber : String → Option String)
    (rules : InboundMessage → Except AlertDecline ParsedAlert) (bookId accountId : String)
    (message : InboundMessage) (s : Db) : Prop :=
  ∀ parsed, rules message = .ok parsed → ∀ account, accountGet s accountId = .ok account →
    hintDecline (maskedAccount maskedNumber account) parsed = none →
      ∃ t ∈ s.transactions,
        Records h (newTransaction account bookId accountId .email parsed.line 0) t

theorem importAlerts_records
    (hwatches : ∀ s txn e, h.detectPaymentMatches s txn = .error e → Novel e)
    {parsed : ParsedAlert} {account : Account} {outcome : AlertImportOutcome}
    (hrun : (importAlerts h maskedNumber bookId accountId [parsed]).run s = (.ok outcome, s'))
    (haccount : accountGet s accountId = .ok account)
    (htaken : hintDecline (maskedAccount maskedNumber account) parsed = none) :
    ∃ t ∈ s'.transactions,
      Records h (newTransaction account bookId accountId .email parsed.line 0) t := by
  have hlines : ([parsed].filter fun alert ↦
      (hintDecline (maskedAccount maskedNumber account) alert).isNone).map ParsedAlert.line =
        [parsed.line] := by
    simp [htaken]
  rw [importAlerts, if_neg (List.cons_ne_nil _ _), query_service, run_query_bind] at hrun
  simp only [ofExcept_service] at hrun
  obtain ⟨account', haccount', hrun⟩ := run_ofExcept_bind_eq_ok.1 hrun
  rw [haccount] at haccount'
  cases haccount'
  obtain ⟨statement, t, hstatement, hrun⟩ := run_bind_eq_ok.1 hrun
  cases hrun
  rw [hlines, importStatementLines, query_service, run_query_bind] at hstatement
  simp only [ofExcept_service] at hstatement
  obtain ⟨account', haccount', hstatement⟩ := run_ofExcept_bind_eq_ok.1 hstatement
  rw [haccount] at haccount'
  cases haccount'
  exact importLines_records hwatches hstatement

/-- The sync of the alerts books those of its message, and unbooks none. -/
theorem books_alertSync
    (hwatches : ∀ s txn e, h.detectPaymentMatches s txn = .error e → Novel e) :
    Books (alertSync h maskedNumber rules coreError bookId accountId)
      (Booked h maskedNumber rules bookId accountId) := by
  have hgains : ∀ {message s s'},
      alertSync h maskedNumber rules coreError bookId accountId message s = .ok ((), s') →
        Gains s s' := by
    intro message s s' hsync
    rw [alertSync] at hsync
    split at hsync
    · cases hsync
      exact refl_of Gains s
    · rename_i parsed hparsed
      have hstore : Gains s ((importAlerts h maskedNumber bookId accountId [parsed]).run s).2 :=
        (importAlerts_within _).run_store s
      split at hsync
      · rename_i heq
        cases hsync
        rwa [heq] at hstore
      · cases hsync
  refine ⟨fun {message s s'} hsync ↦ ?_, fun {message message' s s'} hsync hbooked ↦ ?_⟩
  · intro parsed hparsed account haccount htaken
    have haccounts := (hgains hsync).accounts
    rw [accountGet, haccounts] at haccount
    rw [alertSync, hparsed] at hsync
    simp only at hsync
    split at hsync
    · rename_i heq
      cases hsync
      exact importAlerts_records hwatches heq haccount htaken
    · cases hsync
  · intro parsed hparsed account haccount htaken
    rw [accountGet, (hgains hsync).accounts] at haccount
    obtain ⟨t, ht, hrecords⟩ := hbooked parsed hparsed account haccount htaken
    exact ⟨t, (hgains hsync).transactions ht, hrecords⟩

end Importing

end SlipScan.Ingest.AlertImport
