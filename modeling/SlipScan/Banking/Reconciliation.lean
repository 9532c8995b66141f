import SlipScan.Ledger.Reversal
import SlipScan.Model.PlainHost
import SlipScan.Model.Recon
import Mathlib.Data.List.Pairwise
import Mathlib.Data.Rat.Floor

namespace SlipScan.Banking.Reconciliation

open Model.Domain Model.Database Model.Ledger Model.Reports Model.Recon Model.PlainHost
  Foundation.Transaction Foundation.Interleaving Foundation.Table Ledger.Calls Ledger.Consistency
  Ledger.Reversal Process Relation

variable {C : Type} [Score C] {h : ReconHost} {bookId : String} {s t : ReconDb C}
  {inputs : ReconInputs} {taken taken' : Taken} {txn : StatementLine} {bankCoa : Option String}
  {c : ReconCandidate C}

section Candidates

theorem foldl_consider_eq_none {l : List (ReconCandidate C)} {best : Option (ReconCandidate C)} :
    l.foldl consider best = none ↔
      best = none ∧ ∀ c ∈ l, ¬Score.le reconMinConfidence c.confidence := by
  induction l generalizing best with
  | nil => simp
  | cons c l ih =>
    rw [List.foldl_cons, ih, consider]
    split_ifs with hgood
    · simp [hgood.1]
    · cases best with
      | none => simpa using fun _ ↦ hgood
      | some b => simp

theorem foldl_consider_eq_some {l : List (ReconCandidate C)} {best : Option (ReconCandidate C)}
    (hbest : l.foldl consider best = some c) :
    best = some c ∨ c ∈ l ∧ Score.le reconMinConfidence c.confidence := by
  induction l generalizing best with
  | nil => exact .inl hbest
  | cons d l ih =>
    rw [List.foldl_cons] at hbest
    rcases ih hbest with hd | ⟨hmem, hgood⟩
    · rw [consider] at hd
      split_ifs at hd with hgood
      · cases hd
        exact .inr ⟨List.mem_cons_self .., hgood.1⟩
      · exact .inl hd
    · exact .inr ⟨List.mem_cons_of_mem d hmem, hgood⟩

structure TakenLe (taken taken' : Taken) : Prop where
  docs : taken.docs ⊆ taken'.docs
  journals : taken.journals ⊆ taken'.journals

theorem linkCandidate_of_le (hle : TakenLe taken taken')
    (hc : linkCandidate inputs taken' txn = some c) : linkCandidate inputs taken txn = some c := by
  unfold linkCandidate at hc ⊢
  split at hc
  · cases hc
  · rename_i documentId hdocument
    split at hc
    · cases hc
    · rename_i hfree
      rw [not_or] at hfree
      rw [if_neg (not_or.2 ⟨fun hd ↦ hfree.1 (hle.docs hd), hfree.2⟩)]
      exact hc

theorem documentCandidate_of_le {doc : DocCandidate} (hle : TakenLe taken taken')
    (hc : documentCandidate h inputs taken' txn doc = some c) :
    documentCandidate h inputs taken txn doc = some c := by
  unfold documentCandidate at hc ⊢
  split at hc
  · cases hc
  · rename_i hfree
    rw [not_or] at hfree
    rw [if_neg (not_or.2 ⟨fun hd ↦ hfree.1 (hle.docs hd), hfree.2⟩)]
    exact hc

theorem journalCandidate_of_le {entry : BankSideJournalLine} (hle : TakenLe taken taken')
    (hc : journalCandidate h inputs taken' txn bankCoa entry = some c) :
    journalCandidate h inputs taken txn bankCoa entry = some c := by
  unfold journalCandidate at hc ⊢
  split at hc
  · cases hc
  · rename_i hfree
    rw [not_or] at hfree
    rw [if_neg (not_or.2 ⟨fun hj ↦ hfree.1 (hle.journals hj), hfree.2⟩)]
    exact hc

theorem mem_candidates : c ∈ candidates h inputs taken txn bankCoa ↔
    linkCandidate inputs taken txn = some c ∨
      (∃ doc ∈ inputs.docs, documentCandidate h inputs taken txn doc = some c) ∨
      ∃ entry ∈ inputs.ledgerLines, journalCandidate h inputs taken txn bankCoa entry = some c := by
  simp only [candidates, List.mem_append, List.mem_filterMap, Option.mem_toList, or_assoc]

/-- A transaction without a candidate gets none when more is taken. -/
theorem bestCandidate_of_le (hle : TakenLe taken taken')
    (hnone : (bestCandidate h inputs taken txn bankCoa : Option (ReconCandidate C)) = none) :
    (bestCandidate h inputs taken' txn bankCoa : Option (ReconCandidate C)) = none := by
  rw [bestCandidate, foldl_consider_eq_none] at hnone ⊢
  refine ⟨rfl, fun c hc ↦ hnone.2 c ?_⟩
  rw [mem_candidates] at hc ⊢
  rcases hc with hlink | ⟨doc, hdoc, hc⟩ | ⟨entry, hentry, hc⟩
  · exact .inl (linkCandidate_of_le hle hlink)
  · exact .inr (.inl ⟨doc, hdoc, documentCandidate_of_le hle hc⟩)
  · exact .inr (.inr ⟨entry, hentry, journalCandidate_of_le hle hc⟩)

/-- A journal line that explains a bank transaction: it is on the account of the bank account, with
the same amount on the same side and in the same currency. -/
structure Explains (bankCoa : Option String) (txn : StatementLine)
    (entry : BankSideJournalLine) : Prop where
  account : bankCoa = some entry.coaId
  side : SideMatches txn entry
  currency : entry.currency = txn.currency

/-- A document that a bank transaction can be for: it was linked to it, or it is a slip over an
amount in the same currency and the transaction spends money. -/
def Documents (inputs : ReconInputs) (txn : StatementLine) (d : String) : Prop :=
  txn.documentId = some d ∨ ∃ doc ∈ inputs.docs, doc.documentId = d ∧ 0 < doc.totalMinor ∧
    txn.amountMinor < 0 ∧ doc.currency.getD inputs.book.currency = txn.currency

/-- A candidate names a document or a journal that is free and whose pair nobody rejected. -/
structure Admitted (inputs : ReconInputs) (taken : Taken) (txn : StatementLine)
    (bankCoa : Option String) (c : ReconCandidate C) : Prop where
  either : c.documentId.isSome ↔ c.journalId = none
  document : ∀ d, c.documentId = some d → d ∉ taken.docs ∧ (txn.id, d) ∉ inputs.rejected ∧
    Documents inputs txn d
  journal : ∀ j, c.journalId = some j → j ∉ taken.journals ∧
    (txn.id, j) ∉ inputs.rejectedJournals ∧
    ∃ entry ∈ inputs.ledgerLines, entry.journalId = j ∧ Explains bankCoa txn entry

theorem admitted_link (hc : linkCandidate inputs taken txn = some c) :
    Admitted inputs taken txn bankCoa c := by
  unfold linkCandidate at hc
  split at hc
  · cases hc
  · rename_i documentId hdocument
    split at hc
    · cases hc
    · rename_i hfree
      cases hc
      refine ⟨by simp, fun d hd ↦ ?_, by simp⟩
      cases hd
      rw [not_or] at hfree
      exact ⟨hfree.1, hfree.2, .inl hdocument⟩

theorem admitted_document {doc : DocCandidate} (hdoc : doc ∈ inputs.docs)
    (hc : documentCandidate h inputs taken txn doc = some c) :
    Admitted inputs taken txn bankCoa c := by
  unfold documentCandidate at hc
  split at hc
  · cases hc
  · rename_i hfree
    simp only [not_or, not_le, ge_iff_le] at hfree
    split at hc
    · cases hc
    · rename_i hcurrency
      dsimp only at hc
      split at hc
      · cases hc
      · rw [Option.map_eq_some_iff] at hc
        obtain ⟨⟨days, worth⟩, -, rfl⟩ := hc
        refine ⟨by simp, fun d hd ↦ ?_, by simp⟩
        cases hd
        obtain ⟨hfree, hrejected, -, htotal, hspends⟩ := hfree
        exact ⟨hfree, hrejected, .inr ⟨doc, hdoc, rfl, htotal, hspends, not_not.1 hcurrency⟩⟩

theorem admitted_journal {entry : BankSideJournalLine} (hentry : entry ∈ inputs.ledgerLines)
    (hc : journalCandidate h inputs taken txn bankCoa entry = some c) :
    Admitted inputs taken txn bankCoa c := by
  unfold journalCandidate at hc
  split_ifs at hc with hfree haccount hside
  simp only [not_or, not_not] at hfree haccount hside
  rw [Option.map_eq_some_iff] at hc
  obtain ⟨⟨days, worth⟩, -, rfl⟩ := hc
  refine ⟨by simp, by simp, fun j hj ↦ ?_⟩
  cases hj
  exact ⟨hfree.1, hfree.2.1, entry, hentry, rfl, haccount, hside, hfree.2.2⟩

theorem admitted_of_bestCandidate (hc : bestCandidate h inputs taken txn bankCoa = some c) :
    Admitted inputs taken txn bankCoa c := by
  rcases foldl_consider_eq_some hc with hnone | ⟨hmem, -⟩
  · cases hnone
  · rcases mem_candidates.1 hmem with hlink | ⟨doc, hdoc, hslip⟩ | ⟨entry, hentry, hjournal⟩
    · exact admitted_link hlink
    · exact admitted_document hdoc hslip
    · exact admitted_journal hentry hjournal

end Candidates

structure Apart (a b : Match C) : Prop where
  docs : ∀ d, a.documentId = some d → b.documentId ≠ some d
  journals : ∀ j, a.journalId = some j → b.journalId ≠ some j

/-- Two rows of the table of matches. Active ones use up their transaction, their document and
their journal, and no two of a book are about the same pair, whatever became of it. -/
structure Compatible (a b : Match C) : Prop where
  ids : a.id ≠ b.id
  transactions : a.Active → b.Active → a.transactionId ≠ b.transactionId
  sources : a.bookId = b.bookId → a.Active → b.Active → Apart a b
  pairs : a.bookId = b.bookId → a.transactionId = b.transactionId → Apart a b

def Sound (s : ReconDb C) : Prop :=
  s.reconMatches.Pairwise Compatible

def takenOf (s : ReconDb C) (bookId : String) : Taken :=
  ⟨activelyMatchedDocumentIds s bookId, activelyMatchedJournalIds s bookId⟩

omit [Score C] in
theorem mem_takenOf_docs {d : String} : d ∈ (takenOf s bookId).docs ↔
    ∃ m ∈ s.reconMatches, m.bookId = bookId ∧ m.Active ∧ m.documentId = some d := by
  simp only [takenOf, activelyMatchedDocumentIds, bookMatches, List.mem_filterMap, List.mem_filter,
    decide_eq_true_eq, and_assoc]

omit [Score C] in
theorem mem_takenOf_journals {j : String} : j ∈ (takenOf s bookId).journals ↔
    ∃ m ∈ s.reconMatches, m.bookId = bookId ∧ m.Active ∧ m.journalId = some j := by
  simp only [takenOf, activelyMatchedJournalIds, bookMatches, List.mem_filterMap, List.mem_filter,
    decide_eq_true_eq, and_assoc]

section Loop

/-- What the loop has read stays true of the matches that it did not write. -/
structure Known (bookId : String) (inputs : ReconInputs) (taken : Taken) (s : ReconDb C) :
    Prop where
  docs : ∀ m ∈ s.reconMatches, m.bookId = bookId → m.Active →
    ∀ d, m.documentId = some d → d ∈ taken.docs
  journals : ∀ m ∈ s.reconMatches, m.bookId = bookId → m.Active →
    ∀ j, m.journalId = some j → j ∈ taken.journals
  rejected : ∀ m ∈ s.reconMatches, m.bookId = bookId → ¬m.Active →
    ∀ d, m.documentId = some d → (m.transactionId, d) ∈ inputs.rejected
  rejectedJournals : ∀ m ∈ s.reconMatches, m.bookId = bookId → ¬m.Active →
    ∀ j, m.journalId = some j → (m.transactionId, j) ∈ inputs.rejectedJournals

structure Suggested (h : ReconHost) (bookId : String) (inputs : ReconInputs) (s : ReconDb C)
    (txns : List StatementLine) (m : Match C) : Prop where
  active : m.Active
  book : m.bookId = bookId
  confidence : Score.le 0.0 m.confidence ∧ Score.le m.confidence 1.0
  source : m.documentId.isSome ↔ m.journalId = none
  line : ∃ txn ∈ txns, m.transactionId = txn.id ∧ txn.status ≠ .rejected ∧
    (∀ d, m.documentId = some d → Documents inputs txn d) ∧
    ∀ j, m.journalId = some j → ∃ entry ∈ inputs.ledgerLines,
      entry.journalId = j ∧ Explains (bankCoaFor s.ledger bookId txn.accountId) txn entry

def Settled (h : ReconHost) (bookId : String) (inputs : ReconInputs) (taken : Taken)
    (s : ReconDb C) (txn : StatementLine) : Prop :=
  txn.id ∈ inputs.matchedTxns ∨ txn.status = .rejected ∨ txnAbs txn = 0 ∨
    (∃ m ∈ s.reconMatches, m.bookId = bookId ∧ m.Active ∧ m.transactionId = txn.id) ∨
    (bestCandidate h inputs taken txn (bankCoaFor s.ledger bookId txn.accountId) :
      Option (ReconCandidate C)) = none

structure Suggesting (h : ReconHost) (bookId : String) (inputs : ReconInputs) (s : ReconDb C)
    (txns rest : List StatementLine) (taken : Taken) (t : ReconDb C) : Prop where
  frame : ∃ minted, t = { s with reconMatches := t.reconMatches, minted }
  added : ∃ added, t.reconMatches = s.reconMatches ++ added ∧
    ∀ m ∈ added, Suggested h bookId inputs s txns m
  used : TakenLe taken (takenOf t bookId)
  known : Known bookId inputs taken t
  sound : Sound t
  done : ∃ done, txns = done ++ rest ∧ ∀ txn ∈ done, Settled h bookId inputs taken t txn

structure Stored (bookId : String) (txn : StatementLine) (c : ReconCandidate C) (s : ReconDb C)
    (m : Match C) : Prop where
  active : m.Active
  book : m.bookId = bookId
  transaction : m.transactionId = txn.id
  document : m.documentId = c.documentId
  journal : m.journalId = c.journalId
  confidence : Score.le 0.0 m.confidence ∧ Score.le m.confidence 1.0
  fresh : ∀ a ∈ s.reconMatches, a.id ≠ m.id
  unmatched : ∀ a ∈ s.reconMatches, a.Active → a.transactionId ≠ m.transactionId

omit [Score C] in
theorem ensures_enforce {p : Prop} [Decidable p] {message : String} {Q : Unit → ReconDb C → Prop} :
    Ensures (enforce p message) s Q ↔ (p → Q () s) := by
  by_cases hp : p <;> simp [enforce, hp]

theorem ensures_insertMatch (m : Match C) : Ensures (insertMatch m) s fun _ t ↦
    t = { s with reconMatches := s.reconMatches ++ [m] } ∧
      (∀ a ∈ s.reconMatches, a.id ≠ m.id) ∧
      (m.Active → ∀ a ∈ s.reconMatches, a.Active → a.transactionId ≠ m.transactionId) ∧
      Score.le 0.0 m.confidence ∧ Score.le m.confidence 1.0 := by
  simp only [insertMatch, ensures_bind, ensures_get, ensures_enforce, ensures_modify, true_and]
  intro hid htransaction _ hranges
  exact ⟨hid, htransaction, hranges.1, hranges.2.1⟩

theorem active_of_score {p : Prop} [Decidable p] :
    (if p then ReconState.auto else .suggested) ≠ .rejected := by
  split_ifs <;> simp

theorem ensures_record (taken : Taken) (txn : StatementLine) (c : ReconCandidate C) :
    Ensures (record h bookId taken txn c) s fun taken' t ↦
      taken' = ⟨c.documentId.toList ++ taken.docs, c.journalId.toList ++ taken.journals⟩ ∧
        ∃ m minted, t = { s with reconMatches := s.reconMatches ++ [m], minted } ∧
          Stored bookId txn c s m := by
  simp only [record, currentTime, mintId, ensures_bind, ensures_get, ensures_pure, ensures_modify,
    true_and]
  refine (ensures_insertMatch _).mono fun _ t ht ↦ ⟨_, _, ht.1, ?_⟩
  obtain ⟨-, hfresh, hunmatched, hconfidence⟩ := ht
  exact
    { active := active_of_score
      book := rfl
      transaction := rfl
      document := rfl
      journal := rfl
      confidence := hconfidence
      fresh := hfresh
      unmatched := hunmatched active_of_score }

/-- What is free is not yet in use, and was not rejected for the transaction. -/
theorem apart_of_admitted {a m : Match C} (hknown : Known bookId inputs taken s)
    (hc : Admitted inputs taken txn bankCoa c) (hm : Stored bookId txn c s m)
    (ha : a ∈ s.reconMatches) (hbook : a.bookId = bookId)
    (hpair : a.Active ∨ a.transactionId = txn.id) : Apart a m := by
  refine ⟨fun d hd hmd ↦ ?_, fun j hj hmj ↦ ?_⟩
  · obtain ⟨hfree, hrejected, -⟩ := hc.document d (hm.document ▸ hmd)
    by_cases hactive : a.Active
    · exact hfree (hknown.docs a ha hbook hactive d hd)
    · exact hrejected (hpair.resolve_left hactive ▸ hknown.rejected a ha hbook hactive d hd)
  · obtain ⟨hfree, hrejected, -⟩ := hc.journal j (hm.journal ▸ hmj)
    by_cases hactive : a.Active
    · exact hfree (hknown.journals a ha hbook hactive j hj)
    · exact hrejected (hpair.resolve_left hactive ▸ hknown.rejectedJournals a ha hbook hactive j hj)

theorem compatible_of_admitted {a m : Match C} (hknown : Known bookId inputs taken s)
    (hc : Admitted inputs taken txn bankCoa c) (hm : Stored bookId txn c s m)
    (ha : a ∈ s.reconMatches) : Compatible a m :=
  { ids := hm.fresh a ha
    transactions := fun hactive _ ↦ hm.unmatched a ha hactive
    sources := fun hbook hactive _ ↦
      apart_of_admitted hknown hc hm ha (hbook.trans hm.book) (.inl hactive)
    pairs := fun hbook htransaction ↦
      apart_of_admitted hknown hc hm ha (hbook.trans hm.book)
        (.inr (htransaction.trans hm.transaction)) }

theorem Settled.mono {minted : ℕ} {added : List (Match C)} (hle : TakenLe taken taken')
    (hs : Settled h bookId inputs taken s txn) :
    Settled h bookId inputs taken'
      { s with reconMatches := s.reconMatches ++ added, minted } txn := by
  rcases hs with hmatched | hrejected | hzero | ⟨m, hm, hactive⟩ | hnone
  · exact .inl hmatched
  · exact .inr (.inl hrejected)
  · exact .inr (.inr (.inl hzero))
  · exact .inr (.inr (.inr (.inl ⟨m, List.mem_append_left _ hm, hactive⟩)))
  · exact .inr (.inr (.inr (.inr (bestCandidate_of_le hle hnone))))

theorem takenLe_takenOf {m : Match C} {minted : ℕ} (hle : TakenLe taken (takenOf s bookId))
    (hm : Stored bookId txn c s m) :
    TakenLe ⟨c.documentId.toList ++ taken.docs, c.journalId.toList ++ taken.journals⟩
      (takenOf { s with reconMatches := s.reconMatches ++ [m], minted } bookId) := by
  refine ⟨fun d hd ↦ ?_, fun j hj ↦ ?_⟩
  · rw [mem_takenOf_docs]
    rcases List.mem_append.1 hd with hd | hd
    · exact ⟨m, by simp, hm.book, hm.active, hm.document.trans (Option.mem_toList.1 hd)⟩
    · obtain ⟨a, ha, hused⟩ := mem_takenOf_docs.1 (hle.docs hd)
      exact ⟨a, List.mem_append_left _ ha, hused⟩
  · rw [mem_takenOf_journals]
    rcases List.mem_append.1 hj with hj | hj
    · exact ⟨m, by simp, hm.book, hm.active, hm.journal.trans (Option.mem_toList.1 hj)⟩
    · obtain ⟨a, ha, hused⟩ := mem_takenOf_journals.1 (hle.journals hj)
      exact ⟨a, List.mem_append_left _ ha, hused⟩

theorem Known.step {m : Match C} {minted : ℕ} (hknown : Known bookId inputs taken s)
    (hm : Stored bookId txn c s m) :
    Known bookId inputs ⟨c.documentId.toList ++ taken.docs, c.journalId.toList ++ taken.journals⟩
      { s with reconMatches := s.reconMatches ++ [m], minted } := by
  refine ⟨fun a ha hbook hactive d hd ↦ ?_, fun a ha hbook hactive j hj ↦ ?_,
    fun a ha hbook hrejected d hd ↦ ?_, fun a ha hbook hrejected j hj ↦ ?_⟩
  all_goals rcases List.mem_append.1 ha with ha | ha
  · exact List.mem_append_right _ (hknown.docs a ha hbook hactive d hd)
  · rw [List.mem_singleton.1 ha, hm.document] at hd
    simp [hd]
  · exact List.mem_append_right _ (hknown.journals a ha hbook hactive j hj)
  · rw [List.mem_singleton.1 ha, hm.journal] at hj
    simp [hj]
  · exact hknown.rejected a ha hbook hrejected d hd
  · exact absurd (List.mem_singleton.1 ha ▸ hm.active) hrejected
  · exact hknown.rejectedJournals a ha hbook hrejected j hj
  · exact absurd (List.mem_singleton.1 ha ▸ hm.active) hrejected

variable {txns rest : List StatementLine} {s₀ : ReconDb C}

/-- A transaction that is passed over stays so. -/
theorem Suggesting.skip (hs : Suggesting h bookId inputs s₀ txns (txn :: rest) taken s)
    (hsettled : Settled h bookId inputs taken s txn) :
    Suggesting h bookId inputs s₀ txns rest taken s := by
  obtain ⟨done, rfl, hdone⟩ := hs.done
  refine { hs with done := ⟨done ++ [txn], by simp, fun t ht ↦ ?_⟩ }
  rcases List.mem_append.1 ht with ht | ht
  · exact hdone t ht
  · exact List.mem_singleton.1 ht ▸ hsettled

theorem Suggesting.store {m : Match C} {minted : ℕ}
    (hs : Suggesting h bookId inputs s₀ txns (txn :: rest) taken s)
    (hstatus : txn.status ≠ .rejected)
    (hc : Admitted inputs taken txn (bankCoaFor s₀.ledger bookId txn.accountId) c)
    (hm : Stored bookId txn c s m) :
    Suggesting h bookId inputs s₀ txns rest
      ⟨c.documentId.toList ++ taken.docs, c.journalId.toList ++ taken.journals⟩
      { s with reconMatches := s.reconMatches ++ [m], minted } := by
  obtain ⟨minted', hframe⟩ := hs.frame
  obtain ⟨added, hadded, hsuggested⟩ := hs.added
  obtain ⟨done, rfl, hdone⟩ := hs.done
  have hle : TakenLe taken
      ⟨c.documentId.toList ++ taken.docs, c.journalId.toList ++ taken.journals⟩ :=
    ⟨List.subset_append_right _ _, List.subset_append_right _ _⟩
  have hnew : Suggested h bookId inputs s₀ (done ++ txn :: rest) m :=
    { active := hm.active
      book := hm.book
      confidence := hm.confidence
      source := by rw [hm.document, hm.journal]; exact hc.either
      line := by
        refine ⟨txn, by simp, hm.transaction, hstatus, fun d hd ↦ ?_, fun j hj ↦ ?_⟩
        · exact (hc.document d (hm.document ▸ hd)).2.2
        · exact (hc.journal j (hm.journal ▸ hj)).2.2 }
  refine
    { frame := ⟨minted, by rw [hframe]⟩
      added := ⟨added ++ [m], by simp [hadded], ?_⟩
      used := takenLe_takenOf hs.used hm
      known := hs.known.step hm
      sound := ?_
      done := ⟨done ++ [txn], by simp, ?_⟩ }
  · exact fun a ha ↦ (List.mem_append.1 ha).elim (hsuggested a) fun ha ↦
      List.mem_singleton.1 ha ▸ hnew
  · refine List.pairwise_append.2 ⟨hs.sound, List.pairwise_singleton _ _, fun a ha b hb ↦ ?_⟩
    exact List.mem_singleton.1 hb ▸ compatible_of_admitted hs.known hc hm ha
  · intro t ht
    rcases List.mem_append.1 ht with ht | ht
    · exact (hdone t ht).mono hle
    · rw [List.mem_singleton.1 ht]
      exact .inr (.inr (.inr (.inl ⟨m, by simp, hm.book, hm.active, hm.transaction⟩)))

theorem ensures_suggestFor (hs : Suggesting h bookId inputs s₀ txns (txn :: rest) taken s) :
    Ensures (suggestFor h bookId inputs taken txn) s
      (Suggesting h bookId inputs s₀ txns rest) := by
  have hledger : s.ledger = s₀.ledger := by
    obtain ⟨_, hframe⟩ := hs.frame
    rw [hframe]
  unfold suggestFor
  split_ifs with hskip hzero
  · exact (ensures_pure _).2 (hs.skip (hskip.elim .inl fun hrejected ↦ .inr (.inl hrejected)))
  · exact (ensures_pure _).2 (hs.skip (.inr (.inr (.inl hzero))))
  · rw [ensures_bind, ensures_get]
    rw [not_or] at hskip
    split
    · rename_i chosen hchosen
      refine (ensures_record taken txn chosen).mono fun taken' t ht ↦ ?_
      obtain ⟨rfl, m, minted, rfl, hm⟩ := ht
      exact hs.store hskip.2 (hledger ▸ admitted_of_bestCandidate hchosen) hm
    · rename_i hnone
      exact (ensures_pure _).2 (hs.skip (.inr (.inr (.inr (.inr hnone)))))

end Loop

section Suggest

variable {book : Book} {ledgerLines : List BankSideJournalLine}

def inputsOf (h : ReconHost) (s : ReconDb C) (bookId : String) (book : Book)
    (ledgerLines : List BankSideJournalLine) : ReconInputs :=
  ⟨book, activelyMatchedTransactionIds s bookId, rejectedDocumentPairs s bookId,
    rejectedJournalPairs s bookId, docCandidates h s bookId, ledgerLines⟩

def suggestAll (h : ReconHost) (s : ReconDb C) (bookId : String) (book : Book)
    (ledgerLines : List BankSideJournalLine) : ReconTx C Taken :=
  (transactionList s bookId).foldlM (suggestFor h bookId (inputsOf h s bookId book ledgerLines))
    (takenOf s bookId)

theorem reconSuggest_eq_ok {l : List (Match C)} :
    (reconSuggest h bookId).run s = (.ok l, t) ↔ ∃ book, getBook s.ledger bookId = some book ∧
      ∃ ledgerLines, bankSideJournalLines s.ledger bookId = .ok ledgerLines ∧
        ∃ taken, suggestAll h s bookId book ledgerLines s = .ok (taken, t) ∧
          l = listOpen t bookId := by
  simp only [reconSuggest, run_query_bind, run_ofExcept_bind_eq_ok, run_atomically_bind_eq_ok,
    suggestAll, inputsOf, takenOf, orNotFound_eq_ok]
  refine exists_congr fun book ↦ and_congr_right fun _ ↦ exists_congr fun ledgerLines ↦
    and_congr_right fun _ ↦ exists_congr fun taken ↦ ?_
  constructor
  · rintro ⟨t', hloop, hopen⟩
    cases hopen
    exact ⟨hloop, rfl⟩
  · rintro ⟨hloop, rfl⟩
    exact ⟨t, hloop, rfl⟩

/-- A run of the matching stores what its transaction stores, or nothing. -/
theorem reconSuggest_store (h : ReconHost) (s : ReconDb C) (bookId : String) :
    ((reconSuggest h bookId).run s).2 = s ∨
    ∃ book ledgerLines taken, getBook s.ledger bookId = some book ∧
      bankSideJournalLines s.ledger bookId = .ok ledgerLines ∧
      suggestAll h s bookId book ledgerLines s =
        .ok (taken, ((reconSuggest h bookId).run s).2) := by
  have hmeets : (reconSuggest h bookId).Meets Eq (fun _ _ _ ↦ True) s fun _ t ↦ t = s ∨
      ∃ book ledgerLines taken, getBook s.ledger bookId = some book ∧
        bankSideJournalLines s.ledger bookId = .ok ledgerLines ∧
        suggestAll h s bookId book ledgerLines s = .ok (taken, t) := by
    simp only [reconSuggest, meets_bind, meets_query, meets_ofExcept, meets_atomically,
      continues_ok, forall_eq']
    cases hbook : getBook s.ledger bookId with
    | none => exact .inl rfl
    | some book =>
      simp only [orNotFound, continues_ok]
      cases hlines : bankSideJournalLines s.ledger bookId with
      | error e => exact .inl rfl
      | ok ledgerLines =>
        refine ⟨fun _ _ _ ↦ trivial, ?_⟩
        cases hloop : suggestAll h s bookId book ledgerLines s with
        | error e =>
          rw [suggestAll, inputsOf, takenOf] at hloop
          rw [commit_of_error hloop]
          exact .inl rfl
        | ok r =>
          have hstored := hloop
          rw [suggestAll, inputsOf, takenOf] at hloop
          rw [commit_of_ok hloop]
          exact .inr ⟨book, ledgerLines, r.1, rfl, rfl, hstored⟩
  exact (run_of_meets hmeets).1

omit [Score C] in
theorem known_inputsOf :
    Known bookId (inputsOf h s bookId book ledgerLines) (takenOf s bookId) s := by
  refine ⟨fun m hm hbook hactive d hd ↦ ?_, fun m hm hbook hactive j hj ↦ ?_,
    fun m hm hbook hrejected d hd ↦ ?_, fun m hm hbook hrejected j hj ↦ ?_⟩
  · exact mem_takenOf_docs.2 ⟨m, hm, hbook, hactive, hd⟩
  · exact mem_takenOf_journals.2 ⟨m, hm, hbook, hactive, hj⟩
  · simp only [inputsOf, rejectedDocumentPairs, bookMatches, List.mem_filterMap, List.mem_filter,
      decide_eq_true_eq]
    exact ⟨m, ⟨⟨hm, hbook⟩, hrejected⟩, by rw [hd, Option.map_some]⟩
  · simp only [inputsOf, rejectedJournalPairs, bookMatches, List.mem_filterMap, List.mem_filter,
      decide_eq_true_eq]
    exact ⟨m, ⟨⟨hm, hbook⟩, hrejected⟩, by rw [hj, Option.map_some]⟩

theorem suggesting_suggestAll (hs : Sound s)
    (ht : suggestAll h s bookId book ledgerLines s = .ok (taken, t)) :
    Suggesting h bookId (inputsOf h s bookId book ledgerLines) s
      (transactionList s bookId) [] taken t := by
  refine ensures_foldlM (transactionList s bookId) ?_ (fun _ _ _ _ ↦ ensures_suggestFor) taken t ht
  exact
    { frame := ⟨s.minted, rfl⟩
      added := ⟨[], by simp⟩
      used := ⟨List.Subset.refl _, List.Subset.refl _⟩
      known := known_inputsOf
      sound := hs
      done := ⟨[], by simp⟩ }

/-- What a run reads of the table after it is what it read before, but for its own matches. -/
theorem inputsOf_eq (hrun : Suggesting h bookId (inputsOf h s bookId book ledgerLines) s
    (transactionList s bookId) [] taken t) :
    inputsOf h t bookId book ledgerLines =
      { inputsOf h s bookId book ledgerLines with
        matchedTxns := activelyMatchedTransactionIds t bookId } := by
  obtain ⟨minted, hframe⟩ := hrun.frame
  obtain ⟨added, hadded, hsuggested⟩ := hrun.added
  have hnew : ((added.filter fun m ↦ m.bookId = bookId).filter fun m ↦ ¬m.Active) = [] := by
    rw [List.filter_filter, List.filter_eq_nil_iff]
    intro m hm
    simp [(hsuggested m hm).active]
  have hrejected : (bookMatches t bookId).filter (fun m ↦ ¬m.Active) =
      (bookMatches s bookId).filter fun m ↦ ¬m.Active := by
    rw [bookMatches, hadded, List.filter_append, List.filter_append, hnew, List.append_nil,
      bookMatches]
  have hdocs : docCandidates h t bookId = docCandidates h s bookId := by
    rw [hframe]
    rfl
  simp only [inputsOf, rejectedDocumentPairs, rejectedJournalPairs, hrejected, hdocs]

omit [Score C] in
theorem foldlM_steady {α β : Type} {f : α → β → ReconTx C α} {l : List β} {a : α}
    (hl : ∀ x ∈ l, f a x s = .ok (a, s)) : l.foldlM f a s = .ok (a, s) := by
  induction l with
  | nil => rfl
  | cons x l ih =>
    rw [List.foldlM_cons, bind_of_ok (hl x (List.mem_cons_self ..))]
    exact ih fun y hy ↦ hl y (List.mem_cons_of_mem x hy)

theorem suggestFor_settled (hmatched : inputs.matchedTxns = activelyMatchedTransactionIds s bookId)
    (hsettled : Settled h bookId inputs taken s txn) :
    suggestFor h bookId inputs taken txn s = .ok (taken, s) := by
  unfold suggestFor
  split_ifs with hskip hzero
  · rfl
  · rfl
  · rw [not_or] at hskip
    rcases hsettled with hmatch | hrejected | hzero' | ⟨m, hm, hbook, hactive, htxn⟩ | hnone
    · exact absurd hmatch hskip.1
    · exact absurd hrejected hskip.2
    · exact absurd hzero' hzero
    · refine absurd ?_ hskip.1
      rw [hmatched, ← htxn]
      simp only [activelyMatchedTransactionIds, bookMatches, List.mem_map, List.mem_filter,
        decide_eq_true_eq]
      exact ⟨m, ⟨⟨hm, hbook⟩, hactive⟩, rfl⟩
    · have hget : (get : ReconTx C (ReconDb C)) s = .ok (s, s) := rfl
      rw [bind_of_ok hget, hnone]
      rfl

theorem Settled.again {matched : List String} (hle : TakenLe taken taken')
    (hsettled : Settled h bookId inputs taken s txn)
    (hmatched : inputs.matchedTxns ⊆ matched) :
    Settled h bookId { inputs with matchedTxns := matched } taken' s txn := by
  rcases hsettled with hmatch | hrejected | hzero | hstored | hnone
  · exact .inl (hmatched hmatch)
  · exact .inr (.inl hrejected)
  · exact .inr (.inr (.inl hzero))
  · exact .inr (.inr (.inr (.inl hstored)))
  · exact .inr (.inr (.inr (.inr (bestCandidate_of_le hle hnone))))

theorem suggestAll_again (hs : Sound s)
    (ht : suggestAll h s bookId book ledgerLines s = .ok (taken, t)) :
    suggestAll h t bookId book ledgerLines t = .ok (takenOf t bookId, t) := by
  have hrun := suggesting_suggestAll hs ht
  obtain ⟨minted, hframe⟩ := hrun.frame
  obtain ⟨added, hadded, hsuggested⟩ := hrun.added
  obtain ⟨done, hdone, hsettled⟩ := hrun.done
  rw [List.append_nil] at hdone
  have htxns : transactionList t bookId = done := by
    rw [← hdone, hframe]
    rfl
  have hmatched : activelyMatchedTransactionIds s bookId ⊆
      activelyMatchedTransactionIds t bookId := by
    simp only [activelyMatchedTransactionIds, bookMatches, hadded, List.filter_append,
      List.map_append]
    exact List.subset_append_left _ _
  rw [suggestAll, htxns, inputsOf_eq hrun]
  exact foldlM_steady fun txn htxn ↦
    suggestFor_settled rfl ((hsettled txn htxn).again hrun.used hmatched)

end Suggest

section State

variable {matchId : String} {state : ReconState}

def StateSet (matchId : String) (state : ReconState) (s t : ReconDb C) : Prop :=
  ∃ before now, lookup Match.id s.reconMatches matchId = some before ∧
    (before.state = .confirmed → state = .confirmed) ∧
    (before.state = .rejected → state ≠ .confirmed) ∧
    t = { s with
          reconMatches := update Match.id s.reconMatches matchId fun m ↦
            { m with state, updatedAt := now } }

omit [Score C] in
theorem reconSetState_store (h : ReconHost) (s : ReconDb C) (matchId : String)
    (state : ReconState) : ((reconSetState h matchId state).run s).2 = s ∨
      StateSet matchId state s ((reconSetState h matchId state).run s).2 := by
  have hmeets : (reconSetState h matchId state).Meets Eq (fun _ _ _ ↦ True) s fun _ t ↦
      t = s ∨ StateSet matchId state s t := by
    simp only [reconSetState, meets_bind, meets_query, meets_ofExcept, meets_atomically,
      continues_ok, forall_eq']
    cases hbefore : lookup Match.id s.reconMatches matchId with
    | none => exact .inl rfl
    | some before =>
      simp only [orNotFound, continues_ok]
      by_cases hconfirmed : before.state = .confirmed ∧ state ≠ .confirmed
      · rw [if_pos hconfirmed]
        exact .inl rfl
      · rw [if_neg hconfirmed, continues_ok]
        by_cases hrejected : before.state = .rejected ∧ state = .confirmed
        · rw [if_pos hrejected]
          exact .inl rfl
        · rw [if_neg hrejected, continues_ok]
          refine ⟨fun _ _ _ ↦ trivial, (meets_pure _).2 (.inr ⟨before, _, hbefore, ?_, ?_, rfl⟩)⟩
          · exact fun hstate ↦ by_contra fun hne ↦ hconfirmed ⟨hstate, hne⟩
          · exact fun hstate heq ↦ hrejected ⟨hstate, heq⟩
  exact (run_of_meets hmeets).1

/-- A row before and after a state was set: it stays about the same things, and what was confirmed
or rejected stays so. -/
structure Continued (a b : Match C) : Prop where
  id : b.id = a.id
  book : b.bookId = a.bookId
  transaction : b.transactionId = a.transactionId
  document : b.documentId = a.documentId
  journal : b.journalId = a.journalId
  confirmed : a.state = .confirmed → b.state = .confirmed
  rejected : a.state = .rejected → b.state = .rejected

omit [Score C] in
theorem Continued.refl (a : Match C) : Continued a a :=
  ⟨rfl, rfl, rfl, rfl, rfl, fun ha ↦ ha, fun ha ↦ ha⟩

omit [Score C] in
theorem Continued.trans {a b c : Match C} (hab : Continued a b) (hbc : Continued b c) :
    Continued a c :=
  { id := hbc.id.trans hab.id
    book := hbc.book.trans hab.book
    transaction := hbc.transaction.trans hab.transaction
    document := hbc.document.trans hab.document
    journal := hbc.journal.trans hab.journal
    confirmed := fun ha ↦ hbc.confirmed (hab.confirmed ha)
    rejected := fun ha ↦ hbc.rejected (hab.rejected ha) }

omit [Score C] in
theorem Continued.active {a b : Match C} (hab : Continued a b) (hb : b.Active) : a.Active :=
  fun ha ↦ hb (hab.rejected ha)

omit [Score C] in
theorem Apart.continued {a b a' b' : Match C} (hab : Apart a b) (ha : Continued a a')
    (hb : Continued b b') : Apart a' b' := by
  refine ⟨fun d hd ↦ ?_, fun j hj ↦ ?_⟩
  · rw [hb.document]
    exact hab.docs d (ha.document ▸ hd)
  · rw [hb.journal]
    exact hab.journals j (ha.journal ▸ hj)

omit [Score C] in
theorem Compatible.continued {a b a' b' : Match C} (hab : Compatible a b) (ha : Continued a a')
    (hb : Continued b b') : Compatible a' b' := by
  refine ⟨?_, fun hactive hactive' ↦ ?_, fun hbook hactive hactive' ↦ ?_, fun hbook htxn ↦ ?_⟩
  · rw [ha.id, hb.id]
    exact hab.ids
  · rw [ha.transaction, hb.transaction]
    exact hab.transactions (ha.active hactive) (hb.active hactive')
  · rw [ha.book, hb.book] at hbook
    exact (hab.sources hbook (ha.active hactive) (hb.active hactive')).continued ha hb
  · rw [ha.book, hb.book] at hbook
    rw [ha.transaction, hb.transaction] at htxn
    exact (hab.pairs hbook htxn).continued ha hb

omit [Score C] in
theorem StateSet.continued (hs : Sound s) (hstate : state = .confirmed ∨ state = .rejected)
    (hset : StateSet matchId state s t) :
    ∃ f : Match C → Match C, t.reconMatches = s.reconMatches.map f ∧
      ∀ m ∈ s.reconMatches, Continued m (f m) := by
  obtain ⟨before, now, hbefore, hconfirmed, hrejected, rfl⟩ := hset
  refine ⟨_, rfl, fun m hm ↦ ?_⟩
  split_ifs with hid
  · have hsame : lookup Match.id s.reconMatches m.id = some m :=
      lookup_of_mem (hs.imp fun hab ↦ hab.ids) hm
    rw [hid, hbefore] at hsame
    cases hsame
    exact ⟨rfl, rfl, rfl, rfl, rfl, hconfirmed, fun hm ↦ hstate.resolve_left (hrejected hm)⟩
  · exact .refl m

structure Advance (s t : ReconDb C) : Prop where
  rows : ∃ f added, t.reconMatches = s.reconMatches.map f ++ added ∧
    ∀ m ∈ s.reconMatches, Continued m (f m)
  sound : Sound s → Sound t

omit [Score C] in
theorem Advance.of_eq (heq : t.reconMatches = s.reconMatches) : Advance s t :=
  ⟨⟨id, [], by simp [heq], fun m _ ↦ .refl m⟩, fun hs ↦ by rwa [Sound, heq]⟩

omit [Score C] in
theorem advance_setState (hs : Sound s) (hstate : state = .confirmed ∨ state = .rejected) :
    Advance s ((reconSetState h matchId state).run s).2 := by
  rcases reconSetState_store h s matchId state with hstore | hset
  · exact .of_eq (congrArg _ hstore)
  · obtain ⟨f, hrows, hf⟩ := hset.continued hs hstate
    refine ⟨⟨f, [], by simp [hrows], hf⟩, fun hs ↦ ?_⟩
    rw [Sound, hrows]
    exact List.pairwise_map.2 (hs.imp_of_mem fun ha hb hab ↦ hab.continued (hf _ ha) (hf _ hb))

end State

section Runs

theorem advance_suggest (hs : Sound s) : Advance s ((reconSuggest h bookId).run s).2 := by
  rcases reconSuggest_store h s bookId with hstore | ⟨_, _, _, _, _, hloop⟩
  · exact .of_eq (congrArg _ hstore)
  · have hrun := suggesting_suggestAll hs hloop
    obtain ⟨added, hadded, -⟩ := hrun.added
    exact ⟨⟨id, added, by rw [List.map_id, hadded], fun m _ ↦ .refl m⟩, fun _ ↦ hrun.sound⟩

theorem advance_step (hs : Sound s) (hstep : Step h s t) : Advance s t := by
  cases hstep with
  | suggest bookId => exact advance_suggest hs
  | confirm matchId => exact advance_setState hs (.inl rfl)
  | reject matchId => exact advance_setState hs (.inr rfl)
  | ledger hledger => exact .of_eq rfl
  | elsewhere hledger hmatches => exact .of_eq hmatches

theorem sound_of_reachable (hs : Reachable h s) : Sound s := by
  induction hs with
  | refl => exact List.Pairwise.nil
  | tail _ hstep ih => exact (advance_step ih hstep).sound ih

/-- In every state that a run leads to, no two open or confirmed matches are about one bank
transaction, and in a book no two are about one document or one journal. -/
theorem exclusive_of_reachable (hs : Reachable h s) :
    s.reconMatches.Pairwise fun a b ↦ a.Active → b.Active →
      a.transactionId ≠ b.transactionId ∧ (a.bookId = b.bookId → Apart a b) :=
  (sound_of_reachable hs).imp fun hab ha hb ↦
    ⟨hab.transactions ha hb, fun hbook ↦ hab.sources hbook ha hb⟩

/-- Scores that are exact. -/
instance scoreRat : Score ℚ where
  ofInt n := n
  truncate q := q.num.tdiv q.den
  le a b := a ≤ b
  lt a b := a < b

def plainReconHost : ReconHost where
  toHost := plainHost
  letters := ⟨Char.isAlphanum, fun c ↦ [c.toLower]⟩
  parseSlip := noSlip

def soldLedger : Db :=
  runs setup (bankAndIncome ++ [sale "2025-01-31" 100 100, sale "2025-02-01" 100 100])

def saleLine (id : String) : StatementLine where
  id
  bookId := "book"
  accountId := "account"
  categoryId := none
  source := .manual
  providerTxnId := none
  dedupeHash := "hash"
  postedDate := "2025-02-01"
  amountMinor := 100
  currency := "ZAR"
  merchant := none
  description := none
  notes := none
  status := .verified
  documentId := none

def statement : ReconDb ℚ where
  ledger := soldLedger
  transactions := [saleLine "line", saleLine "other"]

def suggested : ReconDb ℚ :=
  ((reconSuggest plainReconHost "book").run statement).2

def declined : ReconDb ℚ :=
  ((reconSuggest plainReconHost "book").run
    ((reconReject plainReconHost "x").run suggested).2).2

theorem reachable_ledger {h : ReconHost} {ledger : Db}
    (hs : Model.Service.Reachable h.toHost h.parseSlip Model.Service.anyCall ledger) :
    Reachable h ({ ledger } : ReconDb ℚ) := by
  induction hs with
  | refl => exact .refl
  | tail _ hstep ih => exact ih.tail (.ledger hstep)

theorem reachable_statement : Reachable plainReconHost statement :=
  (reachable_ledger (reachable_runs reachable_setup _)).tail (.elsewhere rfl rfl)

theorem reachable_suggested : Reachable plainReconHost suggested :=
  reachable_statement.tail (.suggest "book")

theorem run_declined : ReflTransGen (Step plainReconHost) suggested declined :=
  (ReflTransGen.single (.reject "x")).tail (.suggest "book")

theorem run_suggested :
    ∃ l, (reconSuggest plainReconHost "book").run statement = (.ok l, suggested) := by
  have hok : ((reconSuggest plainReconHost "book").run statement).1.isOk = true := by
    decide +kernel
  rw [suggested]
  generalize (reconSuggest plainReconHost "book").run statement = outcome at hok ⊢
  obtain ⟨result, t⟩ := outcome
  cases result with
  | ok l => exact ⟨l, rfl⟩
  | error e => cases hok

theorem exclusive_of_sales : suggested.reconMatches.length = 2 ∧
    suggested.reconMatches.Pairwise fun a b ↦ a.Active → b.Active →
      a.transactionId ≠ b.transactionId ∧ (a.bookId = b.bookId → Apart a b) :=
  ⟨by decide +kernel, exclusive_of_reachable reachable_suggested⟩

omit [Score C] in
theorem Apart.symm {a b : Match C} (hab : Apart a b) : Apart b a :=
  ⟨fun d hd hd' ↦ hab.docs d hd' hd, fun j hj hj' ↦ hab.journals j hj' hj⟩

omit [Score C] in
instance symm_compatible : Std.Symm (@Compatible C) where
  symm _ _ hab :=
    { ids := hab.ids.symm
      transactions := fun hb ha ↦ (hab.transactions ha hb).symm
      sources := fun hbook hb ha ↦ (hab.sources hbook.symm ha hb).symm
      pairs := fun hbook htxn ↦ (hab.pairs hbook.symm htxn.symm).symm }

theorem continued_of_run (hs : Sound s) (hrun : ReflTransGen (Step h) s t) {m : Match C}
    (hm : m ∈ s.reconMatches) : Sound t ∧ ∃ m' ∈ t.reconMatches, Continued m m' := by
  induction hrun with
  | refl => exact ⟨hs, m, hm, .refl m⟩
  | tail _ hstep ih =>
    obtain ⟨ht, m', hm', hcontinued⟩ := ih
    obtain ⟨⟨f, added, hrows, hf⟩, hsound⟩ := advance_step ht hstep
    refine ⟨hsound ht, f m', ?_, hcontinued.trans (hf m' hm')⟩
    rw [hrows]
    exact List.mem_append_left _ (List.mem_map_of_mem hm')

/-- What was decided about a match is final. Along any run it stays about the same transaction,
document and journal, once confirmed it stays confirmed and once rejected it stays rejected, and
no other row of its book ever pairs the transaction with the document or the journal again. -/
theorem decided_of_run (hs : Reachable h s) (hrun : ReflTransGen (Step h) s t) {m : Match C}
    (hm : m ∈ s.reconMatches) : ∃ m' ∈ t.reconMatches, Continued m m' ∧
      ∀ a ∈ t.reconMatches, a.bookId = m.bookId → a.transactionId = m.transactionId →
        a ≠ m' → Apart m a := by
  obtain ⟨ht, m', hm', hcontinued⟩ := continued_of_run (sound_of_reachable hs) hrun hm
  refine ⟨m', hm', hcontinued, fun a ha hbook htxn hne ↦ ?_⟩
  have hapart := (ht.forall hm' ha hne.symm).pairs (hcontinued.book.trans hbook.symm)
    (hcontinued.transaction.trans htxn.symm)
  refine ⟨fun d hd ↦ hapart.docs d (hcontinued.document.trans hd), fun j hj ↦ ?_⟩
  exact hapart.journals j (hcontinued.journal.trans hj)

theorem decided_of_sale : ∃ m ∈ suggested.reconMatches, m.id = "x" ∧
    ∃ m' ∈ declined.reconMatches, Continued m m' ∧
      ∀ a ∈ declined.reconMatches, a.bookId = m.bookId → a.transactionId = m.transactionId →
        a ≠ m' → Apart m a := by
  have hfirst : ∃ m ∈ suggested.reconMatches, m.id = "x" := by decide +kernel
  obtain ⟨m, hm, hid⟩ := hfirst
  exact ⟨m, hm, hid, decided_of_run reachable_suggested run_declined hm⟩

/-- Matching once more at once finds nothing new: a second run leaves the tables as they are and
returns the same open matches. -/
theorem reconSuggest_again (hs : Reachable h s) {l : List (Match C)}
    (hrun : (reconSuggest h bookId).run s = (.ok l, t)) :
    (reconSuggest h bookId).run t = (.ok l, t) := by
  obtain ⟨book, hbook, ledgerLines, hlines, taken, hloop, rfl⟩ := reconSuggest_eq_ok.1 hrun
  obtain ⟨minted, hframe⟩ := (suggesting_suggestAll (sound_of_reachable hs) hloop).frame
  have hledger : t.ledger = s.ledger := by rw [hframe]
  refine reconSuggest_eq_ok.2 ⟨book, ?_, ledgerLines, ?_, takenOf t bookId, ?_, rfl⟩
  · rw [hledger, hbook]
  · rw [hledger, hlines]
  · exact suggestAll_again (sound_of_reachable hs) hloop

theorem reconSuggest_again_sales : ∃ l,
    (reconSuggest plainReconHost "book").run statement = (.ok l, suggested) ∧
      (reconSuggest plainReconHost "book").run suggested = (.ok l, suggested) := by
  obtain ⟨l, hrun⟩ := run_suggested
  exact ⟨l, hrun, reconSuggest_again reachable_statement hrun⟩

theorem ledger_suggest (hs : Sound s) :
    ((reconSuggest h bookId).run s).2.ledger = s.ledger := by
  rcases reconSuggest_store h s bookId with hstore | ⟨_, _, _, _, _, hloop⟩
  · rw [hstore]
  · obtain ⟨minted, hframe⟩ := (suggesting_suggestAll hs hloop).frame
    rw [hframe]

omit [Score C] in
theorem ledger_setState {matchId : String} {state : ReconState} :
    ((reconSetState h matchId state).run s).2.ledger = s.ledger := by
  rcases reconSetState_store h s matchId state with hstore | ⟨_, _, _, _, _, hstore⟩
  · rw [hstore]
  · rw [hstore]

theorem ledger_of_reachable (hs : Reachable h s) :
    Model.Service.Reachable h.toHost h.parseSlip Model.Service.anyCall s.ledger := by
  induction hs with
  | refl => exact .refl
  | tail hs hstep ih =>
    cases hstep with
    | suggest bookId => rwa [ledger_suggest (sound_of_reachable hs)]
    | confirm matchId => rwa [reconConfirm, ledger_setState]
    | reject matchId => rwa [reconReject, ledger_setState]
    | ledger hledger => exact ih.tail hledger
    | elsewhere hledger hmatches => rwa [hledger]

/-- A journal that accounts for a bank transaction: it was posted by hand, its reversals leave its
effect as it is, and it has a line on the account of the bank account, with the same amount on the
same side and in the same currency. -/
structure AccountsFor (s : Db) (bookId : String) (txn : StatementLine) (j : String) : Prop where
  root : ∃ journal ∈ s.journals, journal.id = j ∧ journal.bookId = bookId ∧
    journal.sourceType = .manual ∧ journal.reversalOf = none
  live : Even (reversals s j).length ∧ netEffect s j = journalEffect s j
  line : ∃ l ∈ s.journalLines, l.journalId = j ∧
    bankCoaFor s bookId txn.accountId = some l.coaId ∧ l.currency = txn.currency ∧
    if txn.amountMinor < 0 then l.creditMinor = txnAbs txn else l.debitMinor = txnAbs txn

omit [Score C] in
theorem accountsFor_of_explains {ledger : Db} {host : Host}
    {parseSlip : String → Except Fault Model.Slip.SlipPayload} (hs : Model.Service.Reachable host parseSlip
      Model.Service.anyCall ledger)
    {ledgerLines : List BankSideJournalLine}
    (hlines : bankSideJournalLines ledger bookId = .ok ledgerLines) {entry : BankSideJournalLine}
    (hentry : entry ∈ ledgerLines)
    (hexplains : Explains (bankCoaFor ledger bookId txn.accountId) txn entry) :
    AccountsFor ledger bookId txn entry.journalId := by
  have hcons := consistent_of_reachable hs
  rw [bankSideJournalLines_eq_ok hcons] at hlines
  cases hlines
  obtain ⟨journal, hjournal, hline⟩ := List.mem_flatMap.1 hentry
  rw [List.mem_filter, decide_eq_true_eq] at hjournal
  obtain ⟨hmem, hbook, hmanual, hroot, hlive⟩ := hjournal
  obtain ⟨l, hl, hline⟩ := List.mem_flatMap.1 hline
  obtain ⟨account, -, rfl⟩ := List.mem_map.1 hline
  rw [List.mem_filter, decide_eq_true_eq] at hl
  have hodd : ¬Odd (reversals ledger journal.id).length := by
    rw [isNetReversed_eq hcons] at hlive
    simpa using hlive
  refine ⟨⟨journal, hmem, rfl, hbook, hmanual, hroot⟩, ⟨Nat.not_odd_iff_even.1 hodd, ?_⟩,
    l, hl.1, hl.2, hexplains.account, hexplains.currency, hexplains.side⟩
  rw [netEffect_eq hcons (undone_of_reachable hs), if_neg hodd]

/-- Every match that a run of the matching adds is about a bank transaction of the book that nobody
rejected, and it names either a document for it or a journal that accounts for it. -/
theorem suggested_of_run (hs : Reachable h s) {l : List (Match C)}
    (hrun : (reconSuggest h bookId).run s = (.ok l, t)) :
    ∃ book added, getBook s.ledger bookId = some book ∧
      t.reconMatches = s.reconMatches ++ added ∧
      ∀ m ∈ added, m.Active ∧ m.bookId = bookId ∧ (m.documentId.isSome ↔ m.journalId = none) ∧
        ∃ txn ∈ s.transactions, txn.bookId = bookId ∧ txn.id = m.transactionId ∧
          txn.status ≠ .rejected ∧
          (∀ d, m.documentId = some d → txn.documentId = some d ∨
            ∃ doc ∈ docCandidates h s bookId, doc.documentId = d ∧ 0 < doc.totalMinor ∧
              txn.amountMinor < 0 ∧ doc.currency.getD book.currency = txn.currency) ∧
          ∀ j, m.journalId = some j → AccountsFor s.ledger bookId txn j := by
  obtain ⟨book, hbook, ledgerLines, hlines, taken, hloop, -⟩ := reconSuggest_eq_ok.1 hrun
  obtain ⟨added, hadded, hsuggested⟩ :=
    (suggesting_suggestAll (sound_of_reachable hs) hloop).added
  refine ⟨book, added, hbook, hadded, fun m hm ↦ ?_⟩
  have hnew := hsuggested m hm
  obtain ⟨txn, htxn, hid, hstatus, hdocument, hjournal⟩ := hnew.line
  rw [transactionList, List.mem_insertionSort, List.mem_filter, decide_eq_true_eq] at htxn
  refine ⟨hnew.active, hnew.book, hnew.source, txn, htxn.1, htxn.2, hid.symm, hstatus, hdocument,
    fun j hj ↦ ?_⟩
  obtain ⟨entry, hentry, rfl, hexplains⟩ := hjournal j hj
  exact accountsFor_of_explains (ledger_of_reachable hs) hlines hentry hexplains

theorem suggested_of_sales : ∃ book added, getBook statement.ledger "book" = some book ∧
    suggested.reconMatches = statement.reconMatches ++ added ∧
      ∀ m ∈ added, m.Active ∧ m.bookId = "book" ∧ (m.documentId.isSome ↔ m.journalId = none) ∧
        ∃ txn ∈ statement.transactions, txn.bookId = "book" ∧ txn.id = m.transactionId ∧
          txn.status ≠ .rejected ∧
          (∀ d, m.documentId = some d → txn.documentId = some d ∨
            ∃ doc ∈ docCandidates plainReconHost statement "book", doc.documentId = d ∧
              0 < doc.totalMinor ∧ txn.amountMinor < 0 ∧
              doc.currency.getD book.currency = txn.currency) ∧
          ∀ j, m.journalId = some j → AccountsFor statement.ledger "book" txn j := by
  obtain ⟨l, hrun⟩ := run_suggested
  exact suggested_of_run reachable_statement hrun

end Runs

end SlipScan.Banking.Reconciliation
