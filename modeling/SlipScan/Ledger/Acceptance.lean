import SlipScan.Ledger.Lines
import Mathlib.Logic.Function.Basic

namespace SlipScan.Ledger.Acceptance

open Model.Domain Model.Database Model.Ledger Foundation.Transaction Foundation.Table Posting Lines
  Function

section Succeeding

variable {h : Host} {s : Db} {journal : Journal} {lines : List NewJournalLine} {book : Book}
  {new : NewJournal} {reversalOf : Option String}

theorem succeeds_constraint {c : Prop} [Decidable c] {m : String} {Q : Unit → Db → Prop} :
    Succeeds (constraint c m) s Q ↔ c ∧ Q () s := by
  by_cases hc : c
  · simp [constraint, hc]
  · simp [constraint, hc]

theorem succeeds_newId {Q : String → Db → Prop} :
    Succeeds (newId h) s Q ↔ Q (h.newId s.minted) { s with minted := s.minted + 1 } := by
  simp only [newId, succeeds_bind, succeeds_get, succeeds_modify, succeeds_pure]

theorem succeeds_nowIso {Q : String → Db → Prop} :
    Succeeds (nowIso h) s Q ↔ Q (h.nowIso s.minted) s := by
  simp only [nowIso, succeeds_bind, succeeds_get, succeeds_pure]

theorem length_of_normalized {raw code : String} (hcode : normalizeCurrencyCode raw = .ok code) :
    code.length = 3 := by
  simp only [normalizeCurrencyCode] at hcode
  split at hcode
  · next hletters =>
    obtain rfl := Except.ok.inj hcode
    simpa using hletters.1
  · cases hcode

structure Storable (s : Db) (line : NewJournalLine) : Prop where
  account : references CoaAccount.id s.coa line.coaId
  rate : ∀ k ∈ line.vatRateId, references VatRate.id s.vatRates k
  currency : line.currency.length = 3
  sides : line.debitMinor = 0 ∧ line.creditMinor > 0 ∨ line.creditMinor = 0 ∧ line.debitMinor > 0

theorem storeLines_succeeds (hnew : Injective h.newId) (order : ℕ)
    (hjournal : references Journal.id s.journals journal.id)
    (hbook : references Book.id s.books journal.bookId) (hlines : ∀ line ∈ lines, Storable s line)
    (hfresh : ∀ i < lines.length, ∀ l ∈ s.journalLines, l.id ≠ h.newId (s.minted + i)) :
    Succeeds (storeLines h journal order lines) s fun _ _ ↦ True := by
  induction lines generalizing s order with
  | nil => simp [storeLines]
  | cons line lines ih =>
    rw [List.forall_mem_cons] at hlines
    obtain ⟨hline, hrest⟩ := hlines
    simp only [storeLines, insertLine, succeeds_bind, succeeds_newId, succeeds_get,
      succeeds_constraint, succeeds_modify, succeeds_pure]
    refine ⟨?_, ⟨hjournal, hbook, hline.account⟩, hline.rate, hline.currency, hline.sides, ?_⟩
    · exact hfresh 0 (by simp)
    · apply ih (order + 1)
      · exact hjournal
      · exact hbook
      · exact fun line hmem ↦ ⟨(hrest line hmem).account, (hrest line hmem).rate,
          (hrest line hmem).currency, (hrest line hmem).sides⟩
      · intro i hi l hl
        rcases List.mem_append.1 hl with hl | hl
        · have hne := hfresh (i + 1) (by simpa using hi) l hl
          simpa only [Nat.add_assoc, Nat.add_comm 1] using hne
        · obtain rfl := List.mem_singleton.1 hl
          -- the identifier of the line before is not handed out again
          intro heq
          have hnumber : s.minted = s.minted + 1 + i := hnew heq
          omega

theorem postJournalInTx_succeeds (hposts : Posts h s book new reversalOf lines)
    (hnew : Injective h.newId) :
    postJournalInTx h book new reversalOf s =
      .ok (postedJournal h s book new reversalOf lines,
        withPosted s (postedJournal h s book new reversalOf lines)) := by
  have hstorable : ∀ line ∈ lines, Storable s line := by
    intro line hline
    obtain ⟨a, ha, -⟩ := hposts.accepted.accounts line hline
    refine ⟨?_, hposts.rates line hline, ?_, (hposts.accepted.sides line hline).1⟩
    · exact Option.isSome_iff_exists.2 ⟨a, ha⟩
    · exact length_of_normalized (canonical_of_normalized hposts.accepted.normalized line hline)
  have hsucceeds : Succeeds (postJournalInTx h book new reversalOf) s fun _ _ ↦ True := by
    simp only [postJournalInTx, insertJournal, succeeds_bind, succeeds_get, succeeds_check,
      succeeds_nowIso, succeeds_newId, succeeds_constraint, succeeds_modify, succeeds_pure]
    refine ⟨lines, validateJournal_eq_ok.2 hposts.accepted, hposts.fresh, hposts.book_mem,
      hposts.unreversed, hposts.original, ?_⟩
    apply storeLines_succeeds hnew 0
    · exact isSome_lookup.2 ⟨_, List.mem_append_right _ (List.mem_singleton_self _), rfl⟩
    · exact hposts.book_mem
    · exact fun line hline ↦ ⟨(hstorable line hline).account, (hstorable line hline).rate,
        (hstorable line hline).currency, (hstorable line hline).sides⟩
    · exact hposts.lines_fresh
  obtain ⟨p, t, hrun, -⟩ := hsucceeds
  obtain ⟨lines', hposts', rfl, rfl⟩ := postJournalInTx_ensures p t hrun
  have hsame : Except.ok lines' = (Except.ok lines : Except Fault _) :=
    (validateJournal_eq_ok.2 hposts'.accepted).symm.trans
      (validateJournal_eq_ok.2 hposts.accepted)
  rw [hrun, Except.ok.inj hsame]

/-- Lines of one currency balance when their sides add up to the same. -/
theorem balance_of_sum {currency : String} (hcurrency : ∀ line ∈ lines, line.currency = currency)
    (hsum : (lines.map NewJournalLine.debitMinor).sum =
      (lines.map NewJournalLine.creditMinor).sum) (c : String) :
    sideTotal NewJournalLine.debitMinor lines c = sideTotal NewJournalLine.creditMinor lines c := by
  by_cases hc : c = currency
  · have hall : lines.filter (fun l ↦ l.currency = c) = lines :=
      List.filter_eq_self.2 fun l hl ↦ by simpa [hc] using hcurrency l hl
    rw [sideTotal, sideTotal, hall, hsum]
  · have hnone : c ∉ lines.map NewJournalLine.currency := by
      intro hmem
      obtain ⟨l, hl, rfl⟩ := List.mem_map.1 hmem
      exact hc (hcurrency l hl)
    rw [sideTotal_eq_zero hnone, sideTotal_eq_zero hnone]

theorem normalized_self (hnormal : ∀ line ∈ lines,
    normalizeCurrencyCode line.currency = .ok line.currency) :
    List.Forall₂ (fun line line' ↦ normalizeLine line = .ok line') lines lines :=
  List.forall₂_same.2 fun line hline ↦ normalizeLine_eq_ok.2 ⟨hnormal line hline, rfl⟩

end Succeeding

end SlipScan.Ledger.Acceptance
