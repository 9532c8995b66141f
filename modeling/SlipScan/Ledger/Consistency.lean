import SlipScan.Ledger.Lines
import SlipScan.Ledger.Runs

namespace SlipScan.Ledger.Consistency

open Model.Domain Model.Database Model.Ledger Model.Slip Model.Service Foundation.Transaction
  Foundation.Table Foundation.Chain Posting Steps Runs Lines Relation

/-- How the rows of the ledger hang together. Reversals form chains, every line belongs to a
journal of its book, and what was generated is not itself a reversal. -/
structure Consistent (s : Db) : Prop where
  linked : WellLinked Journal.id Journal.reversalOf s.journals
  lines : ∀ l ∈ s.journalLines, ∃ j ∈ s.journals, j.id = l.journalId ∧ j.bookId = l.bookId
  canonical : ∀ l ∈ s.journalLines, normalizeCurrencyCode l.currency = .ok l.currency
  rates : ∀ l ∈ s.journalLines, ∀ k ∈ l.vatRateId, references VatRate.id s.vatRates k
  generated : ∀ j ∈ s.journals, j.sourceType ≠ .manual → j.reversalOf = none
  runs : ∀ run ∈ s.depreciationRuns, ∃ j ∈ s.journals, j.id = run.journalId ∧
    j.sourceType ≠ .manual

variable {h : Host} {parseSlip : String → Except Fault SlipPayload} {s s' : Db} {book : Book}
  {new : NewJournal} {reversalOf : Option String} {lines : List NewJournalLine}

theorem consistent_empty : Consistent {} where
  linked := .nil
  lines := by simp
  canonical := by simp
  rates := by simp
  generated := by simp
  runs := by simp

/-- Nothing refers to a journal before it is posted. -/
theorem Consistent.fresh (hs : Consistent s) (hposts : Posts h s book new reversalOf lines) :
    ∀ l ∈ s.journalLines, l.journalId ≠ h.newId s.minted := fun l hl heq ↦ by
  obtain ⟨j, hj, hid, -⟩ := hs.lines l hl
  exact hposts.fresh j hj (hid.trans heq)

theorem Consistent.posted (hs : Consistent s) (hposts : Posts h s book new reversalOf lines)
    (hnew : new.sourceType ≠ .manual → reversalOf = none) :
    Consistent (withPosted s (postedJournal h s book new reversalOf lines)) where
  linked := by
    refine .snoc hs.linked hposts.fresh fun k hk ↦ ⟨?_, hposts.unreversed k hk⟩
    exact isSome_lookup.1 (hposts.original k hk)
  lines l hl := by
    rcases List.mem_append.1 hl with hl | hl
    · obtain ⟨j, hj, hjl⟩ := hs.lines l hl
      exact ⟨j, List.mem_append_left _ hj, hjl⟩
    · obtain ⟨hid, hbook, -⟩ := journalId_of_mem hl
      exact ⟨_, List.mem_append_right _ (List.mem_singleton_self _), hid.symm, hbook.symm⟩
  canonical l hl := by
    rcases List.mem_append.1 hl with hl | hl
    · exact hs.canonical l hl
    · exact canonical_of_normalized hposts.accepted.normalized (content l) (content_mem hl)
  rates l hl := by
    rcases List.mem_append.1 hl with hl | hl
    · exact hs.rates l hl
    · exact hposts.rates (content l) (content_mem hl)
  generated j hj := by
    rcases List.mem_append.1 hj with hj | hj
    · exact hs.generated j hj
    · obtain rfl := List.mem_singleton.1 hj
      exact hnew
  runs run hrun := by
    obtain ⟨j, hj, hjr⟩ := hs.runs run hrun
    exact ⟨j, List.mem_append_left _ hj, hjr⟩

theorem Consistent.other (hs : Consistent s) (hother : Preserves s s') : Consistent s' where
  linked := hother.journals ▸ hs.linked
  lines l hl := by
    rw [hother.journalLines] at hl
    rw [hother.journals]
    exact hs.lines l hl
  canonical l hl := hs.canonical l (hother.journalLines ▸ hl)
  rates l hl k hk := by
    obtain ⟨r, hr⟩ := Option.isSome_iff_exists.1 (hs.rates l (hother.journalLines ▸ hl) k hk)
    exact Option.isSome_iff_exists.2 ⟨r, hother.vatRates k r hr⟩
  generated j hj := hs.generated j (hother.journals ▸ hj)
  runs run hrun := by
    rw [hother.journals]
    rcases hother.runs run hrun with hrun | hgenerated
    · exact hs.runs run hrun
    · exact hgenerated

theorem Consistent.lock (hs : Consistent s) (bookId : String) (lockDate : Option String) :
    Consistent (withLock s bookId lockDate) :=
  ⟨hs.linked, hs.lines, hs.canonical, hs.rates, hs.generated, hs.runs⟩

theorem references_update {rateId k : String} {rateBps : ℤ} :
    references VatRate.id (withRate s rateId rateBps).vatRates k ↔
      references VatRate.id s.vatRates k := by
  rw [references, references, withRate, lookup_update (fun r : VatRate ↦ { r with rateBps })
    (fun _ ↦ rfl), Option.isSome_map]

theorem Consistent.rate (hs : Consistent s) (rateId : String) (rateBps : ℤ) :
    Consistent (withRate s rateId rateBps) :=
  ⟨hs.linked, hs.lines, hs.canonical, fun l hl k hk ↦ references_update.2 (hs.rates l hl k hk),
    hs.generated, hs.runs⟩

theorem posted_or_other {c : Call} {held : List Held} (hstep : LedgerStep h c held s s') :
    (∃ book new reversalOf lines, .book book ∈ held ∧ Posts h s book new reversalOf lines ∧
        (new.sourceType ≠ .manual → reversalOf = none) ∧
        s' = withPosted s (postedJournal h s book new reversalOf lines)) ∨
      Preserves s s' := by
  cases hstep with
  | @post book new lines hbook hposts =>
    exact .inl ⟨book, new, none, lines, hbook, hposts, fun _ ↦ rfl, rfl⟩
  | @reverse book id date narrative original lines hbook _ _ _ hposts =>
    exact .inl ⟨book, _, some id, lines, hbook, hposts, fun hmanual ↦ absurd rfl hmanual, rfl⟩
  | other hother => exact .inr hother

theorem Consistent.step {c : Call} {held : List Held} (hs : Consistent s)
    (hstep : LedgerStep h c held s s') : Consistent s' := by
  rcases posted_or_other hstep with ⟨_, _, _, _, -, hposts, hnew, rfl⟩ | hother
  · exact hs.posted hposts hnew
  · exact hs.other hother

theorem Consistent.change {D : Call → Prop} (hs : Consistent s) (hchange : Change h D s s') :
    Consistent s' := by
  cases hchange with
  | ledger _ _ hstep => exact hs.step hstep
  | other hother => exact hs.other hother
  | lock _ hlocks => exact hs.lock _ _
  | rate => exact hs.rate _ _

theorem consistent_of_reachable {C : Call → Db → Prop} (hs : Reachable h parseSlip C s) :
    Consistent s :=
  invariant_of_changes consistent_empty (fun _ _ ht hchange ↦ ht.change hchange) hs

end SlipScan.Ledger.Consistency
