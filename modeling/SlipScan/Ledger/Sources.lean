import SlipScan.Ledger.Reversal

namespace SlipScan.Ledger.Sources

open Model.Domain Model.Database Model.Ledger Model.Slip Model.Service Model.PlainHost
  Foundation.Transaction Foundation.Interleaving Foundation.Table Foundation.Chain Posting Steps
  Effects Calls Runs Consistency Reversal Process Relation

variable {h : Host} {parseSlip : String → Except Fault SlipPayload} {s s' : Db}

structure SameSource (j j' : Journal) : Prop where
  generated : j.sourceType ≠ .manual
  source : ∃ sourceId, j.sourceId = some sourceId
  book : j'.bookId = j.bookId
  type : j'.sourceType = j.sourceType
  id : j'.sourceId = j.sourceId

theorem SameSource.symm {j j' : Journal} (hsame : SameSource j j') : SameSource j' j where
  generated := hsame.type ▸ hsame.generated
  source := hsame.id ▸ hsame.source
  book := hsame.book.symm
  type := hsame.type.symm
  id := hsame.id.symm

/-- The call reverses the last reversal of a cancelled journal while another journal of the same
source is net-live. -/
def Reinstates (c : Call) (s : Db) : Prop :=
  ∃ id date narrative, c = .journalReverse id date narrative ∧
    ∃ j ∈ s.journals, ∃ j' ∈ s.journals, j ≠ j' ∧ SameSource j j' ∧
      isNetReversed s j.id = .ok true ∧ (reversals s j.id).getLast? = some id ∧
      isNetReversed s j'.id = .ok false

/-- At most one journal of a source is net-live. -/
def OneLive (s : Db) : Prop :=
  ∀ j ∈ s.journals, ∀ j' ∈ s.journals, SameSource j j' → isNetReversed s j.id = .ok false →
    isNetReversed s j'.id = .ok false → j = j'

section Steps

theorem OneLive.of_journals (hone : OneLive s) (hs' : s'.journals = s.journals) : OneLive s' := by
  intro j hj j' hj'
  rw [hs'] at hj hj'
  simpa only [isNetReversed_congr hs'] using hone j hj j' hj'

theorem reversals_withPosted (hs : Consistent s) {p : PostedJournal}
    (hs' : Consistent (withPosted s p)) (id : String) :
    reversals (withPosted s p) id =
      if p.journal.reversalOf = some (tip Journal.id Journal.reversalOf s.journals id) then
        reversals s id ++ [p.journal.id]
      else reversals s id := by
  rw [reversals_eq_chain hs', reversals_eq_chain hs]
  exact chain_snoc

theorem isNetReversed_of_reversals {s' : Db} (hs : Consistent s) (hs' : Consistent s')
    {id : String} (hid : reversals s' id = reversals s id) :
    isNetReversed s' id = isNetReversed s id := by
  rw [isNetReversed_eq hs, isNetReversed_eq hs', hid]

theorem getLast?_of_tip (hs : Consistent s) {id last : String}
    (hid : isNetReversed s id = .ok true)
    (hlast : tip Journal.id Journal.reversalOf s.journals id = last) :
    (reversals s id).getLast? = some last := by
  rw [isNetReversed_eq hs] at hid
  rw [tip, ← reversals_eq_chain hs] at hlast
  cases hl : (reversals s id).getLast? with
  | none => simp [List.getLast?_eq_none_iff.1 hl] at hid
  | some r => simpa [hl] using hlast

theorem oneLive_post (hs : Consistent s) (hone : OneLive s) {book : Book} {new : NewJournal}
    {lines : List NewJournalLine} (hposts : Posts h s book new none lines) :
    OneLive (withPosted s (postedJournal h s book new none lines)) := by
  have hs' := hs.posted hposts fun _ ↦ rfl
  have hsame : ∀ id, isNetReversed (withPosted s (postedJournal h s book new none lines)) id =
      isNetReversed s id := fun id ↦
    isNetReversed_of_reversals hs hs' (by rw [reversals_withPosted hs hs']; simp [postedJournal])
  -- The guard of the posting has seen that all older journals of the source are cancelled.
  have hguard : ∀ j ∈ s.journals,
      SameSource (postedJournal h s book new none lines).journal j →
        isNetReversed s j.id = .ok true := by
    rintro j hj ⟨hgenerated, ⟨sourceId, hsource⟩, hbook, htype, hid⟩
    refine hposts.accepted.source hgenerated sourceId hsource j.id ?_
    simp only [findJournalsBySource, List.mem_map, List.mem_insertionSort, List.mem_filter,
      decide_eq_true_eq]
    exact ⟨j, ⟨hj, hbook, htype, hid.trans hsource⟩, rfl⟩
  intro j hj j' hj' hsource hlive hlive'
  rw [hsame] at hlive hlive'
  rcases List.mem_append.1 hj with hj | hj <;> rcases List.mem_append.1 hj' with hj' | hj'
  · exact hone j hj j' hj' hsource hlive hlive'
  · obtain rfl := List.mem_singleton.1 hj'
    simp [hguard j hj hsource.symm] at hlive
  · obtain rfl := List.mem_singleton.1 hj
    simp [hguard j' hj' hsource] at hlive'
  · exact (List.mem_singleton.1 hj).trans (List.mem_singleton.1 hj').symm

/-- What a reversal brings back to life is the journal whose chain it makes longer. -/
theorem live_of_reverse (hs : Consistent s) {p : PostedJournal}
    (hs' : Consistent (withPosted s p)) {id k : String} (hk : p.journal.reversalOf = some k)
    (hlive : isNetReversed (withPosted s p) id = .ok false) :
    isNetReversed s id = .ok false ∨
      isNetReversed s id = .ok true ∧ tip Journal.id Journal.reversalOf s.journals id = k := by
  by_cases htip : tip Journal.id Journal.reversalOf s.journals id = k
  · cases hlive' : decide (Odd (reversals s id).length) with
    | false => exact .inl (by rw [isNetReversed_eq hs, hlive'])
    | true => exact .inr ⟨by rw [isNetReversed_eq hs, hlive'], htip⟩
  · refine .inl ?_
    rwa [isNetReversed_of_reversals hs hs'] at hlive
    rw [reversals_withPosted hs hs', if_neg]
    simpa [hk] using Ne.symm htip

/-- A generated journal without a reversal of its own is not the last reversal of another. -/
theorem eq_of_tip_generated (hs : Consistent s) {j j₀ : Journal} (hj : j ∈ s.journals)
    (hj₀ : j₀ ∈ s.journals) (hgenerated : j.sourceType ≠ .manual)
    (hgenerated₀ : j₀.sourceType ≠ .manual) (hnone : findReversal s j₀.id = none)
    (htip : tip Journal.id Journal.reversalOf s.journals j.id = j₀.id) : j = j₀ := by
  refine hs.linked.tip_injective j hj j₀ hj₀ (hs.generated j hj hgenerated)
    (hs.generated j₀ hj₀ hgenerated₀) (htip.trans ?_)
  rw [tip, List.length_eq_zero_iff.1 (hs.linked.length_chain_of_none hnone)]
  rfl

theorem oneLive_reverse {c : Call} (hs : Consistent s) (hone : OneLive s) {p : PostedJournal}
    (hs' : Consistent (withPosted s p)) {id : String} (hid : p.journal.reversalOf = some id)
    (hmanual : p.journal.sourceType = .manual) (hmay : MayReverse c s id)
    (hnone : findReversal s id = none) (hC : ¬Reinstates c s) : OneLive (withPosted s p) := by
  have hmem : ∀ j ∈ (withPosted s p).journals, j.sourceType ≠ .manual → j ∈ s.journals := by
    intro j hj hgenerated
    rcases List.mem_append.1 hj with hj | hj
    · exact hj
    · exact absurd (List.mem_singleton.1 hj ▸ hmanual) hgenerated
  -- A journal that comes back to life is the one the call was asked to reinstate.
  have hback : ∀ j ∈ s.journals, ∀ j' ∈ s.journals, SameSource j j' →
      isNetReversed s j.id = .ok true →
      tip Journal.id Journal.reversalOf s.journals j.id = id →
      isNetReversed s j'.id = .ok false → j = j' := by
    intro j hj j' hj' hsource hdead htip hlive'
    have hroot : ∀ j₀ ∈ s.journals, j₀.id = id → j₀.sourceType ≠ .manual → j = j' := by
      rintro j₀ hj₀ rfl hgenerated₀
      obtain rfl := eq_of_tip_generated hs hj hj₀ hsource.generated hgenerated₀ hnone htip
      rw [isNetReversed_eq hs, length_reversals_of_none hs hnone] at hdead
      simp at hdead
    rcases hmay with ⟨date, narrative, rfl⟩ | ⟨j₀, hj₀, hj₀id, hgenerated₀⟩ | ⟨run, hrun, hrunid⟩
    · by_contra hne
      exact hC ⟨id, date, narrative, rfl, j, hj, j', hj', hne, hsource, hdead,
        getLast?_of_tip hs hdead htip, hlive'⟩
    · exact hroot j₀ hj₀ hj₀id hgenerated₀
    · obtain ⟨j₀, hj₀, hj₀id, hgenerated₀⟩ := hs.runs run hrun
      exact hroot j₀ hj₀ (hj₀id.trans hrunid) hgenerated₀
  intro j hj j' hj' hsource hlive hlive'
  have hjs := hmem j hj hsource.generated
  have hjs' := hmem j' hj' hsource.symm.generated
  rcases live_of_reverse hs hs' hid hlive with hold | ⟨hdead, htip⟩ <;>
    rcases live_of_reverse hs hs' hid hlive' with hold' | ⟨hdead', htip'⟩
  · exact hone j hjs j' hjs' hsource hold hold'
  · exact (hback j' hjs' j hjs hsource.symm hdead' htip' hold).symm
  · exact hback j hjs j' hjs' hsource hdead htip hold'
  · exact hs.linked.tip_injective j hjs j' hjs' (hs.generated j hjs hsource.generated)
      (hs.generated j' hjs' hsource.symm.generated) (htip.trans htip'.symm)

theorem oneLive_step {c : Call} {held : List Held} (hs : Consistent s) (hone : OneLive s)
    (hC : ¬Reinstates c s) (hstep : LedgerStep h c held s s') : OneLive s' := by
  cases hstep with
  | post _ hposts => exact oneLive_post hs hone hposts
  | reverse _ hmay _ hnone hposts =>
    have hs' := hs.posted hposts fun hmanual ↦ absurd rfl hmanual
    exact oneLive_reverse hs hone hs' rfl rfl hmay hnone hC
  | other hother => exact hone.of_journals hother.journals

end Steps

section Runs

theorem journalReverse_run {id : String} {date narrative : Option String} :
    (Call.journalReverse id date narrative).run h parseSlip s = s ∨
      ∃ held, LedgerStep h (.journalReverse id date narrative) held s
        ((Call.journalReverse id date narrative).run h parseSlip s) := by
  have hguarantees : ((Call.journalReverse id date narrative).program h parseSlip).Guarantees Eq
      (fun held t t' ↦ t = s ∧ LedgerStep h (.journalReverse id date narrative) held t t') s := by
    refine guarantees_dropResult ?_
    simp only [journalReverse, journalGet, bookGet, Guarantees, meets_bind, meets_query,
      continues_ok, meets_ofExcept, continues_true, meets_atomically, and_true]
    rintro _ rfl original _ _ rfl book _ _ rfl
    exact (ensures_reverse_step (by simp) (.inl ⟨date, narrative, rfl⟩)).mono
      fun _ _ hstep ↦ ⟨rfl, hstep⟩
  have hsteps : ReflTransGen _ s ((Call.journalReverse id date narrative).run h parseSlip s) :=
    (run_of_meets hguarantees).2
  rcases hsteps.cases_tail with heq | ⟨t, -, held, rfl, hstep⟩
  · exact .inl heq
  · exact .inr ⟨held, hstep⟩

theorem oneLive_change {D : Call → Prop} (hs : Consistent s) (hone : OneLive s)
    (hD : ∀ c, D c → ∀ t, ¬Reinstates c t) (hchange : Change h D s s') : OneLive s' := by
  cases hchange with
  | ledger hc _ hstep => exact oneLive_step hs hone (hD _ hc _) hstep
  | other hother => exact hone.of_journals hother.journals
  | lock => exact hone.of_journals rfl
  | rate => exact hone.of_journals rfl

/-- A call that does not reinstate a journal against a live one keeps the sources apart. -/
theorem oneLive_call {c : Call} (hs : Consistent s) (hone : OneLive s) (hC : ¬Reinstates c s) :
    OneLive (c.run h parseSlip s) := by
  by_cases hreverse : ∃ id date narrative, c = .journalReverse id date narrative
  · obtain ⟨id, date, narrative, rfl⟩ := hreverse
    rcases journalReverse_run with heq | ⟨held, hstep⟩
    · rwa [heq]
    · exact oneLive_step hs hone hC hstep
  · have hchanges : ReflTransGen (Change h (· = c)) s (c.run h parseSlip s) := changes_of_run rfl
    generalize c.run h parseSlip s = t at hchanges
    suffices hall : OneLive t ∧ Consistent t from hall.1
    induction hchanges with
    | refl => exact ⟨hone, hs⟩
    | tail _ hchange ih =>
      refine ⟨oneLive_change ih.2 ih.1 ?_ hchange, ih.2.change hchange⟩
      rintro _ rfl t ⟨id, date, narrative, rfl, -⟩
      exact hreverse ⟨id, date, narrative, rfl⟩

theorem oneLive_of_reachable (hs : Reachable h parseSlip (fun c s ↦ ¬Reinstates c s) s) :
    OneLive s := by
  induction hs with
  | refl => simp [OneLive]
  | tail hreach hstep ih =>
    have hcons := consistent_of_reachable hreach
    cases hstep with
    | call c hC => exact oneLive_call hcons ih hC
    | elsewhere he =>
      exact ih.of_journals he.journals

theorem isNetReversed_of_netEffect (hs : Consistent s) (hundone : Undone s) {id : String}
    (hid : netEffect s id ≠ 0) : isNetReversed s id = .ok false := by
  rw [netEffect_eq hs hundone] at hid
  rw [isNetReversed_eq hs]
  by_cases hodd : Odd (reversals s id).length
  · simp [hodd] at hid
  · simp [hodd]

end Runs

/-- As long as no call reinstates a journal against a live one, every source has at most one
generated journal with an effect on the ledger. -/
theorem one_live_journal_of_source (hs : Reachable h parseSlip (fun c s ↦ ¬Reinstates c s) s)
    {j j' : Journal} (hj : j ∈ s.journals) (hj' : j' ∈ s.journals) (hsource : SameSource j j')
    (heffect : netEffect s j.id ≠ 0) (heffect' : netEffect s j'.id ≠ 0) : j = j' :=
  have hcons := consistent_of_reachable hs
  have hundone := undone_of_reachable hs
  oneLive_of_reachable hs j hj j' hj' hsource (isNetReversed_of_netEffect hcons hundone heffect)
    (isNetReversed_of_netEffect hcons hundone heffect')

def receipt : Call :=
  .transactionCreate
    { bookId := "book"
      accountId := "account"
      source := .manual
      providerTxnId := none
      postedDate := "2025-01-31"
      amountMinor := 100
      currency := "ZAR"
      merchant := none
      description := none
      notes := none
      categoryId := none
      dedupeOccurrence := 0 }

def reinstated : Db :=
  runs setup (bankAndIncome ++ [receipt, .journalGenerateForTransaction "xxx" none,
    .journalReverse "xxxx" none none, .journalGenerateForTransaction "xxx" none,
    .journalReverse "xxxxxxx" none none])

def posted (id : String) : Journal :=
  { id
    bookId := "book"
    postedDate := "2025-01-31"
    narrative := none
    reference := none
    sourceType := .transaction
    sourceId := some "xxx"
    reversalOf := none
    createdAt := "2025-06-15T00:00:00Z" }

theorem ne_zero_of_apply {f : String × String → ℤ} {account : String × String} {v : ℤ}
    (hf : f account = v) (hv : v ≠ 0) : f ≠ 0 := by
  intro hzero
  rw [hzero] at hf
  exact hv hf.symm

theorem two_live_journals_of_source :
    ¬∀ s, Reachable plainHost noSlip anyCall s → ∀ j ∈ s.journals, ∀ j' ∈ s.journals,
      SameSource j j' → netEffect s j.id ≠ 0 → netEffect s j'.id ≠ 0 → j = j' := by
  intro hclaim
  have hreach : Reachable plainHost noSlip anyCall reinstated := reachable_runs reachable_setup _
  have heffect : netEffect reinstated "xxxx" ("x", "ZAR") = 100 ∧
      netEffect reinstated "xxxxxxxxxx" ("x", "ZAR") = 100 := by
    decide +kernel
  have heq := hclaim reinstated hreach (posted "xxxx") (by decide +kernel) (posted "xxxxxxxxxx")
    (by decide +kernel) ⟨by decide, ⟨_, rfl⟩, rfl, rfl, rfl⟩
    (ne_zero_of_apply heffect.1 (by decide)) (ne_zero_of_apply heffect.2 (by decide))
  simp [posted] at heq

theorem one_live_journal_of_receipt :
    ¬∃ j ∈ (runs setup (bankAndIncome ++ [receipt,
      .journalGenerateForTransaction "xxx" none])).journals, SameSource (posted "xxxx") j ∧
        netEffect (runs setup (bankAndIncome ++ [receipt,
          .journalGenerateForTransaction "xxx" none])) j.id ≠ 0 ∧ posted "xxxx" ≠ j := by
  rintro ⟨j, hj, hsource, heffect, hne⟩
  have hreach : Reachable plainHost noSlip (fun c s ↦ ¬Reinstates c s)
      (runs setup (bankAndIncome ++ [receipt, .journalGenerateForTransaction "xxx" none])) :=
    reachable_runs_of reachable_setup _ (by simp [bankAndIncome, receipt, Reinstates])
  have hposted : netEffect (runs setup (bankAndIncome ++ [receipt,
      .journalGenerateForTransaction "xxx" none])) "xxxx" ("x", "ZAR") = 100 := by
    decide +kernel
  have heq : posted "xxxx" = j := one_live_journal_of_source hreach (by decide +kernel) hj hsource
    (ne_zero_of_apply hposted (by decide)) heffect
  exact hne heq

end SlipScan.Ledger.Sources
