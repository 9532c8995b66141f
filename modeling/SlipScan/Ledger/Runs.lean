import SlipScan.Ledger.Calls

namespace SlipScan.Ledger.Runs

open Model.Domain Model.Database Model.Ledger Model.Slip Model.Service Foundation.Interleaving
  Foundation.Table Posting Steps Calls Relation

variable {h : Host} {parseSlip : String → Except Fault SlipPayload} {s s' : Db}

/-- The books that a transaction holds are the stored ones, up to their kind. -/
def Current (held : List Held) (s : Db) : Prop :=
  ∀ b, .book b ∈ held → ∃ kind, getBook s b.id = some { b with kind }

/-- What happens to the ledger along a run on one connection, `D` being the calls of the run. -/
inductive Change (h : Host) (D : Call → Prop) (s : Db) : Db → Prop
  | ledger {c : Call} {held : List Held} {s' : Db} (hc : D c) (hcurrent : Current held s)
      (hstep : LedgerStep h c held s s') : Change h D s s'
  | other {s' : Db} (hother : Preserves s s') : Change h D s s'
  | lock {c : Call} {bookId : String} {lockDate : Option String} (hc : D c)
      (hlocks : Locks h Eq s c bookId lockDate) : Change h D s (withLock s bookId lockDate)
  | rate {r : VatRate} {rateBps : ℤ} (hr : r ∈ s.vatRates)
      (hc : D (.vatRateSetBps r.bookId r.code rateBps)) :
      Change h D s (withRate s r.id rateBps)

theorem books_of_step {c : Call} {held : List Held} (hs : LedgerStep h c held s s') {id : String}
    {b : Book} (hb : getBook s id = some b) : ∃ kind, getBook s' id = some { b with kind } := by
  cases hs with
  | post => exact ⟨b.kind, hb⟩
  | reverse => exact ⟨b.kind, hb⟩
  | other hother => exact hother.books id b hb

theorem Current.step {c : Call} {held : List Held} (hcurrent : Current held s)
    (hs : LedgerStep h c held s s') : Current held s' := fun b hb ↦ by
  obtain ⟨kind, hkind⟩ := hcurrent b hb
  obtain ⟨kind', hkind'⟩ := books_of_step hs hkind
  exact ⟨kind', hkind'⟩

theorem changes_of_steps {D : Call → Prop} {c : Call} {held : List Held} (hc : D c)
    (hcurrent : Current held s) (hs : LedgerSteps h c held s s') :
    ReflTransGen (Change h D) s s' ∧ Current held s' := by
  induction hs with
  | refl => exact ⟨.refl, hcurrent⟩
  | tail _ hstep ih => exact ⟨ih.1.tail (.ledger hc ih.2 hstep), ih.2.step hstep⟩

theorem changes_of_effect {D : Call → Prop} {c : Call} {held : List Held} (hc : D c)
    (he : Effect h Eq c held s s') : ReflTransGen (Change h D) s s' := by
  cases he with
  | ledger hseen hsteps =>
    refine (changes_of_steps hc (fun b hb ↦ ?_) hsteps).1
    obtain ⟨_, rfl, hget⟩ := hseen b hb
    exact ⟨b.kind, hget⟩
  | lock hlocks => exact .single (.lock hc hlocks)
  | rate hseen hr hrate =>
    subst hseen hrate
    exact .single (.rate hr hc)

theorem changes_of_run {D : Call → Prop} {c : Call} (hc : D c) :
    ReflTransGen (Change h D) s (c.run h parseSlip s) := by
  have hguarantees : (c.program h parseSlip).Guarantees Eq (Effect h Eq c) s :=
    (program_since c).guarantees
  have hsteps : ReflTransGen _ s (c.run h parseSlip s) := (run_of_meets hguarantees).2
  generalize c.run h parseSlip s = t at hsteps ⊢
  induction hsteps with
  | refl => exact .refl
  | tail _ hstep ih =>
    obtain ⟨held, he⟩ := hstep
    exact ih.trans (changes_of_effect hc he)

theorem changes_of_step {C : Call → Db → Prop} {D : Call → Prop} (hD : ∀ c s, C c s → D c)
    (hs : Step h parseSlip C s s') : ReflTransGen (Change h D) s s' := by
  cases hs with
  | call c hc => exact changes_of_run (hD c s hc)
  | elsewhere he => exact .single (.other (elsewhere_preserves he))

/-- What every change keeps holds after every run. -/
theorem invariant_of_changes {C : Call → Db → Prop} {I : Db → Prop} (hinit : I s)
    (hchange : ∀ t t', I t → Change h (fun _ ↦ True) t t' → I t')
    (hs : ReflTransGen (Step h parseSlip C) s s') : I s' := by
  have hrun : ∀ {t t'}, I t → ReflTransGen (Change h fun _ ↦ True) t t' → I t' := by
    intro t t' ht hsteps
    induction hsteps with
    | refl => exact ht
    | tail _ hstep ih => exact hchange _ _ ih hstep
  induction hs with
  | refl => exact hinit
  | tail _ hstep ih => exact hrun ih (changes_of_step (fun _ _ _ ↦ trivial) hstep)

end SlipScan.Ledger.Runs
