import SlipScan.Ledger.Calls
import SlipScan.Ledger.TaxRows

namespace SlipScan.Ledger.SupplyBoxes

open Model.Domain Model.Database Model.Ledger Model.Money Model.Region Model.Generate Model.Trade
  Model.Period Model.Reports Model.Slip Model.Service Model.PlainHost Foundation.Transaction
  Foundation.Interleaving Foundation.Table Foundation.Grouping Posting Effects Calls Steps Runs Lines
  Consistency Soundness Amounts TaxStability TaxRows Writes.Frames Writes.Tables Relation Process

variable {h : Host} {parseSlip : String → Except Fault SlipPayload} {s s' : Db}
  {bookId fromDate toDate currency : String}

section Rates

/-- The rates are distinct, and their codes and percentages satisfy `Q`. -/
structure Rates (Q : String → ℤ → Prop) (s : Db) : Prop where
  distinct : RatesDistinct s
  all : ∀ r ∈ s.vatRates, Q r.code r.rateBps

variable {Q : String → ℤ → Prop}

def KeepsRates (Q : String → ℤ → Prop) (s s' : Db) : Prop :=
  Rates Q s → Rates Q s'

instance : Std.Refl (KeepsRates Q) where
  refl _ := id

instance : IsTrans Db (KeepsRates Q) where
  trans _ _ _ hs hs' := hs' ∘ hs

theorem insertVatRate_rates {rate : VatRate} (hrate : Q rate.code rate.rateBps) :
    Moves (KeepsRates Q) (insertVatRate rate) := by
  intro s
  simp only [insertVatRate, ensures_bind, ensures_get, ensures_ite, ensures_pure,
    ensures_constraint, ensures_modify]
  refine ⟨fun _ ↦ refl_of (KeepsRates Q) s, fun _ hfresh _ hs ↦ ⟨?_, fun r hr ↦ ?_⟩⟩
  · exact nodup_concat hfresh hs.distinct
  · rcases List.mem_append.1 hr with hr | hr
    · exact hs.all r hr
    · obtain rfl := List.mem_singleton.1 hr
      exact hrate

theorem keepsRates_of_eq (hs : s'.vatRates = s.vatRates) : KeepsRates Q s s' := fun hrates ↦ by
  refine ⟨?_, fun r hr ↦ hrates.all r (hs ▸ hr)⟩
  rw [RatesDistinct, hs]
  exact hrates.distinct

theorem keepsRates_of_keeps {α : Type} {m : Action α} (hm : Moves (Keeps Db.vatRates) m) :
    Moves (KeepsRates Q) m :=
  hm.mono fun _ _ hs ↦ keepsRates_of_eq hs.1

theorem coaSeed_rates
    (hseeds : ∀ region, ∀ seed ∈ (profileOrGeneric region).taxRates,
      Q seed.code (seed.rateBps.getD 0)) (id : String) :
    (coaSeed h id).Within fun _ ↦ KeepsRates Q := by
  have hnew : Moves (KeepsRates Q) (newId h) :=
    keepsRates_of_keeps (keeps_newId fun _ _ ↦ rfl)
  refine within_bookGet_bind fun book ↦ (within_atomically _ _).2 ?_
  refine moves_bind (moves_forM _ fun _ _ ↦ ?_) fun _ ↦ moves_forM _ fun seed hseed ↦ ?_
  · exact moves_bind hnew fun _ ↦ moves_bind
      (keepsRates_of_keeps (insertCoa_keeps _ fun _ _ ↦ rfl)) fun _ ↦ moves_pure _
  · exact moves_bind hnew fun _ ↦ insertVatRate_rates (hseeds book.region seed hseed)

theorem vatRateSetBps_rates {id code : String} {rateBps : ℤ}
    (hset : 0 ≤ rateBps → rateBps ≤ 10000 → Q code rateBps) :
    (vatRateSetBps id code rateBps).Since Eq (fun _ ↦ KeepsRates Q) s := by
  refine .ofExcept_bind _ fun _ hcheck ↦ .query_bind _ fun t _ ↦ .ofExcept_bind _ fun r hr ↦
    Since.bind_reading (.atomically fun u hu ↦ ?_) fun _ ↦ by simp
  subst hu
  have hfind := orNotFound_eq_ok.1 hr
  have hmem := List.mem_of_find?_eq_some hfind
  have hcode := List.find?_some hfind
  simp only [listVatRates, List.mem_insertionSort, List.mem_filter, decide_eq_true_eq] at hmem hcode
  have hbounds : 0 ≤ rateBps ∧ rateBps ≤ 10000 := by
    by_contra hout
    simp [checkRateBps, hout] at hcheck
  rw [setVatRateBps, ensures_modify]
  refine fun hs ↦ ⟨?_, fun r' hr' ↦ ?_⟩
  · have hids : (withRate t r.id rateBps).vatRates.map VatRate.id = t.vatRates.map VatRate.id :=
      map_update_of_eq (fun r : VatRate ↦ { r with rateBps }) (fun _ ↦ rfl) r.id
    change ((withRate t r.id rateBps).vatRates.map VatRate.id).Nodup
    rw [hids]
    exact hs.distinct
  · obtain ⟨r₀, hr₀, rfl⟩ := List.mem_map.1 hr'
    split
    · rename_i hid
      obtain rfl := List.inj_on_of_nodup_map hs.distinct hr₀ hmem.1 hid
      exact hcode ▸ hset hbounds.1 hbounds.2
    · exact hs.all r₀ hr₀

theorem run_keepsRates {c : Call}
    (hc : (c.program h parseSlip).Since Eq (fun _ ↦ KeepsRates Q) s) :
    KeepsRates Q s (c.run h parseSlip s) := by
  have hsteps := (run_of_meets hc.guarantees).2
  rw [Call.run]
  generalize ((c.program h parseSlip).run s).2 = t at hsteps
  induction hsteps with
  | refl => exact refl_of _ s
  | tail _ hstep ih =>
    obtain ⟨_, hstep⟩ := hstep
    exact trans_of _ ih hstep

theorem elsewhere_rates (c : Call) (hc : Table.vatRates ∉ writtenBy c) :
    (c.program h parseSlip).Since Eq (fun _ ↦ KeepsRates Q) s := by
  have hkeeps : (c.program h parseSlip).Since Eq (fun _ ↦ Keeps Db.vatRates) s := by
    refine program_keeps (fun _ _ ↦ rfl) c fun t ht ↦ ?_
    cases t with
    | vatRates => exact absurd ht hc
    | _ => simp [Hides]
  exact hkeeps.mono fun _ _ _ hs ↦ keepsRates_of_eq hs.1

theorem program_rates
    (hseeds : ∀ region, ∀ seed ∈ (profileOrGeneric region).taxRates,
      Q seed.code (seed.rateBps.getD 0))
    {c : Call} (hset : ∀ id code rateBps, c = .vatRateSetBps id code rateBps →
      0 ≤ rateBps → rateBps ≤ 10000 → Q code rateBps) :
    (c.program h parseSlip).Since Eq (fun _ ↦ KeepsRates Q) s := by
  cases c with
  | coaSeed id => exact (coaSeed_rates hseeds id).since
  | vatRateSetBps id code rateBps =>
    exact since_dropResult (vatRateSetBps_rates (hset id code rateBps rfl))
  | _ => exact elsewhere_rates _ (by simp [writtenBy])

theorem rates_of_reachable {C : Call → Db → Prop}
    (hseeds : ∀ region, ∀ seed ∈ (profileOrGeneric region).taxRates,
      Q seed.code (seed.rateBps.getD 0))
    (hset : ∀ id code rateBps s, C (.vatRateSetBps id code rateBps) s →
      0 ≤ rateBps → rateBps ≤ 10000 → Q code rateBps)
    (hs : Reachable h parseSlip C s) : Rates Q s := by
  induction hs with
  | refl => exact ⟨by simp [RatesDistinct], by simp⟩
  | tail _ hstep ih =>
    cases hstep with
    | call c hc =>
      exact run_keepsRates (program_rates hseeds fun id code rateBps heq ↦
        hset id code rateBps _ (heq ▸ hc)) ih
    | elsewhere he => exact keepsRates_of_eq he.vatRates ih

end Rates

section Boxes

variable {profile : RegionProfile} {row : TaxSummaryRow} {summary : TaxPeriodSummary}
  {lines : List JournalLine}

def boxesOf (profile : RegionProfile) (row : TaxSummaryRow) : List Bool :=
  [row.rateBps > 0, row.rateBps = 0 && !profile.isExemptCode row.code,
    profile.isExemptCode row.code]

/-- Every supply is in one box, and the boxes add up to the total. -/
structure Partitioned (profile : RegionProfile) (summary : TaxPeriodSummary) : Prop where
  once : ∀ row ∈ summary.rows, (boxesOf profile row).count true = 1
  total : asI64 (summary.standardRatedSuppliesMinor + summary.zeroRatedSuppliesMinor +
    summary.exemptSuppliesMinor) = asI64 (summary.rows.map TaxSummaryRow.outputBaseMinor).sum

theorem count_boxesOf (hrow : 0 ≤ row.rateBps) : (boxesOf profile row).count true = 1 ↔
    ¬(0 < row.rateBps ∧ profile.isExemptCode row.code = true) := by
  rw [boxesOf]
  cases profile.isExemptCode row.code with
  | false =>
    rcases hrow.lt_or_eq with hpos | hzero
    · simp [hpos, hpos.ne']
    · simp [← hzero]
  | true =>
    rcases hrow.lt_or_eq with hpos | hzero
    · simp [hpos, hpos.ne']
    · simp [← hzero]

theorem partitioned_of_once (hof : SummaryOf s lines profile summary)
    (honce : ∀ row ∈ summary.rows, (boxesOf profile row).count true = 1) :
    Partitioned profile summary := by
  refine ⟨honce, ?_⟩
  have hexempt : ((summary.rows.filter fun r ↦ !decide (r.rateBps > 0)).map
      TaxSummaryRow.outputBaseMinor).sum =
        ((summary.rows.filter fun r ↦ r.rateBps = 0 && !profile.isExemptCode r.code).map
          TaxSummaryRow.outputBaseMinor).sum +
        ((summary.rows.filter fun r ↦ profile.isExemptCode r.code).map
          TaxSummaryRow.outputBaseMinor).sum := by
    refine sum_filter_or _ fun row hrow ↦ ?_
    have hcount := honce row hrow
    rw [boxesOf] at hcount
    by_cases hpos : row.rateBps > 0 <;> by_cases hzero : row.rateBps = 0 <;>
      cases hcode : profile.isExemptCode row.code <;> simp_all
  have hwhole : (summary.rows.map TaxSummaryRow.outputBaseMinor).sum =
      ((summary.rows.filter fun r ↦ r.rateBps > 0).map TaxSummaryRow.outputBaseMinor).sum +
        ((summary.rows.filter fun r ↦ !decide (r.rateBps > 0)).map
          TaxSummaryRow.outputBaseMinor).sum := by
    have hsum := sum_filter_or (l := summary.rows) (r := fun _ ↦ true)
      (p := fun r ↦ r.rateBps > 0) (q := fun r ↦ !decide (r.rateBps > 0))
      TaxSummaryRow.outputBaseMinor fun row _ ↦ by simpa using lt_or_ge 0 row.rateBps
    rwa [List.filter_true] at hsum
  rw [hof.standard, hof.zero, hof.exempt, outputBaseOf, outputBaseOf, outputBaseOf, sumI64_eq,
    sumI64_eq, sumI64_eq, asI64_add_add, hwhole, hexempt, ← add_assoc]

/-- A taxed rate under an exempt code. -/
def Overlaps (profile : RegionProfile) (rate : VatRate) : Prop :=
  0 < rate.rateBps ∧ profile.isExemptCode rate.code = true

theorem partitioned_iff (hrates : Rates (fun _ rateBps ↦ 0 ≤ rateBps) s)
    (hof : SummaryOf s lines profile summary) : Partitioned profile summary ↔
      ∀ l ∈ lines, ∀ k, l.vatRateId = some k → ∀ rate, lookup VatRate.id s.vatRates k = some rate →
        ¬Overlaps profile rate := by
  have hcount : ∀ row ∈ summary.rows, ((boxesOf profile row).count true = 1 ↔
      ∀ k, row.vatRateId = some k → ∀ rate, lookup VatRate.id s.vatRates k = some rate →
        ¬Overlaps profile rate) := by
    intro row hrow
    have hcode := hof.code row hrow
    have hbps := hof.rateBps row hrow
    rw [rateCode] at hcode
    rw [rateBpsOf] at hbps
    cases hrate : row.vatRateId.bind (lookup VatRate.id s.vatRates) with
    | none =>
      rw [hrate] at hbps
      rw [count_boxesOf hbps.ge]
      simp only [Option.bind_eq_none_iff] at hrate
      simp only [hbps, Option.map_none, Option.getD_none, lt_irrefl, false_and, not_false_iff,
        true_iff]
      intro k hk rate hlook
      simp [hrate k hk] at hlook
    | some rate =>
      obtain ⟨k, hk, hlook⟩ := Option.bind_eq_some_iff.1 hrate
      rw [hrate] at hcode hbps
      have hnonneg : 0 ≤ row.rateBps := hbps ▸ hrates.all rate (lookup_eq_some hlook).1
      rw [count_boxesOf hnonneg, hcode, hbps]
      constructor
      · intro hnot k' hk' rate' hlook'
        obtain rfl := Option.some.inj (hk.symm.trans hk')
        obtain rfl := Option.some.inj (hlook.symm.trans hlook')
        exact hnot
      · exact fun hall ↦ hall k hk rate hlook
  constructor
  · intro hpart l hl k hk
    obtain ⟨row, hrow, hid⟩ := List.mem_map.1 ((hof.mem l.vatRateId).2 ⟨l, hl, rfl⟩)
    exact (hcount row hrow).1 (hpart.once row hrow) k (hid.trans hk)
  · intro hall
    refine partitioned_of_once hof fun row hrow ↦ (hcount row hrow).2 fun k hk ↦ ?_
    obtain ⟨l, hl, hid⟩ := (hof.mem row.vatRateId).1 (List.mem_map_of_mem hrow)
    exact hall l hl k (hid.trans hk)

/-- The calls that leave the exempt codes untaxed. -/
def KeepsExempt (c : Call) : Prop :=
  ∀ id code rateBps, c = .vatRateSetBps id code rateBps → 0 < rateBps →
    ∀ region, (profileOrGeneric region).isExemptCode code = false

theorem seeds_untaxed (region : String) {seed : TaxRateSeed}
    (hseed : seed ∈ (profileOrGeneric region).taxRates) :
    0 ≤ seed.rateBps.getD 0 ∧ ∀ region', (profileOrGeneric region').isExemptCode seed.code = true →
      seed.rateBps.getD 0 = 0 := by
  have hgeneric : ∀ seed ∈ generic.taxRates, 0 ≤ seed.rateBps.getD 0 ∧
      (za.isExemptCode seed.code = true → seed.rateBps.getD 0 = 0) := by
    simp [generic, za, RegionProfile.isExemptCode]
  have hza : ∀ seed ∈ za.taxRates, 0 ≤ seed.rateBps.getD 0 ∧
      (za.isExemptCode seed.code = true → seed.rateBps.getD 0 = 0) := by
    simp [za, RegionProfile.isExemptCode]
  have hnone : ∀ code, generic.isExemptCode code = false := by
    simp [generic, RegionProfile.isExemptCode]
  have hany : 0 ≤ seed.rateBps.getD 0 ∧
      (za.isExemptCode seed.code = true → seed.rateBps.getD 0 = 0) := by
    rcases profile_cases region with hregion | hregion
    · exact hgeneric seed (hregion ▸ hseed)
    · exact hza seed (hregion ▸ hseed)
  refine ⟨hany.1, fun region' hexempt ↦ ?_⟩
  rcases profile_cases region' with hregion | hregion
  · rw [hregion, hnone] at hexempt
    cases hexempt
  · exact hany.2 (hregion ▸ hexempt)

theorem nonneg_of_reachable {C : Call → Db → Prop} (hs : Reachable h parseSlip C s) :
    Rates (fun _ rateBps ↦ 0 ≤ rateBps) s :=
  rates_of_reachable (fun region _ hseed ↦ (seeds_untaxed region hseed).1)
    (fun _ _ _ _ _ hlow _ ↦ hlow) hs

/-- A run that leaves the exempt codes untaxed never lets two boxes overlap. -/
theorem untaxed_of_reachable (hs : Reachable h parseSlip (fun c _ ↦ KeepsExempt c) s)
    (region : String) : ∀ r ∈ s.vatRates, ¬Overlaps (profileOrGeneric region) r := by
  have hrates : Rates (fun code rateBps ↦ ∀ region',
      (profileOrGeneric region').isExemptCode code = true → rateBps = 0) s := by
    refine rates_of_reachable (fun region _ hseed ↦ (seeds_untaxed region hseed).2) ?_ hs
    intro id code rateBps _ hc hlow _ region' hexempt
    by_contra hne
    have huntaxed := hc id code rateBps rfl (by omega) region'
    rw [hexempt] at huntaxed
    cases huntaxed
  rintro r hr ⟨hpos, hexempt⟩
  have hzero := hrates.all r hr region hexempt
  omega

end Boxes

section Charges

/-- The stores that a run passes through, inside its transactions as well. -/
abbrev Passes (h : Host) (D : Call → Prop) : Db → Db → Prop :=
  ReflTransGen (Change h D)

theorem passes_of_run {C : Call → Db → Prop} {D : Call → Prop} (hD : ∀ c s, C c s → D c)
    (hrun : ReflTransGen (Step h parseSlip C) s s') : Passes h D s s' := by
  induction hrun with
  | refl => exact .refl
  | tail _ hstep ih => exact ih.trans (changes_of_step hD hstep)

def TaxedAs (s : Db) (k bookId code : String) : Prop :=
  ∃ rate, lookup VatRate.id s.vatRates k = some rate ∧ rate.bookId = bookId ∧ rate.code = code ∧
    0 < rate.rateBps

/-- The calls that leave the rate of a code taxed. -/
def LeavesTaxed (bookId code : String) (c : Call) : Prop :=
  ∀ rateBps, c = .vatRateSetBps bookId code rateBps → 0 < rateBps

theorem taxedAs_change {k code : String} (hdistinct : RatesDistinct s)
    (hs : TaxedAs s k bookId code) (hchange : Change h (LeavesTaxed bookId code) s s') :
    TaxedAs s' k bookId code := by
  obtain ⟨rate, hrate, rfl, rfl, hpos⟩ := hs
  cases hchange with
  | ledger _ _ hstep =>
    rcases posted_or_other hstep with ⟨_, _, _, _, -, -, -, rfl⟩ | hother
    · exact ⟨rate, hrate, rfl, rfl, hpos⟩
    · exact ⟨rate, hother.vatRates k rate hrate, rfl, rfl, hpos⟩
  | other hother => exact ⟨rate, hother.vatRates k rate hrate, rfl, rfl, hpos⟩
  | lock => exact ⟨rate, hrate, rfl, rfl, hpos⟩
  | @rate r rateBps hr hc =>
    have hlook : lookup VatRate.id (withRate s r.id rateBps).vatRates k =
        (lookup VatRate.id s.vatRates k).map fun r' ↦
          if r'.id = r.id then { r' with rateBps } else r' :=
      lookup_update (fun r : VatRate ↦ { r with rateBps }) (fun _ ↦ rfl) r.id
    rw [hrate, Option.map_some] at hlook
    by_cases hid : rate.id = r.id
    · obtain rfl := List.inj_on_of_nodup_map hdistinct (lookup_eq_some hrate).1 hr hid
      rw [if_pos rfl] at hlook
      exact ⟨_, hlook, rfl, rfl, hc rateBps rfl⟩
    · rw [if_neg hid] at hlook
      exact ⟨rate, hlook, rfl, rfl, hpos⟩

theorem taxedAs_of_passes {k code : String} (hdistinct : RatesDistinct s)
    (hs : TaxedAs s k bookId code) (hpasses : Passes h (LeavesTaxed bookId code) s s') :
    RatesDistinct s' ∧ TaxedAs s' k bookId code := by
  induction hpasses with
  | refl => exact ⟨hdistinct, hs⟩
  | tail _ hchange ih =>
    exact ⟨ratesDistinct_change ih.1 hchange, taxedAs_change ih.1 ih.2 hchange⟩

structure Orderly (s : Db) : Prop where
  sound : Sound s
  consistent : Consistent s
  distinct : RatesDistinct s

theorem orderly_empty : Orderly {} :=
  ⟨sound_empty, consistent_empty, by simp [RatesDistinct]⟩

theorem Orderly.passes {D : Call → Prop} (hs : Orderly s) (hpasses : Passes h D s s') :
    Orderly s' := by
  induction hpasses with
  | refl => exact hs
  | tail _ hchange ih =>
    exact ⟨ih.sound.change ih.consistent hchange, ih.consistent.change hchange,
      ratesDistinct_change ih.distinct hchange⟩

theorem Orderly.posted {book : Book} {new : NewJournal} {lines : List NewJournalLine}
    (hs : Orderly s) (hposts : Posts h s book new none lines) :
    Orderly (withPosted s (postedJournal h s book new none lines)) := by
  have hstep : LedgerStep h (.journalPost new) [.book book] s
      (withPosted s (postedJournal h s book new none lines)) := .post (by simp) hposts
  exact ⟨hs.sound.step hs.consistent hstep, hs.consistent.step hstep, hs.distinct⟩

def CountedStandard (s : Db) (l : JournalLine) : Prop :=
  ∀ bookId fromDate toDate currency profile summary,
    taxPeriodSummary s bookId fromDate toDate currency profile = .ok summary →
    l ∈ taxLines s bookId fromDate toDate currency →
    ∃ row ∈ summary.rows, row.vatRateId = l.vatRateId ∧ 0 < row.rateBps

def CountedUntaxed (s : Db) (l : JournalLine) : Prop :=
  ∀ bookId fromDate toDate currency profile summary,
    taxPeriodSummary s bookId fromDate toDate currency profile = .ok summary →
    l ∈ taxLines s bookId fromDate toDate currency →
    ∃ row ∈ summary.rows, row.vatRateId = l.vatRateId ∧ row.rateBps = 0

theorem exists_row (hs : Orderly s) {l : JournalLine} {profile : RegionProfile}
    {summary : TaxPeriodSummary}
    (hsummary : taxPeriodSummary s bookId fromDate toDate currency profile = .ok summary)
    (hl : l ∈ taxLines s bookId fromDate toDate currency) :
    ∃ row ∈ summary.rows, row.vatRateId = l.vatRateId ∧ row.rateBps = rateBpsOf s l.vatRateId := by
  have hof := taxPeriodSummary_eq_ok hs.sound hs.consistent hsummary
  obtain ⟨row, hrow, hid⟩ := List.mem_map.1 ((hof.mem l.vatRateId).2 ⟨l, hl, rfl⟩)
  exact ⟨row, hrow, hid, hid ▸ hof.rateBps row hrow⟩

theorem countedStandard_of_taxed (hs : Orderly s) {l : JournalLine} {k code : String}
    (hl : l.vatRateId = some k) (htaxed : TaxedAs s k bookId code) : CountedStandard s l := by
  intro _ _ _ _ _ summary hsummary hmem
  obtain ⟨row, hrow, hid, hbps⟩ := exists_row hs hsummary hmem
  obtain ⟨rate, hrate, -, -, hpos⟩ := htaxed
  refine ⟨row, hrow, hid, ?_⟩
  rw [hbps, rateBpsOf, hl, Option.bind_some, hrate]
  exact hpos

theorem countedUntaxed_of_untagged (hs : Orderly s) {l : JournalLine}
    (hl : l.vatRateId = none) : CountedUntaxed s l := by
  intro _ _ _ _ _ summary hsummary hmem
  obtain ⟨row, hrow, hid, hbps⟩ := exists_row hs hsummary hmem
  refine ⟨row, hrow, hid, ?_⟩
  rw [hbps, rateBpsOf, hl]
  rfl

theorem mem_of_foldl_choice {l : List VatRate} {best : Option VatRate} {r : VatRate}
    (hbest : l.foldl (fun best r ↦
      match best with
      | none => some r
      | some b =>
        if toLex (decide (r.code = "EXE"), r.code) < toLex (decide (b.code = "EXE"), b.code) then
          some r
        else some b) best = some r) : r ∈ l ∨ best = some r := by
  induction l generalizing best with
  | nil => exact .inr hbest
  | cons a l ih =>
    rw [List.foldl_cons] at hbest
    rcases ih hbest with hmem | hbest
    · exact .inl (List.mem_cons_of_mem a hmem)
    · cases best with
      | none => exact .inl (by simp_all)
      | some b =>
        dsimp only at hbest
        split at hbest
        · exact .inl (by simp_all)
        · exact .inr hbest

theorem rateFor_eq_some {rates : List VatRate} {bps : ℤ} {r : VatRate}
    (hr : rateFor rates bps = some r) : r ∈ rates ∧ r.isActive = true ∧ r.rateBps = bps := by
  rcases mem_of_foldl_choice hr with hmem | hnone
  · obtain ⟨hmem, hboth⟩ := List.mem_filter.1 hmem
    exact ⟨hmem, (of_decide_eq_true hboth).1, (of_decide_eq_true hboth).2⟩
  · cases hnone

/-- The revenue of a sale is posted in one line for each rate, tagged with an active rate of its
percentage if the book has one. -/
theorem postRevenueArJournal_lines {book : Book} {postedDate narrative reference
    sourceId : String} {linesIn : List (ℤ × ℤ × ℤ)} {sourceType : JournalSourceType} :
    Ensures (postRevenueArJournal h book currency linesIn postedDate narrative reference sourceType
      sourceId) s fun _ s' ↦ s' = s ∨ ∃ new posted, Posts h s book new none posted ∧
        s' = withPosted s (postedJournal h s book new none posted) ∧
        ∀ bps net vat, (bps, net, vat) ∈ revenueGroups linesIn → net ≠ 0 →
          ∃ revenue, journalLine currency none revenue 0 net
            (revenueRateFor (listVatRates s book.id) bps) (some .outputBase) ∈ new.lines := by
  rw [postRevenueArJournal]
  simp only [ensures_ite, ensures_bind, ensures_get, ensures_pure]
  refine ⟨fun _ ↦ .inl trivial, fun _ ↦ ?_⟩
  split
  · rename_i revenue _ _
    simp only [ensures_ite, ensures_bind, ensures_pure, ensures_check]
    refine ⟨fun _ ↦ .inl trivial, fun _ _ _ ↦ postJournalInTx_ensures.mono ?_⟩
    rintro p s' ⟨posted, hposts, rfl, rfl⟩
    refine .inr ⟨_, posted, hposts, rfl, fun bps net vat hgroup hnet ↦ ⟨revenue, ?_⟩⟩
    refine List.mem_cons_of_mem _ (List.mem_flatMap.2 ⟨_, hgroup, ?_⟩)
    simp [hnet]
  · exact (ensures_pure _).2 (.inl rfl)

theorem exists_posted_line {book : Book} {new : NewJournal} {posted : List NewJournalLine}
    (hs : Consistent s) (hposts : Posts h s book new none posted) {line : NewJournalLine}
    (hline : line ∈ new.lines) :
    ∃ l ∈ (withPosted s (postedJournal h s book new none posted)).journalLines,
      l ∉ s.journalLines ∧ l.bookId = book.id ∧ l.creditMinor = line.creditMinor ∧
        l.vatRateId = line.vatRateId ∧ l.vatRole = line.vatRole := by
  obtain ⟨line', hline', hnormal⟩ := mem_of_forall₂_left hposts.accepted.normalized hline
  obtain ⟨-, heq⟩ := normalizeLine_eq_ok.1 hnormal
  have hcontent : line' ∈ (postedJournal h s book new none posted).lines.map content := by
    rw [postedJournal, map_content_storedLines]
    exact hline'
  obtain ⟨l, hl, rfl⟩ := List.mem_map.1 hcontent
  obtain ⟨hid, hbook, -⟩ := journalId_of_mem hl
  refine ⟨l, List.mem_append_right _ hl, fun hold ↦ hs.fresh hposts l hold hid, hbook, ?_⟩
  exact ⟨congrArg NewJournalLine.creditMinor heq, congrArg NewJournalLine.vatRateId heq,
    congrArg NewJournalLine.vatRole heq⟩

/-- The line of a sale at a positive rate is counted as standard-rated as long as its rate is
taxed if the posting found a rate, and never otherwise. -/
theorem charged_of_posted {book : Book} {new : NewJournal} {posted : List NewJournalLine}
    (hs : Orderly s) (hposts : Posts h s book new none posted) {revenue : CoaAccount}
    {bps net : ℤ} (hbps : 0 < bps)
    (hline : journalLine currency none revenue 0 net
      (revenueRateFor (listVatRates s book.id) bps) (some .outputBase) ∈ new.lines) :
    ∃ l ∈ (withPosted s (postedJournal h s book new none posted)).journalLines,
      l ∉ s.journalLines ∧ l.bookId = book.id ∧ l.vatRole = some .outputBase ∧
      l.creditMinor = net ∧
      (∀ r, rateFor (listVatRates s book.id) bps = some r →
        ∀ s', Passes h (LeavesTaxed r.bookId r.code)
          (withPosted s (postedJournal h s book new none posted)) s' → CountedStandard s' l) ∧
      (rateFor (listVatRates s book.id) bps = none → ∀ D s', Passes h D
        (withPosted s (postedJournal h s book new none posted)) s' → CountedUntaxed s' l) := by
  have hafter := hs.posted hposts
  obtain ⟨l, hl, hnew, hbook, hcredit, hrate, hrole⟩ :=
    exists_posted_line hs.consistent hposts hline
  have hfound : revenueRateFor (listVatRates s book.id) bps =
      rateFor (listVatRates s book.id) bps := if_neg (not_le.2 hbps)
  rw [hfound] at hrate
  refine ⟨l, hl, hnew, hbook, hrole, hcredit, fun r hr s' hpasses ↦ ?_, fun hnone D s' hpasses ↦ ?_⟩
  · obtain ⟨hmem, -, hrbps⟩ := rateFor_eq_some hr
    simp only [listVatRates, List.mem_insertionSort, List.mem_filter] at hmem
    have htag : l.vatRateId = some r.id := by rw [hrate, hr]; rfl
    have htaxed : TaxedAs (withPosted s (postedJournal h s book new none posted)) r.id r.bookId
        r.code :=
      ⟨r, lookup_of_mem (List.pairwise_map.1 hs.distinct) hmem.1, rfl, rfl, hrbps ▸ hbps⟩
    exact countedStandard_of_taxed (hafter.passes hpasses) htag
      (taxedAs_of_passes hafter.distinct htaxed hpasses).2
  · have htag : l.vatRateId = none := by rw [hrate, hnone]; rfl
    exact countedUntaxed_of_untagged (hafter.passes hpasses) htag

end Charges

/-- When the boxes of the return are a partition and the charged sales are among the
standard-rated ones: as long as no exempt code is taxed, the book has an active rate of the
percentage of each sale, and that rate stays taxed. -/
theorem supply_boxes (h : Host) (parseSlip : String → Except Fault SlipPayload) :
    (∀ s, Reachable h parseSlip anyCall s →
      ∀ bookId fromDate toDate currency profile summary,
        taxPeriodSummary s bookId fromDate toDate currency profile = .ok summary →
          (Partitioned profile summary ↔
            ∀ l ∈ taxLines s bookId fromDate toDate currency, ∀ k, l.vatRateId = some k →
              ∀ rate, lookup VatRate.id s.vatRates k = some rate → ¬Overlaps profile rate)) ∧
    (∀ s, Reachable h parseSlip (fun c _ ↦ KeepsExempt c) s →
      ∀ bookId fromDate toDate currency region summary,
        taxPeriodSummary s bookId fromDate toDate currency (profileOrGeneric region) =
          .ok summary → Partitioned (profileOrGeneric region) summary) ∧
    (∀ D s, Passes h D {} s → ∀ l ∈ s.journalLines, ∀ k bookId code, l.vatRateId = some k →
      TaxedAs s k bookId code → ∀ s', Passes h (LeavesTaxed bookId code) s s' →
        CountedStandard s' l) ∧
    ∀ D s, Passes h D {} s → ∀ book currency linesIn postedDate narrative reference sourceType
      sourceId s', postRevenueArJournal h book currency linesIn postedDate narrative reference
        sourceType sourceId s = .ok ((), s') → s' = s ∨
      ∀ bps net vat, (bps, net, vat) ∈ revenueGroups linesIn → 0 < bps → net ≠ 0 →
        ∃ l ∈ s'.journalLines, l ∉ s.journalLines ∧ l.bookId = book.id ∧
          l.vatRole = some .outputBase ∧ l.creditMinor = net ∧
          (∀ r, rateFor (listVatRates s book.id) bps = some r →
            ∀ s'', Passes h (LeavesTaxed r.bookId r.code) s' s'' → CountedStandard s'' l) ∧
          (rateFor (listVatRates s book.id) bps = none →
            ∀ D s'', Passes h D s' s'' → CountedUntaxed s'' l) := by
  refine ⟨fun s hs bookId fromDate toDate currency profile summary hsummary ↦ ?_,
    fun s hs bookId fromDate toDate currency region summary hsummary ↦ ?_,
    fun D s hs l hl k bookId code hk htaxed s' hpasses ↦ ?_,
    fun D s hs book currency linesIn postedDate narrative reference sourceType sourceId s' hrun ↦ ?_⟩
  · exact partitioned_iff (nonneg_of_reachable hs)
      (taxPeriodSummary_eq_ok (sound_of_reachable hs) (consistent_of_reachable hs) hsummary)
  · refine (partitioned_iff (nonneg_of_reachable hs) (taxPeriodSummary_eq_ok
      (sound_of_reachable hs) (consistent_of_reachable hs) hsummary)).2 fun _ _ _ _ rate hrate ↦ ?_
    exact untaxed_of_reachable hs region rate (lookup_eq_some hrate).1
  · have horderly := orderly_empty.passes hs
    exact countedStandard_of_taxed (horderly.passes hpasses) hk
      (taxedAs_of_passes horderly.distinct htaxed hpasses).2
  · rcases postRevenueArJournal_lines _ _ hrun with rfl | ⟨new, posted, hposts, rfl, hlines⟩
    · exact .inl rfl
    · refine .inr fun bps net vat hgroup hbps hnet ↦ ?_
      obtain ⟨revenue, hline⟩ := hlines bps net vat hgroup hnet
      exact charged_of_posted (orderly_empty.passes hs) hposts hbps hline

def chargedInvoice : Call :=
  .invoiceIssue
    { bookId := "book"
      contactId := some "contact"
      salesOrderId := none
      series := none
      issueDate := none
      dueDate := "2025-07-15"
      currency := none
      notes := none
      items := [⟨none, "Product", 1, 1000, some 1500⟩] }

/-- The supply under a taxed exempt code is in two boxes, and an invoice with 150 of tax is
zero-rated when no rate of the book has its percentage. -/
theorem supply_boxes_fail :
    (¬∀ s, Reachable plainHost noSlip anyCall s → ∀ bookId fromDate toDate currency summary,
      taxPeriodSummary s bookId fromDate toDate currency za = .ok summary →
        Partitioned za summary) ∧
    (taxPeriodSummary (runs setup [.coaSeed "book", .vatRateSetBps "book" "STD" 1600,
      chargedInvoice]) "book" "2025-06-01" "2025-06-30" "ZAR" za).toOption.map
        (fun r ↦ (r.standardRatedSuppliesMinor, r.zeroRatedSuppliesMinor, r.outputVatMinor)) =
          some (0, 1000, 150) := by
  refine ⟨fun hclaim ↦ ?_, by decide +kernel⟩
  have hboxes : (taxPeriodSummary (runs setup [.coaSeed "book", .vatRateSetBps "book" "STD" 0,
      .vatRateSetBps "book" "EXE" 1500, chargedInvoice]) "book" "2025-06-01" "2025-06-30" "ZAR"
        za).toOption.map (fun r ↦ (r.standardRatedSuppliesMinor + r.zeroRatedSuppliesMinor +
          r.exemptSuppliesMinor, r.rows.map TaxSummaryRow.outputBaseMinor)) =
            some (2000, [1000]) := by decide +kernel
  obtain ⟨summary, hsummary, hsums⟩ := Option.map_eq_some_iff.1 hboxes
  have hok : taxPeriodSummary (runs setup [.coaSeed "book", .vatRateSetBps "book" "STD" 0,
      .vatRateSetBps "book" "EXE" 1500, chargedInvoice]) "book" "2025-06-01" "2025-06-30" "ZAR"
        za = .ok summary := by
    generalize taxPeriodSummary _ _ _ _ _ _ = r at hsummary
    cases r with
    | error e => cases hsummary
    | ok r => exact congrArg Except.ok (Option.some.inj hsummary)
  have hpart := (hclaim _ (reachable_runs reachable_setup _) _ _ _ _ _ hok).total
  obtain ⟨hleft, hright⟩ := Prod.mk.inj hsums
  rw [hleft, hright] at hpart
  exact absurd hpart (by decide)

theorem supply_boxes_of_invoice :
    (∃ summary, taxPeriodSummary (runs setup [.coaSeed "book", chargedInvoice]) "book"
        "2025-06-01" "2025-06-30" "ZAR" (profileOrGeneric "ZA") = .ok summary ∧
      Partitioned (profileOrGeneric "ZA") summary) ∧
    ∃ l ∈ (runs setup [.coaSeed "book", chargedInvoice]).journalLines,
      l.vatRole = some .outputBase ∧ l.creditMinor = 1000 ∧ CountedStandard
        (runs (runs setup [.coaSeed "book", chargedInvoice]) [.vatRateSetBps "book" "ZER" 100]) l := by
  have hboxes := supply_boxes plainHost noSlip
  obtain ⟨-, hpart, hcharged, -⟩ := hboxes
  have hreach : Reachable plainHost noSlip (fun c _ ↦ KeepsExempt c)
      (runs setup [.coaSeed "book", chargedInvoice]) :=
    reachable_runs_of reachable_setup _ (by simp [KeepsExempt, chargedInvoice])
  constructor
  · cases hsummary : taxPeriodSummary (runs setup [.coaSeed "book", chargedInvoice]) "book"
        "2025-06-01" "2025-06-30" "ZAR" (profileOrGeneric "ZA") with
    | error e =>
      have hsome : (taxPeriodSummary (runs setup [.coaSeed "book", chargedInvoice]) "book"
        "2025-06-01" "2025-06-30" "ZAR" (profileOrGeneric "ZA")).toOption.isSome = true := by
        decide +kernel
      rw [hsummary] at hsome
      cases hsome
    | ok summary => exact ⟨summary, rfl, hpart _ hreach _ _ _ _ _ summary hsummary⟩
  · have hline : ∃ l ∈ (runs setup [.coaSeed "book", chargedInvoice]).journalLines,
        l.vatRole = some .outputBase ∧ l.creditMinor = 1000 ∧ l.vatRateId = some (seeded 37) := by
      decide +kernel
    have hrate : lookup VatRate.id (runs setup [.coaSeed "book", chargedInvoice]).vatRates
        (seeded 37) = some ⟨seeded 37, "book", "STD", "Standard rate (15%)", 1500, true⟩ := by
      decide +kernel
    obtain ⟨l, hl, hrole, hcredit, hid⟩ := hline
    refine ⟨l, hl, hrole, hcredit, ?_⟩
    refine hcharged (fun _ ↦ True) _ (passes_of_run (fun _ _ _ ↦ trivial) hreach) l hl _ "book"
      "STD" hid ⟨_, hrate, rfl, rfl, by decide⟩ _ ?_
    exact changes_of_run fun rateBps hc ↦ absurd (Call.vatRateSetBps.inj hc).2.1 (by decide)

end SlipScan.Ledger.SupplyBoxes
