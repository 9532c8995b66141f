import SlipScan.Ledger.Lock

namespace SlipScan.Ledger.TaxStability

open Model.Domain Model.Database Model.Ledger Model.Region Model.Period Model.Reports Model.Slip
  Model.Service Model.PlainHost Foundation.Transaction Foundation.Interleaving Foundation.Table
  Foundation.Calendar Dates Posting Steps Calls Runs Lines Consistency Soundness Lock Relation

variable {h : Host} {parseSlip : String → Except Fault SlipPayload} {s s' : Db}
  {bookId D fromDate toDate currency : String}

section Rates

def RatesDistinct (s : Db) : Prop :=
  (s.vatRates.map VatRate.id).Nodup

theorem ratesDistinct_change {D' : Call → Prop} (hs : RatesDistinct s)
    (hchange : Change h D' s s') : RatesDistinct s' := by
  cases hchange with
  | ledger _ _ hstep =>
    rcases posted_or_other hstep with ⟨_, _, _, _, -, -, -, rfl⟩ | hother
    · exact hs
    · exact hother.rateNodup hs
  | other hother => exact hother.rateNodup hs
  | lock => exact hs
  | @rate r rateBps =>
    have hids : (withRate s r.id rateBps).vatRates.map VatRate.id = s.vatRates.map VatRate.id :=
      map_update_of_eq (fun r : VatRate ↦ { r with rateBps }) (fun _ ↦ rfl) r.id
    rw [RatesDistinct, hids]
    exact hs

theorem ratesDistinct_of_reachable {C : Call → Db → Prop} (hs : Reachable h parseSlip C s) :
    RatesDistinct s := by
  have hempty : RatesDistinct {} := by simp [RatesDistinct]
  exact invariant_of_changes hempty (fun _ _ ht hchange ↦ ratesDistinct_change ht hchange) hs

/-- The calls that leave the rates alone that tax lines of the range are tagged with. -/
def LeavesRates (s : Db) (bookId fromDate toDate : String) (c : Call) : Prop :=
  ∀ id code rateBps, c = .vatRateSetBps id code rateBps → ∀ currency,
    ∀ l ∈ taxLines s bookId fromDate toDate currency, ∀ k, l.vatRateId = some k →
      ∀ rate, lookup VatRate.id s.vatRates k = some rate → ¬(rate.bookId = id ∧ rate.code = code)

theorem rate_change {D' : Call → Prop} (hdistinct : RatesDistinct s) {k : String} {rate : VatRate}
    (hrate : lookup VatRate.id s.vatRates k = some rate)
    (hD : ∀ rateBps, ¬D' (.vatRateSetBps rate.bookId rate.code rateBps))
    (hchange : Change h D' s s') : lookup VatRate.id s'.vatRates k = some rate := by
  cases hchange with
  | ledger _ _ hstep =>
    rcases posted_or_other hstep with ⟨_, _, _, _, -, -, -, rfl⟩ | hother
    · exact hrate
    · exact hother.vatRates k rate hrate
  | other hother => exact hother.vatRates k rate hrate
  | lock => exact hrate
  | @rate r rateBps hr hc =>
    have hlook : lookup VatRate.id (withRate s r.id rateBps).vatRates k =
        (lookup VatRate.id s.vatRates k).map fun r' ↦
          if r'.id = r.id then { r' with rateBps } else r' :=
      lookup_update (fun r : VatRate ↦ { r with rateBps }) (fun _ ↦ rfl) r.id
    rw [hlook, hrate, Option.map_some, if_neg]
    intro hid
    have hself := lookup_of_mem (List.pairwise_map.1 hdistinct) hr
    obtain ⟨-, rfl⟩ := lookup_eq_some hrate
    rw [← hid, hrate] at hself
    obtain rfl := Option.some.inj hself
    exact hD rateBps hc

theorem rate_of_run {C : Call → Db → Prop} (hdistinct : RatesDistinct s) {k : String}
    {rate : VatRate} (hrate : lookup VatRate.id s.vatRates k = some rate)
    (hC : ∀ rateBps t, ¬C (.vatRateSetBps rate.bookId rate.code rateBps) t)
    (hrun : ReflTransGen (Step h parseSlip C) s s') :
    lookup VatRate.id s'.vatRates k = some rate := by
  have hkept : ∀ {t t'}, RatesDistinct t ∧ lookup VatRate.id t.vatRates k = some rate →
      ReflTransGen (Change h fun c ↦ ∃ u, C c u) t t' →
        RatesDistinct t' ∧ lookup VatRate.id t'.vatRates k = some rate := by
    intro t t' ht hchanges
    induction hchanges with
    | refl => exact ht
    | tail _ hchange ih =>
      have hset : ∀ rateBps, ¬∃ u, C (.vatRateSetBps rate.bookId rate.code rateBps) u :=
        fun rateBps ⟨u, hu⟩ ↦ hC rateBps u hu
      exact ⟨ratesDistinct_change ih.1 hchange, rate_change ih.1 ih.2 hset hchange⟩
  have hend : RatesDistinct s' ∧ lookup VatRate.id s'.vatRates k = some rate := by
    induction hrun with
    | refl => exact ⟨hdistinct, hrate⟩
    | tail _ hstep ih => exact hkept ih (changes_of_step (fun _ u hu ↦ ⟨u, hu⟩) hstep)
  exact hend.2

end Rates

section Summary

theorem taxLines_eq : taxLines s bookId fromDate toDate currency =
    linesOf s fun l j ↦ (l.bookId = bookId && l.vatRole ≠ none && l.currency = currency) &&
      (fromDate ≤ j.postedDate && j.postedDate ≤ toDate) := by
  refine List.filter_congr fun l _ ↦ Bool.eq_iff_iff.2 ?_
  by_cases hl : l.bookId = bookId ∧ l.vatRole ≠ none ∧ l.currency = currency
  · simp [hl.1, hl.2.1, hl.2.2]
  · simp only [decide_eq_true_eq, List.any_eq_true, Bool.and_eq_true]
    constructor
    · intro hall
      exact absurd ⟨hall.1, hall.2.1, hall.2.2.1⟩ hl
    · rintro ⟨j, -, -, hall, -⟩
      exact absurd ⟨hall.1.1, by simpa using hall.1.2, hall.2⟩ hl

theorem mapM_congr {α β ε : Type} {f g : α → Except ε β} {l : List α}
    (hfg : ∀ a ∈ l, f a = g a) : l.mapM f = l.mapM g := by
  induction l with
  | nil => rfl
  | cons a l ih =>
    rw [List.mapM_cons, List.mapM_cons, hfg a (by simp),
      ih fun b hb ↦ hfg b (List.mem_cons_of_mem a hb)]

theorem mem_taxGroups {lines : List JournalLine} {group : Option String × VatRole} :
    group ∈ taxGroups lines ↔ ∃ l ∈ lines, l.vatRateId = group.1 ∧ l.vatRole = some group.2 := by
  simp only [taxGroups, List.mem_insertionSort, List.mem_dedup, List.mem_filterMap,
    Option.map_eq_some_iff]
  constructor
  · rintro ⟨l, hl, role, hrole, rfl⟩
    exact ⟨l, hl, rfl, hrole⟩
  · rintro ⟨l, hl, hid, hrole⟩
    exact ⟨l, hl, group.2, hrole, Prod.ext hid rfl⟩

/-- The return depends on the tax lines of the range and on the rates that they are tagged with. -/
theorem taxPeriodSummary_congr {profile : RegionProfile}
    (hlines : taxLines s' bookId fromDate toDate currency =
      taxLines s bookId fromDate toDate currency)
    (hrates : ∀ l ∈ taxLines s bookId fromDate toDate currency, ∀ k, l.vatRateId = some k →
      lookup VatRate.id s'.vatRates k = lookup VatRate.id s.vatRates k) :
    taxPeriodSummary s' bookId fromDate toDate currency profile =
      taxPeriodSummary s bookId fromDate toDate currency profile := by
  have hslices : taxSlices s' (taxLines s bookId fromDate toDate currency) =
      taxSlices s (taxLines s bookId fromDate toDate currency) := by
    rw [taxSlices, taxSlices]
    refine congrArg (· >>= _) (mapM_congr fun group hgroup ↦ ?_)
    obtain ⟨l, hl, hid, -⟩ := mem_taxGroups.1 hgroup
    have hrate : group.1.bind (lookup VatRate.id s'.vatRates) =
        group.1.bind (lookup VatRate.id s.vatRates) := by
      cases hk : group.1 with
      | none => rfl
      | some k => exact hrates l hl k (hid.trans hk)
    simp only [taxSlice, hrate]
  rw [taxPeriodSummary, taxPeriodSummary, hlines, hslices]

end Summary

/-- The tax return of a period that is closed through a day in the plain form stays the same until
the period is reopened, the lock date is set back, or the percentage of a rate is set that its lines
are tagged with. -/
theorem tax_return_stable (h : Host) (hreads : ReadsDays h)
    (parseSlip : String → Except Fault SlipPayload) (s : Db) (bookId D : String) (day : Date)
    (hs : Reachable h parseSlip anyCall s) (hlock : lockDateOf s bookId = some D)
    (hD : PlainDay D day) (fromDate toDate : String) (stop : Date)
    (hstop : h.parseDate toDate = some stop) (hrange : stop.number ≤ day.number)
    (s' : Db) (hrun : ReflTransGen (Step h parseSlip fun c _ ↦
      LeavesClosed h bookId day c ∧ LeavesRates s bookId fromDate toDate c) s s')
    (currency : String) (profile : RegionProfile) :
    taxPeriodSummary s' bookId fromDate toDate currency profile =
      taxPeriodSummary s bookId fromDate toDate currency profile := by
  obtain ⟨hday, rfl⟩ := hD
  have hcons := consistent_of_reachable hs
  have hclosed : ReflTransGen (Step h parseSlip fun c _ ↦ LeavesClosed h bookId day c) s s' :=
    hrun.lift id fun _ _ hstep ↦ hstep.mono fun _ _ hc ↦ hc.1
  obtain ⟨hfrozen, -⟩ := frozen_of_run hday hcons ⟨_, hlock, le_rfl⟩ hclosed
  have hto : toDate ≤ dayText day := le_dayText hreads hday hstop hrange
  have hlines : taxLines s' bookId fromDate toDate currency =
      taxLines s bookId fromDate toDate currency := by
    rw [taxLines_eq, taxLines_eq]
    refine hfrozen.lines _ fun l j hlj ↦ ?_
    simp only [Bool.and_eq_true, decide_eq_true_eq] at hlj
    exact ⟨hlj.1.1.1, hlj.2.2.trans hto⟩
  refine taxPeriodSummary_congr hlines fun l hl k hk ↦ ?_
  have hstored := hcons.rates l (List.mem_filter.1 hl).1 k hk
  obtain ⟨rate, hrate⟩ := Option.isSome_iff_exists.1 hstored
  rw [hrate]
  refine rate_of_run (ratesDistinct_of_reachable hs) hrate (fun rateBps t hc ↦ ?_) hrun
  exact hc.2 _ _ rateBps rfl currency l hl k hk rate hrate ⟨rfl, rfl⟩

def seeded (n : ℕ) : String :=
  plainHost.newId n

def taxedSale (date : String) : Call :=
  .journalPost
    { bookId := "book"
      postedDate := date
      narrative := none
      reference := none
      sourceType := .manual
      sourceId := none
      lines := [⟨seeded 0, 100, 0, "ZAR", none, none, none⟩,
        ⟨seeded 16, 0, 100, "ZAR", none, some (seeded 37), some .outputBase⟩] }

def taxedBooks : Db :=
  runs setup [.coaSeed "book", taxedSale "2025-01-31", .closePeriod "book" "2025-06-30"]

/-- The percentage of the standard rate is set to nought, and the sale turns zero-rated. -/
theorem closed_return_changes_with_rate :
    ¬∀ s bookId D day, Reachable plainHost noSlip anyCall s → lockDateOf s bookId = some D →
      PlainDay D day → ∀ fromDate toDate stop, plainHost.parseDate toDate = some stop →
        stop.number ≤ day.number → ∀ s', ReflTransGen (Step plainHost noSlip fun c _ ↦
            ∀ id toDate reason, c ≠ .reopenPeriod id toDate reason) s s' →
          ∀ currency profile, taxPeriodSummary s' bookId fromDate toDate currency profile =
            taxPeriodSummary s bookId fromDate toDate currency profile := by
  intro hclaim
  have hrun : ReflTransGen (Step plainHost noSlip fun c _ ↦
      ∀ id toDate reason, c ≠ .reopenPeriod id toDate reason) taxedBooks
        (runs taxedBooks [.vatRateSetBps "book" "STD" 0]) :=
    .single (.call _ (by simp))
  have hreturn := hclaim taxedBooks "book" "2025-06-30" lastOfJune (reachable_runs reachable_setup _)
    (by decide +kernel) plainDay_lastOfJune "2025-01-01" "2025-06-30" lastOfJune (by decide +kernel)
    le_rfl _ hrun "ZAR" za
  have hstandard := congrArg (·.toOption.map TaxPeriodSummary.standardRatedSuppliesMinor) hreturn
  exact absurd hstandard (by decide +kernel)

theorem tax_return_stable_of_sale :
    (taxPeriodSummary (runs taxedBooks [.vatRateSetBps "book" "ZER" 100, taxedSale "2025-07-01"])
        "book" "2025-01-01" "2025-06-30" "ZAR" za).toOption.map
          TaxPeriodSummary.standardRatedSuppliesMinor = some 100 := by
  have hzero : LeavesRates taxedBooks "book" "2025-01-01" "2025-06-30"
      (.vatRateSetBps "book" "ZER" 100) := by
    intro id code rateBps hc currency l hl k hk rate hrate
    obtain ⟨rfl, rfl, rfl⟩ := Call.vatRateSetBps.inj hc
    have hlines : ∀ l ∈ taxedBooks.journalLines, ∀ k ∈ l.vatRateId,
        ∀ rate ∈ lookup VatRate.id taxedBooks.vatRates k, rate.code = "STD" := by
      decide +kernel
    have hcode := hlines l (List.mem_filter.1 hl).1 k hk rate hrate
    simp [hcode]
  have hrun : ReflTransGen (Step plainHost noSlip fun c _ ↦
      LeavesClosed plainHost "book" lastOfJune c ∧
      LeavesRates taxedBooks "book" "2025-01-01" "2025-06-30" c) taxedBooks
        (runs taxedBooks [.vatRateSetBps "book" "ZER" 100, taxedSale "2025-07-01"]) :=
    .tail (.single (.call _ ⟨by simp [LeavesClosed], hzero⟩))
      (.call _ ⟨by simp [taxedSale, LeavesClosed], fun _ _ _ hc ↦ by cases hc⟩)
  have hreturn := tax_return_stable plainHost readsDays_plainHost noSlip taxedBooks "book"
    "2025-06-30" lastOfJune (reachable_runs reachable_setup _) (by decide +kernel)
    plainDay_lastOfJune "2025-01-01" "2025-06-30" lastOfJune (by decide +kernel) le_rfl _ hrun
    "ZAR" za
  rw [hreturn]
  decide +kernel

end SlipScan.Ledger.TaxStability
