import SlipScan.Arithmetic.Words
import SlipScan.Foundation.Selection
import SlipScan.Ledger.Calls
import SlipScan.Ledger.Generation

namespace SlipScan.Ledger.SlipGroups

open Model.Domain Model.Database Model.Ledger Model.Money Model.Slip Model.Generate Model.PlainHost
  Foundation.Transaction Foundation.Interleaving Foundation.Table Foundation.Grouping
  Foundation.Accumulation Foundation.Selection Posting Calls Lines Acceptance Generation Amounts
  Arithmetic.Vat Arithmetic.Words
  Process SlipPayload

section Items

def itemRate (item : SlipLineItem) : Option ℤ :=
  some (item.vatRateBps.getD 0)

def itemVat (item : SlipLineItem) : ℤ :=
  vatFromInclusive item.totalMinor (item.vatRateBps.getD 0)

def itemBase (item : SlipLineItem) : ℤ :=
  item.totalMinor - itemVat item

def openGroup (item : SlipLineItem) : VatGroup :=
  ⟨itemRate item, asI64 (itemBase item), itemVat item⟩

def addToGroup (g : VatGroup) (item : SlipLineItem) : VatGroup :=
  ⟨g.rateBps, asI64 (g.baseMinor + asI64 (itemBase item)), asI64 (g.vatMinor + itemVat item)⟩

variable {slip : SlipPayload} {items : List SlipLineItem} {groups : List VatGroup} {g : VatGroup}

theorem keyed_groups : Keyed VatGroup.rateBps itemRate addToGroup openGroup :=
  ⟨fun _ _ ↦ rfl, fun _ ↦ rfl⟩

theorem additive_base : Additive addToGroup openGroup (fun g ↦ word g.baseMinor)
    fun item ↦ word (itemBase item) :=
  ⟨fun g item ↦ by simp only [addToGroup, word_asI64, word_add], fun item ↦ word_asI64 _⟩

theorem additive_vat : Additive addToGroup openGroup (fun g ↦ word g.vatMinor)
    fun item ↦ word (itemVat item) :=
  ⟨fun g item ↦ by simp only [addToGroup, word_asI64, word_add], fun _ ↦ rfl⟩

theorem addItem_eq (item : SlipLineItem) (groups : List VatGroup) :
    addItem (item.vatRateBps.getD 0) (asI64 (itemBase item)) (itemVat item) groups =
      accumulate VatGroup.rateBps itemRate addToGroup openGroup item groups := by
  induction groups with
  | nil => rfl
  | cons g groups ih =>
    rw [addItem, accumulate, ih]
    rfl

def collected (items : List SlipLineItem) : List VatGroup :=
  collect VatGroup.rateBps itemRate addToGroup openGroup items

theorem itemGroups_perm : slip.itemGroups.Perm (collected slip.lineItems) := by
  have hfold : (fun groups (item : SlipLineItem) ↦
      addItem (item.vatRateBps.getD 0)
        (asI64 (item.totalMinor - vatFromInclusive item.totalMinor (item.vatRateBps.getD 0)))
        (vatFromInclusive item.totalMinor (item.vatRateBps.getD 0)) groups) =
      fun groups item ↦ accumulate VatGroup.rateBps itemRate addToGroup openGroup item groups :=
    funext fun groups ↦ funext fun item ↦ addItem_eq item groups
  rw [itemGroups]
  dsimp only
  rw [hfold]
  exact List.perm_insertionSort _ _

theorem isI64_itemVat (item : SlipLineItem) : IsI64 (itemVat item) := by
  rw [itemVat, vatFromInclusive]
  split
  · exact ⟨by omega, by omega⟩
  · rw [divRoundHalfAway_eq_asI64]
    exact isI64_asI64 _

theorem isI64_of_mem_collected (hg : g ∈ collected items) :
    IsI64 g.baseMinor ∧ IsI64 g.vatMinor := by
  revert g
  apply mem_collect_induction
  · exact fun item _ ↦ ⟨isI64_asI64 _, isI64_itemVat item⟩
  · exact fun g _ item _ _ ↦ ⟨isI64_asI64 _, isI64_asI64 _⟩

def rateBase (items : List SlipLineItem) (rate : Option ℤ) : ℤ :=
  groupSum itemRate itemBase items rate

def rateVat (items : List SlipLineItem) (rate : Option ℤ) : ℤ :=
  groupSum itemRate itemVat items rate

theorem sum_items (items : List SlipLineItem) :
    (items.map itemBase).sum + (items.map itemVat).sum =
      (items.map SlipLineItem.totalMinor).sum := by
  have hsub : (items.map itemBase).sum =
      (items.map SlipLineItem.totalMinor).sum - (items.map itemVat).sum := sum_map_sub _ _ _
  omega

def RatesFit (items : List SlipLineItem) : Prop :=
  ∀ rate, IsI64 (rateBase items rate) ∧ IsI64 (rateVat items rate)

theorem ratesFit_of_occurring (hitems : ∀ rate ∈ items.map itemRate,
    IsI64 (rateBase items rate) ∧ IsI64 (rateVat items rate)) : RatesFit items := by
  intro rate
  by_cases hrate : rate ∈ items.map itemRate
  · exact hitems rate hrate
  · have hnone : ∀ item ∈ items, itemRate item ≠ rate := fun item hitem heq ↦
      hrate (List.mem_map.2 ⟨item, hitem, heq⟩)
    rw [rateBase, rateVat, groupSum_eq_zero hnone, groupSum_eq_zero hnone]
    exact ⟨⟨by decide, by decide⟩, by decide, by decide⟩

theorem of_mem_collected (hfit : RatesFit items) (hg : g ∈ collected items) :
    g.baseMinor = rateBase items g.rateBps ∧ g.vatMinor = rateVat items g.rateBps := by
  obtain ⟨hbase, hvat⟩ := isI64_of_mem_collected hg
  obtain ⟨hbase', hvat'⟩ := hfit g.rateBps
  have hwordBase := value_of_mem_collect keyed_groups additive_base hg
  have hwordVat := value_of_mem_collect keyed_groups additive_vat hg
  rw [word_groupSum] at hwordBase hwordVat
  exact ⟨eq_of_word_eq hbase hbase' hwordBase, eq_of_word_eq hvat hvat' hwordVat⟩

theorem sum_collected {v : VatGroup → ℤ} {w : SlipLineItem → ℤ}
    (hv : ∀ g ∈ collected items, v g = groupSum itemRate w items g.rateBps) :
    ((collected items).map v).sum = (items.map w).sum := by
  obtain ⟨hnodup, hkeys⟩ := keys_collect (keyed_groups) items
  have hmap : (collected items).map v =
      ((collected items).map VatGroup.rateBps).map (groupSum itemRate w items) := by
    rw [List.map_map]
    exact List.map_congr_left hv
  rw [hmap]
  apply sum_groupSum itemRate w hnodup
  intro item hitem
  exact (hkeys _).2 (List.mem_map_of_mem hitem)

structure GroupsOf (items : List SlipLineItem) (groups : List VatGroup) : Prop where
  keys : (groups.map VatGroup.rateBps).Nodup
  base : ∀ g ∈ groups, g.baseMinor = rateBase items g.rateBps
  vat : ∀ g ∈ groups, g.vatMinor = rateVat items g.rateBps
  sum_base : (groups.map VatGroup.baseMinor).sum = (items.map itemBase).sum
  sum_vat : (groups.map VatGroup.vatMinor).sum = (items.map itemVat).sum

theorem groupsOf_itemGroups (hfit : RatesFit slip.lineItems) :
    GroupsOf slip.lineItems slip.itemGroups := by
  have hperm : slip.itemGroups.Perm (collected slip.lineItems) := itemGroups_perm
  have hmem : ∀ g ∈ slip.itemGroups, g ∈ collected slip.lineItems := fun g ↦ hperm.mem_iff.1
  constructor
  · exact (hperm.map _).nodup_iff.2 (keys_collect keyed_groups slip.lineItems).1
  · exact fun g hg ↦ (of_mem_collected hfit (hmem g hg)).1
  · exact fun g hg ↦ (of_mem_collected hfit (hmem g hg)).2
  · rw [(hperm.map _).sum_eq, sum_collected fun g hg ↦ (of_mem_collected hfit hg).1]
  · rw [(hperm.map _).sum_eq, sum_collected fun g hg ↦ (of_mem_collected hfit hg).2]

end Items

section Settling

variable {slip : SlipPayload} {items : List SlipLineItem} {groups : List VatGroup} {g : VatGroup}
  {stated : ℤ}

theorem largestGroup_cases (groups : List VatGroup) :
    (largestGroup groups = none ∧ ∀ g ∈ groups, ¬g.rateBps.getD 0 > 0) ∨
      ∃ g ∈ groups, largestGroup groups = some g ∧ g.rateBps.getD 0 > 0 := by
  have hchoice : (groups.filter fun g ↦ g.rateBps.getD 0 > 0) = [] ∧ largestGroup groups = none ∨
      ∃ g ∈ groups.filter fun g ↦ g.rateBps.getD 0 > 0, largestGroup groups = some g := by
    apply foldl_choice
    intro best g
    cases best with
    | none => exact .inl rfl
    | some b =>
      dsimp only
      split
      · exact .inl rfl
      · exact .inr ⟨rfl, rfl⟩
  rcases hchoice with ⟨hnil, hnone⟩ | ⟨g, hg, hsome⟩
  · refine .inl ⟨hnone, fun g hg ↦ ?_⟩
    simpa using List.filter_eq_nil_iff.1 hnil g hg
  · obtain ⟨hmem, hpos⟩ := List.mem_filter.1 hg
    exact .inr ⟨g, hmem, hsome, of_decide_eq_true hpos⟩

/-- The stated tax can be settled without leaving 64 bits. -/
structure StatedFits (items : List SlipLineItem) (groups : List VatGroup) (stated : ℤ) : Prop where
  derived : IsI64 (items.map itemVat).sum
  delta : IsI64 (stated - (items.map itemVat).sum)
  largest : ∀ g ∈ largestGroup groups,
    IsI64 (g.vatMinor + (stated - (items.map itemVat).sum)) ∧
      IsI64 (g.baseMinor - (stated - (items.map itemVat).sum))

theorem settleStated_sums (hgroups : GroupsOf items groups) (hfit : StatedFits items groups stated) :
    ((settleStated stated groups).map VatGroup.baseMinor).sum +
        ((settleStated stated groups).map VatGroup.vatMinor).sum =
      (items.map SlipLineItem.totalMinor).sum ∧
    ((∃ g ∈ groups, g.rateBps.getD 0 > 0) →
      ((settleStated stated groups).map VatGroup.vatMinor).sum = stated) := by
  have hderived : sumI64 (groups.map VatGroup.vatMinor) = (items.map itemVat).sum := by
    rw [sumI64_eq, hgroups.sum_vat, asI64_of_mem hfit.derived.1 hfit.derived.2]
  have hbase := hgroups.sum_base
  have hvat := hgroups.sum_vat
  have hitems := sum_items items
  rw [settleStated, hderived, asI64_of_mem hfit.delta.1 hfit.delta.2]
  rcases largestGroup_cases groups with ⟨hnone, hzero⟩ | ⟨largest, hmem, hlargest, hpos⟩
  · rw [hnone]
    dsimp only
    refine ⟨by omega, fun hpositive ↦ ?_⟩
    obtain ⟨g, hg, hrate⟩ := hpositive
    exact absurd hrate (hzero g hg)
  · obtain ⟨hvatFits, hbaseFits⟩ := hfit.largest largest hlargest
    rw [hlargest]
    dsimp only
    split
    · rw [sum_change VatGroup.baseMinor _ hgroups.keys hmem,
        sum_change VatGroup.vatMinor _ hgroups.keys hmem, asI64_of_mem hvatFits.1 hvatFits.2,
        asI64_of_mem hbaseFits.1 hbaseFits.2]
      dsimp only
      refine ⟨by omega, fun _ ↦ by omega⟩
    · refine ⟨by omega, fun _ ↦ by omega⟩

theorem rates_settleStated (stated : ℤ) (groups : List VatGroup) :
    (settleStated stated groups).map VatGroup.rateBps = groups.map VatGroup.rateBps := by
  rw [settleStated]
  split
  · split
    · rw [List.map_map]
      apply List.map_congr_left
      intro g hg
      rw [Function.comp_apply]
      split
      · rfl
      · rfl
    · rfl
  · rfl

/-- A slip whose groups come from its lines. -/
structure Tagged (slip : SlipPayload) : Prop where
  unstated : slip.vatBreakdown = []
  lines : slip.lineItems ≠ []
  tags : ∀ item ∈ slip.lineItems, item.vatRateBps.isSome

structure Fits (slip : SlipPayload) : Prop where
  rates : RatesFit slip.lineItems
  stated : ∀ stated ∈ slip.totalVatMinor, StatedFits slip.lineItems slip.itemGroups stated

/-- The groups add up to the lines, and their tax to the stated one. -/
structure Conserves (slip : SlipPayload) : Prop where
  total : (slip.vatGroups.map VatGroup.baseMinor).sum + (slip.vatGroups.map VatGroup.vatMinor).sum =
    (slip.lineItems.map SlipLineItem.totalMinor).sum
  stated : ∀ stated ∈ slip.totalVatMinor, (∃ g ∈ slip.vatGroups, g.rateBps.getD 0 > 0) →
    (slip.vatGroups.map VatGroup.vatMinor).sum = stated

theorem Tagged.vatGroups (htagged : Tagged slip) :
    slip.vatGroups = match slip.totalVatMinor with
      | some stated => settleStated stated slip.itemGroups
      | none => slip.itemGroups := by
  have hlines : slip.lineItems.isEmpty = false := by simpa using htagged.lines
  have htags : slip.lineItems.all (·.vatRateBps.isSome) = true := List.all_eq_true.2 htagged.tags
  rw [SlipPayload.vatGroups, htagged.unstated, hlines, htags]
  rfl

theorem conserves (htagged : Tagged slip) (hfits : Fits slip) : Conserves slip := by
  have hgroups := groupsOf_itemGroups hfits.rates
  have hitems := sum_items slip.lineItems
  have heq := htagged.vatGroups
  constructor
  · cases hstated : slip.totalVatMinor with
    | none =>
      rw [hstated] at heq
      rw [heq, hgroups.sum_base, hgroups.sum_vat, hitems]
    | some stated =>
      rw [hstated] at heq
      rw [heq]
      exact (settleStated_sums hgroups (hfits.stated stated hstated)).1
  · intro stated hstated hpositive
    rw [Option.mem_def] at hstated
    rw [hstated] at heq
    obtain ⟨g, hg, hrate⟩ := hpositive
    rw [heq] at hg ⊢
    have hkey : g.rateBps ∈ slip.itemGroups.map VatGroup.rateBps := by
      rw [← rates_settleStated stated]
      exact List.mem_map_of_mem hg
    obtain ⟨g', hg', hsame⟩ := List.mem_map.1 hkey
    exact (settleStated_sums hgroups (hfits.stated stated hstated)).2 ⟨g', hg', hsame ▸ hrate⟩

end Settling

section Lines

variable {currency : String} {merchant : Option String} {coa expense bank : CoaAccount}
  {vatInput : Option CoaAccount} {rates : List VatRate} {slip : SlipPayload} {amount : ℤ}
  {rate : Option VatRate} {role : Option VatRole}

def lineNet (line : NewJournalLine) : ℤ :=
  line.debitMinor - line.creditMinor

def OneSided (limit : ℤ) (line : NewJournalLine) : Prop :=
  (line.debitMinor = 0 ∧ 0 < line.creditMinor ∨ line.creditMinor = 0 ∧ 0 < line.debitMinor) ∧
    max line.debitMinor line.creditMinor ≤ limit

theorem signedLine_net (hamount : |amount| < 2 ^ 63) :
    ((signedLine (journalLine currency merchant) coa amount rate role).map lineNet).sum = amount := by
  obtain ⟨hlow, hhigh⟩ := abs_lt.1 hamount
  have hneg : asI64 (-amount) = -amount := asI64_of_mem (by omega) (by omega)
  rw [signedLine]
  split
  · rw [List.map_singleton, List.sum_singleton, lineNet, journalLine, splitSides, hneg]
    split
    · exact sub_zero _
    · dsimp only
      omega
  · next hzero =>
    rw [not_not.1 hzero]
    rfl

theorem signedLine_sides (hamount : |amount| < 2 ^ 63) :
    ∀ line ∈ signedLine (journalLine currency merchant) coa amount rate role,
      OneSided |amount| line := by
  obtain ⟨hlow, hhigh⟩ := abs_lt.1 hamount
  have hneg : asI64 (-amount) = -amount := asI64_of_mem (by omega) (by omega)
  intro line hline
  rw [signedLine] at hline
  split at hline
  · next hnonzero =>
    obtain rfl := List.mem_singleton.1 hline
    rw [OneSided, journalLine, splitSides, hneg]
    dsimp only
    split
    · next hpos =>
      rw [abs_of_pos hpos]
      exact ⟨.inr ⟨rfl, hpos⟩, by simp [hpos.le]⟩
    · next hpos =>
      rw [abs_of_nonpos (by omega)]
      exact ⟨.inl ⟨rfl, by omega⟩, by simp; omega⟩
  · cases hline

structure LinesFit (slip : SlipPayload) (limit : ℤ) : Prop where
  word : limit < 2 ^ 63
  total : slip.totalMinor ≤ limit
  groups : ∀ g ∈ slip.vatGroups, |g.baseMinor| ≤ limit ∧ |g.vatMinor| ≤ limit
  net : IsI64 ((slip.vatGroups.map VatGroup.baseMinor).sum + (slip.vatGroups.map VatGroup.vatMinor).sum)
  rest : |slip.totalMinor - ((slip.vatGroups.map VatGroup.baseMinor).sum +
    (slip.vatGroups.map VatGroup.vatMinor).sum)| ≤ limit

theorem sum_groupLines (groups : List VatGroup) :
    (groups.flatMap fun g ↦ [g.baseMinor, g.vatMinor]).sum =
      (groups.map VatGroup.baseMinor).sum + (groups.map VatGroup.vatMinor).sum := by
  induction groups with
  | nil => rfl
  | cons g groups ih =>
    rw [List.flatMap_cons, List.sum_append, ih, List.map_cons, List.map_cons, List.sum_cons,
      List.sum_cons, List.sum_cons, List.sum_cons, List.sum_nil]
    omega

theorem documentLines_net {limit : ℤ} (hfit : LinesFit slip limit) :
    ((documentLines (journalLine currency merchant) slip expense vatInput rates).map lineNet).sum =
      slip.totalMinor := by
  have hword := hfit.word
  cases vatInput with
  | none =>
    rw [documentLines, List.map_singleton, List.sum_singleton]
    exact sub_zero _
  | some vatInput =>
    have hgroups : ∀ groups : List VatGroup,
        (∀ g ∈ groups, |g.baseMinor| ≤ limit ∧ |g.vatMinor| ≤ limit) →
        ((groups.flatMap fun g ↦
          signedLine (journalLine currency merchant) expense g.baseMinor
              (g.rateBps.bind (rateFor rates)) (some .inputBase) ++
            signedLine (journalLine currency merchant) vatInput g.vatMinor
              (g.rateBps.bind (rateFor rates)) (some .inputVat)).map lineNet).sum =
          (groups.map VatGroup.baseMinor).sum + (groups.map VatGroup.vatMinor).sum := by
      intro groups
      induction groups with
      | nil => exact fun _ ↦ rfl
      | cons g groups ih =>
        intro hg
        rw [List.forall_mem_cons] at hg
        rw [List.flatMap_cons, List.map_append, List.map_append, List.sum_append, List.sum_append,
          signedLine_net (by omega), signedLine_net (by omega), ih hg.2, List.map_cons,
          List.map_cons, List.sum_cons, List.sum_cons]
        omega
    rw [documentLines]
    dsimp only
    have hrest := hfit.rest
    obtain ⟨hlow, hhigh⟩ := abs_le.1 hrest
    rw [sumI64_eq, sum_groupLines, asI64_of_mem hfit.net.1 hfit.net.2,
      asI64_of_mem (by omega) (by omega), List.map_append, List.sum_append,
      hgroups slip.vatGroups hfit.groups, signedLine_net (by omega)]
    omega

theorem documentLines_sides {limit : ℤ} (hfit : LinesFit slip limit) (hpos : 0 < slip.totalMinor) :
    ∀ line ∈ documentLines (journalLine currency merchant) slip expense vatInput rates,
      OneSided limit line := by
  have hword := hfit.word
  have hside : ∀ {coa : CoaAccount} {amount : ℤ} {rate : Option VatRate} {role : Option VatRole},
      |amount| ≤ limit → ∀ line ∈ signedLine (journalLine currency merchant) coa amount rate role,
        OneSided limit line := by
    intro coa amount rate role hamount line hline
    obtain ⟨hsides, hmax⟩ := signedLine_sides (by omega) line hline
    exact ⟨hsides, hmax.trans hamount⟩
  cases vatInput with
  | none =>
    intro line hline
    obtain rfl := List.mem_singleton.1 hline
    refine ⟨.inr ⟨rfl, hpos⟩, ?_⟩
    have htotal := hfit.total
    simp [journalLine]
    omega
  | some vatInput =>
    have hrest := hfit.rest
    obtain ⟨hlow, hhigh⟩ := abs_le.1 hrest
    rw [documentLines]
    dsimp only
    rw [sumI64_eq, sum_groupLines, asI64_of_mem hfit.net.1 hfit.net.2,
      asI64_of_mem (by omega) (by omega), List.forall_mem_append]
    refine ⟨?_, hside hrest⟩
    intro line hline
    obtain ⟨g, hg, hline⟩ := List.mem_flatMap.1 hline
    obtain ⟨hbase, hvat⟩ := hfit.groups g hg
    rcases List.mem_append.1 hline with hline | hline
    · exact hside hbase line hline
    · exact hside hvat line hline

theorem of_mem_documentLines {line : NewJournalLine}
    (hline : line ∈ documentLines (journalLine currency merchant) slip expense vatInput rates) :
    line.currency = currency ∧ (line.coaId = expense.id ∨ ∃ a ∈ vatInput, line.coaId = a.id) ∧
      ∀ id ∈ line.vatRateId, ∃ r ∈ rates, r.id = id := by
  have hsigned : ∀ {coa : CoaAccount} {amount : ℤ} {rate : Option VatRate} {role : Option VatRole},
      line ∈ signedLine (journalLine currency merchant) coa amount rate role →
      line.currency = currency ∧ line.coaId = coa.id ∧ line.vatRateId = rate.map VatRate.id := by
    intro coa amount rate role hline
    rw [signedLine] at hline
    split at hline
    · obtain rfl := List.mem_singleton.1 hline
      exact ⟨rfl, rfl, rfl⟩
    · cases hline
  have hrates : ∀ bps : Option ℤ, ∀ r ∈ bps.bind (rateFor rates), r ∈ rates := by
    intro bps r hr
    obtain ⟨bps, rfl, hrate⟩ := Option.bind_eq_some_iff.1 hr
    have hchoice : (rates.filter fun r ↦ r.isActive ∧ r.rateBps = bps) = [] ∧
        rateFor rates bps = none ∨ ∃ a ∈ rates.filter fun r ↦ r.isActive ∧ r.rateBps = bps,
          rateFor rates bps = some a := by
      apply foldl_choice
      intro best r
      cases best with
      | none => exact .inl rfl
      | some b =>
        dsimp only
        split
        · exact .inl rfl
        · exact .inr ⟨rfl, rfl⟩
    rcases hchoice with ⟨-, hnone⟩ | ⟨a, ha, hsome⟩
    · rw [hnone] at hrate
      cases hrate
    · obtain rfl := Option.some.inj (hsome.symm.trans hrate)
      exact (List.mem_filter.1 ha).1
  have htagged : ∀ {g : VatGroup},
      line.vatRateId = (g.rateBps.bind (rateFor rates)).map VatRate.id →
      ∀ id ∈ line.vatRateId, ∃ r ∈ rates, r.id = id := by
    intro g hrate id hid
    rw [hrate] at hid
    obtain ⟨r, hr, rfl⟩ := Option.map_eq_some_iff.1 hid
    exact ⟨r, hrates _ r hr, rfl⟩
  cases vatInput with
  | none =>
    obtain rfl := List.mem_singleton.1 hline
    exact ⟨rfl, .inl rfl, by simp [journalLine]⟩
  | some vatInput =>
    rcases List.mem_append.1 hline with hline | hline
    · obtain ⟨g, -, hline⟩ := List.mem_flatMap.1 hline
      rcases List.mem_append.1 hline with hline | hline
      · obtain ⟨hcurrency, hcoa, hrate⟩ := hsigned hline
        exact ⟨hcurrency, .inl hcoa, htagged hrate⟩
      · obtain ⟨hcurrency, hcoa, hrate⟩ := hsigned hline
        exact ⟨hcurrency, .inr ⟨vatInput, rfl, hcoa⟩, htagged hrate⟩
    · obtain ⟨hcurrency, hcoa, hrate⟩ := hsigned hline
      refine ⟨hcurrency, .inl hcoa, fun id hid ↦ ?_⟩
      rw [hrate] at hid
      cases hid

end Lines

section Journals

variable {h : Host} {parseSlip : String → Except Fault SlipPayload} {s t : Db}
  {document : Document} {book : Book} {slip : SlipPayload} {p : PostedJournal}

structure Reads (parseSlip : String → Except Fault SlipPayload) (s : Db) (document : Document)
    (book : Book) (slip : SlipPayload) (currency : String) (expense bank : CoaAccount) : Prop where
  found : lookup Document.id s.documents document.id = some document
  bookFound : getBook s document.bookId = some book
  payload : ∃ payload, currentPayload s document.id = .ok payload ∧ parseSlip payload = .ok slip
  positive : 0 < slip.totalMinor
  currency : currencyOr book slip.currency = .ok currency
  expense : coaOrSeedFirst s book.id (fallbackExpenseCode book.kind) = .ok expense
  bank : coaOrSeedFirst s book.id coaCodeBank = .ok bank

def journalFor (h : Host) (s : Db) (document : Document) (book : Book) (slip : SlipPayload)
    (currency : String) (expense bank : CoaAccount) : NewJournal :=
  { bookId := book.id
    postedDate := (slip.purchaseDate h).getD (datePart document.createdAt)
    narrative := slip.merchantName
    reference := none
    sourceType := .document
    sourceId := some document.id
    lines := documentLines (journalLine currency slip.merchantName) slip expense
        (vatInputAccount s book) (listVatRates s book.id) ++
      [journalLine currency slip.merchantName bank 0 slip.totalMinor none none] }

theorem run_bookGet {id : String} : (bookGet id).run s = (orNotFound "book" id (getBook s id), s) := by
  rw [bookGet, run_query_bind, run_ofExcept]

theorem run_generateForDocument {currency : String} {expense bank : CoaAccount}
    (hreads : Reads parseSlip s document book slip currency expense bank) :
    (journalGenerateForDocument h parseSlip document.id).run s =
      commit (postJournalInTx h book (journalFor h s document book slip currency expense bank) none)
        s := by
  obtain ⟨payload, hpayload, hparse⟩ := hreads.payload
  have hbook : (bookGet document.bookId).run s = (.ok book, s) := by
    rw [run_bookGet, hreads.bookFound, orNotFound]
  have hpositive : require (slip.totalMinor > 0) "slip total must be positive to generate a journal" =
      .ok () := if_pos hreads.positive
  rw [journalGenerateForDocument, run_query_bind, hreads.found, orNotFound,
    run_bind_of_ok (run_ofExcept _ s), run_bind_of_ok hbook, run_query_bind, hpayload,
    run_bind_of_ok (run_ofExcept _ s), hparse, run_bind_of_ok (run_ofExcept _ s), hpositive,
    run_bind_of_ok (run_ofExcept _ s), hreads.currency, run_bind_of_ok (run_ofExcept _ s)]
  dsimp only
  rw [run_bind_of_ok (run_coaByCode.trans (congrArg (·, s) hreads.expense)),
    run_bind_of_ok (run_coaByCode.trans (congrArg (·, s) hreads.bank)), run_query_bind,
    run_query_bind, run_atomically, journalFor]

theorem reads_of_ok {documentId : String}
    (hrun : (journalGenerateForDocument h parseSlip documentId).run s = (.ok p, t)) :
    ∃ document book slip currency expense bank, document.id = documentId ∧
      Reads parseSlip s document book slip currency expense bank := by
  rw [journalGenerateForDocument, run_query_bind, run_ofExcept_bind_eq_ok] at hrun
  obtain ⟨document, hdocument, hrun⟩ := hrun
  rw [run_bind_eq_ok] at hrun
  obtain ⟨book, s₁, hbook, hrun⟩ := hrun
  rw [run_bookGet, Prod.mk.injEq] at hbook
  obtain ⟨hbook, rfl⟩ := hbook
  rw [run_query_bind, run_ofExcept_bind_eq_ok] at hrun
  obtain ⟨payload, hpayload, hrun⟩ := hrun
  rw [run_ofExcept_bind_eq_ok] at hrun
  obtain ⟨slip, hparse, hrun⟩ := hrun
  rw [run_ofExcept_bind_eq_ok] at hrun
  obtain ⟨⟨⟩, hpositive, hrun⟩ := hrun
  rw [run_ofExcept_bind_eq_ok] at hrun
  obtain ⟨currency, hcurrency, hrun⟩ := hrun
  rw [run_bind_eq_ok] at hrun
  obtain ⟨expense, s₁, hexpense, hrun⟩ := hrun
  rw [run_coaByCode, Prod.mk.injEq] at hexpense
  obtain ⟨hexpense, rfl⟩ := hexpense
  rw [run_bind_eq_ok] at hrun
  obtain ⟨bank, s₁, hbank, -⟩ := hrun
  rw [run_coaByCode, Prod.mk.injEq] at hbank
  obtain ⟨hbank, rfl⟩ := hbank
  have hfound := orNotFound_eq_ok.1 hdocument
  obtain ⟨hmem, hid⟩ := lookup_eq_some hfound
  refine ⟨document, book, slip, currency, expense, bank, hid, ?_⟩
  exact
    { found := hid ▸ hfound
      bookFound := orNotFound_eq_ok.1 hbook
      payload := ⟨payload, hid ▸ hpayload, hparse⟩
      positive := require_eq_ok.1 hpositive
      currency := hcurrency
      expense := hexpense
      bank := hbank }

/-- The journal for a document: one currency, one positive side a line, balanced, and closed by the
bank line for the whole document. -/
structure Settles (s : Db) (slip : SlipPayload) (bank : CoaAccount) (p : PostedJournal) : Prop where
  currency : ∃ c, ∀ l ∈ p.lines, l.currency = c
  sides : ∀ l ∈ p.lines,
    l.debitMinor = 0 ∧ 0 < l.creditMinor ∨ l.creditMinor = 0 ∧ 0 < l.debitMinor
  balanced : (p.lines.map JournalLine.debitMinor).sum = (p.lines.map JournalLine.creditMinor).sum
  bank : ∃ others line, p.lines.map content = others ++ [line] ∧ line.coaId = bank.id ∧
    line.debitMinor = 0 ∧ line.creditMinor = slip.totalMinor ∧
    ∀ l ∈ others, ∃ a ∈ s.coa, a.id = l.coaId ∧ a.code ≠ bank.code

theorem normalized_map {lines lines' : List NewJournalLine} {raw : String}
    (hlines : ∀ line ∈ lines, line.currency = raw)
    (hnormal : List.Forall₂ (fun line line' ↦ normalizeLine line = .ok line') lines lines') :
    ∃ code, lines' = lines.map fun line ↦ { line with currency := code } := by
  cases hcode : normalizeCurrencyCode raw with
  | ok code =>
    refine ⟨code, ?_⟩
    induction hnormal with
    | nil => rfl
    | @cons line line' lines lines' hline _ ih =>
      rw [List.forall_mem_cons] at hlines
      obtain ⟨hcode', hline'⟩ := normalizeLine_eq_ok.1 hline
      rw [hlines.1, hcode] at hcode'
      rw [List.map_cons, ← ih hlines.2, hline', ← Except.ok.inj hcode']
  | error e =>
    cases hnormal with
    | nil => exact ⟨raw, rfl⟩
    | cons hline _ =>
      have hcode' := (normalizeLine_eq_ok.1 hline).1
      rw [hlines _ (List.mem_cons_self ..), hcode] at hcode'
      cases hcode'

theorem sideTotal_self {lines : List NewJournalLine} {code : String} (side : NewJournalLine → ℤ)
    (hlines : ∀ line ∈ lines, line.currency = code) :
    sideTotal side lines code = (lines.map side).sum := by
  have hall : lines.filter (fun l ↦ l.currency = code) = lines :=
    List.filter_eq_self.2 fun l hl ↦ by simpa using hlines l hl
  rw [sideTotal, hall]

theorem mem_of_code {bookId code : String} {a : CoaAccount}
    (ha : getCoaByCode s bookId code = some a) : a ∈ s.coa ∧ a.bookId = bookId ∧ a.code = code := by
  have hpred := List.find?_some ha
  simp only [decide_eq_true_eq] at hpred
  exact ⟨List.mem_of_find?_eq_some ha, hpred.1, hpred.2⟩

theorem coaOrSeedFirst_eq_ok {bookId code : String} {a : CoaAccount} :
    coaOrSeedFirst s bookId code = .ok a ↔ getCoaByCode s bookId code = some a := by
  rw [coaOrSeedFirst]
  cases getCoaByCode s bookId code <;> simp

theorem Reads.account {currency : String} {expense bank : CoaAccount}
    (hreads : Reads parseSlip s document book slip currency expense bank) {line : NewJournalLine}
    (hline : line ∈ documentLines (journalLine currency slip.merchantName) slip expense
      (vatInputAccount s book) (listVatRates s book.id)) :
    ∃ a ∈ s.coa, a.id = line.coaId ∧ a.bookId = book.id ∧ a.code ≠ bank.code := by
  obtain ⟨-, -, hbankCode⟩ := mem_of_code (coaOrSeedFirst_eq_ok.1 hreads.bank)
  rw [hbankCode]
  obtain ⟨-, hcoa, -⟩ := of_mem_documentLines hline
  rcases hcoa with hexpense | ⟨vatInput, hvat, hid⟩
  · obtain ⟨hmem, hbook, hcode⟩ := mem_of_code (coaOrSeedFirst_eq_ok.1 hreads.expense)
    refine ⟨expense, hmem, hexpense.symm, hbook, ?_⟩
    rw [hcode]
    cases book.kind with
    | personal => decide
    | business => decide
  · rw [Option.mem_def, vatInputAccount] at hvat
    split at hvat
    · obtain ⟨hmem, hbook, hcode⟩ := mem_of_code hvat
      refine ⟨vatInput, hmem, hid.symm, hbook, ?_⟩
      rw [hcode]
      decide
    · cases hvat

theorem currency_journalFor {currency : String} {expense bank : CoaAccount} :
    ∀ line ∈ (journalFor h s document book slip currency expense bank).lines,
      line.currency = currency := by
  intro line hline
  rcases List.mem_append.1 hline with hline | hline
  · exact (of_mem_documentLines hline).1
  · obtain rfl := List.mem_singleton.1 hline
    rfl

/-- Whatever is posted for a document settles it. -/
theorem settles_of_ok {currency : String} {expense bank : CoaAccount}
    (hreads : Reads parseSlip s document book slip currency expense bank)
    (hrun : (journalGenerateForDocument h parseSlip document.id).run s = (.ok p, t)) :
    Settles s slip bank p := by
  rw [run_generateForDocument hreads] at hrun
  obtain ⟨lines, hposts, hp, -⟩ := postJournalInTx_ensures p t (commit_ok hrun)
  have hcontent : p.lines.map content = lines := by
    rw [hp]
    exact map_content_storedLines _ _
  obtain ⟨code, hlines⟩ := normalized_map currency_journalFor hposts.accepted.normalized
  have hcurrency : ∀ line ∈ lines, line.currency = code := by
    intro line hline
    rw [hlines] at hline
    obtain ⟨line, -, rfl⟩ := List.mem_map.1 hline
    rfl
  have hposted : ∀ l ∈ p.lines, content l ∈ lines := by
    intro l hl
    rw [← hcontent]
    exact List.mem_map_of_mem hl
  refine ⟨⟨code, fun l hl ↦ hcurrency _ (hposted l hl)⟩, ?_, ?_, ?_⟩
  · exact fun l hl ↦ (hposts.accepted.sides _ (hposted l hl)).1
  · have hmap : ∀ f : NewJournalLine → ℤ, (p.lines.map fun l ↦ f (content l)) = lines.map f := by
      intro f
      rw [← hcontent, List.map_map]
      rfl
    have hbalance := hposts.accepted.balance code
    rw [sideTotal_self _ hcurrency, sideTotal_self _ hcurrency] at hbalance
    exact (congrArg List.sum (hmap NewJournalLine.debitMinor)).trans
      (hbalance.trans (congrArg List.sum (hmap NewJournalLine.creditMinor)).symm)
  · rw [hcontent, hlines, journalFor, List.map_append]
    refine ⟨_, _, rfl, rfl, rfl, rfl, ?_⟩
    intro l hl
    obtain ⟨line, hline, rfl⟩ := List.mem_map.1 hl
    obtain ⟨a, ha, hid, -, hcode⟩ := hreads.account hline
    exact ⟨a, ha, hid, hcode⟩

/-- A document of an open period without a journal, in a book whose accounts are as they were
seeded. -/
structure DocumentReady (h : Host) (s : Db) (document : Document) (book : Book) (slip : SlipPayload)
    (currency : String) : Prop where
  lines : LinesFit slip maxLineAmountMinor
  currency : normalizeCurrencyCode currency = .ok currency
  date : (h.parseDate ((slip.purchaseDate h).getD (datePart document.createdAt))).isSome
  unlocked : ∀ lock, book.financialLockDate = some lock →
    lock < (slip.purchaseDate h).getD (datePart document.createdAt)
  unposted : ∀ j ∈ s.journals,
    ¬(j.bookId = book.id ∧ j.sourceType = .document ∧ j.sourceId = some document.id)
  plain : ∀ a ∈ s.coa, a.bookId = book.id → a.isArchived = false ∧ a.currency = none
  keyed : s.coa.Pairwise fun a b ↦ a.id ≠ b.id
  newId : Function.Injective h.newId
  fresh : ∀ n ≥ s.minted,
    (∀ j ∈ s.journals, j.id ≠ h.newId n) ∧ ∀ l ∈ s.journalLines, l.id ≠ h.newId n

theorem posts_of_documentReady {currency : String} {expense bank : CoaAccount}
    (hreads : Reads parseSlip s document book slip currency expense bank)
    (hready : DocumentReady h s document book slip currency) :
    Posts h s book (journalFor h s document book slip currency expense bank) none
      (journalFor h s document book slip currency expense bank).lines := by
  have hlines : ∀ {P : NewJournalLine → Prop},
      (∀ line ∈ documentLines (journalLine currency slip.merchantName) slip expense
        (vatInputAccount s book) (listVatRates s book.id), P line) →
      P (journalLine currency slip.merchantName bank 0 slip.totalMinor none none) →
      ∀ line ∈ (journalFor h s document book slip currency expense bank).lines, P line :=
    fun hdocument hbank ↦ List.forall_mem_append.2 ⟨hdocument, List.forall_mem_singleton.2 hbank⟩
  obtain ⟨hbankMem, hbankBook, -⟩ := mem_of_code (coaOrSeedFirst_eq_ok.1 hreads.bank)
  have hpositive := hreads.positive
  have htotal := hready.lines.total
  have hnet : ((documentLines (journalLine currency slip.merchantName) slip expense
      (vatInputAccount s book) (listVatRates s book.id)).map lineNet).sum = slip.totalMinor :=
    documentLines_net hready.lines
  refine ⟨⟨?_, hready.date, hready.unlocked, ?_, ?_, ?_, ?_, ?_⟩, ?_, ?_, by simp, by simp, ?_, ?_⟩
  · -- the expense side comes to the total, so it is not empty
    have hne : documentLines (journalLine currency slip.merchantName) slip expense
        (vatInputAccount s book) (listVatRates s book.id) ≠ [] := by
      intro hnil
      rw [hnil] at hnet
      exact hpositive.ne hnet
    have hlength := List.length_pos_of_ne_nil hne
    rw [journalFor, List.length_append, List.length_singleton]
    omega
  · intro _ sourceId hsource id hid
    obtain rfl := Option.some.inj hsource
    obtain ⟨j, hj, -⟩ := List.mem_map.1 hid
    rw [List.mem_insertionSort, List.mem_filter, decide_eq_true_eq] at hj
    exact (hready.unposted j hj.1 hj.2).elim
  · apply normalized_self
    intro line hline
    rw [currency_journalFor line hline]
    exact hready.currency
  · apply hlines
    · exact documentLines_sides hready.lines hpositive
    · exact ⟨.inl ⟨rfl, hpositive⟩, by simp [journalLine]; omega⟩
  · apply balance_of_sum currency_journalFor
    have hsub : ((journalFor h s document book slip currency expense bank).lines.map lineNet).sum = 0 := by
      rw [journalFor, List.map_append, List.sum_append, hnet, List.map_singleton, List.sum_singleton,
        lineNet, journalLine]
      dsimp only
      omega
    have hsplit := sum_map_sub NewJournalLine.debitMinor NewJournalLine.creditMinor
      (journalFor h s document book slip currency expense bank).lines
    exact sub_eq_zero.1 (hsplit.symm.trans hsub)
  · have haccount : ∀ {line : NewJournalLine} {a : CoaAccount}, a ∈ s.coa → a.id = line.coaId →
        a.bookId = book.id → ∃ a, getCoa s line.coaId = some a ∧ a.bookId = book.id ∧
          a.isArchived = false ∧ ∀ c, a.currency = some c → c = line.currency := by
      intro line a hmem hid hbook
      obtain ⟨harchived, hcurrency⟩ := hready.plain a hmem hbook
      refine ⟨a, hid ▸ lookup_of_mem hready.keyed hmem, hbook, harchived, fun c hc ↦ ?_⟩
      rw [hcurrency] at hc
      cases hc
    apply hlines
    · intro line hline
      obtain ⟨a, hmem, hid, hbook, -⟩ := hreads.account hline
      exact haccount hmem hid hbook
    · exact haccount hbankMem rfl hbankBook
  · exact (hready.fresh _ le_rfl).1
  · obtain ⟨hmem, -⟩ := lookup_eq_some hreads.bookFound
    exact isSome_lookup.2 ⟨book, hmem, rfl⟩
  · apply hlines
    · intro line hline id hid
      obtain ⟨-, -, hrates⟩ := of_mem_documentLines hline
      obtain ⟨r, hr, rfl⟩ := hrates id hid
      rw [listVatRates, List.mem_insertionSort, List.mem_filter] at hr
      exact isSome_lookup.2 ⟨r, hr.1, rfl⟩
    · intro id hid
      cases hid
  · exact fun i _ l hl ↦ (hready.fresh _ (by omega)).2 l hl

/-- The groups of a slip add up to its lines, and the journal that is posted for a document
balances with the whole document on its bank line. -/
theorem groups_conserve :
    (∀ slip, Tagged slip → Fits slip → Conserves slip) ∧
    (∀ (h : Host) (parseSlip : String → Except Fault SlipPayload) (s t : Db) (documentId : String)
      (p : PostedJournal),
      (journalGenerateForDocument h parseSlip documentId).run s = (.ok p, t) →
      ∃ document book slip currency expense bank, document.id = documentId ∧
        Reads parseSlip s document book slip currency expense bank ∧ Settles s slip bank p) ∧
    ∀ (h : Host) (parseSlip : String → Except Fault SlipPayload) (s : Db) (document : Document)
      (book : Book) (slip : SlipPayload) (currency : String) (expense bank : CoaAccount),
      Reads parseSlip s document book slip currency expense bank →
      DocumentReady h s document book slip currency →
      ∃ p t, (journalGenerateForDocument h parseSlip document.id).run s = (.ok p, t) ∧
        Settles s slip bank p := by
  refine ⟨fun slip ↦ conserves, ?_, ?_⟩
  · intro h parseSlip s t documentId p hrun
    obtain ⟨document, book, slip, currency, expense, bank, rfl, hreads⟩ := reads_of_ok hrun
    exact ⟨document, book, slip, currency, expense, bank, rfl, hreads, settles_of_ok hreads hrun⟩
  · intro h parseSlip s document book slip currency expense bank hreads hready
    have hpost := postJournalInTx_succeeds (posts_of_documentReady hreads hready) hready.newId
    have hrun := (run_generateForDocument hreads).trans (commit_of_ok hpost)
    exact ⟨_, _, hrun, settles_of_ok hreads hrun⟩

def receipt : SlipPayload :=
  { merchantName := some "Café"
    purchasedAt := none
    currency := none
    totalMinor := 310
    totalVatMinor := some 41
    lineItems := [⟨105, some 1500⟩, ⟨105, some 1500⟩, ⟨105, some 1500⟩, ⟨-20, some 0⟩]
    vatBreakdown := [] }

def receiptBook : Db :=
  runs { setup with
    documents := [⟨"document", "book", "2025-06-01T00:00:00Z"⟩]
    documentExtractions := [⟨"document", some "", true⟩] } [.coaSeed "book"]

theorem fits_receipt : Fits receipt := by
  have hlargest : largestGroup receipt.itemGroups = some ⟨some 1500, 273, 42⟩ := by decide +kernel
  refine ⟨ratesFit_of_occurring ?_, fun stated hstated ↦ ?_⟩
  · simp only [IsI64]
    decide +kernel
  · obtain rfl := Option.some.inj hstated
    have hderived : (receipt.lineItems.map itemVat).sum = 42 := by decide +kernel
    refine ⟨?_, ?_, fun g hg ↦ ?_⟩
    · rw [hderived]
      exact ⟨by decide, by decide⟩
    · rw [hderived]
      exact ⟨by decide, by decide⟩
    · rw [hlargest] at hg
      obtain rfl := Option.some.inj hg
      rw [hderived]
      exact ⟨⟨by decide, by decide⟩, by decide, by decide⟩

def receiptExpense : CoaAccount :=
  ⟨plainHost.newId 36, "book", "6900", "General Expenses", .expense, none, false⟩

def receiptBank : CoaAccount :=
  ⟨plainHost.newId 0, "book", "1000", "Bank", .asset, none, false⟩

theorem receiptBook_rows :
    (lookup Document.id receiptBook.documents "document" =
        some ⟨"document", "book", "2025-06-01T00:00:00Z"⟩ ∧
      getBook receiptBook "book" = some plainBook ∧
      currentPayload receiptBook "document" = .ok "") ∧
    (coaOrSeedFirst receiptBook "book" "6900" = .ok receiptExpense ∧
      coaOrSeedFirst receiptBook "book" "1000" = .ok receiptBank) ∧
    (∀ a ∈ receiptBook.coa, a.bookId = "book" → a.isArchived = false ∧ a.currency = none) ∧
    (receiptBook.coa.Pairwise fun a b ↦ a.id ≠ b.id) ∧
    receiptBook.journals = [] ∧ receiptBook.journalLines = [] := by
  decide +kernel

theorem receipt_vatGroups : receipt.vatGroups = [⟨some 0, -20, 0⟩, ⟨some 1500, 274, 41⟩] := by
  decide +kernel

/-- The 310 of the receipt are posted and its groups come to 295, of which 41 are tax. -/
theorem groups_conserve_of_receipt :
    Conserves receipt ∧
      ∃ p t, (journalGenerateForDocument plainHost (fun _ ↦ .ok receipt) "document").run receiptBook =
          (.ok p, t) ∧
        Settles receiptBook receipt receiptBank p := by
  obtain ⟨⟨hfound, hbook, hpayload⟩, ⟨hexpense, hbank⟩, hplain, hkeyed, hjournals, hlines⟩ :=
    receiptBook_rows
  obtain ⟨hgroups, -, hjournal⟩ := groups_conserve
  refine ⟨hgroups receipt ⟨rfl, by decide, by decide⟩ fits_receipt, ?_⟩
  exact hjournal plainHost (fun _ ↦ .ok receipt) receiptBook
    ⟨"document", "book", "2025-06-01T00:00:00Z"⟩ plainBook receipt "ZAR" receiptExpense receiptBank
    { found := hfound
      bookFound := hbook
      payload := ⟨"", hpayload, rfl⟩
      positive := by decide
      currency := rfl
      expense := hexpense
      bank := hbank }
    { lines :=
        { word := by decide
          total := by decide
          groups := by
            rw [receipt_vatGroups]
            decide
          net := by
            rw [receipt_vatGroups]
            exact ⟨by decide, by decide⟩
          rest := by
            rw [receipt_vatGroups]
            decide }
      currency := by decide +kernel
      date := by decide +kernel
      unlocked := by simp [plainBook]
      unposted := by simp [hjournals]
      plain := hplain
      keyed := hkeyed
      newId := plainHost_newId
      fresh := by simp [hjournals, hlines] }

def overstated : SlipPayload :=
  { merchantName := none
    purchasedAt := none
    currency := none
    totalMinor := 100
    totalVatMinor := none
    lineItems := [⟨100, some 1500⟩]
    vatBreakdown := [⟨1500, 200, 30⟩] }

/-- Every line of a slip being tagged is not enough: a stated breakdown is taken as it is. -/
theorem groups_not_conserved_of_breakdown :
    ¬∀ slip : SlipPayload, (∀ item ∈ slip.lineItems, item.vatRateBps.isSome) → Fits slip →
      Conserves slip := by
  intro hclaim
  have hfits : Fits overstated := by
    refine ⟨ratesFit_of_occurring ?_, fun stated hstated ↦ nomatch hstated⟩
    simp only [IsI64]
    decide +kernel
  have htotal := (hclaim overstated (by decide) hfits).total
  revert htotal
  decide +kernel

end Journals

end SlipScan.Ledger.SlipGroups
