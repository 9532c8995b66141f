import SlipScan.Packs.Selection
import SlipScan.Packs.Writes

namespace SlipScan.Packs.Upgrade

open Model.Domain Model.Database Model.Dedupe Model.Packs Model.Classification Writes Places
open Selection Foundation.Transaction Foundation.Interleaving Foundation.Table
  Foundation.Selection

variable {h : PackHost} {s s₁ s₂ t : PackDb} {bookId packId : String}

section Comparison

structure SameRule (rename : String → String → Prop) (r r' : PackRule) : Prop where
  packId_eq : r.packId = r'.packId
  ruleKind_eq : r.ruleKind = r'.ruleKind
  pattern_eq : r.pattern = r'.pattern
  confidence_eq : r.confidence = r'.confidence
  position_eq : r.position = r'.position
  category : rename r.categoryId r'.categoryId

structure SameMapping (rename : String → String → Prop) (m m' : MerchantMapping) : Prop where
  confidence_eq : m.confidence = m'.confidence
  category : rename m.categoryId m'.categoryId

def packMapping (s : PackDb) (bookId merchant : String) : Option MerchantMapping :=
  (getMapping s bookId merchant).filter fun m ↦ m.source = .pack

/-- A renaming of the categories makes two books the same as far as packs are concerned. It leaves
alone the categories that were there before. -/
structure Renames (h : PackHost) (bookId : String) (rename : String → String → Prop)
    (before s t : PackDb) : Prop where
  oneToOne : Relator.BiUnique rename
  before : ∀ c ∈ before.categories.rows, rename c.id c.id
  rules : List.Forall₂ (SameRule rename) (s.packRules.filter fun r ↦ r.bookId = bookId)
    (t.packRules.filter fun r ↦ r.bookId = bookId)
  mappings : ∀ merchant, Option.Rel (SameMapping rename) (packMapping s bookId merchant)
    (packMapping t bookId merchant)
  answers : ∀ new merchant, new.bookId = bookId → new.categoryId = none →
    ∃ c c', Option.Rel rename c c' ∧
      Ensures (categorise h new (some merchant)) s (fun categoryId _ ↦ categoryId = c) ∧
      Ensures (categorise h new (some merchant)) t fun categoryId _ ↦ categoryId = c'

/-- Two books are the same as far as packs are concerned. What differs are the identifiers that the
devices have made up for new categories. -/
def SameBook (h : PackHost) (bookId : String) (before s t : PackDb) : Prop :=
  ∃ rename, Renames h bookId rename before s t

/-- No pack has been in the book. -/
structure Untouched (s : PackDb) (bookId : String) : Prop where
  noRules : ∀ r ∈ s.packRules, r.bookId ≠ bookId
  noEntries : ∀ packId key, s.packCategoryMap.find (bookId, packId, key) = none
  noMappings : ∀ merchant m, getMapping s bookId merchant = some m → m.source ≠ .pack

structure Referential (s : PackDb) (bookId : String) : Prop where
  rooted : Rooted s
  mapped : ∀ merchant m, getMapping s bookId merchant = some m →
    (s.categories.find m.categoryId).isSome

def NamesExactly (h : PackHost) (payload : PackPayload) (merchant : String) : Prop :=
  ∃ rule ∈ payload.merchantRules,
    rule.matchKind = .exact ∧ normalizeMerchant h.letters rule.pattern = merchant

def UsesKey (h : PackHost) (payload : PackPayload) (key : String) : Prop :=
  ∃ spec ∈ payload.ruleSpecs h, spec.categoryKey = key

/-- The places of a pack's keys where the pack is new. -/
def freshPlaces (payload : PackPayload) : String → Option Place :=
  placed payload.categories fun _ ↦ none

def upgradedPlaces (old new : PackPayload) : String → Option Place :=
  placed new.categories (freshPlaces old)

/-- Two ways to place the keys that rules use tell the same keys apart, and agree on the places
that have been taken before. -/
structure PlacesMatch (before : PackDb) (bookId : String) (used : String → Prop)
    (places places' : String → Option Place) : Prop where
  apart : ∀ key key', used key → used key' →
    (places key = places key' ↔ places' key = places' key')
  taken : ∀ key place, used key → places key = some place ∨ places' key = some place →
    (idAt before bookId place).isSome → places key = places' key

theorem placesMatch_of_eq {before : PackDb} {used : String → Prop}
    {places places' : String → Option Place} (heq : ∀ key, used key → places key = places' key) :
    PlacesMatch before bookId used places places' where
  apart key key' hkey hkey' := by rw [heq key hkey, heq key' hkey']
  taken key _ hkey _ _ := heq key hkey

end Comparison

section Rules

variable {rename : String → String → Prop}

theorem exact_spec_iff {rule : MerchantRule} {merchant : String} :
    ((rule.spec h).ruleKind = .exact ∧ (rule.spec h).pattern = merchant) ↔
      rule.matchKind = .exact ∧ normalizeMerchant h.letters rule.pattern = merchant := by
  rw [MerchantRule.spec]
  cases rule.matchKind <;> simp

theorem namesExactly_of_lastExact {payload : PackPayload} {merchant : String} {spec : RuleSpec}
    (hlast : lastExact (payload.ruleSpecs h) merchant = some spec) :
    NamesExactly h payload merchant := by
  have hspec := List.mem_filter.1 (List.mem_of_getLast? hlast)
  rw [decide_eq_true_eq] at hspec
  obtain ⟨hmem, hexact⟩ := hspec
  rcases List.mem_append.1 hmem with hmem | hmem
  · obtain ⟨rule, hrule, rfl⟩ := List.mem_map.1 hmem
    exact ⟨rule, hrule, exact_spec_iff.1 hexact⟩
  · obtain ⟨rule, _, hmem⟩ := List.mem_flatMap.1 hmem
    obtain ⟨keyword, _, rfl⟩ := List.mem_map.1 hmem
    cases hexact.1

theorem lastExact_of_namesExactly {payload : PackPayload} {merchant : String}
    (hnames : NamesExactly h payload merchant) :
    ∃ spec, lastExact (payload.ruleSpecs h) merchant = some spec := by
  obtain ⟨rule, hrule, hexact⟩ := hnames
  rw [← Option.ne_none_iff_exists', lastExact, Ne, List.getLast?_eq_none_iff]
  refine List.ne_nil_of_mem (List.mem_filter.2 ⟨List.mem_append_left _ (List.mem_map_of_mem hrule), ?_⟩)
  rw [decide_eq_true_eq]
  exact exact_spec_iff.2 hexact

theorem lastExact_eq_none {payload : PackPayload} {merchant : String} :
    lastExact (payload.ruleSpecs h) merchant = none ↔ ¬NamesExactly h payload merchant := by
  rw [Option.eq_none_iff_forall_ne_some]
  constructor
  · intro hnone hnames
    obtain ⟨spec, hspec⟩ := lastExact_of_namesExactly hnames
    exact hnone spec hspec
  · exact fun hnot spec hspec ↦ hnot (namesExactly_of_lastExact hspec)

theorem mem_rowsOf {specs : List RuleSpec} {position : ℤ} {keyToId : KeyMap} {rows : List PackRule}
    (hrows : RowsOf bookId packId keyToId specs position rows) :
    ∀ r ∈ rows, r.bookId = bookId ∧ r.packId = packId := by
  induction hrows with
  | nil => simp
  | cons hrow _ _ ih => exact List.forall_mem_cons.2 ⟨⟨hrow.bookId, hrow.packId⟩, ih⟩

def KeyMatch (used : String → Prop) (keyToId keyToId' : KeyMap) (c c' : String) : Prop :=
  ∃ key, used key ∧ keyToId key = some c ∧ keyToId' key = some c'

theorem sameRule_of_rowsOf {keyToId keyToId' : KeyMap} {used : String → Prop}
    {specs : List RuleSpec} {position : ℤ} {rows rows' : List PackRule}
    (hused : ∀ spec ∈ specs, used spec.categoryKey)
    (hrows : RowsOf bookId packId keyToId specs position rows)
    (hrows' : RowsOf bookId packId keyToId' specs position rows') :
    List.Forall₂ (SameRule (KeyMatch used keyToId keyToId')) rows rows' := by
  induction hrows generalizing rows' with
  | nil =>
    cases hrows'
    exact .nil
  | @cons spec _ _ _ _ hrow hposition _ ih =>
    cases hrows' with
    | cons hrow' hposition' hrest' =>
      rw [List.forall_mem_cons] at hused
      refine .cons ⟨?_, ?_, ?_, ?_, ?_, spec.categoryKey, hused.1, hrow.category, hrow'.category⟩
        (ih hused.2 hrest')
      · rw [hrow.packId, hrow'.packId]
      · rw [hrow.ruleKind, hrow'.ruleKind]
      · rw [hrow.pattern, hrow'.pattern]
      · rw [hrow.confidence, hrow'.confidence]
      · rw [hposition, hposition']

/-- Rules that are the same have their keys stand for categories with the same name. -/
theorem rename_of_rowsOf {keyToId keyToId' : KeyMap} {specs : List RuleSpec} {position : ℤ}
    {rows rows' : List PackRule} (hrows : RowsOf bookId packId keyToId specs position rows)
    (hrows' : RowsOf bookId packId keyToId' specs position rows')
    (hsame : List.Forall₂ (SameRule rename) rows rows') :
    ∀ spec ∈ specs, ∃ c c', keyToId spec.categoryKey = some c ∧
      keyToId' spec.categoryKey = some c' ∧ rename c c' := by
  induction hrows generalizing rows' with
  | nil => simp
  | cons hrow _ _ ih =>
    cases hrows' with
    | cons hrow' _ hrest' =>
      cases hsame with
      | cons hfirst hsame =>
        rw [List.forall_mem_cons]
        exact ⟨⟨_, _, hrow.category, hrow'.category, hfirst.category⟩, ih hrest' hsame⟩

theorem SameRule.mono {rename' : String → String → Prop} {r r' : PackRule}
    (hr : SameRule rename r r') (himp : ∀ c c', rename c c' → rename' c c') :
    SameRule rename' r r' :=
  { hr with category := himp _ _ hr.category }

theorem filter_otherRules_eq_nil {rows : List PackRule}
    (hrows : ∀ r ∈ rows, r.bookId = bookId → r.packId = packId) (hs : s.packRules = rows) :
    (otherRules s bookId packId).filter (fun r ↦ r.bookId = bookId) = [] := by
  rw [otherRules, hs, List.filter_filter, List.filter_eq_nil_iff]
  intro r hr
  have hpack := hrows r hr
  simp only [Bool.and_eq_true, decide_eq_true_eq]
  exact fun hr' ↦ hr'.2 ⟨hr'.1, hpack hr'.1⟩

theorem bookRules_of_packWritten {payload : PackPayload} (ht : PackWritten h bookId payload s t)
    (hs : ∀ r ∈ s.packRules, r.bookId = bookId → r.packId = payload.metadata.id) :
    RowsOf bookId payload.metadata.id (categoryMap t bookId payload.metadata.id)
      (payload.ruleSpecs h) 0 (t.packRules.filter fun r ↦ r.bookId = bookId) := by
  obtain ⟨rows, hrules, hrows⟩ := ht.rules
  rw [hrules, List.filter_append, filter_otherRules_eq_nil hs rfl, List.nil_append,
    List.filter_eq_self.2]
  · exact hrows
  · exact fun r hr ↦ decide_eq_true (mem_rowsOf hrows r hr).1

theorem packId_of_packWritten {payload : PackPayload} (ht : PackWritten h bookId payload s t)
    (hs : ∀ r ∈ s.packRules, r.bookId = bookId → r.packId = payload.metadata.id) :
    ∀ r ∈ t.packRules, r.bookId = bookId → r.packId = payload.metadata.id := by
  intro r hr hbook
  have hmem : r ∈ t.packRules.filter fun r ↦ r.bookId = bookId :=
    List.mem_filter.2 ⟨hr, decide_eq_true hbook⟩
  exact (mem_rowsOf (bookRules_of_packWritten ht hs) r hmem).2

end Rules

section Mappings

variable {specs₁ specs₂ : List RuleSpec}

inductive MappingOutcome (rename : String → String → Prop) (bookId : String) (s s₂ t : PackDb)
    (merchant : String) : Prop
  | own (m : MerchantMapping) (hsource : m.source ≠ .pack) (hs : getMapping s bookId merchant = some m)
      (hm₂ : getMapping s₂ bookId merchant = some m) (hm : getMapping t bookId merchant = some m)
  | seeded (m m' : MerchantMapping) (hsource : m.source = .pack) (hsource' : m'.source = .pack)
      (hm₂ : getMapping s₂ bookId merchant = some m) (hm : getMapping t bookId merchant = some m')
      (hsame : SameMapping rename m m')
  | unknown (hm₂ : getMapping s₂ bookId merchant = none)
      (hm : getMapping t bookId merchant = none)

variable {rename : String → String → Prop} {keyToId : KeyMap} {merchant : String}
  (h₁ : MappingsSeeded bookId keyToId specs₁ s.merchantMappings s₁.merchantMappings)
  (h₂ : MappingsSeeded bookId (categoryMap s₂ bookId packId) specs₂ s₁.merchantMappings
    s₂.merchantMappings)
  (hfresh : MappingsSeeded bookId (categoryMap t bookId packId) specs₂ s.merchantMappings
    t.merchantMappings)

include h₁ in
/-- The first version leaves nothing but its own mapping where there was none. -/
theorem source_of_first (hs : getMapping s bookId merchant = none) :
    ∀ m, getMapping s₁ bookId merchant = some m → m.source = .pack := by
  intro m hm
  cases hlast : lastExact specs₁ merchant with
  | none =>
    have hsame := h₁.unnamed merchant hlast
    rw [getMapping] at hm hs
    rw [hsame, hs] at hm
    cases hm
  | some spec =>
    obtain ⟨m', hm', hseeded⟩ := h₁.seeded merchant spec hlast fun m' hm' ↦ by
      rw [getMapping] at hs
      rw [hs] at hm'
      cases hm'
    obtain rfl := Option.some.inj (hm'.symm.trans hm)
    exact hseeded.source

include h₁ h₂ hfresh in
theorem outcome_of_kept (hown : ∀ m, getMapping s bookId merchant = some m → m.source ≠ .pack)
    (hrename : ∀ spec ∈ specs₂, ∀ c c', categoryMap s₂ bookId packId spec.categoryKey = some c →
      categoryMap t bookId packId spec.categoryKey = some c' → rename c c')
    (hkept : getMapping s bookId merchant = none → lastExact specs₂ merchant = none →
      lastExact specs₁ merchant = none) : MappingOutcome rename bookId s s₂ t merchant := by
  cases hs : getMapping s bookId merchant with
  | some m =>
    have hsource := hown m hs
    exact .own m hsource hs (h₂.kept _ m (h₁.kept _ m hs hsource) hsource)
      (hfresh.kept _ m hs hsource)
  | none =>
    cases hlast : lastExact specs₂ merchant with
    | none =>
      have hfirst := h₁.unnamed merchant (hkept hs hlast)
      exact .unknown ((h₂.unnamed merchant hlast).trans (hfirst.trans hs))
        ((hfresh.unnamed merchant hlast).trans hs)
    | some spec =>
      obtain ⟨m₂, hm₂, hseeded₂⟩ := h₂.seeded merchant spec hlast (source_of_first h₁ hs)
      obtain ⟨m, hm, hseeded⟩ := hfresh.seeded merchant spec hlast fun m hm ↦ by
        rw [getMapping, hm] at hs
        cases hs
      have hspec : spec ∈ specs₂ := List.mem_of_mem_filter (List.mem_of_getLast? hlast)
      refine .seeded m₂ m hseeded₂.source hseeded.source hm₂ hm
        ⟨?_, hrename spec hspec _ _ hseeded₂.category hseeded.category⟩
      rw [hseeded₂.confidence, hseeded.confidence]

include h₁ h₂ hfresh in
/-- What the first version has seeded stays when the second version does not name it. -/
theorem stale_mapping {spec : RuleSpec} (hs : getMapping s bookId merchant = none)
    (hspec : lastExact specs₁ merchant = some spec) (hlast : lastExact specs₂ merchant = none) :
    ∃ m, packMapping s₂ bookId merchant = some m ∧ packMapping t bookId merchant = none := by
  obtain ⟨m, hm, hseeded⟩ := h₁.seeded merchant spec hspec fun m hm ↦ by
    rw [getMapping, hm] at hs
    cases hs
  refine ⟨m, ?_, ?_⟩
  · rw [packMapping, getMapping, h₂.unnamed merchant hlast, hm, Option.filter_some]
    simp [hseeded.source]
  · rw [packMapping, getMapping, hfresh.unnamed merchant hlast]
    rw [getMapping] at hs
    rw [hs]
    rfl

end Mappings

section Answers

variable {rename : String → String → Prop} (hrules : List.Forall₂ (SameRule rename)
  (s.packRules.filter fun r ↦ r.bookId = bookId) (t.packRules.filter fun r ↦ r.bookId = bookId))

def sortedRules (s : PackDb) (bookId : String) : List PackRule :=
  (s.packRules.filter fun r ↦ r.bookId = bookId).insertionSort fun a b ↦
    toLex (a.packId, a.position) ≤ toLex (b.packId, b.position)

theorem loadRules_eq : loadRules h s bookId =
    if ∀ r ∈ sortedRules s bookId, r.ruleKind = .regex → (h.regex r.pattern).isSome then
      some (sortedRules s bookId) else none :=
  rfl

include hrules in
theorem rel_loadRules : Option.Rel (List.Forall₂ (SameRule rename))
    (loadRules h s bookId) (loadRules h t bookId) := by
  have hsorted : List.Forall₂ (SameRule rename) (sortedRules s bookId)
      (sortedRules t bookId) := by
    apply forall₂_insertionSort _ hrules
    intro a a' b b' ha hb
    rw [ha.packId_eq, ha.position_eq, hb.packId_eq, hb.position_eq]
  have hcompile : (∀ r ∈ sortedRules s bookId, r.ruleKind = .regex → (h.regex r.pattern).isSome) ↔
      ∀ r ∈ sortedRules t bookId, r.ruleKind = .regex → (h.regex r.pattern).isSome := by
    apply forall_mem_iff_of_forall₂ _ hsorted
    intro r r' hr
    rw [hr.ruleKind_eq, hr.pattern_eq]
  rw [loadRules_eq, loadRules_eq]
  by_cases hall : ∀ r ∈ sortedRules s bookId, r.ruleKind = .regex → (h.regex r.pattern).isSome
  · rw [if_pos hall, if_pos (hcompile.1 hall)]
    exact .some hsorted
  · rw [if_neg hall, if_neg (mt hcompile.2 hall)]
    exact .none

theorem ruleMatches_eq {merchant text : String} {r r' : PackRule}
    (hr : SameRule rename r r') :
    ruleMatches h merchant text r = ruleMatches h merchant text r' := by
  rw [ruleMatches, ruleMatches, hr.ruleKind_eq, hr.pattern_eq]

theorem ruleRank_eq {r r' : PackRule} (hr : SameRule rename r r') :
    ruleRank r = ruleRank r' := by
  rw [ruleRank, ruleRank, hr.ruleKind_eq, hr.pattern_eq, hr.confidence_eq, hr.packId_eq,
    hr.position_eq]

theorem rel_suggestWithDescription {rules rules' : List PackRule} (merchant : String)
    (description : Option String) (hloaded : List.Forall₂ (SameRule rename) rules rules') :
    Option.Rel (fun a b ↦ rename a.categoryId b.categoryId ∧ a.confidence = b.confidence)
      (suggestWithDescription h rules merchant description)
      (suggestWithDescription h rules' merchant description) := by
  have hfilter : List.Forall₂ (SameRule rename)
      (rules.filter (ruleMatches h (normalizeMerchant h.letters merchant)
        (searchedText h (normalizeMerchant h.letters merchant) description)))
      (rules'.filter (ruleMatches h (normalizeMerchant h.letters merchant)
        (searchedText h (normalizeMerchant h.letters merchant) description))) :=
    List.rel_filter (fun r r' hr ↦ iff_of_eq (congrArg (· = true) (ruleMatches_eq hr))) hloaded
  have hbest := rel_argmin (fun _ _ hr ↦ ruleRank_eq hr) hfilter
  rw [suggestWithDescription_eq, suggestWithDescription_eq]
  split
  · exact .none
  · rw [Option.map_eq_bind, Option.map_eq_bind]
    exact rel_bind hbest fun _ _ hr ↦ .some ⟨hr.category, hr.confidence_eq⟩

include hrules in
theorem rel_suggest (merchant : String) (description : Option String) :
    Option.Rel (fun a b ↦ rename a.categoryId b.categoryId)
      (suggest h s bookId merchant description) (suggest h t bookId merchant description) := by
  refine rel_bind (rel_loadRules hrules) fun rules rules' hloaded ↦ ?_
  exact rel_bind (rel_suggestWithDescription merchant description hloaded)
    fun _ _ hhit ↦ .some hhit.1

def InBook (s : PackDb) (bookId id : String) : Prop :=
  ∃ c, s.categories.find id = some c ∧ c.bookId = bookId

theorem usableSuggestion_eq {hit : CategorySuggestion} {merchant : String}
    {description : Option String} (hbook : InBook s bookId hit.categoryId)
    (hhit : suggest h s bookId merchant description = some hit) :
    usableSuggestion h s bookId merchant description = some hit := by
  obtain ⟨c, hc, hbook⟩ := hbook
  rw [usableSuggestion, hhit, Option.filter_some, if_pos]
  rw [hc, Option.any_some, hbook]
  exact decide_eq_true rfl

include hrules in
theorem rel_usableSuggestion
    (hbook : ∀ c c', rename c c' → InBook s bookId c ∧ InBook t bookId c') (merchant : String)
    (description : Option String) :
    Option.Rel (fun a b ↦ rename a.categoryId b.categoryId)
      (usableSuggestion h s bookId merchant description)
      (usableSuggestion h t bookId merchant description) := by
  have hsuggest := rel_suggest (h := h) hrules merchant description
  generalize hhit : suggest h s bookId merchant description = x at hsuggest
  generalize hhit' : suggest h t bookId merchant description = y at hsuggest
  cases hsuggest with
  | none =>
    rw [usableSuggestion, usableSuggestion, hhit, hhit']
    exact .none
  | some hsame =>
    obtain ⟨hs, ht⟩ := hbook _ _ hsame
    rw [usableSuggestion_eq hs hhit, usableSuggestion_eq ht hhit']
    exact .some hsame

def classified (h : PackHost) (s : PackDb) (bookId merchant : String)
    (description : Option String) : Option String :=
  match getMapping s bookId merchant with
  | some mapping => some mapping.categoryId
  | none =>
    if h.classifierRegistered then
      (usableSuggestion h s bookId merchant description).map CategorySuggestion.categoryId
    else none

theorem ensures_categorise {new : NewTransaction} {merchant : String}
    (hnew : new.categoryId = none) :
    Ensures (categorise h new (some merchant)) s fun categoryId _ ↦
      categoryId = classified h s new.bookId merchant new.description := by
  unfold categorise classified
  rw [hnew]
  simp only [ensures_bind, ensures_get]
  cases getMapping s new.bookId merchant with
  | some mapping =>
    rw [ensures_pure]
  | none =>
    dsimp only
    split
    · simp only [classifyByPacks, ensures_bind, ensures_get]
      cases usableSuggestion h s new.bookId merchant new.description with
      | none =>
        rw [ensures_pure]
        rfl
      | some hit =>
        simp only [ensures_bind, ensures_pure]
        exact fun _ _ _ ↦ rfl
    · rw [ensures_pure]

include hrules in
theorem rel_classified {rename' : String → String → Prop} {before : PackDb} {merchant : String}
    (hbook : ∀ c c', rename c c' → InBook s bookId c ∧ InBook t bookId c')
    (himp : ∀ c c', rename c c' → rename' c c')
    (hown : ∀ m, getMapping before bookId merchant = some m → rename' m.categoryId m.categoryId)
    (houtcome : MappingOutcome rename' bookId before s t merchant) (description : Option String) :
    Option.Rel rename' (classified h s bookId merchant description)
      (classified h t bookId merchant description) := by
  rw [classified, classified]
  cases houtcome with
  | own m _ hm₀ hm₂ hm =>
    rw [hm₂, hm]
    exact .some (hown m hm₀)
  | seeded m m' _ _ hm₂ hm hsame =>
    rw [hm₂, hm]
    exact .some hsame.category
  | unknown hm₂ hm =>
    rw [hm₂, hm]
    dsimp only
    split
    · have husable := rel_usableSuggestion (h := h) hrules hbook merchant description
      generalize usableSuggestion h s bookId merchant description = x at husable ⊢
      generalize usableSuggestion h t bookId merchant description = y at husable ⊢
      cases husable with
      | none => exact .none
      | some hsame => exact .some (himp _ _ hsame)
    · exact .none

theorem rel_packMapping {before : PackDb} {merchant : String}
    (houtcome : MappingOutcome rename bookId before s t merchant) :
    Option.Rel (SameMapping rename) (packMapping s bookId merchant)
      (packMapping t bookId merchant) := by
  rw [packMapping, packMapping]
  cases houtcome with
  | own m hsource _ hm₂ hm =>
    rw [hm₂, hm, Option.filter_some, if_neg (by simpa using hsource)]
    exact .none
  | seeded m m' hsource hsource' hm₂ hm hsame =>
    rw [hm₂, hm, Option.filter_some, Option.filter_some, if_pos (by simpa using hsource),
      if_pos (by simpa using hsource')]
    exact .some hsame
  | unknown hm₂ hm =>
    rw [hm₂, hm]
    exact .none

end Answers

section Renaming

variable {before : PackDb} {used : String → Prop} {keyToId keyToId' : KeyMap}
  {places places' : String → Option Place}

/-- The categories that were there before keep their names, and the others are matched by key. -/
def Renamed (before : PackDb) (used : String → Prop) (keyToId keyToId' : KeyMap)
    (c c' : String) : Prop :=
  c = c' ∧ (before.categories.find c).isSome ∨ KeyMatch used keyToId keyToId' c c'

theorem isSome_of_idAt {place : Place} {id : String}
    (hat : idAt before bookId place = some (some id)) : (before.categories.find id).isSome := by
  cases place with
  | nil => cases hat
  | cons name above =>
    obtain ⟨_, c, -, hc, hid⟩ := idAt_cons.1 hat
    obtain rfl := Option.some.inj hid
    rw [(siblingNamed_eq_some hc).1]
    rfl

/-- A key that stands for a category from before on one side stands for it on both. -/
theorem keyMatch_before (hrooted : Rooted before)
    (hs : before.categories.rows <+: s.categories.rows)
    (ht : before.categories.rows <+: t.categories.rows) (hlocated : Located s bookId keyToId places)
    (hlocated' : Located t bookId keyToId' places')
    (hmatch : PlacesMatch before bookId used places places') {c c' : String}
    (hkey : KeyMatch used keyToId keyToId' c c')
    (hbefore : (before.categories.find c).isSome ∨ (before.categories.find c').isSome) : c = c' := by
  obtain ⟨key, hused, hc, hc'⟩ := hkey
  obtain ⟨place, hplace, hat⟩ := hlocated.exists_place hc
  obtain ⟨place', hplace', hat'⟩ := hlocated'.exists_place hc'
  rcases hbefore with hbefore | hbefore
  · have hold := idAt_before hrooted hs hat hbefore
    have heq := hmatch.taken key place hused (.inl hplace) (by rw [hold]; rfl)
    rw [hplace, hplace', Option.some.injEq] at heq
    subst heq
    have hnew := idAt_mono ht hold
    rw [hat'] at hnew
    exact (Option.some.inj (Option.some.inj hnew)).symm
  · have hold := idAt_before hrooted ht hat' hbefore
    have heq := hmatch.taken key place' hused (.inr hplace') (by rw [hold]; rfl)
    rw [hplace, hplace', Option.some.injEq] at heq
    subst heq
    have hnew := idAt_mono hs hold
    rw [hat] at hnew
    exact Option.some.inj (Option.some.inj hnew)

theorem keyMatch_iff (hlocated : Located s bookId keyToId places)
    (hlocated' : Located t bookId keyToId' places')
    (hmatch : PlacesMatch before bookId used places places') {c c' d d' : String}
    (hkey : KeyMatch used keyToId keyToId' c c') (hkey' : KeyMatch used keyToId keyToId' d d') :
    c = d ↔ c' = d' := by
  obtain ⟨key, hused, hc, hc'⟩ := hkey
  obtain ⟨key', hused', hd, hd'⟩ := hkey'
  rw [hlocated.eq_iff hc hd, hlocated'.eq_iff hc' hd']
  exact hmatch.apart key key' hused hused'

theorem biUnique_renamed (hrooted : Rooted before)
    (hs : before.categories.rows <+: s.categories.rows)
    (ht : before.categories.rows <+: t.categories.rows) (hlocated : Located s bookId keyToId places)
    (hlocated' : Located t bookId keyToId' places')
    (hmatch : PlacesMatch before bookId used places places') :
    Relator.BiUnique (Renamed before used keyToId keyToId') := by
  have hkept : ∀ {c c'}, KeyMatch used keyToId keyToId' c c' →
      (before.categories.find c).isSome ∨ (before.categories.find c').isSome → c = c' :=
    keyMatch_before hrooted hs ht hlocated hlocated' hmatch
  constructor
  · intro c c' d hc hd
    rcases hc with ⟨rfl, hc⟩ | hc <;> rcases hd with ⟨rfl, hd⟩ | hd
    · rfl
    · exact (hkept hd (.inr hc)).symm
    · exact hkept hc (.inr hd)
    · exact (keyMatch_iff hlocated hlocated' hmatch hc hd).2 rfl
  · intro c d d' hd hd'
    rcases hd with ⟨rfl, hd⟩ | hd <;> rcases hd' with ⟨rfl, hd'⟩ | hd'
    · rfl
    · exact hkept hd' (.inl hd)
    · exact (hkept hd (.inl hd')).symm
    · exact (keyMatch_iff hlocated hlocated' hmatch hd hd').1 rfl

/-- Where a renaming matches the keys, it matches their places. -/
theorem placesMatch_of_renames {rename : String → String → Prop} (hone : Relator.BiUnique rename)
    (hbefore : ∀ c ∈ before.categories.rows, rename c.id c.id)
    (hs : before.categories.rows <+: s.categories.rows)
    (ht : before.categories.rows <+: t.categories.rows) (hlocated : Located s bookId keyToId places)
    (hlocated' : Located t bookId keyToId' places')
    (hkeys : ∀ key, used key → ∃ c c', keyToId key = some c ∧ keyToId' key = some c' ∧ rename c c') :
    PlacesMatch before bookId used places places' where
  apart key key' hused hused' := by
    obtain ⟨c, c', hc, hc', hname⟩ := hkeys key hused
    obtain ⟨d, d', hd, hd', hname'⟩ := hkeys key' hused'
    rw [← hlocated.eq_iff hc hd, ← hlocated'.eq_iff hc' hd']
    constructor
    · rintro rfl
      exact hone.2 hname hname'
    · rintro rfl
      exact hone.1 hname hname'
  taken key place hused hplaces htaken := by
    obtain ⟨c, c', hc, hc', hname⟩ := hkeys key hused
    obtain ⟨p, hp, hat⟩ := hlocated.exists_place hc
    obtain ⟨p', hp', hat'⟩ := hlocated'.exists_place hc'
    obtain ⟨x, hx⟩ := Option.isSome_iff_exists.1 htaken
    have hsx := idAt_mono hs hx
    have htx := idAt_mono ht hx
    have hself : ∀ {id}, x = some id → rename id id := by
      rintro id rfl
      obtain ⟨row, hrow⟩ := Option.isSome_iff_exists.1 (isSome_of_idAt hx)
      obtain ⟨hmem, rfl⟩ := Keyed.find_eq_some.1 hrow
      exact hbefore row hmem
    rw [hp, hp', Option.some.injEq]
    rcases hplaces with hplace | hplace
    · obtain rfl := Option.some.inj (hp.symm.trans hplace)
      obtain rfl := Option.some.inj (hat.symm.trans hsx)
      obtain rfl := hone.2 hname (hself rfl)
      exact place_unique htx hat'
    · obtain rfl := Option.some.inj (hp'.symm.trans hplace)
      obtain rfl := Option.some.inj (hat'.symm.trans htx)
      obtain rfl := hone.1 hname (hself rfl)
      exact place_unique hat hsx

end Renaming

section Upgrade

variable {v₁ v₂ : VerifiedPack} {report₁ report₂ report : InstallReport}

theorem local_of_untouched (huntouched : Untouched s bookId) :
    Local s bookId (categoryMap s bookId packId) := by
  intro key id hid
  rw [categoryMap, huntouched.noEntries] at hid
  cases hid

theorem located_of_untouched (huntouched : Untouched s bookId) :
    Located s bookId (categoryMap s bookId packId) fun _ ↦ none := by
  intro key
  rw [categoryMap, huntouched.noEntries]
  exact .none

/-- An upgrade leaves the same as an installation of the new version alone exactly when the new
version has an exact rule for every merchant that the old version has one for, except where the
book has a mapping of its own, and the keys that its rules use get places that one renaming of the
categories matches. -/
theorem upgrade_matches_fresh_iff (hid : v₂.payload.metadata.id = v₁.payload.metadata.id)
    (huntouched : Untouched s bookId) (hreferential : Referential s bookId)
    (hfirst : (install h bookId v₁).run s = (.ok report₁, s₁))
    (hupgrade : (install h bookId v₂).run s₁ = (.ok report₂, s₂))
    (hfresh : (install h bookId v₂).run s = (.ok report, t)) :
    SameBook h bookId s s₂ t ↔
      (∀ merchant, NamesExactly h v₁.payload merchant → getMapping s bookId merchant = none →
        NamesExactly h v₂.payload merchant) ∧
      PlacesMatch s bookId (UsesKey h v₂.payload) (upgradedPlaces v₁.payload v₂.payload)
        (freshPlaces v₂.payload) := by
  have h₁ := packWritten_of_install hfirst
  have h₂ := packWritten_of_install hupgrade
  have ht := packWritten_of_install hfresh
  have hs : ∀ r ∈ s.packRules, r.bookId = bookId → r.packId = v₁.payload.metadata.id :=
    fun r hr hbook ↦ absurd hbook (huntouched.noRules r hr)
  rw [← hid] at hs
  have hrows₂ := bookRules_of_packWritten h₂ (hid ▸ packId_of_packWritten h₁ (hid ▸ hs))
  have hrows := bookRules_of_packWritten ht hs
  have hlocal₁ := h₁.local' (local_of_untouched huntouched)
  have hlocated₁ := h₁.located _ (located_of_untouched huntouched)
  rw [← hid] at hlocal₁ hlocated₁
  have hlocated₂ := h₂.located _ hlocated₁
  have hlocated := ht.located _ (located_of_untouched huntouched)
  have hgrown := h₁.rows.trans h₂.rows
  constructor
  · rintro ⟨rename, hsame⟩
    refine ⟨fun merchant hnames hnone ↦ ?_, ?_⟩
    · by_contra hnot
      obtain ⟨spec, hspec⟩ := lastExact_of_namesExactly hnames
      obtain ⟨m, hm, hfreshNone⟩ := stale_mapping h₁.mappings h₂.mappings ht.mappings hnone hspec
        (lastExact_eq_none.2 hnot)
      have hmapping := hsame.mappings merchant
      rw [hm, hfreshNone] at hmapping
      cases hmapping
    · refine placesMatch_of_renames hsame.oneToOne hsame.before hgrown ht.rows hlocated₂ hlocated ?_
      rintro _ ⟨spec, hspec, rfl⟩
      exact rename_of_rowsOf hrows₂ hrows hsame.rules spec hspec
  · rintro ⟨hkept, hmatch⟩
    have hkeys : ∀ c c', KeyMatch (UsesKey h v₂.payload)
        (categoryMap s₂ bookId v₂.payload.metadata.id) (categoryMap t bookId v₂.payload.metadata.id)
        c c' → Renamed s (UsesKey h v₂.payload) (categoryMap s₂ bookId v₂.payload.metadata.id)
          (categoryMap t bookId v₂.payload.metadata.id) c c' := fun _ _ ↦ .inr
    have hused : ∀ spec ∈ v₂.payload.ruleSpecs h, UsesKey h v₂.payload spec.categoryKey :=
      fun spec hspec ↦ ⟨spec, hspec, rfl⟩
    have hrules := sameRule_of_rowsOf hused hrows₂ hrows
    have houtcome : ∀ merchant, MappingOutcome (Renamed s (UsesKey h v₂.payload)
        (categoryMap s₂ bookId v₂.payload.metadata.id)
        (categoryMap t bookId v₂.payload.metadata.id)) bookId s s₂ t merchant := by
      intro merchant
      apply outcome_of_kept h₁.mappings h₂.mappings ht.mappings (huntouched.noMappings merchant)
      · exact fun spec hspec c c' hc hc' ↦ .inr ⟨_, ⟨spec, hspec, rfl⟩, hc, hc'⟩
      · exact fun hnone hlast ↦ lastExact_eq_none.2 fun hnames ↦
          lastExact_eq_none.1 hlast (hkept merchant hnames hnone)
    have hlocal₂ := h₂.local' hlocal₁
    have hlocal := ht.local' (local_of_untouched huntouched)
    refine ⟨_, biUnique_renamed hreferential.rooted hgrown ht.rows hlocated₂ hlocated hmatch,
      fun c hc ↦ .inl ⟨rfl, ?_⟩, hrules.imp fun _ _ hr ↦ hr.mono hkeys,
      fun merchant ↦ rel_packMapping (houtcome merchant), fun new merchant hnew hnone ↦ ?_⟩
    · rw [Keyed.find_eq_some.2 ⟨hc, rfl⟩]
      rfl
    · subst hnew
      refine ⟨_, _, rel_classified hrules ?_ hkeys
        (fun m hm ↦ .inl ⟨rfl, hreferential.mapped merchant m hm⟩) (houtcome merchant) _,
        ensures_categorise hnone, ensures_categorise hnone⟩
      rintro c c' ⟨key, -, hc, hc'⟩
      exact ⟨hlocal₂ key c hc, hlocal key c' hc'⟩

def plainPack (id version category : String) (merchants : List String) : VerifiedPack where
  payload :=
    { metadata := { id, name := id, version }
      categories := [⟨"main", category, none, "expense"⟩]
      merchantRules := merchants.map fun merchant ↦ ⟨.exact, merchant, "main", 1⟩
      keywordRules := [] }
  signer := "key"
  provenance := .builtin

def emptyBook : PackDb where
  books :=
    [{ id := "book", kind := .business, currency := "ZAR", region := "ZA",
       financialLockDate := none }]

def installed (s : PackDb) (pack : VerifiedPack) : PackDb :=
  ((install plainPackHost "book" pack).run s).2

theorem run_install_eq (s : PackDb) (pack : VerifiedPack)
    (hrun : ((install plainPackHost "book" pack).run s).1.isOk = true) :
    ∃ report, (install plainPackHost "book" pack).run s = (.ok report, installed s pack) := by
  rw [installed]
  generalize (install plainPackHost "book" pack).run s = outcome at hrun ⊢
  obtain ⟨result, t⟩ := outcome
  cases result with
  | ok report => exact ⟨report, rfl⟩
  | error e => cases hrun

theorem untouched_emptyBook : Untouched emptyBook "book" where
  noRules := nofun
  noEntries _ _ := rfl
  noMappings := nofun

theorem referential_emptyBook : Referential emptyBook "book" where
  rooted := by simp [Rooted, emptyBook]
  mapped := nofun

/-- The second version of a pack keeps the rule of the first and adds one. -/
theorem upgrade_matches_fresh_of_added :
    SameBook plainPackHost "book" emptyBook
      (installed (installed emptyBook (plainPack "pack" "1.0.0" "Food" ["market"]))
        (plainPack "pack" "2.0.0" "Food" ["market", "cafe"]))
      (installed emptyBook (plainPack "pack" "2.0.0" "Food" ["market", "cafe"])) := by
  obtain ⟨_, hfirst⟩ :=
    run_install_eq emptyBook (plainPack "pack" "1.0.0" "Food" ["market"]) (by decide +kernel)
  obtain ⟨_, hupgrade⟩ := run_install_eq (installed emptyBook (plainPack "pack" "1.0.0" "Food" ["market"]))
    (plainPack "pack" "2.0.0" "Food" ["market", "cafe"]) (by decide +kernel)
  obtain ⟨_, hfresh⟩ :=
    run_install_eq emptyBook (plainPack "pack" "2.0.0" "Food" ["market", "cafe"]) (by decide +kernel)
  have hid : (plainPack "pack" "2.0.0" "Food" ["market", "cafe"]).payload.metadata.id =
      (plainPack "pack" "1.0.0" "Food" ["market"]).payload.metadata.id := rfl
  refine (upgrade_matches_fresh_iff hid untouched_emptyBook referential_emptyBook hfirst hupgrade
    hfresh).2 ⟨fun merchant hnames _ ↦ ?_, placesMatch_of_eq fun key hkey ↦ ?_⟩
  · obtain ⟨rule, hrule, hexact⟩ := hnames
    obtain rfl := List.mem_singleton.1 hrule
    exact ⟨_, List.mem_cons_self, hexact⟩
  · obtain ⟨spec, hspec, rfl⟩ := hkey
    have hmain : spec.categoryKey = "main" := by
      have hall : ∀ spec ∈ (plainPack "pack" "2.0.0" "Food" ["market", "cafe"]).payload.ruleSpecs
          plainPackHost, spec.categoryKey = "main" := by
        decide +kernel
      exact hall spec hspec
    rw [hmain]
    rfl

/-- The second version of a pack drops a rule of the first. Its merchant is still classified after
the upgrade, but not on a device that has installed the second version alone. -/
theorem upgrade_keeps_dropped_rule :
    ∃ report₁ report₂ report s₁ s₂ t,
      (install plainPackHost "book" (plainPack "pack" "1.0.0" "Food" ["cafe", "market"])).run emptyBook =
        (.ok report₁, s₁) ∧
      (install plainPackHost "book" (plainPack "pack" "2.0.0" "Food" ["market"])).run s₁ =
        (.ok report₂, s₂) ∧
      (install plainPackHost "book" (plainPack "pack" "2.0.0" "Food" ["market"])).run emptyBook =
        (.ok report, t) ∧
      ¬SameBook plainPackHost "book" emptyBook s₂ t := by
  obtain ⟨report₁, hfirst⟩ :=
    run_install_eq emptyBook (plainPack "pack" "1.0.0" "Food" ["cafe", "market"]) (by decide +kernel)
  obtain ⟨report₂, hupgrade⟩ := run_install_eq
    (installed emptyBook (plainPack "pack" "1.0.0" "Food" ["cafe", "market"]))
    (plainPack "pack" "2.0.0" "Food" ["market"]) (by decide +kernel)
  obtain ⟨report, hfresh⟩ :=
    run_install_eq emptyBook (plainPack "pack" "2.0.0" "Food" ["market"]) (by decide +kernel)
  refine ⟨report₁, report₂, report, _, _, _, hfirst, hupgrade, hfresh, ?_⟩
  rintro ⟨rename, hsame⟩
  have hmapping := hsame.mappings "cafe"
  have hnone : packMapping (installed emptyBook (plainPack "pack" "2.0.0" "Food" ["market"])) "book"
      "cafe" = none := by
    decide +kernel
  have hsome : (packMapping (installed (installed emptyBook
      (plainPack "pack" "1.0.0" "Food" ["cafe", "market"])) (plainPack "pack" "2.0.0" "Food" ["market"])) "book"
      "cafe").isSome = true := by
    decide +kernel
  obtain ⟨m, hm⟩ := Option.isSome_iff_exists.1 hsome
  rw [hm, hnone] at hmapping
  cases hmapping

end Upgrade

end SlipScan.Packs.Upgrade
