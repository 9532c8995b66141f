import SlipScan.Packs.Places

namespace SlipScan.Packs.Writes

open Model.Domain Model.Database Model.Packs Foundation.Transaction Foundation.Interleaving
  Foundation.Table Places

variable {h : PackHost} {s t u : PackDb} {bookId packId now : String} {keyToId : KeyMap}

section Basics

@[simp]
theorem ensures_enforce {c : Prop} [Decidable c] {message : String} {Q : Unit → PackDb → Prop} :
    Ensures (enforce c message) s Q ↔ (c → Q () s) := by
  by_cases hc : c <;> simp [enforce, hc]

@[simp]
theorem ensures_mintId {Q : String → PackDb → Prop} :
    Ensures (mintId h) s Q ↔ Q (h.newId s.minted) { s with minted := s.minted + 1 } := by
  simp only [mintId, ensures_bind, ensures_get, ensures_modify, ensures_pure]

theorem inserted_eq_ok {ρ κ : Type} [DecidableEq κ] {key : ρ → κ} {table : String}
    {rows rows' : Keyed key} {r : ρ} (hrows : inserted table rows r = .ok rows') :
    rows.addNew r = some rows' := by
  rw [inserted] at hrows
  split at hrows
  · rename_i hnew
    rw [hnew, Except.ok.inj hrows]
  · cases hrows

end Basics

section Categories

structure CategoryWrites (bookId packId : String) (s t : PackDb) : Prop where
  frame : t = { s with
    categories := t.categories, packCategoryMap := t.packCategoryMap, minted := t.minted }
  rows : s.categories.rows <+: t.categories.rows
  grows : ∀ id c, s.categories.find id = some c → t.categories.find id = some c
  otherEntries : ∀ book pack key, (book, pack) ≠ (bookId, packId) →
    t.packCategoryMap.find (book, pack, key) = s.packCategoryMap.find (book, pack, key)

theorem CategoryWrites.refl (s : PackDb) : CategoryWrites bookId packId s s where
  frame := rfl
  rows := List.prefix_rfl
  grows _ _ hc := hc
  otherEntries _ _ _ _ := rfl

theorem CategoryWrites.trans (hst : CategoryWrites bookId packId s t)
    (htu : CategoryWrites bookId packId t u) : CategoryWrites bookId packId s u where
  frame := by
    rw [htu.frame, hst.frame]
  rows := hst.rows.trans htu.rows
  grows id c hc := htu.grows id c (hst.grows id c hc)
  otherEntries book pack key hne :=
    (htu.otherEntries book pack key hne).trans (hst.otherEntries book pack key hne)

theorem ensures_insertCategory {category : TreeCategory} :
    Ensures (insertCategory category) s fun _ t ↦ ∃ categories,
      s.categories.addNew category = some categories ∧ t = { s with categories } := by
  simp only [insertCategory, ensures_bind, ensures_get, ensures_enforce, ensures_check,
    ensures_modify]
  exact fun _ _ categories hcategories ↦ ⟨categories, inserted_eq_ok hcategories, rfl⟩

theorem categoryWrites_mapCategory (key categoryId : String) :
    CategoryWrites bookId packId s { s with
      packCategoryMap := s.packCategoryMap.upsert ⟨bookId, packId, key, categoryId⟩
        (PackCategoryEntry.retarget categoryId) (key_retarget categoryId) } where
  frame := rfl
  rows := List.prefix_rfl
  grows _ _ hc := hc
  otherEntries book pack key' hne := by
    rw [Keyed.find_upsert, if_neg]
    intro heq
    apply hne
    simp only [PackCategoryEntry.key, Prod.mk.injEq] at heq
    rw [heq.1, heq.2.1]

theorem categoryMap_mapCategory (key categoryId : String) :
    categoryMap { s with
      packCategoryMap := s.packCategoryMap.upsert ⟨bookId, packId, key, categoryId⟩
        (PackCategoryEntry.retarget categoryId) (key_retarget categoryId) } bookId packId =
      Function.update (categoryMap s bookId packId) key (some categoryId) := by
  funext key'
  rw [categoryMap, Keyed.find_upsert]
  by_cases hkey : key' = key
  · subst hkey
    have hself : PackCategoryEntry.key ⟨bookId, packId, key', categoryId⟩ =
        (bookId, packId, key') := rfl
    rw [Function.update_self, if_pos hself]
    cases s.packCategoryMap.find (bookId, packId, key') <;> rfl
  · have hne : PackCategoryEntry.key ⟨bookId, packId, key, categoryId⟩ ≠
        (bookId, packId, key') := by
      simp only [PackCategoryEntry.key, ne_eq, Prod.mk.injEq, true_and]
      exact fun heq ↦ hkey heq.symm
    rw [if_neg hne, Function.update_of_ne hkey]
    rfl

def Local (s : PackDb) (bookId : String) (keyToId : KeyMap) : Prop :=
  ∀ key id, keyToId key = some id → ∃ c, s.categories.find id = some c ∧ c.bookId = bookId

theorem Local.mono (hlocal : Local s bookId keyToId) (hst : CategoryWrites bookId packId s t) :
    Local t bookId keyToId := by
  intro key id hid
  obtain ⟨c, hc, hbook⟩ := hlocal key id hid
  exact ⟨c, hst.grows id c hc, hbook⟩

theorem Local.update (hlocal : Local s bookId keyToId) {key id : String} {c : TreeCategory}
    (hc : s.categories.find id = some c) (hbook : c.bookId = bookId) :
    Local s bookId (Function.update keyToId key (some id)) := by
  intro key' id' hid
  by_cases hkey : key' = key
  · subst hkey
    rw [Function.update_self] at hid
    obtain rfl := Option.some.inj hid
    exact ⟨c, hc, hbook⟩
  · rw [Function.update_of_ne hkey] at hid
    exact hlocal key' id' hid

theorem siblingNamed_eq_some {parentId : Option String} {name : String} {c : TreeCategory}
    (hc : siblingNamed s bookId parentId name = some c) :
    s.categories.find c.id = some c ∧ c.bookId = bookId := by
  have hbook := List.find?_some hc
  simp only [decide_eq_true_eq] at hbook
  exact ⟨Keyed.find_eq_some.2 ⟨List.mem_of_find?_eq_some hc, rfl⟩, hbook.1⟩

/-- What the categories of a pack leave behind. -/
structure CategoriesInstalled (bookId packId : String) (s : PackDb) (keyToId : KeyMap)
    (specs : List PackCategory) (t : PackDb) (keyToId' : KeyMap) : Prop where
  writes : CategoryWrites bookId packId s t
  stored : categoryMap s bookId packId = keyToId → categoryMap t bookId packId = keyToId'
  local' : Local s bookId keyToId → Local t bookId keyToId'
  located : ∀ places, Located s bookId keyToId places → Located t bookId keyToId' (placed specs places)
  mapped : ∀ spec ∈ specs, ∃ id, keyToId' spec.key = some id
  kept : ∀ key id, keyToId key = some id → ∃ id', keyToId' key = some id'
  alive : ∀ key id c, keyToId key = some id → s.categories.find id = some c → keyToId' key = some id

theorem CategoriesInstalled.cons {spec : PackCategory} {specs : List PackCategory}
    {keyToId₁ keyToId₂ : KeyMap} {id : String} (hwrites : CategoryWrites bookId packId s t)
    (hstored : categoryMap s bookId packId = keyToId → categoryMap t bookId packId = keyToId₁)
    (hlocal : Local s bookId keyToId → Local t bookId keyToId₁)
    (hlocated : ∀ places, Located s bookId keyToId places → Located t bookId keyToId₁
      (if (places spec.key).isSome then places
        else Function.update places spec.key (some (placeOf places spec))))
    (hkept : ∀ key id, keyToId key = some id → ∃ id', keyToId₁ key = some id')
    (halive : ∀ key id c, keyToId key = some id → s.categories.find id = some c →
      keyToId₁ key = some id) (hid : keyToId₁ spec.key = some id)
    (hrest : CategoriesInstalled bookId packId t keyToId₁ specs u keyToId₂) :
    CategoriesInstalled bookId packId s keyToId (spec :: specs) u keyToId₂ where
  writes := hwrites.trans hrest.writes
  stored := hrest.stored ∘ hstored
  local' := hrest.local' ∘ hlocal
  located places hplaces := hrest.located _ (hlocated places hplaces)
  mapped := List.forall_mem_cons.2 ⟨hrest.kept spec.key id hid, hrest.mapped⟩
  kept key id hkey := by
    obtain ⟨id₁, hid₁⟩ := hkept key id hkey
    exact hrest.kept key id₁ hid₁
  alive key id c hkey hc := hrest.alive key id c (halive key id c hkey hc) (hwrites.grows id c hc)

theorem kept_update (key : String) (id : String) :
    ∀ key' id', keyToId key' = some id' →
      ∃ id'', Function.update keyToId key (some id) key' = some id'' := by
  intro key' id' hid'
  by_cases hkey : key' = key
  · exact ⟨id, by rw [hkey, Function.update_self]⟩
  · exact ⟨id', by rw [Function.update_of_ne hkey, hid']⟩

theorem alive_update {key : String} (id : String)
    (hdead : ¬((keyToId key).bind s.categories.find).isSome) :
    ∀ key' id' c, keyToId key' = some id' → s.categories.find id' = some c →
      Function.update keyToId key (some id) key' = some id' := by
  intro key' id' c hid' hc
  rw [Function.update_of_ne]
  · exact hid'
  · intro hkey
    apply hdead
    rw [← hkey, hid', Option.bind_some, hc]
    rfl

/-- A key has a place when the category that it stands for is there. -/
theorem isSome_place {places : String → Option Place} (hlocated : Located s bookId keyToId places)
    (key : String) :
    (places key).isSome ↔ ((keyToId key).bind s.categories.find).isSome := by
  have hkey := hlocated key
  cases hid : keyToId key with
  | none =>
    rw [hid] at hkey
    generalize places key = place at hkey ⊢
    cases hkey
    simp
  | some id =>
    obtain ⟨place, hplace, hat⟩ := hlocated.exists_place hid
    rw [hplace]
    cases place with
    | nil => cases hat
    | cons name above =>
      obtain ⟨_, c, -, hc, hcid⟩ := idAt_cons.1 hat
      obtain rfl := Option.some.inj hcid
      simp [(siblingNamed_eq_some hc).1]

theorem located_update {places : String → Option Place} {spec : PackCategory} {c : TreeCategory}
    {parentId : Option String} (hlocated : Located s bookId keyToId places)
    (hdead : ¬((keyToId spec.key).bind s.categories.find).isSome)
    (hrows : s.categories.rows <+: t.categories.rows)
    (hparent : parentOf packId keyToId spec = .ok parentId)
    (hc : siblingNamed t bookId parentId spec.name = some c) :
    Located t bookId (Function.update keyToId spec.key (some c.id))
      (if (places spec.key).isSome then places
        else Function.update places spec.key (some (placeOf places spec))) := by
  rw [if_neg (mt (isSome_place hlocated spec.key).1 hdead)]
  exact (hlocated.mono hrows).update
    (idAt_cons.2 ⟨parentId, c, idAt_mono hrows (hlocated.parentOf hparent), hc, rfl⟩)

/-- A new category is the one of its name below its parent. -/
theorem siblingNamed_addNew {category : TreeCategory} {categories : Keyed fun c : TreeCategory ↦ c.id}
    (hnew : s.categories.addNew category = some categories)
    (hnone : siblingNamed s category.bookId category.parentId category.name = none)
    (ht : t.categories = categories) :
    siblingNamed t category.bookId category.parentId category.name = some category := by
  rw [siblingNamed] at hnone
  rw [siblingNamed, ht, (Keyed.addNew_eq_some.1 hnew).2, List.find?_append, hnone, Option.none_or]
  simp

theorem ensures_installCategories (specs : List PackCategory) (counts : CategoryCounts) :
    Ensures (installCategories h bookId packId specs keyToId counts) s fun r t ↦
      CategoriesInstalled bookId packId s keyToId specs t r.2 := by
  induction specs generalizing s keyToId counts with
  | nil =>
    rw [installCategories, ensures_pure]
    exact ⟨.refl s, id, id, fun _ hplaces ↦ hplaces, by simp, fun key id hid ↦ ⟨id, hid⟩,
      fun _ _ _ hid _ ↦ hid⟩
  | cons spec specs ih =>
    simp only [installCategories, ensures_bind, ensures_get]
    by_cases halive : ((keyToId spec.key).bind s.categories.find).isSome
    · rw [if_pos halive]
      obtain ⟨id, hid⟩ : ∃ id, keyToId spec.key = some id := by
        cases hkey : keyToId spec.key with
        | none => simp [hkey] at halive
        | some id => exact ⟨id, rfl⟩
      refine (ih _).mono fun _ _ hrest ↦ .cons (.refl s) (fun hstored ↦ hstored)
        (fun hlocal ↦ hlocal) (fun places hplaces ↦ ?_) (fun key id hkey ↦ ⟨id, hkey⟩)
        (fun _ _ _ hkey _ ↦ hkey) hid hrest
      rwa [if_pos ((isSome_place hplaces spec.key).2 halive)]
    · rw [if_neg halive]
      simp only [ensures_bind, ensures_check]
      intro parentId hparent
      cases hexisting : siblingNamed s bookId parentId spec.name with
      | some existing =>
        obtain ⟨hfind, hbook⟩ := siblingNamed_eq_some hexisting
        simp only [ensures_bind, mapCategory, ensures_modify]
        refine (ih _).mono fun _ _ hrest ↦ .cons (categoryWrites_mapCategory spec.key existing.id)
          (fun hstored ↦ ?_) (fun hlocal ↦ ?_)
          (fun _ hplaces ↦ located_update hplaces halive List.prefix_rfl hparent hexisting)
          (kept_update _ _) (alive_update _ halive) (Function.update_self ..) hrest
        · rw [categoryMap_mapCategory, hstored]
        · exact (hlocal.mono (categoryWrites_mapCategory spec.key existing.id)).update hfind hbook
      | none =>
        simp only [ensures_bind, ensures_check, ensures_mintId]
        intro kind _
        refine ensures_insertCategory.mono fun _ t ht ↦ ?_
        obtain ⟨categories, hnew, rfl⟩ := ht
        simp only [mapCategory, ensures_modify]
        refine (ih _).mono fun _ _ hrest ↦ ?_
        have hrows : s.categories.rows <+: categories.rows :=
          ⟨_, (Keyed.addNew_eq_some.1 hnew).2.symm⟩
        have hgrows : CategoryWrites bookId packId s
            { s with minted := s.minted + 1, categories } := by
          refine ⟨rfl, hrows, fun id c hc ↦ ?_, fun _ _ _ _ ↦ rfl⟩
          rw [Keyed.find_of_addNew hnew, if_neg]
          · exact hc
          · rintro rfl
            rw [(Keyed.addNew_eq_some.1 hnew).1] at hc
            cases hc
        have hfind := Keyed.find_of_addNew (k := h.newId s.minted) hnew
        rw [if_pos rfl] at hfind
        refine .cons (hgrows.trans (categoryWrites_mapCategory spec.key (h.newId s.minted)))
          (fun hstored ↦ ?_) (fun hlocal ↦ ?_)
          (fun _ hplaces ↦ located_update hplaces halive hrows hparent
            (siblingNamed_addNew hnew hexisting rfl))
          (kept_update _ _) (alive_update _ halive) (Function.update_self ..) hrest
        · rw [categoryMap_mapCategory]
          exact congrArg (Function.update · spec.key _) hstored
        · exact ((hlocal.mono hgrows).mono
            (categoryWrites_mapCategory spec.key (h.newId s.minted))).update hfind rfl

end Categories

section Rules

variable {specs : List RuleSpec} {spec : RuleSpec} {position : ℤ} {categoryId : String}

structure RuleWrites (s t : PackDb) : Prop where
  frame : t = { s with
    packRules := t.packRules, merchantMappings := t.merchantMappings, minted := t.minted }

theorem RuleWrites.trans (hst : RuleWrites s t) (htu : RuleWrites t u) : RuleWrites s u where
  frame := by
    rw [htu.frame, hst.frame]

structure RowOf (bookId packId : String) (keyToId : KeyMap) (spec : RuleSpec) (row : PackRule) :
    Prop where
  bookId : row.bookId = bookId
  packId : row.packId = packId
  ruleKind : row.ruleKind = spec.ruleKind
  pattern : row.pattern = spec.pattern
  confidence : row.confidence = spec.confidence
  category : keyToId spec.categoryKey = some row.categoryId

inductive RowsOf (bookId packId : String) (keyToId : KeyMap) :
    List RuleSpec → ℤ → List PackRule → Prop
  | nil (position : ℤ) : RowsOf bookId packId keyToId [] position []
  | cons {spec : RuleSpec} {specs : List RuleSpec} {position : ℤ} {row : PackRule}
      {rows : List PackRule} (hrow : RowOf bookId packId keyToId spec row)
      (hposition : row.position = position)
      (hrows : RowsOf bookId packId keyToId specs (position + 1) rows) :
      RowsOf bookId packId keyToId (spec :: specs) position (row :: rows)

theorem RowsOf.append {specs' : List RuleSpec} {rows rows' : List PackRule}
    (hrows : RowsOf bookId packId keyToId specs position rows)
    (hrows' : RowsOf bookId packId keyToId specs' (position + specs.length) rows') :
    RowsOf bookId packId keyToId (specs ++ specs') position (rows ++ rows') := by
  induction hrows with
  | nil position => simpa using hrows'
  | cons hrow hposition hrows ih =>
    refine .cons hrow hposition (ih ?_)
    rw [List.length_cons] at hrows'
    rwa [add_assoc, add_comm 1, ← Int.natCast_succ]

def lastExact (specs : List RuleSpec) (merchant : String) : Option RuleSpec :=
  (specs.filter fun spec ↦ spec.ruleKind = .exact ∧ spec.pattern = merchant).getLast?

/-- A mapping that stands for an exact rule. -/
structure Seeded (keyToId : KeyMap) (spec : RuleSpec) (mapping : MerchantMapping) : Prop where
  source : mapping.source = .pack
  category : keyToId spec.categoryKey = some mapping.categoryId
  confidence : mapping.confidence = spec.confidence

/-- What some rules make of the mappings of a book. -/
structure MappingsSeeded (bookId : String) (keyToId : KeyMap) (specs : List RuleSpec)
    (before after : Keyed MerchantMapping.key) : Prop where
  elsewhere : ∀ book merchant, book ≠ bookId →
    after.find (book, merchant) = before.find (book, merchant)
  unnamed : ∀ merchant, lastExact specs merchant = none →
    after.find (bookId, merchant) = before.find (bookId, merchant)
  kept : ∀ key m, before.find key = some m → m.source ≠ .pack → after.find key = some m
  seeded : ∀ merchant spec, lastExact specs merchant = some spec →
    (∀ m, before.find (bookId, merchant) = some m → m.source = .pack) →
    ∃ m, after.find (bookId, merchant) = some m ∧ Seeded keyToId spec m

theorem ensures_insertRule :
    Ensures (insertRule h bookId packId spec categoryId position) s fun _ t ↦
      RuleWrites s t ∧ t.merchantMappings = s.merchantMappings ∧ ∃ row,
        t.packRules = s.packRules ++ [row] ∧ row.bookId = bookId ∧ row.packId = packId ∧
        row.ruleKind = spec.ruleKind ∧ row.pattern = spec.pattern ∧
        row.confidence = spec.confidence ∧ row.categoryId = categoryId ∧
        row.position = position := by
  simp only [insertRule, ensures_bind, ensures_mintId, ensures_get, ensures_enforce,
    ensures_modify]
  exact fun _ ↦ ⟨⟨rfl⟩, trivial, _, rfl, rfl, rfl, rfl, rfl, rfl, rfl, rfl⟩

theorem ensures_writeMapping {mapping : MerchantMapping}
    {onConflict : MerchantMapping → MerchantMapping} {hkey : ∀ m, (onConflict m).key = m.key} :
    Ensures (writeMapping mapping onConflict hkey) s fun _ t ↦
      t = { s with merchantMappings := s.merchantMappings.upsert mapping onConflict hkey } := by
  simp only [writeMapping, ensures_bind, ensures_get, ensures_enforce, ensures_modify]
  exact fun _ _ _ ↦ trivial

theorem lastExact_append (specs specs' : List RuleSpec) (merchant : String) :
    lastExact (specs ++ specs') merchant =
      (lastExact specs' merchant).or (lastExact specs merchant) := by
  rw [lastExact, List.filter_append, List.getLast?_append]
  rfl

theorem lastExact_singleton (spec : RuleSpec) (merchant : String) :
    lastExact [spec] merchant =
      if spec.ruleKind = .exact ∧ spec.pattern = merchant then some spec else none := by
  rw [lastExact, List.filter_singleton]
  by_cases hspec : spec.ruleKind = .exact ∧ spec.pattern = merchant
  · simp [hspec]
  · simp [hspec]

theorem mappingsSeeded_of_not_exact {mappings : Keyed MerchantMapping.key}
    (hspec : spec.ruleKind ≠ .exact) :
    MappingsSeeded bookId keyToId [spec] mappings mappings where
  elsewhere _ _ _ := rfl
  unnamed _ _ := rfl
  kept _ _ hm _ := hm
  seeded merchant spec' hlast _ := by
    simp [hspec, lastExact] at hlast

theorem ensures_seedMapping (hcategory : keyToId spec.categoryKey = some categoryId)
    (hspec : spec.ruleKind = .exact) :
    Ensures (seedMapping h bookId spec categoryId now) s fun _ t ↦
      RuleWrites s t ∧ t.packRules = s.packRules ∧
        MappingsSeeded bookId keyToId [spec] s.merchantMappings t.merchantMappings := by
  simp only [seedMapping, ensures_bind, ensures_mintId]
  refine ensures_writeMapping.mono fun _ t ht ↦ ?_
  subst ht
  refine ⟨⟨rfl⟩, rfl, ?_⟩
  have hlast : ∀ merchant, lastExact [spec] merchant =
      if spec.pattern = merchant then some spec else none := by
    intro merchant
    rw [lastExact_singleton]
    simp only [hspec, true_and]
  constructor
  · intro book merchant hbook
    rw [Keyed.find_upsert, if_neg]
    exact fun heq ↦ hbook (congrArg Prod.fst heq).symm
  · intro merchant hnone
    rw [hlast] at hnone
    rw [Keyed.find_upsert, if_neg]
    intro heq
    have hpattern : spec.pattern = merchant := congrArg Prod.snd heq
    rw [if_pos hpattern] at hnone
    cases hnone
  · intro key m hm hsource
    rw [Keyed.find_upsert]
    split
    · rw [hm, Option.map_some, Option.getD_some, MerchantMapping.reseed, if_neg hsource]
    · exact hm
  · intro merchant spec' hspec' hpack
    rw [hlast] at hspec'
    split at hspec'
    · rename_i hpattern
      obtain rfl := Option.some.inj hspec'
      subst hpattern
      refine ⟨_, by rw [Keyed.find_upsert]; exact if_pos rfl, ?_⟩
      cases hfind : s.merchantMappings.find (bookId, spec.pattern) with
      | none => exact ⟨rfl, hcategory, rfl⟩
      | some m =>
        rw [Option.map_some, Option.getD_some, MerchantMapping.reseed, if_pos (hpack m hfind)]
        exact ⟨hpack m hfind, hcategory, rfl⟩
    · cases hspec'

theorem MappingsSeeded.append {before middle after : Keyed MerchantMapping.key}
    {specs' : List RuleSpec} (hfirst : MappingsSeeded bookId keyToId specs before middle)
    (hrest : MappingsSeeded bookId keyToId specs' middle after) :
    MappingsSeeded bookId keyToId (specs ++ specs') before after where
  elsewhere book merchant hbook :=
    (hrest.elsewhere book merchant hbook).trans (hfirst.elsewhere book merchant hbook)
  unnamed merchant hnone := by
    rw [lastExact_append, Option.or_eq_none_iff] at hnone
    rw [hrest.unnamed merchant hnone.1, hfirst.unnamed merchant hnone.2]
  kept key m hm hsource := hrest.kept key m (hfirst.kept key m hm hsource) hsource
  seeded merchant spec hlast hpack := by
    rw [lastExact_append] at hlast
    have hmiddle : ∀ m, middle.find (bookId, merchant) = some m → m.source = .pack := by
      intro m hm
      cases hfound : lastExact specs merchant with
      | none =>
        rw [hfirst.unnamed merchant hfound] at hm
        exact hpack m hm
      | some spec₁ =>
        obtain ⟨m', hm', hseeded⟩ := hfirst.seeded merchant spec₁ hfound hpack
        obtain rfl := Option.some.inj (hm'.symm.trans hm)
        exact hseeded.source
    cases hrestLast : lastExact specs' merchant with
    | none =>
      rw [hrestLast, Option.none_or] at hlast
      rw [hrest.unnamed merchant hrestLast]
      exact hfirst.seeded merchant spec hlast hpack
    | some spec₂ =>
      rw [hrestLast, Option.some_or] at hlast
      obtain rfl := Option.some.inj hlast
      exact hrest.seeded merchant spec₂ hrestLast hmiddle

theorem ensures_writeRules (specs : List RuleSpec) (position : ℤ) :
    Ensures (writeRules h bookId packId now keyToId specs position) s fun _ t ↦
      RuleWrites s t ∧
        MappingsSeeded bookId keyToId specs s.merchantMappings t.merchantMappings ∧
        ∃ rows, t.packRules = s.packRules ++ rows ∧
          RowsOf bookId packId keyToId specs position rows := by
  induction specs generalizing s position with
  | nil =>
    rw [writeRules, ensures_pure]
    refine ⟨⟨rfl⟩, ⟨fun _ _ _ ↦ rfl, fun _ _ ↦ rfl, fun _ _ hm _ ↦ hm, ?_⟩, [], by simp, .nil _⟩
    intro merchant spec hlast
    cases hlast
  | cons spec specs ih =>
    simp only [writeRules, ensures_bind, ensures_check]
    intro categoryId hcategory
    have hkey : keyToId spec.categoryKey = some categoryId := by
      rw [resolve] at hcategory
      split at hcategory
      · rename_i hid
        rw [hid, Except.ok.inj hcategory]
      · cases hcategory
    refine ensures_insertRule.mono fun _ s₁ hs₁ ↦ ?_
    obtain ⟨hwrites₁, hmappings, row, hrows, hrow⟩ := hs₁
    obtain ⟨hbook, hpack, hkind, hpattern, hconfidence, hrowCategory, hposition⟩ := hrow
    have hrowOf : RowOf bookId packId keyToId spec row :=
      ⟨hbook, hpack, hkind, hpattern, hconfidence, by rw [hkey, hrowCategory]⟩
    have hrest : ∀ s₂, RuleWrites s₁ s₂ → s₂.packRules = s₁.packRules →
        MappingsSeeded bookId keyToId [spec] s₁.merchantMappings s₂.merchantMappings →
        Ensures (writeRules h bookId packId now keyToId specs (position + 1)) s₂ fun _ t ↦
          RuleWrites s t ∧
            MappingsSeeded bookId keyToId (spec :: specs) s.merchantMappings t.merchantMappings ∧
            ∃ rows, t.packRules = s.packRules ++ rows ∧
              RowsOf bookId packId keyToId (spec :: specs) position rows := by
      intro s₂ hwrites₂ hrules hseeded
      refine (ih (position + 1)).mono fun _ t ht ↦ ?_
      obtain ⟨hwrites, hrest, rows, hrestRows, hrowsOf⟩ := ht
      rw [hmappings] at hseeded
      refine ⟨(hwrites₁.trans hwrites₂).trans hwrites, hseeded.append hrest, row :: rows, ?_,
        .cons hrowOf hposition hrowsOf⟩
      rw [hrestRows, hrules, hrows, List.append_assoc, List.singleton_append]
    by_cases hspec : spec.ruleKind = .exact
    · rw [if_pos hspec, ensures_bind]
      refine (ensures_seedMapping hkey hspec).mono fun _ s₂ hs₂ ↦ ?_
      obtain ⟨hwrites₂, hrules, hseeded⟩ := hs₂
      exact hrest s₂ hwrites₂ hrules hseeded
    · rw [if_neg hspec]
      exact hrest s₁ ⟨rfl⟩ rfl (mappingsSeeded_of_not_exact hspec)

def otherRules (s : PackDb) (bookId packId : String) : List PackRule :=
  s.packRules.filter fun r ↦ ¬(r.bookId = bookId ∧ r.packId = packId)

theorem ensures_installRules {payload : PackPayload} :
    Ensures (installRules h bookId payload keyToId now) s fun _ t ↦
      RuleWrites s t ∧
        MappingsSeeded bookId keyToId (payload.ruleSpecs h) s.merchantMappings
          t.merchantMappings ∧
        ∃ rows, t.packRules = otherRules s bookId payload.metadata.id ++ rows ∧
          RowsOf bookId payload.metadata.id keyToId (payload.ruleSpecs h) 0 rows := by
  simp only [installRules, ensures_bind, ensures_modify, ensures_check, ensures_get, ensures_pure]
  refine (ensures_writeRules _ 0).mono fun _ t ht _ _ ↦ ?_
  obtain ⟨hwrites, hseeded, rows, hrows, hrowsOf⟩ := ht
  refine (ensures_writeRules _ _).mono fun _ u hu ↦ ?_
  obtain ⟨hwrites', hseeded', rows', hrows', hrowsOf'⟩ := hu
  refine ⟨(RuleWrites.trans ⟨rfl⟩ hwrites).trans hwrites', hseeded.append hseeded', rows ++ rows',
    ?_, hrowsOf.append ?_⟩
  · rw [hrows', hrows, List.append_assoc]
    rfl
  · rwa [List.length_map, zero_add]

end Rules

section Install

variable {payload : PackPayload} {pack : VerifiedPack}

structure PackWritten (h : PackHost) (bookId : String) (payload : PackPayload) (s t : PackDb) :
    Prop where
  frame : t = { s with
    categories := t.categories
    merchantMappings := t.merchantMappings
    trustedSigners := t.trustedSigners
    signerPins := t.signerPins
    packInstalls := t.packInstalls
    packCategoryMap := t.packCategoryMap
    packRules := t.packRules
    minted := t.minted }
  rows : s.categories.rows <+: t.categories.rows
  grows : ∀ id c, s.categories.find id = some c → t.categories.find id = some c
  otherEntries : ∀ book pack key, (book, pack) ≠ (bookId, payload.metadata.id) →
    t.packCategoryMap.find (book, pack, key) = s.packCategoryMap.find (book, pack, key)
  alive : ∀ key id c, categoryMap s bookId payload.metadata.id key = some id →
    s.categories.find id = some c → categoryMap t bookId payload.metadata.id key = some id
  local' : Local s bookId (categoryMap s bookId payload.metadata.id) →
    Local t bookId (categoryMap t bookId payload.metadata.id)
  located : ∀ places, Located s bookId (categoryMap s bookId payload.metadata.id) places →
    Located t bookId (categoryMap t bookId payload.metadata.id) (placed payload.categories places)
  mappings : MappingsSeeded bookId (categoryMap t bookId payload.metadata.id) (payload.ruleSpecs h)
    s.merchantMappings t.merchantMappings
  rules : ∃ rows, t.packRules = otherRules s bookId payload.metadata.id ++ rows ∧
    RowsOf bookId payload.metadata.id (categoryMap t bookId payload.metadata.id)
      (payload.ruleSpecs h) 0 rows

theorem ensures_writeInstall {signer installedAt : String} :
    Ensures (writeInstall h bookId payload signer installedAt now) s fun _ t ↦
      PackWritten h bookId payload s t := by
  simp only [writeInstall, ensures_bind, ensures_check, ensures_get, ensures_modify, ensures_pure]
  intro version _
  refine (ensures_installCategories _ _).mono fun r t hcategories ↦ ?_
  refine ensures_installRules.mono fun _ u hinstalled ↦ ?_
  obtain ⟨hwrites, hseeded, hrows⟩ := hinstalled
  have hstored := hcategories.stored rfl
  have hu : categoryMap u bookId payload.metadata.id = r.2 := by
    rw [hwrites.frame]
    exact hstored
  have hframe := hcategories.writes.frame
  have hmappings : t.merchantMappings = s.merchantMappings := by
    rw [hframe]
  have hrules : otherRules t bookId payload.metadata.id =
      otherRules s bookId payload.metadata.id := by
    rw [hframe]
    rfl
  rw [hmappings] at hseeded
  rw [hrules] at hrows
  have hcats : u.categories = t.categories := by
    rw [hwrites.frame]
  constructor
  · rw [hwrites.frame, hframe]
  · rw [hcats]
    exact hcategories.writes.rows
  · rw [hwrites.frame]
    exact hcategories.writes.grows
  · rw [hwrites.frame]
    exact hcategories.writes.otherEntries
  · intro key id c hid hc
    exact (congrFun hu key).trans (hcategories.alive key id c hid hc)
  · intro hlocal
    have hlocal' := hcategories.local' hlocal
    rw [← hu] at hlocal'
    intro key id hid
    obtain ⟨c, hc, hbook⟩ := hlocal' key id hid
    refine ⟨c, ?_, hbook⟩
    rw [hwrites.frame]
    exact hc
  · intro places hplaces
    have hlocated := hcategories.located places hplaces
    rw [← hu] at hlocated
    exact hlocated.mono (show t.categories.rows <+: u.categories.rows from hcats ▸ List.prefix_rfl)
  · exact hu.symm ▸ hseeded
  · exact hu.symm ▸ hrows

theorem PackWritten.after_signers {signerPins : Keyed SignerPin.packId}
    {trustedSigners : Keyed TrustedSigner.publicKey}
    (ht : PackWritten h bookId payload { s with signerPins, trustedSigners } t) :
    PackWritten h bookId payload s t where
  frame := ht.frame
  rows := ht.rows
  grows := ht.grows
  otherEntries := ht.otherEntries
  alive := ht.alive
  local' := ht.local'
  located places hplaces := ht.located places (hplaces.mono List.prefix_rfl)
  mappings := ht.mappings
  rules := ht.rules

theorem ensures_checkAndPin {packId signer : String} :
    Ensures (checkAndPin h packId signer) s fun _ t ↦
      ∃ signerPins, t = { s with signerPins } := by
  simp only [checkAndPin, ensures_bind, ensures_get]
  cases s.signerPins.find packId with
  | some pin =>
    dsimp only
    split
    · rw [ensures_throw]
      trivial
    · rw [ensures_pure]
      exact ⟨s.signerPins, rfl⟩
  | none =>
    simp only [ensures_bind, ensures_check, ensures_modify]
    exact fun pins _ ↦ ⟨pins, rfl⟩

theorem ensures_requireTrusted {signer : String} :
    Ensures (requireTrusted h signer) s fun _ t ↦ ∃ trustedSigners, t = { s with trustedSigners } := by
  simp only [requireTrusted, ensures_bind, ensures_get]
  split
  · rw [ensures_bind, ensures_throw]
    trivial
  · rw [ensures_modify]
    exact ⟨_, rfl⟩

theorem ensures_installInTx {offered : Semver} :
    Ensures (installInTx h bookId pack offered) s fun _ t ↦
      PackWritten h bookId pack.payload s t := by
  simp only [installInTx, ensures_bind, ensures_get, ensures_check, ensures_pure]
  refine ensures_checkAndPin.mono fun _ t ht _ _ ↦ ?_
  obtain ⟨signerPins, rfl⟩ := ht
  exact ensures_writeInstall.mono fun _ u hu ↦ hu.after_signers

theorem reading_writtenRow (bookId packId : String) : (writtenRow bookId packId).Reading := by
  refine Process.Reading.bind ((reading_query _).2 trivial) fun row ↦ ?_
  cases row with
  | none => exact (reading_fail _).2 trivial
  | some row => exact (reading_pure _).2 trivial

theorem packWritten_of_installInTx {report : InstallReport} {offered : Semver}
    (hrun : (do
      let (outcome, counts) ← Process.atomically [] (installInTx h bookId pack offered)
      return (⟨outcome, ← writtenRow bookId pack.payload.metadata.id, counts⟩ : InstallReport) :
        PackService InstallReport).run s = (.ok report, t)) :
    PackWritten h bookId pack.payload s t := by
  rw [run_atomically_bind_eq_ok] at hrun
  obtain ⟨⟨outcome, counts⟩, s', hbody, hrow⟩ := hrun
  have hreading := ((reading_writtenRow bookId pack.payload.metadata.id).bind fun row ↦
    (reading_pure (⟨outcome, row, counts⟩ : InstallReport)).2 trivial).run_store s'
  rw [hrow] at hreading
  obtain rfl : t = s' := hreading
  exact ensures_installInTx _ _ hbody

theorem packWritten_of_install {report : InstallReport}
    (hrun : (install h bookId pack).run s = (.ok report, t)) :
    PackWritten h bookId pack.payload s t := by
  rw [install, run_ofExcept_bind_eq_ok] at hrun
  obtain ⟨offered, _, hrun⟩ := hrun
  rw [run_query_bind, run_ofExcept_bind_eq_ok] at hrun
  obtain ⟨_, _, hrun⟩ := hrun
  split at hrun
  · rw [run_atomically_bind_eq_ok] at hrun
    obtain ⟨_, s', htrusted, hrun⟩ := hrun
    obtain ⟨trustedSigners, rfl⟩ := ensures_requireTrusted _ _ htrusted
    exact (packWritten_of_installInTx hrun).after_signers
  · exact packWritten_of_installInTx hrun

def without (s : PackDb) (bookId packId : String) : PackDb :=
  { s with
    packInstalls := s.packInstalls.keep fun i ↦ i.key ≠ (bookId, packId)
    packRules := otherRules s bookId packId
    merchantMappings := s.merchantMappings.keep fun m ↦
      ¬(m.bookId = bookId ∧ m.source = MappingSource.pack ∧ mapsTo s bookId packId m.categoryId) }

theorem ensures_uninstallInTx {packId : String} :
    Ensures (uninstallInTx bookId packId) s fun removed t ↦
      t = if removed then without s bookId packId else s := by
  simp only [uninstallInTx, ensures_bind, ensures_get]
  split
  · rw [ensures_pure]
    rfl
  · rw [ensures_bind, ensures_set, ensures_pure]
    rfl

end Install

end SlipScan.Packs.Writes
