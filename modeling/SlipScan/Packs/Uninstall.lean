import SlipScan.Packs.Upgrade

namespace SlipScan.Packs.Uninstall

open Model.Database Model.Packs Model.Classification Writes Selection Upgrade
open Foundation.Transaction Foundation.Interleaving Foundation.Table

variable {h : PackHost} {s t u : PackDb} {bookId packId : String} {packs : List VerifiedPack}

inductive Installs (h : PackHost) (bookId : String) (s : PackDb) :
    List VerifiedPack → PackDb → Prop
  | nil : Installs h bookId s [] s
  | cons {packs : List VerifiedPack} {pack : VerifiedPack} {t u : PackDb} {report : InstallReport}
      (hpacks : Installs h bookId s packs t)
      (hrun : (install h bookId pack).run t = (.ok report, u)) :
      Installs h bookId s (pack :: packs) u

/-- The rule that was the last to map a merchant, and its pack. -/
def inForce (h : PackHost) : List VerifiedPack → String → Option (String × RuleSpec)
  | [], _ => none
  | pack :: packs, merchant =>
    match lastExact (pack.payload.ruleSpecs h) merchant with
    | some spec => some (pack.payload.metadata.id, spec)
    | none => inForce h packs merchant

section Mappings

/-- Where the mappings of a book come from. -/
structure Contributed (h : PackHost) (bookId : String) (s : PackDb) (packs : List VerifiedPack)
    (t : PackDb) : Prop where
  own : ∀ merchant m, getMapping s bookId merchant = some m →
    m.source ≠ .pack ∧ getMapping t bookId merchant = some m
  unnamed : ∀ merchant, inForce h packs merchant = none →
    getMapping t bookId merchant = getMapping s bookId merchant
  seeded : ∀ merchant packId spec, inForce h packs merchant = some (packId, spec) →
    getMapping s bookId merchant = none →
    ∃ m, getMapping t bookId merchant = some m ∧ Seeded (categoryMap t bookId packId) spec m
  alive : ∀ packId, Local t bookId (categoryMap t bookId packId)

theorem contributed_of_untouched (huntouched : Untouched s bookId) :
    Contributed h bookId s [] s where
  own merchant m hm := ⟨huntouched.noMappings merchant m hm, hm⟩
  unnamed _ _ := rfl
  seeded _ _ _ hforce := nomatch hforce
  alive _ := local_of_untouched huntouched

theorem categoryMap_of_ne {payload : PackPayload} (hu : PackWritten h bookId payload t u)
    (hne : packId ≠ payload.metadata.id) :
    categoryMap u bookId packId = categoryMap t bookId packId := by
  funext key
  rw [categoryMap, categoryMap, hu.otherEntries bookId packId key]
  exact fun heq ↦ hne (congrArg Prod.snd heq)

/-- What the keys of a pack stand for stays while other packs, or newer versions, are written. -/
theorem categoryMap_of_alive {payload : PackPayload} (hu : PackWritten h bookId payload t u)
    (halive : Local t bookId (categoryMap t bookId packId)) {key id : String}
    (hid : categoryMap t bookId packId key = some id) :
    categoryMap u bookId packId key = some id := by
  by_cases hpack : packId = payload.metadata.id
  · subst hpack
    obtain ⟨c, hc, _⟩ := halive key id hid
    exact hu.alive key id c hid hc
  · rw [categoryMap_of_ne hu hpack, hid]

theorem Contributed.source (ht : Contributed h bookId s packs t) {merchant : String}
    (hs : getMapping s bookId merchant = none) :
    ∀ m, getMapping t bookId merchant = some m → m.source = .pack := by
  intro m hm
  cases hforce : inForce h packs merchant with
  | none =>
    rw [ht.unnamed merchant hforce, hs] at hm
    cases hm
  | some found =>
    obtain ⟨m', hm', hseeded⟩ := ht.seeded merchant found.1 found.2 hforce hs
    obtain rfl := Option.some.inj (hm'.symm.trans hm)
    exact hseeded.source

theorem Contributed.step {pack : VerifiedPack} (ht : Contributed h bookId s packs t)
    (hu : PackWritten h bookId pack.payload t u) : Contributed h bookId s (pack :: packs) u where
  own merchant m hm := by
    obtain ⟨hsource, hm'⟩ := ht.own merchant m hm
    exact ⟨hsource, hu.mappings.kept _ m hm' hsource⟩
  unnamed merchant hnone := by
    rw [inForce] at hnone
    split at hnone
    · cases hnone
    · rename_i hlast
      exact (hu.mappings.unnamed merchant hlast).trans (ht.unnamed merchant hnone)
  seeded merchant packId spec hforce hs := by
    rw [inForce] at hforce
    split at hforce
    · rename_i spec' hlast
      simp only [Option.some.injEq, Prod.mk.injEq] at hforce
      obtain ⟨rfl, rfl⟩ := hforce
      exact hu.mappings.seeded merchant spec' hlast (ht.source hs)
    · rename_i hlast
      obtain ⟨m, hm, hseeded⟩ := ht.seeded merchant packId spec hforce hs
      refine ⟨m, (hu.mappings.unnamed merchant hlast).trans hm, hseeded.source, ?_,
        hseeded.confidence⟩
      exact categoryMap_of_alive hu (ht.alive packId) hseeded.category
  alive packId := by
    by_cases hpack : packId = pack.payload.metadata.id
    · subst hpack
      exact hu.local' (ht.alive _)
    · rw [categoryMap_of_ne hu hpack]
      intro key id hid
      obtain ⟨c, hc, hbook⟩ := ht.alive packId key id hid
      exact ⟨c, hu.grows id c hc, hbook⟩

theorem contributed_of_installs (huntouched : Untouched s bookId)
    (hpacks : Installs h bookId s packs t) : Contributed h bookId s packs t := by
  induction hpacks with
  | nil => exact contributed_of_untouched huntouched
  | cons hpacks hrun ih => exact ih.step (packWritten_of_install hrun)

end Mappings

section Uninstall

theorem mapsTo_iff {categoryId : String} :
    mapsTo s bookId packId categoryId ↔ ∃ key, categoryMap s bookId packId key = some categoryId := by
  constructor
  · rintro ⟨e, he, rfl, rfl, rfl⟩
    have hfind : s.packCategoryMap.find (e.bookId, e.packId, e.categoryKey) = some e :=
      Keyed.find_eq_some.2 ⟨he, rfl⟩
    exact ⟨e.categoryKey, congrArg (Option.map PackCategoryEntry.categoryId) hfind⟩
  · intro ⟨key, hkey⟩
    obtain ⟨e, he, rfl⟩ := Option.map_eq_some_iff.1 hkey
    obtain ⟨he, hkey⟩ := Keyed.find_eq_some.1 he
    simp only [PackCategoryEntry.key, Prod.mk.injEq] at hkey
    exact ⟨e, he, hkey.1, hkey.2.1, rfl⟩

theorem eq_without_of_uninstall (hrun : (uninstall bookId packId).run t = (.ok true, u)) :
    u = without t bookId packId := by
  rw [uninstall, run_atomically] at hrun
  exact ensures_uninstallInTx _ _ (commit_ok hrun)

theorem find_without (key : String × String) :
    (without t bookId packId).merchantMappings.find key = (t.merchantMappings.find key).filter
      fun m ↦ decide ¬(m.bookId = bookId ∧ m.source = MappingSource.pack ∧
        mapsTo t bookId packId m.categoryId) :=
  Keyed.find_keep _

/-- A mapping stays unless a pack has seeded it for a category of the pack that is removed. -/
theorem find_without_eq_some {key : String × String} {m : MerchantMapping}
    (hm : t.merchantMappings.find key = some m)
    (hkept : key.1 ≠ bookId ∨ m.source ≠ .pack ∨
      ∀ k, categoryMap t bookId packId k ≠ some m.categoryId) :
    (without t bookId packId).merchantMappings.find key = some m := by
  rw [find_without, hm, Option.filter_some, if_pos]
  rw [decide_eq_true_eq, mapsTo_iff]
  rintro ⟨hbook, hsource, k, hk⟩
  have hkey := (Keyed.find_eq_some.1 hm).2
  rcases hkept with hne | hne | hne
  · exact hne ((congrArg Prod.fst hkey).symm.trans hbook)
  · exact hne hsource
  · exact hne k hk

theorem find_without_eq_none {merchant k : String} {m : MerchantMapping}
    (hm : getMapping t bookId merchant = some m) (hsource : m.source = .pack)
    (hk : categoryMap t bookId packId k = some m.categoryId) :
    getMapping (without t bookId packId) bookId merchant = none := by
  have hbook : m.bookId = bookId := congrArg Prod.fst (Keyed.find_eq_some.1 hm).2
  rw [getMapping] at hm ⊢
  rw [find_without, hm, Option.filter_some, if_neg]
  rw [decide_eq_true_eq, not_not, mapsTo_iff]
  exact ⟨hbook, hsource, k, hk⟩

/-- The removal of a pack leaves alone what the user and the other packs have brought. -/
structure SparesOthers (h : PackHost) (bookId packId : String) (packs : List VerifiedPack)
    (t u : PackDb) : Prop where
  frame : u = { t with
    packInstalls := u.packInstalls
    packRules := u.packRules
    merchantMappings := u.merchantMappings }
  installs : ∀ key, key ≠ (bookId, packId) → u.packInstalls.find key = t.packInstalls.find key
  rules : ∀ book pack, (book, pack) ≠ (bookId, packId) → rulesOf u book pack = rulesOf t book pack
  own : ∀ key m, t.merchantMappings.find key = some m → key.1 ≠ bookId ∨ m.source ≠ .pack →
    u.merchantMappings.find key = some m
  mappings : ∀ merchant other spec, inForce h packs merchant = some (other, spec) →
    other ≠ packId → getMapping u bookId merchant = getMapping t bookId merchant

theorem rulesOf_without {book pack : String} (hne : (book, pack) ≠ (bookId, packId)) :
    rulesOf (without t bookId packId) book pack = rulesOf t book pack := by
  rw [rulesOf, rulesOf, without, otherRules, List.filter_filter]
  apply List.filter_congr
  intro r _
  by_cases hr : r.bookId = book ∧ r.packId = pack
  · have hother : ¬book = bookId ∨ ¬pack = packId := by
      rw [← not_and_or]
      exact fun heq ↦ hne (Prod.ext heq.1 heq.2)
    simp [hr, hother]
  · simp [hr]

theorem find_installs_without {key : String × String} (hne : key ≠ (bookId, packId)) :
    (without t bookId packId).packInstalls.find key = t.packInstalls.find key := by
  have hkeep : (without t bookId packId).packInstalls.find key =
      (t.packInstalls.find key).filter fun i ↦ decide (i.key ≠ (bookId, packId)) :=
    Keyed.find_keep _
  rw [hkeep]
  cases hi : t.packInstalls.find key with
  | none => rfl
  | some i =>
    rw [Option.filter_some, if_pos]
    rw [(Keyed.find_eq_some.1 hi).2]
    exact decide_eq_true hne

/-- Removing a pack spares the others exactly when no rule of another pack that maps a merchant has
a category that is also a category of the removed pack. -/
theorem uninstall_spares_others_iff (huntouched : Untouched s bookId)
    (hreached : Installs h bookId s packs t)
    (hrun : (uninstall bookId packId).run t = (.ok true, u)) :
    SparesOthers h bookId packId packs t u ↔
      ∀ merchant other spec, inForce h packs merchant = some (other, spec) → other ≠ packId →
        getMapping s bookId merchant = none → ∀ key,
          categoryMap t bookId packId key ≠ categoryMap t bookId other spec.categoryKey := by
  obtain rfl := eq_without_of_uninstall hrun
  have hcontributed := contributed_of_installs huntouched hreached
  constructor
  · intro hspares merchant other spec hforce hother hs key hkey
    obtain ⟨m, hm, hseeded⟩ := hcontributed.seeded merchant other spec hforce hs
    have hkept := hspares.mappings merchant other spec hforce hother
    rw [find_without_eq_none hm hseeded.source (hkey.trans hseeded.category), hm] at hkept
    cases hkept
  · intro hdisjoint
    refine ⟨rfl, fun _ ↦ find_installs_without, fun _ _ ↦ rulesOf_without, fun key m hm hkept ↦ ?_,
      fun merchant other spec hforce hother ↦ ?_⟩
    · exact find_without_eq_some hm (hkept.imp_right .inl)
    · cases hs : getMapping s bookId merchant with
      | some m =>
        obtain ⟨hsource, hm⟩ := hcontributed.own merchant m hs
        rw [hm]
        exact find_without_eq_some hm (.inr (.inl hsource))
      | none =>
        obtain ⟨m, hm, hseeded⟩ := hcontributed.seeded merchant other spec hforce hs
        rw [hm]
        refine find_without_eq_some hm (.inr (.inr fun key hkey ↦ ?_))
        exact hdisjoint merchant other spec hforce hother hs key
          (hkey.trans hseeded.category.symm)

def twoPacks (category : String) : List VerifiedPack :=
  [plainPack "second" "1.0.0" category ["market"], plainPack "first" "1.0.0" "Food" ["cafe"]]

def withTwoPacks (category : String) : PackDb :=
  installed (installed emptyBook (plainPack "first" "1.0.0" "Food" ["cafe"]))
    (plainPack "second" "1.0.0" category ["market"])

theorem installs_twoPacks {category : String}
    (hrun : ((install plainPackHost "book" (plainPack "second" "1.0.0" category ["market"])).run
      (installed emptyBook (plainPack "first" "1.0.0" "Food" ["cafe"]))).1.isOk = true) :
    Installs plainPackHost "book" emptyBook (twoPacks category) (withTwoPacks category) := by
  obtain ⟨_, hfirst⟩ :=
    run_install_eq emptyBook (plainPack "first" "1.0.0" "Food" ["cafe"]) (by decide +kernel)
  obtain ⟨_, hsecond⟩ := run_install_eq _ _ hrun
  exact .cons (.cons .nil hfirst) hsecond

theorem run_uninstall_eq {i : PackInstall} (hi : t.packInstalls.find (bookId, packId) = some i) :
    (uninstall bookId packId).run t = (.ok true, without t bookId packId) := by
  have hbody : uninstallInTx bookId packId t = .ok (true, without t bookId packId) := by
    have hget : (get : PackTx PackDb) t = .ok (t, t) := rfl
    rw [uninstallInTx, bind_of_ok hget, hi]
    rfl
  rw [uninstall, run_atomically, commit_of_ok hbody]

theorem inForce_twoPacks {category merchant other : String} {spec : RuleSpec}
    (hforce : inForce plainPackHost (twoPacks category) merchant = some (other, spec))
    (hother : other ≠ "first") : other = "second" ∧ spec.categoryKey = "main" := by
  rw [twoPacks, inForce] at hforce
  split at hforce
  · rename_i spec' hlast
    simp only [Option.some.injEq, Prod.mk.injEq] at hforce
    obtain ⟨rfl, rfl⟩ := hforce
    have hmem := (List.mem_filter.1 (List.mem_of_getLast? hlast)).1
    obtain rfl := List.mem_singleton.1 hmem
    exact ⟨rfl, rfl⟩
  · rw [inForce, inForce] at hforce
    split at hforce
    · simp only [Option.some.injEq, Prod.mk.injEq] at hforce
      exact absurd hforce.1.symm hother
    · cases hforce

/-- Two packs whose categories have different names do not get in each other's way. -/
theorem uninstall_spares_others_of_disjoint :
    SparesOthers plainPackHost "book" "first" (twoPacks "Fuel") (withTwoPacks "Fuel")
      (without (withTwoPacks "Fuel") "book" "first") := by
  obtain ⟨i, hi⟩ : ∃ i, (withTwoPacks "Fuel").packInstalls.find ("book", "first") = some i :=
    Option.isSome_iff_exists.1 (by decide +kernel)
  refine (uninstall_spares_others_iff untouched_emptyBook
    (installs_twoPacks (by decide +kernel)) (run_uninstall_eq hi)).2 ?_
  intro merchant other spec hforce hother _ key hkey
  obtain ⟨rfl, hspec⟩ := inForce_twoPacks hforce hother
  rw [hspec] at hkey
  have hdisjoint : ∀ c ∈ categoryMap (withTwoPacks "Fuel") "book" "second" "main",
      ¬mapsTo (withTwoPacks "Fuel") "book" "first" c := by
    decide +kernel
  obtain ⟨c, hc⟩ : ∃ c, categoryMap (withTwoPacks "Fuel") "book" "second" "main" = some c :=
    Option.isSome_iff_exists.1 (by decide +kernel)
  exact hdisjoint c hc (mapsTo_iff.2 ⟨key, hkey.trans hc⟩)

/-- Two packs that share a category, because theirs have the same name. With the first the mapping
goes that the second has seeded. -/
theorem uninstall_removes_shared :
    Installs plainPackHost "book" emptyBook (twoPacks "Food") (withTwoPacks "Food") ∧
      (uninstall "book" "first").run (withTwoPacks "Food") =
        (.ok true, without (withTwoPacks "Food") "book" "first") ∧
      ¬SparesOthers plainPackHost "book" "first" (twoPacks "Food") (withTwoPacks "Food")
        (without (withTwoPacks "Food") "book" "first") := by
  obtain ⟨i, hi⟩ : ∃ i, (withTwoPacks "Food").packInstalls.find ("book", "first") = some i :=
    Option.isSome_iff_exists.1 (by decide +kernel)
  refine ⟨installs_twoPacks (by decide +kernel), run_uninstall_eq hi, fun hspares ↦ ?_⟩
  have hforce : inForce plainPackHost (twoPacks "Food") "market" =
      some ("second", ⟨.exact, "market", "main", 1⟩) := by
    decide +kernel
  have hkept := hspares.mappings "market" "second" _ hforce (by decide)
  have hbefore : (getMapping (withTwoPacks "Food") "book" "market").isSome = true := by
    decide +kernel
  rw [← hkept] at hbefore
  have hafter : getMapping (without (withTwoPacks "Food") "book" "first") "book" "market" = none :=
    by decide +kernel
  rw [hafter] at hbefore
  cases hbefore

end Uninstall

end SlipScan.Packs.Uninstall
