import SlipScan.Model.PackValidation
import SlipScan.Packs.Selection
import SlipScan.Packs.Writes
import Mathlib.Data.List.TakeWhile

namespace SlipScan.Packs.CatchAll

open Function Model.Domain Model.Database Model.Dedupe Model.Packs Model.PackValidation
open Model.Classification Selection Writes
open Foundation.Transaction Foundation.Interleaving Foundation.Table

section Normalisation

variable {U : CharClasses} {raw : String}

/-- What the tables of Unicode say about letters in lower case: they are not blank, and those of
ASCII are themselves. -/
structure LowersLetters (U : CharClasses) : Prop where
  notBlank : ∀ c, U.isAlphanumeric c → ∃ d ∈ U.toLowercase c, isWhitespace d = false
  ascii : ∀ c, 'a' ≤ c → c ≤ 'z' → U.isAlphanumeric c ∧ U.toLowercase c = [c]

def IsNamed (U : CharClasses) (raw : String) : Prop :=
  ∃ c ∈ raw.toList, U.isAlphanumeric c

def pushChar (U : CharClasses) : List Char × Bool → Char → List Char × Bool :=
  fun (out, lastSpace) ch ↦
    if U.isAlphanumeric ch then (out ++ U.toLowercase ch, false)
    else if lastSpace then (out, lastSpace)
    else (out ++ [' '], true)

theorem foldl_pushChar_nil {l : List Char} (hl : ∀ c ∈ l, U.isAlphanumeric c = false) :
    l.foldl (pushChar U) ([], true) = ([], true) := by
  induction l with
  | nil => rfl
  | cons c l ih =>
    rw [List.forall_mem_cons] at hl
    rw [List.foldl_cons, pushChar, hl.1]
    exact ih hl.2

theorem exists_notBlank_foldl (hU : LowersLetters U) {l : List Char} (acc : List Char × Bool)
    (hl : (∃ d ∈ acc.1, isWhitespace d = false) ∨ ∃ c ∈ l, U.isAlphanumeric c) :
    ∃ d ∈ (l.foldl (pushChar U) acc).1, isWhitespace d = false := by
  induction l generalizing acc with
  | nil => simpa using hl
  | cons c l ih =>
    rw [List.foldl_cons]
    apply ih
    have hmono : ∀ d ∈ acc.1, d ∈ (pushChar U acc c).1 := by
      intro d hd
      simp only [pushChar]
      split_ifs <;> simp [hd]
    rcases hl with ⟨d, hd, hblank⟩ | ⟨c', hc', halpha⟩
    · exact .inl ⟨d, hmono d hd, hblank⟩
    · rcases List.mem_cons.1 hc' with rfl | hc'
      · obtain ⟨d, hd, hblank⟩ := hU.notBlank c' halpha
        exact .inl ⟨d, by simp [pushChar, halpha, hd], hblank⟩
      · exact .inr ⟨c', hc', halpha⟩

theorem normalizeMerchant_ne_empty (hU : LowersLetters U) :
    normalizeMerchant U raw ≠ "" ↔ IsNamed U raw := by
  have hout : normalizeMerchant U raw = "" ↔
      ∀ d ∈ (raw.toList.foldl (pushChar U) ([], true)).1, isWhitespace d := by
    rw [← String.toList_eq_nil_iff, normalizeMerchant, String.toList_ofList,
      List.reverse_eq_nil_iff, List.dropWhile_eq_nil_iff]
    simp only [List.mem_reverse]
    rfl
  rw [ne_eq, hout, IsNamed]
  constructor
  · intro hblank
    by_contra hnone
    simp only [not_exists, not_and, Bool.not_eq_true] at hnone
    rw [foldl_pushChar_nil hnone] at hblank
    exact hblank nofun
  · intro hnamed hblank
    obtain ⟨d, hd, hnot⟩ := exists_notBlank_foldl hU ([], true) (.inr hnamed)
    rw [hblank d hd] at hnot
    cases hnot

theorem normalizeMerchant_letter (hU : LowersLetters U) {c : Char} (ha : 'a' ≤ c) (hz : c ≤ 'z') :
    normalizeMerchant U (String.singleton c) = String.singleton c := by
  obtain ⟨halpha, hlower⟩ := hU.ascii c ha hz
  have hblank : isWhitespace c = false := by
    have hlow : 97 ≤ c.toNat := ha
    have hhigh : c.toNat ≤ 122 := hz
    simp only [isWhitespace, Bool.or_eq_false_iff, Bool.and_eq_false_iff, decide_eq_false_iff_not]
    omega
  simp [normalizeMerchant, halpha, hlower, hblank]

end Normalisation

section Matching

variable {h : PackHost} {spec : RuleSpec}

/-- Some merchant is not matched by the rows of a rule. -/
def Constrains (h : PackHost) (spec : RuleSpec) : Prop :=
  ∃ merchantRaw description, normalizeMerchant h.letters merchantRaw ≠ "" ∧
    ∀ row : PackRule, row.ruleKind = spec.ruleKind → row.pattern = spec.pattern →
      ¬Matches h merchantRaw description row

theorem constrains_of_pattern_ne (hU : LowersLetters h.letters) (hkind : spec.ruleKind ≠ .regex)
    (hpattern : spec.pattern ≠ "") : Constrains h spec := by
  obtain ⟨c, ha, hz, hc⟩ : ∃ c, 'a' ≤ c ∧ c ≤ 'z' ∧ spec.pattern ≠ String.singleton c := by
    by_cases hpatternA : spec.pattern = "a"
    · exact ⟨'b', by decide, by decide, by rw [hpatternA]; decide⟩
    · exact ⟨'a', by decide, by decide, hpatternA⟩
  have hletter := normalizeMerchant_letter hU ha hz
  have hinfix : ¬spec.pattern.toList <:+: (String.singleton c).toList := by
    intro hin
    rw [String.toList_singleton] at hin
    have hlength := hin.length_le
    rw [List.length_singleton] at hlength
    have hne : spec.pattern.toList ≠ [] := by
      rwa [ne_eq, String.toList_eq_nil_iff]
    have heq := hin.eq_of_length (Nat.le_antisymm hlength (List.length_pos_iff.2 hne))
    exact hc (String.toList_inj.1 (heq.trans (String.toList_singleton c).symm))
  refine ⟨String.singleton c, none, ?_, fun row hrow hpat ↦ ?_⟩
  · rw [hletter]
    intro hempty
    have hlength := congrArg (fun s : String ↦ s.toList.length) hempty
    simp at hlength
  · simp only [Matches, hletter, searchedText, ruleMatches, hrow, hpat]
    cases hspec : spec.ruleKind with
    | exact => simpa using fun heq ↦ hc heq.symm
    | contains => simpa using hinfix
    | regex => exact absurd hspec hkind
    | keyword => simpa using hinfix

theorem not_constrains (hkind : spec.ruleKind = .contains ∨ spec.ruleKind = .keyword)
    (hpattern : spec.pattern = "") : ¬Constrains h spec := by
  rintro ⟨merchantRaw, description, -, hrows⟩
  apply hrows ⟨"", "", "", spec.ruleKind, spec.pattern, "", 0, 0⟩ rfl rfl
  rcases hkind with hkind | hkind
  · simp [Matches, ruleMatches, hkind, hpattern]
  · simp [Matches, ruleMatches, hkind, hpattern]

end Matching

section Seeding

variable {h : PackHost} {s : PackDb} {bookId packId now categoryId : String} {keyToId : KeyMap}
  {spec : RuleSpec} {position : ℤ} {payload : PackPayload}

@[simp]
theorem succeeds_enforce {c : Prop} [Decidable c] {message : String} {Q : Unit → PackDb → Prop} :
    Succeeds (enforce c message) s Q ↔ c ∧ Q () s := by
  by_cases hc : c <;> simp [enforce, hc]

@[simp]
theorem succeeds_mintId {Q : String → PackDb → Prop} :
    Succeeds (mintId h) s Q ↔ Q (h.newId s.minted) { s with minted := s.minted + 1 } := by
  simp only [mintId, succeeds_bind, succeeds_get, succeeds_modify, succeeds_pure]

/-- A book into which rules can be written: no row has an identifier that is still to be handed
out, and the category of the rules is there. -/
structure Ready (h : PackHost) (bookId categoryId : String) (s : PackDb) : Prop where
  rules : ∀ n, s.minted ≤ n → ∀ r ∈ s.packRules, r.id ≠ h.newId n
  mappings : ∀ n, s.minted ≤ n → ∀ m ∈ s.merchantMappings.rows, m.id ≠ h.newId n
  book : references Book.id s.books bookId
  category : (s.categories.find categoryId).isSome

theorem Ready.mintId (hs : Ready h bookId categoryId s) :
    Ready h bookId categoryId { s with minted := s.minted + 1 } where
  rules n hn := hs.rules n (Nat.le_of_succ_le hn)
  mappings n hn := hs.mappings n (Nat.le_of_succ_le hn)
  book := hs.book
  category := hs.category

theorem newId_ne (hinj : Injective h.newId) {n : ℕ} (hn : s.minted + 1 ≤ n) :
    h.newId s.minted ≠ h.newId n :=
  fun heq ↦ Nat.ne_of_lt hn (hinj heq)

theorem succeeds_insertRule (hinj : Injective h.newId) (hs : Ready h bookId categoryId s) :
    Succeeds (insertRule h bookId packId spec categoryId position) s fun _ t ↦
      Ready h bookId categoryId t := by
  simp only [insertRule, succeeds_bind, succeeds_mintId, succeeds_get, succeeds_enforce,
    succeeds_modify]
  refine ⟨hs.rules _ le_rfl, ⟨fun n hn r hr ↦ ?_, hs.mintId.mappings, hs.book, hs.category⟩⟩
  rcases List.mem_append.1 hr with hr | hr
  · exact hs.mintId.rules n hn r hr
  · obtain rfl := List.mem_singleton.1 hr
    exact newId_ne hinj hn

theorem id_reseed {confidence : ℚ} (m : MerchantMapping) :
    (m.reseed categoryId confidence now).id = m.id := by
  rw [MerchantMapping.reseed]
  split <;> rfl

theorem succeeds_seedMapping (hinj : Injective h.newId) (hs : Ready h bookId categoryId s)
    (hconfidence : 0 ≤ spec.confidence ∧ spec.confidence ≤ 1) :
    Succeeds (seedMapping h bookId spec categoryId now) s fun _ t ↦
      Ready h bookId categoryId t := by
  simp only [seedMapping, writeMapping, succeeds_bind, succeeds_mintId, succeeds_get,
    succeeds_enforce, succeeds_modify]
  refine ⟨.inr (hs.mappings _ le_rfl), hconfidence, ⟨hs.book, hs.category⟩,
    ⟨hs.mintId.rules, fun n hn m hm ↦ ?_, hs.book, hs.category⟩⟩
  obtain rfl | ⟨m', hm', hid⟩ := Keyed.mem_upsert hm
  · exact newId_ne hinj hn
  · have hne := hs.mintId.mappings n hn m' hm'
    obtain rfl | rfl := hid
    · exact hne
    · rwa [id_reseed]

theorem succeeds_writeRules (hinj : Injective h.newId) {specs : List RuleSpec}
    (hspecs : ∀ spec ∈ specs, 0 ≤ spec.confidence ∧ spec.confidence ≤ 1)
    (hs : Ready h bookId categoryId s) (position : ℤ) :
    Succeeds (writeRules h bookId packId now (fun _ ↦ some categoryId) specs position) s fun _ t ↦
      Ready h bookId categoryId t := by
  induction specs generalizing s position with
  | nil => rwa [writeRules, succeeds_pure]
  | cons spec specs ih =>
    rw [List.forall_mem_cons] at hspecs
    simp only [writeRules, succeeds_bind, succeeds_check, resolve]
    refine ⟨categoryId, rfl, (succeeds_insertRule hinj hs).mono fun _ t ht ↦ ?_⟩
    by_cases hexact : spec.ruleKind = .exact
    · rw [if_pos hexact, succeeds_bind]
      exact (succeeds_seedMapping hinj ht hspecs.1).mono fun _ u hu ↦ ih hspecs.2 hu _
    · rw [if_neg hexact]
      exact ih hspecs.2 ht _

theorem succeeds_installRules (now : String) (hinj : Injective h.newId)
    (hspecs : ∀ spec ∈ payload.ruleSpecs h, 0 ≤ spec.confidence ∧ spec.confidence ≤ 1)
    (hs : Ready h bookId categoryId s) :
    Succeeds (installRules h bookId payload (fun _ ↦ some categoryId) now) s fun _ _ ↦ True := by
  rw [PackPayload.ruleSpecs, List.forall_mem_append] at hspecs
  simp only [installRules, succeeds_bind, succeeds_modify, succeeds_check, succeeds_get,
    succeeds_pure]
  have hcleared : Ready h bookId categoryId { s with
      packRules := s.packRules.filter fun r ↦
        ¬(r.bookId = bookId ∧ r.packId = payload.metadata.id) } :=
    ⟨fun n hn r hr ↦ hs.rules n hn r (List.mem_of_mem_filter hr), hs.mappings, hs.book, hs.category⟩
  refine (succeeds_writeRules hinj hspecs.1 hcleared 0).mono fun _ t ht ↦ ?_
  have hresolved : ∀ rule ∈ payload.keywordRules, ∃ id : String,
      resolve payload.metadata.id (fun _ ↦ some categoryId) rule.categoryKey = .ok id :=
    fun _ _ ↦ ⟨categoryId, rfl⟩
  obtain ⟨ids, hids⟩ := except_mapM_isOk_iff.2 hresolved
  exact ⟨ids, hids, (succeeds_writeRules hinj hspecs.2 ht _).mono fun _ _ _ ↦ trivial⟩

end Seeding

section Validated

variable {payload : PackPayload}

/-- Every rule leaves some merchant out, and no mapping is seeded for a merchant without a name. -/
structure NoCatchAll (h : PackHost) (payload : PackPayload) : Prop where
  constrains : ∀ spec ∈ payload.ruleSpecs h, spec.ruleKind ≠ .regex → Constrains h spec
  unseeded : ∀ bookId keyToId now s, Ensures (installRules h bookId payload keyToId now) s
    fun _ t ↦ t.merchantMappings.find (bookId, "") = s.merchantMappings.find (bookId, "")

/-- Every pattern that is compared as a text has a letter or a digit. -/
structure PatternsNamed (U : CharClasses) (payload : PackPayload) : Prop where
  merchants : ∀ rule ∈ payload.merchantRules, rule.matchKind ≠ .regex → IsNamed U rule.pattern
  keywords : ∀ rule ∈ payload.keywordRules, ∀ keyword ∈ rule.keywords, IsNamed U keyword

theorem patternsNamed_iff {h : PackHost} (hU : LowersLetters h.letters) :
    PatternsNamed h.letters payload ↔
      ∀ spec ∈ payload.ruleSpecs h, spec.ruleKind ≠ .regex → spec.pattern ≠ "" := by
  have hmerchant : ∀ rule : MerchantRule,
      ((rule.spec h).ruleKind ≠ .regex → (rule.spec h).pattern ≠ "") ↔
        (rule.matchKind ≠ .regex → IsNamed h.letters rule.pattern) := by
    intro rule
    rw [MerchantRule.spec, ← normalizeMerchant_ne_empty hU]
    cases rule.matchKind <;> simp
  constructor
  · rintro ⟨hmerchants, hkeywords⟩ spec hspec
    rcases List.mem_append.1 hspec with hspec | hspec
    · obtain ⟨rule, hrule, rfl⟩ := List.mem_map.1 hspec
      exact (hmerchant rule).2 (hmerchants rule hrule)
    · obtain ⟨rule, hrule, hspec⟩ := List.mem_flatMap.1 hspec
      obtain ⟨keyword, hkeyword, rfl⟩ := List.mem_map.1 hspec
      exact fun _ ↦ (normalizeMerchant_ne_empty hU).2 (hkeywords rule hrule keyword hkeyword)
  · intro hspecs
    refine ⟨fun rule hrule ↦ ?_, fun rule hrule keyword hkeyword ↦ ?_⟩
    · exact (hmerchant rule).1 (hspecs _ (List.mem_append_left _ (List.mem_map_of_mem hrule)))
    · have hspec := hspecs _ (List.mem_append_right _ (List.mem_flatMap.2
        ⟨rule, hrule, List.mem_map_of_mem hkeyword⟩))
      exact (normalizeMerchant_ne_empty hU).1 (hspec nofun)

@[simp]
theorem fail_eq_ok {c : Prop} [Decidable c] {message : String} :
    fail c message = .ok () ↔ ¬c := by
  by_cases hc : c <;> simp [fail, expect, hc]

theorem confidence_of_validate {h : ValidationHost} (hvalid : validate h payload = .ok ()) :
    ∀ spec ∈ payload.ruleSpecs h.toPackHost, 0 ≤ spec.confidence ∧ spec.confidence ≤ 1 := by
  simp only [validate, except_bind_eq_ok, exists_unit, fail_eq_ok, except_forM_eq_ok] at hvalid
  obtain ⟨-, -, version, -, -, keys, -, hmerchants, hkeywords, -⟩ := hvalid
  intro spec hspec
  rcases List.mem_append.1 hspec with hspec | hspec
  · obtain ⟨rule, hrule, rfl⟩ := List.mem_map.1 hspec
    have hchecked := hmerchants rule hrule
    simp only [checkMerchantRule, checkConfidence, except_bind_eq_ok, exists_unit, fail_eq_ok,
      not_not] at hchecked
    obtain ⟨-, -, hconfidence, -⟩ := hchecked
    rw [MerchantRule.spec]
    split <;> exact hconfidence
  · obtain ⟨rule, hrule, hspec⟩ := List.mem_flatMap.1 hspec
    obtain ⟨keyword, -, rfl⟩ := List.mem_map.1 hspec
    have hchecked := hkeywords rule hrule
    simp only [checkKeywordRule, checkConfidence, except_bind_eq_ok, exists_unit, fail_eq_ok,
      not_not] at hchecked
    exact hchecked.2.2

def blankBook : PackDb where
  books :=
    [{ id := "book", kind := .business, currency := "ZAR", region := "ZA",
       financialLockDate := none }]
  categories := ⟨[⟨⟨"main", "book", .expense⟩, none, "Main"⟩], List.nodup_singleton _⟩

theorem ready_blankBook (h : PackHost) : Ready h "book" "main" blankBook :=
  ⟨fun _ _ _ hr ↦ (List.not_mem_nil hr).elim, fun _ _ _ hm ↦ (List.not_mem_nil hm).elim, by decide,
    rfl⟩

/-- An exact rule without a pattern does seed a mapping. -/
theorem lastExact_eq_none_of_unseeded {h : PackHost} (hinj : Injective h.newId)
    (hspecs : ∀ spec ∈ payload.ruleSpecs h, 0 ≤ spec.confidence ∧ spec.confidence ≤ 1)
    (hunseeded : Ensures (installRules h "book" payload (fun _ ↦ some "main") "") blankBook
      fun _ t ↦ t.merchantMappings.find ("book", "") =
        blankBook.merchantMappings.find ("book", "")) :
    lastExact (payload.ruleSpecs h) "" = none := by
  cases hlast : lastExact (payload.ruleSpecs h) "" with
  | none => rfl
  | some spec =>
    obtain ⟨_, t, _, ⟨⟨_, hsame⟩, _, hseeded, _⟩⟩ :=
      ((succeeds_installRules "" hinj hspecs (ready_blankBook h)).and_ensures
        hunseeded).and_ensures ensures_installRules
    obtain ⟨m, hm, _⟩ := hseeded.seeded "" spec hlast nofun
    rw [hsame] at hm
    cases hm

theorem noCatchAll_iff (h : ValidationHost) (hU : LowersLetters h.letters)
    (hinj : Injective h.newId) (hvalid : validate h payload = .ok ()) :
    NoCatchAll h.toPackHost payload ↔ PatternsNamed h.letters payload := by
  rw [patternsNamed_iff hU]
  constructor
  · rintro ⟨hconstrains, hunseeded⟩ spec hspec hkind hpattern
    by_cases hexact : spec.ruleKind = .exact
    · have hnone := lastExact_eq_none_of_unseeded hinj (confidence_of_validate hvalid)
        (hunseeded _ _ _ _)
      rw [lastExact, List.getLast?_eq_none_iff, List.filter_eq_nil_iff] at hnone
      exact hnone spec hspec (decide_eq_true ⟨hexact, hpattern⟩)
    · refine not_constrains ?_ hpattern (hconstrains spec hspec hkind)
      cases hspecKind : spec.ruleKind <;> simp_all
  · intro hpatterns
    refine ⟨fun spec hspec hkind ↦ constrains_of_pattern_ne hU hkind (hpatterns spec hspec hkind),
      fun bookId keyToId now s ↦ ?_⟩
    refine ensures_installRules.mono fun _ t ht ↦ ht.2.1.unnamed "" ?_
    rw [lastExact, List.getLast?_eq_none_iff, List.filter_eq_nil_iff]
    intro spec hspec hexact
    obtain ⟨hkind, hpattern⟩ := of_decide_eq_true hexact
    exact hpatterns spec hspec (by rw [hkind]; decide) hpattern

def plainValidationHost : ValidationHost :=
  { plainPackHost with
    regexMessage := fun _ ↦ "regular expressions are not supported"
    validateBenchmarks := fun _ ↦ .ok ()
    validateMailrules := fun _ ↦ .ok () }

theorem plain_letters : ∀ n : Fin 123,
    ((Char.ofNat n).isAlphanum → isWhitespace (Char.ofNat n).toLower = false) ∧
      ('a' ≤ Char.ofNat n → (Char.ofNat n).isAlphanum ∧ (Char.ofNat n).toLower = Char.ofNat n) := by
  decide

theorem toNat_lt_of_isAlphanum {c : Char} (hc : c.isAlphanum) : c.toNat < 123 := by
  unfold Char.isAlphanum Char.isAlpha Char.isUpper Char.isLower Char.isDigit at hc
  simp only [Bool.or_eq_true, Bool.and_eq_true, decide_eq_true_eq] at hc
  rcases hc with (⟨-, hle⟩ | ⟨-, hle⟩) | ⟨-, hle⟩
  · exact Nat.lt_of_le_of_lt hle (by decide)
  · exact Nat.lt_of_le_of_lt hle (by decide)
  · exact Nat.lt_of_le_of_lt hle (by decide)

theorem lowersLetters_plain : LowersLetters plainValidationHost.letters where
  notBlank c hc := by
    have hletter := (plain_letters ⟨c.toNat, toNat_lt_of_isAlphanum hc⟩).1
    rw [Char.ofNat_toNat] at hletter
    exact ⟨c.toLower, List.mem_singleton_self _, hletter hc⟩
  ascii c ha hz := by
    have hlt : c.toNat < 123 := Nat.lt_of_le_of_lt hz (by decide)
    obtain ⟨halpha, hlower⟩ := (plain_letters ⟨c.toNat, hlt⟩).2 (by rwa [Char.ofNat_toNat])
    rw [Char.ofNat_toNat] at halpha hlower
    exact ⟨halpha, by simp [plainValidationHost, plainPackHost, hlower]⟩

theorem newId_plain_injective : Injective plainValidationHost.newId := by
  intro m n hmn
  have hreplicate : List.replicate (m + 1) 'x' = List.replicate (n + 1) 'x' :=
    String.ofList_injective hmn
  exact Nat.succ.inj (List.replicate_left_injective 'x' hreplicate)

def containsPack (pattern : String) : PackPayload where
  metadata := { id := "shops", name := "Shops", version := "1.0.0" }
  categories := [⟨"main", "Shopping", none, "expense"⟩]
  merchantRules := [⟨.contains, pattern, "main", 1⟩]
  keywordRules := []

theorem noCatchAll_coffee : NoCatchAll plainPackHost (containsPack "Coffee!") := by
  refine (noCatchAll_iff plainValidationHost lowersLetters_plain newId_plain_injective
    (by decide)).2 ⟨?_, nofun⟩
  intro rule hrule _
  obtain rfl := List.mem_singleton.1 hrule
  exact ⟨'C', by decide, rfl⟩

/-- A pattern without a letter or a digit is accepted, and stored as the empty pattern. -/
theorem catchAll_punctuation : validate plainValidationHost (containsPack "!!!") = .ok () ∧
    ¬NoCatchAll plainPackHost (containsPack "!!!") := by
  refine ⟨by decide, fun hpack ↦ ?_⟩
  have hspec : (⟨.contains, "", "main", 1⟩ : RuleSpec) ∈
      (containsPack "!!!").ruleSpecs plainPackHost := by decide
  exact not_constrains (.inl rfl) rfl (hpack.constrains _ hspec nofun)

end Validated

end SlipScan.Packs.CatchAll
