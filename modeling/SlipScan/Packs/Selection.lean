import SlipScan.Model.Classification

namespace SlipScan.Packs.Selection

open Model.Database Model.Dedupe Model.Packs Model.Classification Foundation.Selection

variable {h : PackHost} {a b : PackRule} {rules rules' : List PackRule} {merchantRaw : String}
  {description : Option String}

/-- The best rule comes first: by its tier, then the surest, then the longest. -/
def RuleRank : Type :=
  ℕ ×ₗ ℚᵒᵈ ×ₗ ℕᵒᵈ ×ₗ String ×ₗ ℤ

instance : LinearOrder RuleRank :=
  letI : LinearOrder ℤ := Int.instLinearOrder
  inferInstanceAs (LinearOrder (ℕ ×ₗ ℚᵒᵈ ×ₗ ℕᵒᵈ ×ₗ String ×ₗ ℤ))

def ruleRank (r : PackRule) : RuleRank :=
  toLex (ruleTier r.ruleKind, toLex (OrderDual.toDual r.confidence,
    toLex (OrderDual.toDual r.pattern.utf8ByteSize, toLex (r.packId, r.position))))

/-- By the tier, then the confidence, then the length of the pattern, then the pack, and then the
position in the pack. -/
def Outranks (a b : PackRule) : Prop :=
  ruleTier a.ruleKind < ruleTier b.ruleKind ∨ ruleTier a.ruleKind = ruleTier b.ruleKind ∧
  (b.confidence < a.confidence ∨ a.confidence = b.confidence ∧
  (b.pattern.utf8ByteSize < a.pattern.utf8ByteSize ∨
    a.pattern.utf8ByteSize = b.pattern.utf8ByteSize ∧
  (a.packId < b.packId ∨ a.packId = b.packId ∧ a.position < b.position)))

theorem ruleRank_lt : ruleRank a < ruleRank b ↔ Outranks a b := by
  have hlex : ruleRank a < ruleRank b ↔
      (toLex (ruleTier a.ruleKind, toLex (OrderDual.toDual a.confidence,
        toLex (OrderDual.toDual a.pattern.utf8ByteSize, toLex (a.packId, a.position)))) :
          ℕ ×ₗ ℚᵒᵈ ×ₗ ℕᵒᵈ ×ₗ String ×ₗ ℤ) <
      toLex (ruleTier b.ruleKind, toLex (OrderDual.toDual b.confidence,
        toLex (OrderDual.toDual b.pattern.utf8ByteSize, toLex (b.packId, b.position)))) := Iff.rfl
  rw [hlex, Outranks]
  simp only [Prod.Lex.toLex_lt_toLex, OrderDual.toDual_lt_toDual, EmbeddingLike.apply_eq_iff_eq]

theorem compareRules_eq_gt (a b : PackRule) :
    compareRules a b = .gt ↔ ruleRank b < ruleRank a := by
  rw [ruleRank_lt, Outranks, compareRules]
  simp only [Ordering.then_eq_gt, compare_gt_iff_gt, compare_eq_iff_eq]
  tauto

def Matches (h : PackHost) (merchantRaw : String) (description : Option String)
    (rule : PackRule) : Prop :=
  let merchant := normalizeMerchant h.letters merchantRaw
  ruleMatches h merchant (searchedText h merchant description) rule

theorem suggestWithDescription_eq :
    suggestWithDescription h rules merchantRaw description =
      if normalizeMerchant h.letters merchantRaw = "" then none
      else ((rules.filter (ruleMatches h (normalizeMerchant h.letters merchantRaw)
        (searchedText h (normalizeMerchant h.letters merchantRaw) description))).argmin
        ruleRank).map suggestionOf := by
  rw [suggestWithDescription, minBy_eq_argmin compareRules_eq_gt]

theorem nodup_map_ruleRank (hrules : (rules.map fun r ↦ (r.packId, r.position)).Nodup) :
    (rules.map ruleRank).Nodup := by
  have hkey : (rules.map ruleRank).map (fun rank : RuleRank ↦
      ofLex (ofLex (ofLex (ofLex rank).2).2).2) = rules.map fun r ↦ (r.packId, r.position) :=
    List.map_map ..
  rw [← hkey] at hrules
  exact hrules.of_map _

/-- The suggestion comes from the one matching rule that outranks the others. -/
theorem suggestWithDescription_eq_some (hrules : (rules.map fun r ↦ (r.packId, r.position)).Nodup)
    {hit : Suggestion} (hhit : suggestWithDescription h rules merchantRaw description = some hit) :
    ∃ rule ∈ rules, Matches h merchantRaw description rule ∧ hit = suggestionOf rule ∧
      ∀ other ∈ rules, Matches h merchantRaw description other → other ≠ rule →
        Outranks rule other := by
  rw [suggestWithDescription_eq] at hhit
  split at hhit
  · cases hhit
  · obtain ⟨rule, hbest, rfl⟩ := Option.map_eq_some_iff.1 hhit
    obtain ⟨hrule, hmatches⟩ := List.mem_filter.1 (List.argmin_mem hbest)
    refine ⟨rule, hrule, hmatches, rfl, fun other hother hothers hne ↦ ?_⟩
    have hle : ruleRank rule ≤ ruleRank other :=
      List.le_of_mem_argmin (List.mem_filter.2 ⟨hother, hothers⟩) hbest
    rw [← ruleRank_lt]
    refine lt_of_le_of_ne hle fun heq ↦ hne ?_
    exact (List.inj_on_of_nodup_map (nodup_map_ruleRank hrules) hrule hother heq).symm

theorem suggestWithDescription_eq_none :
    suggestWithDescription h rules merchantRaw description = none ↔
      normalizeMerchant h.letters merchantRaw = "" ∨
        ∀ rule ∈ rules, ¬Matches h merchantRaw description rule := by
  rw [suggestWithDescription_eq]
  split
  · rename_i hempty
    exact ⟨fun _ ↦ .inl hempty, fun _ ↦ rfl⟩
  · rename_i hname
    rw [Option.map_eq_none_iff, List.argmin_eq_none, List.filter_eq_nil_iff, or_iff_right hname]
    rfl

theorem suggestWithDescription_perm
    (hrules : (rules.map fun r ↦ (r.packId, r.position)).Nodup) (hperm : rules.Perm rules') :
    suggestWithDescription h rules' merchantRaw description =
      suggestWithDescription h rules merchantRaw description := by
  simp only [suggestWithDescription_eq]
  rw [argmin_perm _ (hperm.filter _)]
  exact (nodup_map_ruleRank hrules).sublist (List.filter_sublist.map _)

theorem suggestion_of_any_order (h : PackHost)
    (hrules : (rules.map fun r ↦ (r.packId, r.position)).Nodup) (hperm : rules.Perm rules')
    (merchantRaw : String) (description : Option String) :
    suggestWithDescription h rules' merchantRaw description =
      suggestWithDescription h rules merchantRaw description ∧
    (suggestWithDescription h rules merchantRaw description = none ↔
      normalizeMerchant h.letters merchantRaw = "" ∨
        ∀ rule ∈ rules, ¬Matches h merchantRaw description rule) ∧
    ∀ hit, suggestWithDescription h rules merchantRaw description = some hit →
      ∃ rule ∈ rules, Matches h merchantRaw description rule ∧ hit = suggestionOf rule ∧
        ∀ other ∈ rules, Matches h merchantRaw description other → other ≠ rule →
          Outranks rule other := by
  refine ⟨suggestWithDescription_perm hrules hperm, suggestWithDescription_eq_none, ?_⟩
  exact fun hit hhit ↦ suggestWithDescription_eq_some hrules hhit

/-- A host on which packs can be installed and looked at: identifiers in unary, a clock that stands
still, letters of one alphabet, and no regular expressions. -/
def plainPackHost : PackHost where
  newId n := String.ofList (List.replicate (n + 1) 'x')
  nowIso _ := "2025-06-15T00:00:00Z"
  parseDate _ := none
  sha256 := id
  letters := ⟨Char.isAlphanum, fun c ↦ [c.toLower]⟩
  isAlphabetic := Char.isAlpha
  regex _ := none
  classifierRegistered := true
  detectPaymentMatches _ _ := .ok ()

def coffeeRules : List PackRule :=
  [⟨"1", "book", "cafes", .contains, "coffee", "outings", 1 / 2, 0⟩,
    ⟨"2", "book", "food", .exact, "coffee", "groceries", 1 / 2, 0⟩]

theorem suggestion_coffee :
    suggestWithDescription plainPackHost coffeeRules.reverse "Coffee" none =
      some ⟨"groceries", 1 / 2, "food", "coffee"⟩ := by
  have hdistinct : (coffeeRules.map fun r ↦ (r.packId, r.position)).Nodup := by decide
  rw [(suggestion_of_any_order plainPackHost hdistinct (List.reverse_perm coffeeRules).symm "Coffee"
    none).1]
  rfl

end SlipScan.Packs.Selection
