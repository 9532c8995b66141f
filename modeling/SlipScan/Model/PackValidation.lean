import SlipScan.Model.Packs

namespace SlipScan.Model.PackValidation

open Model.Packs

/-- What the validation of packs asks for beyond the host of the packs: the message for a regular
expression that does not compile, and what is said about the sections that are kept as text. -/
structure ValidationHost extends PackHost where
  regexMessage : String → String
  validateBenchmarks : String → Except PackError Unit
  validateMailrules : String → Except PackError Unit

variable (h : ValidationHost)

def isPackIdChar (c : Char) : Bool :=
  ('a' ≤ c ∧ c ≤ 'z') ∨ c.isDigit ∨ c = '-'

def isRegionCode (region : String) : Bool :=
  region.length = 2 ∧ region.toList.all fun c ↦ 'A' ≤ c ∧ c ≤ 'Z'

def expect (c : Prop) [Decidable c] (e : PackError) : Except PackError Unit :=
  if c then .ok () else .error e

def fail (c : Prop) [Decidable c] (message : String) : Except PackError Unit :=
  expect (¬c) (.validation message)

def checkRegion : Option String → Except PackError Unit
  | none => .ok ()
  | some region =>
    fail (isRegionCode region = false) s!"region {repr region} must be ISO 3166-1 alpha-2"

def checkParent (keys : List String) (category : PackCategory) : Except PackError Unit :=
  match category.parentKey with
  | none => .ok ()
  | some parent => fail (parent ∉ keys)
    (s!"category {repr category.key} references parent {repr parent} that is not " ++
      "declared before it")

def checkCategories : List PackCategory → List String → Except PackError (List String)
  | [], keys => .ok keys
  | category :: categories, keys => do
    fail (category.key = "" ∨ category.name = "")
      s!"category {repr category.key} has empty key or name"
    checkParent keys category
    expect (parseCategoryKind category.kind).isOk
      (.validation s!"category {repr category.key} has invalid kind {repr category.kind}")
    fail (category.key ∈ keys) s!"duplicate category key {repr category.key}"
    checkCategories categories (category.key :: keys)

def checkTarget (keys : List String) (what key : String) : Except PackError Unit :=
  fail (key ∉ keys) s!"{what} references unknown category key {repr key}"

def checkConfidence (what : String) (confidence : ℚ) : Except PackError Unit :=
  fail (¬(0 ≤ confidence ∧ confidence ≤ 1))
    s!"{what} has confidence {confidence} outside [0, 1]"

def checkMerchantRule (keys : List String) (rule : MerchantRule) : Except PackError Unit := do
  fail (rule.pattern = "") "merchant rule with empty pattern"
  checkTarget keys "merchant rule" rule.categoryKey
  checkConfidence s!"merchant rule {repr rule.pattern}" rule.confidence
  expect (rule.matchKind = .regex → (h.regex rule.pattern).isSome)
    (.invalidRegex rule.pattern (h.regexMessage rule.pattern))

def checkKeywordRule (keys : List String) (rule : KeywordRule) : Except PackError Unit := do
  fail (rule.keywords = [] ∨ "" ∈ rule.keywords)
    "keyword rule with empty keyword list or empty keyword"
  checkTarget keys "keyword rule" rule.categoryKey
  checkConfidence "keyword rule" rule.confidence

def checkVatHints (keys : List String) : List VatHint → List String → Except PackError Unit
  | [], _ => .ok ()
  | hint :: hints, hinted => do
    checkTarget keys "vat hint" hint.categoryKey
    fail (¬(0 ≤ hint.rateBps ∧ hint.rateBps ≤ 10000))
      s!"vat hint for {repr hint.categoryKey} has rate_bps {hint.rateBps} outside [0, 10000]"
    fail (hint.categoryKey ∈ hinted) s!"duplicate vat hint for category {repr hint.categoryKey}"
    checkVatHints keys hints (hint.categoryKey :: hinted)

def PackPayload.hasTaxonomyContent (payload : PackPayload) : Prop :=
  payload.categories ≠ [] ∨ payload.merchantRules ≠ [] ∨ payload.keywordRules ≠ [] ∨
    payload.vatHints ≠ []

instance (payload : PackPayload) : Decidable (PackPayload.hasTaxonomyContent payload) :=
  inferInstanceAs (Decidable (_ ∨ _ ∨ _ ∨ _))

/-- A pack is either about categories, or it carries one other section. -/
def checkSections (payload : PackPayload) : Except PackError Unit := do
  fail (payload.benchmarks.isSome ∧ payload.mailrules.isSome)
    "a pack carries either benchmark stats or mail rules, never both"
  match payload.benchmarks with
  | none => pure ()
  | some set =>
    fail (PackPayload.hasTaxonomyContent payload)
      "benchmark packs must carry only aggregate stats — no categories, rules, or vat hints"
    h.validateBenchmarks set
  match payload.mailrules with
  | none => pure ()
  | some set =>
    fail (PackPayload.hasTaxonomyContent payload)
      ("mailrules packs must carry only mail rules — no categories, rules, or vat hints. " ++
        "Install a taxonomy pack alongside; the transactions a mail rule produces go through " ++
        "the same categorisation cascade as any statement line.")
    h.validateMailrules set

def validate (payload : PackPayload) : Except PackError Unit := do
  let packMeta := payload.metadata
  fail (packMeta.id = "" ∨ ¬packMeta.id.toList.all isPackIdChar)
    s!"pack id {repr packMeta.id} must be non-empty lowercase [a-z0-9-]"
  fail (packMeta.name = "") "pack name must not be empty"
  let _ ← parseSemver packMeta.version
  checkRegion packMeta.region
  let keys ← checkCategories payload.categories []
  payload.merchantRules.forM (checkMerchantRule h keys)
  payload.keywordRules.forM (checkKeywordRule keys)
  checkVatHints keys payload.vatHints []
  checkSections h payload

end SlipScan.Model.PackValidation
