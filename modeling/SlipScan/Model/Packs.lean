import SlipScan.Foundation.KeyedTable
import SlipScan.Model.Banking
import SlipScan.Model.Dedupe
import Mathlib.Data.Rat.Defs

namespace SlipScan.Model.Packs

open Model.Domain Model.Database Model.Dedupe Model.SyncLog Foundation.Transaction
  Foundation.Interleaving Foundation.Table

inductive PackError
  | core (fault : Fault)
  | validation (message : String)
  | corruptState (packId message : String)
  | invalidVersion (version : String)
  | bookNotFound (bookId : String)
  | invalidRegex (pattern message : String)
  | untrustedSigner (fingerprint : String)
  | signerChanged (packId pinnedFingerprint : String)
  | alreadyInstalled (packId version : String)
  | downgrade (packId installed offered : String)
  | panic (message : String)
  deriving DecidableEq, Repr

section Payload

structure Semver where
  major : ℕ
  minor : ℕ
  patch : ℕ
  deriving DecidableEq, Repr

def parseNumber (part : List Char) : Option ℕ :=
  let n := part.foldl (fun n c ↦ 10 * n + (c.toNat - 48)) 0
  if part ≠ [] ∧ part.all Char.isDigit ∧ n < 2 ^ 64 then some n else none

def parseSemver (s : String) : Except PackError Semver :=
  match (s.toList.splitOn '.').map parseNumber with
  | [some major, some minor, some patch] => .ok ⟨major, minor, patch⟩
  | _ => .error (.invalidVersion s)

def Semver.format (v : Semver) : String :=
  s!"{v.major}.{v.minor}.{v.patch}"

def Semver.before (v w : Semver) : Prop :=
  v.major < w.major ∨ v.major = w.major ∧ (v.minor < w.minor ∨ v.minor = w.minor ∧ v.patch < w.patch)

instance (v w : Semver) : Decidable (v.before w) := by
  unfold Semver.before
  infer_instance

structure PackMeta where
  id : String
  name : String
  version : String
  region : Option String := none
  deriving DecidableEq, Repr

structure PackCategory where
  key : String
  name : String
  parentKey : Option String
  kind : String
  deriving DecidableEq, Repr

inductive MatchKind
  | exact | contains | regex
  deriving DecidableEq, Repr

structure MerchantRule where
  matchKind : MatchKind
  pattern : String
  categoryKey : String
  confidence : ℚ
  deriving DecidableEq

structure KeywordRule where
  keywords : List String
  categoryKey : String
  confidence : ℚ
  deriving DecidableEq

structure VatHint where
  categoryKey : String
  rateBps : ℤ
  deriving DecidableEq, Repr

/-- What a pack says. The sections that no table holds are kept as the text that they are. -/
structure PackPayload where
  metadata : PackMeta
  categories : List PackCategory
  merchantRules : List MerchantRule
  keywordRules : List KeywordRule
  vatHints : List VatHint := []
  benchmarks : Option String := none
  mailrules : Option String := none
  deriving DecidableEq

inductive Provenance
  | external | builtin | devUnsigned
  deriving DecidableEq, Repr

structure VerifiedPack where
  payload : PackPayload
  signer : String
  provenance : Provenance
  deriving DecidableEq

end Payload

section Tables

inductive MappingSource
  | user | rule | llm | pack | system
  deriving DecidableEq, Repr

structure TreeCategory extends Category where
  parentId : Option String
  name : String
  deriving DecidableEq, Repr

structure MerchantMapping where
  id : String
  bookId : String
  merchantNormalized : String
  categoryId : String
  source : MappingSource
  confidence : ℚ
  appliedCount : ℤ
  createdAt : String
  updatedAt : String
  deriving DecidableEq

def MerchantMapping.key (m : MerchantMapping) : String × String :=
  (m.bookId, m.merchantNormalized)

/-- A mapping that a pack has seeded goes to another category, any other stays. -/
def MerchantMapping.reseed (categoryId : String) (confidence : ℚ) (now : String)
    (m : MerchantMapping) : MerchantMapping :=
  if m.source = .pack then { m with categoryId, confidence, updatedAt := now } else m

theorem key_reseed (categoryId : String) (confidence : ℚ) (now : String) (m : MerchantMapping) :
    (m.reseed categoryId confidence now).key = m.key := by
  rw [MerchantMapping.reseed]
  split <;> rfl

def MerchantMapping.overwrite (categoryId : String) (source : MappingSource) (confidence : ℚ)
    (now : String) (m : MerchantMapping) : MerchantMapping :=
  { m with categoryId, source, confidence, appliedCount := m.appliedCount + 1, updatedAt := now }

theorem key_overwrite (categoryId : String) (source : MappingSource) (confidence : ℚ)
    (now : String) (m : MerchantMapping) :
    (m.overwrite categoryId source confidence now).key = m.key := rfl

structure ClassifiedTransaction extends Transaction where
  merchantNormalized : Option String
  deriving DecidableEq, Repr

structure ClassificationCorrection where
  id : String
  bookId : String
  transactionId : String
  merchantNormalized : Option String
  oldCategoryId : Option String
  newCategoryId : Option String
  createdAt : String
  deriving DecidableEq, Repr

structure TrustedSigner where
  publicKey : String
  label : String
  fingerprint : String
  firstTrustedAt : String
  lastUsedAt : Option String
  deriving DecidableEq, Repr

def TrustedSigner.used (now : String) (s : TrustedSigner) : TrustedSigner :=
  { s with lastUsedAt := some now }

theorem publicKey_used (now : String) (s : TrustedSigner) : (s.used now).publicKey = s.publicKey :=
  rfl

structure SignerPin where
  packId : String
  publicKey : String
  pinnedAt : String
  deriving DecidableEq, Repr

structure PackInstall where
  bookId : String
  packId : String
  name : String
  version : String
  signer : String
  installedAt : String
  updatedAt : String
  deriving DecidableEq, Repr

def PackInstall.key (i : PackInstall) : String × String :=
  (i.bookId, i.packId)

/-- A newer version of an installed pack, which keeps the time of its first installation. -/
def PackInstall.replaceBy (new : PackInstall) (old : PackInstall) : PackInstall :=
  { new with bookId := old.bookId, packId := old.packId, installedAt := old.installedAt }

theorem key_replaceBy (new old : PackInstall) : (new.replaceBy old).key = old.key := rfl

structure PackCategoryEntry where
  bookId : String
  packId : String
  categoryKey : String
  categoryId : String
  deriving DecidableEq, Repr

def PackCategoryEntry.key (e : PackCategoryEntry) : String × String × String :=
  (e.bookId, e.packId, e.categoryKey)

def PackCategoryEntry.retarget (categoryId : String) (e : PackCategoryEntry) : PackCategoryEntry :=
  { e with categoryId }

theorem key_retarget (categoryId : String) (e : PackCategoryEntry) :
    (e.retarget categoryId).key = e.key := rfl

inductive RuleKind
  | exact | contains | regex | keyword
  deriving DecidableEq, Repr

structure PackRule where
  id : String
  bookId : String
  packId : String
  ruleKind : RuleKind
  pattern : String
  categoryId : String
  confidence : ℚ
  position : ℤ
  deriving DecidableEq

structure PackDb where
  books : List Book := []
  accounts : List Account := []
  categories : Keyed fun c : TreeCategory ↦ c.id := ∅
  merchantMappings : Keyed MerchantMapping.key := ∅
  transactions : List ClassifiedTransaction := []
  corrections : List ClassificationCorrection := []
  trustedSigners : Keyed TrustedSigner.publicKey := ∅
  signerPins : Keyed SignerPin.packId := ∅
  packInstalls : Keyed PackInstall.key := ∅
  packCategoryMap : Keyed PackCategoryEntry.key := ∅
  packRules : List PackRule := []
  minted : ℕ := 0

end Tables

/-- What packs get from their host. A regular expression compiles to a matcher, or not at all. -/
structure PackHost where
  newId : ℕ → String
  nowIso : ℕ → String
  parseDate : String → Option Foundation.Calendar.Date
  sha256 : List UInt8 → List UInt8
  letters : CharClasses
  isAlphabetic : Char → Bool
  regex : String → Option (String → Bool)
  /-- Whether the rules of packs are asked for the category of a transaction. -/
  classifierRegistered : Bool
  detectPaymentMatches : PackDb → ClassifiedTransaction → Except Fault Unit

abbrev PackTx := Tx PackDb PackError

abbrev PackService := Process PackDb Unit PackError

section Shared

variable (h : PackHost)

def sqlite (message : String) : PackError :=
  .core (.sqlite message)

def enforce (c : Prop) [Decidable c] (message : String) : PackTx Unit :=
  if c then pure () else throw (sqlite message)

def mintId : PackTx String := do
  let n := (← get).minted
  modify fun db ↦ { db with minted := n + 1 }
  return h.newId n

def currentTime (db : PackDb) : String :=
  h.nowIso db.minted

def inserted {ρ κ : Type} [DecidableEq κ] {key : ρ → κ} (table : String) (t : Keyed key) (r : ρ) :
    Except PackError (Keyed key) :=
  match t.addNew r with
  | some t' => .ok t'
  | none => .error (sqlite s!"UNIQUE constraint failed: {table}")

def digitValue (c : Char) : Option UInt8 :=
  if '0' ≤ c ∧ c ≤ '9' then some (UInt8.ofNat (c.toNat - 48))
  else if 'a' ≤ c ∧ c ≤ 'f' then some (UInt8.ofNat (c.toNat - 87))
  else if 'A' ≤ c ∧ c ≤ 'F' then some (UInt8.ofNat (c.toNat - 55))
  else none

def decodeHex : List Char → Option (List UInt8)
  | [] => some []
  | [_] => none
  | hi :: lo :: rest => do
    return (16 * (← digitValue hi) + (← digitValue lo)) :: (← decodeHex rest)

/-- The start of the hash of a key in groups of four digits. A signer that is no key is hashed as
the text that it is. -/
def keyFingerprint (publicKey : String) : String :=
  let bytes := (decodeHex publicKey.toList).getD (asBytes publicKey)
  "-".intercalate ((((h.sha256 bytes).take 8).toChunks 2).map encodeHex)

end Shared

section Trust

variable (h : PackHost)

/-- The first signer of a pack is pinned to it, and no other is accepted afterwards. -/
def checkAndPin (packId signer : String) : PackTx Unit := do
  let db ← get
  match db.signerPins.find packId with
  | some pin =>
    if pin.publicKey ≠ signer then
      throw (.signerChanged packId (keyFingerprint h pin.publicKey))
  | none =>
    let pins ← check (inserted "pack_signer_pins.pack_id" db.signerPins
      ⟨packId, signer, currentTime h db⟩)
    modify fun db ↦ { db with signerPins := pins }

def requireTrusted (signer : String) : PackTx Unit := do
  let db ← get
  if (db.trustedSigners.find signer).isNone then
    throw (.untrustedSigner (keyFingerprint h signer))
  modify fun db ↦
    { db with
      trustedSigners := db.trustedSigners.modify signer (TrustedSigner.used (currentTime h db))
        (publicKey_used _) }

end Trust

section Categories

variable (h : PackHost)

abbrev KeyMap := String → Option String

def categoryMap (db : PackDb) (bookId packId : String) : KeyMap := fun key ↦
  (db.packCategoryMap.find (bookId, packId, key)).map PackCategoryEntry.categoryId

def parseCategoryKind (kind : String) : Except PackError CategoryKind :=
  if kind = "income" then .ok .income
  else if kind = "expense" then .ok .expense
  else if kind = "transfer" then .ok .transfer
  else .error (.validation s!"invalid value {repr kind} for CategoryKind")

def siblingNamed (db : PackDb) (bookId : String) (parentId : Option String) (name : String) :
    Option TreeCategory :=
  db.categories.rows.find? fun c ↦ c.bookId = bookId ∧ c.parentId = parentId ∧ c.name = name

def insertCategory (category : TreeCategory) : PackTx Unit := do
  let db ← get
  enforce (siblingNamed db category.bookId category.parentId category.name = none)
    "UNIQUE constraint failed: categories.name"
  enforce (references Book.id db.books category.bookId ∧
    ∀ p ∈ category.parentId, (db.categories.find p).isSome) "FOREIGN KEY constraint failed"
  let categories ← check (inserted "categories.id" db.categories category)
  modify fun db ↦ { db with categories }

def mapCategory (bookId packId key categoryId : String) : PackTx Unit :=
  modify fun db ↦
    { db with
      packCategoryMap := db.packCategoryMap.upsert ⟨bookId, packId, key, categoryId⟩
        (PackCategoryEntry.retarget categoryId) (key_retarget categoryId) }

def parentOf (packId : String) (keyToId : KeyMap) (spec : PackCategory) :
    Except PackError (Option String) :=
  match spec.parentKey with
  | none => .ok none
  | some parentKey =>
    match keyToId parentKey with
    | some id => .ok (some id)
    | none => .error (.corruptState packId
        s!"parent {repr parentKey} of {repr spec.key} has no local mapping")

structure CategoryCounts where
  created : ℕ := 0
  reused : ℕ := 0
  deriving DecidableEq, Repr

/-- Goes through the categories of a pack, parents first. A category that is mapped already stays
as it is, and one of the same name in the same place is adopted. -/
def installCategories (bookId packId : String) :
    List PackCategory → KeyMap → CategoryCounts → PackTx (CategoryCounts × KeyMap)
  | [], keyToId, counts => return (counts, keyToId)
  | spec :: specs, keyToId, counts => do
    let db ← get
    if ((keyToId spec.key).bind db.categories.find).isSome then
      installCategories bookId packId specs keyToId { counts with reused := counts.reused + 1 }
    else
      let parentId ← check (parentOf packId keyToId spec)
      match siblingNamed db bookId parentId spec.name with
      | some existing =>
        mapCategory bookId packId spec.key existing.id
        installCategories bookId packId specs
          (Function.update keyToId spec.key (some existing.id))
          { counts with reused := counts.reused + 1 }
      | none =>
        let kind ← check (parseCategoryKind spec.kind)
        let id ← mintId h
        insertCategory { id, bookId, kind, parentId, name := spec.name }
        mapCategory bookId packId spec.key id
        installCategories bookId packId specs (Function.update keyToId spec.key (some id))
          { counts with created := counts.created + 1 }

end Categories

section Rules

variable (h : PackHost)

/-- A rule of a pack as it is stored, its category still by its key. -/
structure RuleSpec where
  ruleKind : RuleKind
  pattern : String
  categoryKey : String
  confidence : ℚ
  deriving DecidableEq

def MerchantRule.spec (rule : MerchantRule) : RuleSpec :=
  match rule.matchKind with
  | .exact => ⟨.exact, normalizeMerchant h.letters rule.pattern, rule.categoryKey, rule.confidence⟩
  | .contains =>
    ⟨.contains, normalizeMerchant h.letters rule.pattern, rule.categoryKey, rule.confidence⟩
  | .regex => ⟨.regex, rule.pattern, rule.categoryKey, rule.confidence⟩

def KeywordRule.specs (rule : KeywordRule) : List RuleSpec :=
  rule.keywords.map fun keyword ↦
    ⟨.keyword, normalizeMerchant h.letters keyword, rule.categoryKey, rule.confidence⟩

def PackPayload.ruleSpecs (payload : PackPayload) : List RuleSpec :=
  payload.merchantRules.map (MerchantRule.spec h) ++
    payload.keywordRules.flatMap (KeywordRule.specs h)

def resolve (packId : String) (keyToId : KeyMap) (key : String) : Except PackError String :=
  match keyToId key with
  | some id => .ok id
  | none => .error (.corruptState packId s!"rule references unmapped category {repr key}")

def insertRule (bookId packId : String) (spec : RuleSpec) (categoryId : String) (position : ℤ) :
    PackTx Unit := do
  let id ← mintId h
  let db ← get
  enforce (∀ r ∈ db.packRules, r.id ≠ id) "UNIQUE constraint failed: pack_rules.id"
  modify fun db ↦
    { db with
      packRules := db.packRules ++
        [⟨id, bookId, packId, spec.ruleKind, spec.pattern, categoryId, spec.confidence, position⟩] }

def writeMapping (mapping : MerchantMapping) (onConflict : MerchantMapping → MerchantMapping)
    (hkey : ∀ m, (onConflict m).key = m.key) : PackTx Unit := do
  let db ← get
  enforce (db.merchantMappings.find mapping.key ≠ none ∨
    ∀ m ∈ db.merchantMappings.rows, m.id ≠ mapping.id)
    "UNIQUE constraint failed: merchant_mappings.id"
  enforce (0 ≤ mapping.confidence ∧ mapping.confidence ≤ 1)
    "CHECK constraint failed: merchant_mappings"
  enforce (references Book.id db.books mapping.bookId ∧
    (db.categories.find mapping.categoryId).isSome) "FOREIGN KEY constraint failed"
  modify fun db ↦
    { db with merchantMappings := db.merchantMappings.upsert mapping onConflict hkey }

/-- Seeds the mapping of an exact rule. Only a mapping that a pack has seeded is replaced. -/
def seedMapping (bookId : String) (spec : RuleSpec) (categoryId now : String) : PackTx Unit := do
  let id ← mintId h
  writeMapping
    { id
      bookId
      merchantNormalized := spec.pattern
      categoryId
      source := .pack
      confidence := spec.confidence
      appliedCount := 0
      createdAt := now
      updatedAt := now }
    (MerchantMapping.reseed categoryId spec.confidence now) (key_reseed _ _ _)

def writeRules (bookId packId now : String) (keyToId : KeyMap) :
    List RuleSpec → ℤ → PackTx Unit
  | [], _ => return ()
  | spec :: specs, position => do
    let categoryId ← check (resolve packId keyToId spec.categoryKey)
    insertRule h bookId packId spec categoryId position
    if spec.ruleKind = .exact then seedMapping h bookId spec categoryId now
    writeRules bookId packId now keyToId specs (position + 1)

def rulesOf (db : PackDb) (bookId packId : String) : List PackRule :=
  db.packRules.filter fun r ↦ r.bookId = bookId ∧ r.packId = packId

def installRules (bookId : String) (payload : PackPayload) (keyToId : KeyMap) (now : String) :
    PackTx ℕ := do
  let packId := payload.metadata.id
  modify fun db ↦
    { db with
      packRules := db.packRules.filter fun r ↦ ¬(r.bookId = bookId ∧ r.packId = packId) }
  writeRules h bookId packId now keyToId (payload.merchantRules.map (MerchantRule.spec h)) 0
  let _ ← check (payload.keywordRules.mapM fun rule ↦ resolve packId keyToId rule.categoryKey)
  writeRules h bookId packId now keyToId (payload.keywordRules.flatMap (KeywordRule.specs h))
    payload.merchantRules.length
  return (rulesOf (← get) bookId packId).length

end Rules

section Install

variable (h : PackHost)

structure InstallCounts where
  categories : CategoryCounts
  rulesInstalled : ℕ
  deriving DecidableEq, Repr

/-- What every path that brings a pack into a book writes. -/
def writeInstall (bookId : String) (payload : PackPayload) (signer installedAt now : String) :
    PackTx InstallCounts := do
  let packId := payload.metadata.id
  let version ← check (parseSemver payload.metadata.version)
  let (categories, keyToId) ← installCategories h bookId packId payload.categories
    (categoryMap (← get) bookId packId) {}
  let rulesInstalled ← installRules h bookId payload keyToId now
  let install : PackInstall :=
    ⟨bookId, packId, payload.metadata.name, version.format, signer, installedAt, now⟩
  modify fun db ↦
    { db with
      packInstalls := db.packInstalls.upsert install install.replaceBy (key_replaceBy install) }
  return ⟨categories, rulesInstalled⟩

inductive InstallOutcome
  | installed
  | upgraded (oldVersion : String)
  deriving DecidableEq, Repr

structure InstallReport where
  outcome : InstallOutcome
  pack : PackInstall
  counts : InstallCounts
  deriving DecidableEq, Repr

def bookExists (db : PackDb) (bookId : String) : Except PackError Unit :=
  match lookup Book.id db.books bookId with
  | some _ => .ok ()
  | none => .error (.bookNotFound bookId)

def checkVersion (packId : String) (offered : Semver) :
    Option PackInstall → Except PackError InstallOutcome
  | none => .ok .installed
  | some existing => do
    let installed ← parseSemver existing.version
    if offered = installed then throw (.alreadyInstalled packId existing.version)
    if offered.before installed then throw (.downgrade packId existing.version offered.format)
    return .upgraded existing.version

def installInTx (bookId : String) (pack : VerifiedPack) (offered : Semver) :
    PackTx (InstallOutcome × InstallCounts) := do
  let packId := pack.payload.metadata.id
  checkAndPin h packId pack.signer
  let db ← get
  let outcome ← check (checkVersion packId offered (db.packInstalls.find (bookId, packId)))
  let now := currentTime h db
  let counts ← writeInstall h bookId pack.payload pack.signer now now
  return (outcome, counts)

def writtenRow (bookId packId : String) : PackService PackInstall := do
  match ← Process.query fun db ↦ db.packInstalls.find (bookId, packId) with
  | some row => return row
  | none => Process.fail (.panic "pack row just written")

def install (bookId : String) (pack : VerifiedPack) : PackService InstallReport := do
  let offered ← Process.ofExcept (parseSemver pack.payload.metadata.version)
  Process.ofExcept (← Process.query fun db ↦ bookExists db bookId)
  if pack.provenance = .external then Process.atomically [] (requireTrusted h pack.signer)
  let (outcome, counts) ← Process.atomically [] (installInTx h bookId pack offered)
  return ⟨outcome, ← writtenRow bookId pack.payload.metadata.id, counts⟩

def legacySigner : String := "legacy-manifest"

/-- Takes over a pack that was installed before there were signatures. -/
def adoptLegacy (bookId : String) (payload : PackPayload) (installedAt : String) :
    PackService (Option InstallReport) := do
  let packId := payload.metadata.id
  Process.ofExcept (← Process.query fun db ↦ bookExists db bookId)
  if (← Process.query fun db ↦ db.packInstalls.find (bookId, packId)).isSome then
    return none
  let now ← Process.query fun db ↦ currentTime h db
  let counts ← Process.atomically [] (writeInstall h bookId payload legacySigner installedAt now)
  return some ⟨.installed, ← writtenRow bookId packId, counts⟩

def mapsTo (db : PackDb) (bookId packId categoryId : String) : Prop :=
  ∃ e ∈ db.packCategoryMap.rows, e.bookId = bookId ∧ e.packId = packId ∧ e.categoryId = categoryId

instance (db : PackDb) (bookId packId categoryId : String) :
    Decidable (mapsTo db bookId packId categoryId) :=
  inferInstanceAs (Decidable (∃ e ∈ db.packCategoryMap.rows, _))

/-- Removes the rules of a pack, and the mappings that packs have seeded for the categories that
the pack's keys stand for. -/
def uninstallInTx (bookId packId : String) : PackTx Bool := do
  let db ← get
  if (db.packInstalls.find (bookId, packId)).isNone then return false
  set { db with
    packInstalls := db.packInstalls.keep fun i ↦ i.key ≠ (bookId, packId)
    packRules := db.packRules.filter fun r ↦ ¬(r.bookId = bookId ∧ r.packId = packId)
    merchantMappings := db.merchantMappings.keep fun m ↦
      ¬(m.bookId = bookId ∧ m.source = MappingSource.pack ∧ mapsTo db bookId packId m.categoryId) }
  return true

def uninstall (bookId packId : String) : PackService Bool :=
  Process.atomically [] (uninstallInTx bookId packId)

end Install

end SlipScan.Model.Packs
