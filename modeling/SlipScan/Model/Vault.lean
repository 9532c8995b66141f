import SlipScan.Foundation.Framing
import SlipScan.Foundation.KeyedTable
import SlipScan.Model.Devices
import SlipScan.Model.Packs

namespace SlipScan.Model.Vault

open Model.Database Model.Dedupe Foundation.Framing Foundation.Interleaving Foundation.Table
  Foundation.Transaction
open Model.Devices (DeviceFault Platform nowIso validateName)

abbrev Bytes := List UInt8

inductive VaultFault
  | device (fault : DeviceFault)
  | secret (message : String)
  /-- A key of the wrong length, which the cipher does not take. -/
  | panic (message : String)
  deriving DecidableEq, Repr

/-- XChaCha20-Poly1305 and SHA-256. The cipher takes a key, a nonce, the data that a message is
bound to, and the message. -/
structure VaultHost extends Platform where
  encrypt : Bytes → Bytes → Bytes → Bytes → Option Bytes
  decrypt : Bytes → Bytes → Bytes → Bytes → Option Bytes
  sha256 : Bytes → Bytes

/-- What a call draws from the random generator, as far as it needs it. -/
structure Draw where
  kek : { key : Bytes // key.length = 32 }
  dek : { key : Bytes // key.length = 32 }
  dekNonce : { nonce : Bytes // nonce.length = 24 }
  nonce : { nonce : Bytes // nonce.length = 24 }

structure KeychainItem where
  entry : String
  value : String
  deriving DecidableEq, Repr

structure KeyRow where
  wrappedKey : Bytes
  nonce : Bytes
  kekRef : String
  deriving DecidableEq, Repr

structure SecretRow where
  name : String
  version : Int64
  ciphertext : Bytes
  nonce : Bytes
  fingerprint : String
  createdAt : String
  rotatedAt : Option String
  lastUsedAt : Option String
  deriving DecidableEq

structure VaultAudit where
  action : String
  name : String
  fingerprint : String
  version : Int64
  createdAt : String
  deriving DecidableEq

structure Machine where
  keychain : List KeychainItem := []
  keys : Option KeyRow := none
  secrets : Keyed SecretRow.name := ∅
  audit : List VaultAudit := []

abbrev VaultCall := Process Machine Unit VaultFault

abbrev VaultTx := Tx Machine VaultFault

def kekEntry : String := "vault.kek"

section Texts

def malformed : VaultFault := .secret "vault key material is malformed"

/-- Two characters as a byte. A plus sign may stand before one digit. -/
def hexByte (hi lo : Char) : Option UInt8 :=
  if hi = '+' then Packs.digitValue lo
  else do return 16 * (← Packs.digitValue hi) + (← Packs.digitValue lo)

def hexBytes : List Char → Option Bytes
  | [] => some []
  | [_] => none
  | hi :: lo :: rest => do return (← hexByte hi lo) :: (← hexBytes rest)

def fromHex (hex : String) : Except VaultFault Bytes :=
  match hexBytes hex.toList with
  | some bytes => .ok bytes
  | none => .error malformed

def dekAad : Bytes := asBytes "slipscan.vault.dek.v1"

def secretAad (name : String) (version : Int64) : Bytes :=
  asBytes "slipscan.vault.secret.v1" ++ unitSeparator :: asBytes name ++
    unitSeparator :: littleEndian 8 version.toUInt64.toNat

def fingerprint (h : VaultHost) (name secret : String) : String :=
  let digest := h.sha256 (asBytes "slipscan.vault.fingerprint.v1" ++ unitSeparator ::
    asBytes name ++ unitSeparator :: asBytes secret)
  String.ofList ((SyncLog.encodeHex digest).toList.take 8)

end Texts

section Keys

variable (h : VaultHost)

def sealBytes (key nonce aad plaintext : Bytes) : Except VaultFault Bytes :=
  if key.length ≠ 32 then .error (.panic "slice with wrong length")
  else
    match h.encrypt key nonce aad plaintext with
    | some ciphertext => .ok ciphertext
    | none => .error (.secret "vault encryption failed")

def openBytes (key aad nonce ciphertext : Bytes) : Except VaultFault Bytes :=
  if key.length ≠ 32 ∨ nonce.length ≠ 24 then .error malformed
  else
    match h.decrypt key nonce aad ciphertext with
    | some plaintext => .ok plaintext
    | none => .error (.secret "vault decryption failed: wrong or missing key-encryption key")

def getSecret (m : Machine) (entry : String) : Option String :=
  (lookup KeychainItem.entry m.keychain entry).map KeychainItem.value

def setSecret (entry value : String) (m : Machine) : Machine :=
  { m with keychain := m.keychain.filter (·.entry ≠ entry) ++ [⟨entry, value⟩] }

/-- The key of the machine, which is made at its first use. -/
def obtainKek (draw : Draw) : VaultCall Bytes := do
  match ← Process.query fun m ↦ getSecret m kekEntry with
  | some existing => Process.ofExcept (fromHex existing)
  | none =>
    Process.atomically [] (modify (setSecret kekEntry (SyncLog.encodeHex draw.kek)))
    return draw.kek

/-- The data key of a database, and its row when it is new. -/
def loadOrInitDek (draw : Draw) : VaultCall (Bytes × Option KeyRow) := do
  match ← Process.query Machine.keys with
  | some row =>
    match ← Process.query fun m ↦ getSecret m row.kekRef with
    | none =>
      Process.fail (.secret ("vault key-encryption key is missing from the OS keychain; " ++
        "stored secrets cannot be recovered on this machine"))
    | some kekHex =>
      let kek ← Process.ofExcept (fromHex kekHex)
      let dek ← Process.ofExcept (openBytes h kek dekAad row.nonce row.wrappedKey)
      return (dek, none)
  | none =>
    let kek ← obtainKek draw
    let wrapped ← Process.ofExcept (sealBytes h kek draw.dekNonce dekAad draw.dek)
    return (draw.dek, some ⟨wrapped, draw.dekNonce, kekEntry⟩)

end Keys

section Calls

variable (h : VaultHost) (draw : Draw) (now : ℤ)

def findSecret (m : Machine) (name : String) : Option SecretRow :=
  m.secrets.find name

def alreadyExists (name : String) : VaultFault :=
  .device (.validation s!"vault secret {repr name} already exists; use replace to rotate it")

def vaultNotFound (name : String) : VaultFault :=
  .device (Devices.vaultNotFound name)

def commitRows (keys : Option KeyRow) (entry : VaultAudit) (write : Machine → Machine) :
    VaultTx Unit :=
  modify fun m ↦
    let m := write { m with keys := keys.orElse fun _ ↦ m.keys }
    { m with audit := m.audit ++ [entry] }

structure VaultSecretMeta where
  name : String
  version : Int64
  fingerprint : String
  createdAt : String
  rotatedAt : Option String
  lastUsedAt : Option String
  deriving DecidableEq

def SecretRow.meta (row : SecretRow) : VaultSecretMeta :=
  ⟨row.name, row.version, row.fingerprint, row.createdAt, row.rotatedAt, row.lastUsedAt⟩

def vaultSet (name secret : String) : VaultCall VaultSecretMeta := do
  Process.ofExcept ((validateName name).mapError VaultFault.device)
  if (← Process.query fun m ↦ findSecret m name).isSome then Process.fail (alreadyExists name)
  else
    let (dek, keys) ← loadOrInitDek h draw
    let ciphertext ← Process.ofExcept
      (sealBytes h dek draw.nonce (secretAad name 1) (asBytes secret))
    let row : SecretRow := ⟨name, 1, ciphertext, draw.nonce, fingerprint h name secret,
      nowIso h.toPlatform now, none, none⟩
    Process.atomically [] do
      match (← get).secrets.addNew row with
      | none => throw (.device (.sqlite "UNIQUE constraint failed: vault_secrets.name"))
      | some secrets =>
        commitRows keys ⟨"vault.set", name, row.fingerprint, 1, nowIso h.toPlatform now⟩
          fun m ↦ { m with secrets }
    return row.meta

def SecretRow.rotate (version : Int64) (ciphertext nonce : Bytes) (fingerprint rotatedAt : String)
    (row : SecretRow) : SecretRow :=
  { row with version, ciphertext, nonce, fingerprint, rotatedAt := some rotatedAt }

def vaultReplace (name secret : String) : VaultCall VaultSecretMeta := do
  Process.ofExcept ((validateName name).mapError VaultFault.device)
  match ← Process.query fun m ↦ findSecret m name with
  | none => Process.fail (vaultNotFound name)
  | some existing =>
    let (dek, keys) ← loadOrInitDek h draw
    let version := existing.version + 1
    let ciphertext ← Process.ofExcept
      (sealBytes h dek draw.nonce (secretAad name version) (asBytes secret))
    let fingerprint := fingerprint h name secret
    let now := nowIso h.toPlatform now
    let rotate := SecretRow.rotate version ciphertext draw.nonce fingerprint now
    Process.atomically [] (commitRows keys ⟨"vault.replace", name, fingerprint, version, now⟩
      fun m ↦ { m with secrets := m.secrets.modify name rotate fun _ ↦ rfl })
    return ⟨name, version, fingerprint, existing.createdAt, some now, existing.lastUsedAt⟩

def vaultRevoke (name : String) : VaultCall Unit := do
  match ← Process.query fun m ↦ findSecret m name with
  | none => Process.fail (vaultNotFound name)
  | some existing =>
    Process.atomically [] (commitRows none ⟨"vault.revoke", name, existing.fingerprint,
      existing.version, nowIso h.toPlatform now⟩ fun m ↦
        { m with secrets := m.secrets.keep fun row ↦ row.name ≠ name })

def SecretRow.touch (lastUsedAt : String) (row : SecretRow) : SecretRow :=
  { row with lastUsedAt := some lastUsedAt }

def decodeSecret (plaintext : Bytes) : Except VaultFault String :=
  match String.fromUTF8? plaintext.toByteArray with
  | some secret => .ok secret
  | none => .error (.secret "vault payload is not valid UTF-8")

/-- Opens a secret, once the access is written down. -/
def vaultUse (name : String) : VaultCall String := do
  match ← Process.query fun m ↦ findSecret m name with
  | none => Process.fail (vaultNotFound name)
  | some row =>
    let (dek, keys) ← loadOrInitDek h draw
    let plaintext ← Process.ofExcept
      (openBytes h dek (secretAad name row.version) row.nonce row.ciphertext)
    let secret ← Process.ofExcept (decodeSecret plaintext)
    let now := nowIso h.toPlatform now
    Process.atomically [] (commitRows keys ⟨"vault.use", name, row.fingerprint, row.version, now⟩
      fun m ↦ { m with secrets := m.secrets.modify name (SecretRow.touch now) fun _ ↦ rfl })
    return secret

def useWith {α : Type} (name : String) (consume : String → Except DeviceFault α) :
    VaultCall α := do
  let secret ← vaultUse h draw now name
  Process.ofExcept ((consume secret).mapError VaultFault.device)

end Calls

end SlipScan.Model.Vault
