import SlipScan.Foundation.Faults
import SlipScan.Foundation.Table
import SlipScan.Model.Database

namespace SlipScan.Model.Devices

open Model.Database Foundation.Transaction Foundation.Interleaving Foundation.Table

inductive DeviceFault
  | sqlite (message : String)
  | validation (message : String)
  | notFound (entity id : String)
  | deviceIdentityExists (keyname : String)
  | deviceIdentityMissing
  | deviceIdentityTorn
  | deviceKeyMismatch
  | deviceRotationUnsigned
  | deviceKeyUnusable (subject : String)
  | deviceKeynameMismatch (expected actual : String)
  | deviceKeynameMistyped (typed : String)
  | devicePeerRevoked (keyname publicKey : String)
  | devicePairing (message : String)
  deriving DecidableEq, Repr

structure DeviceIdentity where
  publicKey : String
  keyname : String
  label : String
  createdAt : String
  rotatedAt : Option String
  deriving DecidableEq, Repr

structure DevicePeer where
  publicKey : String
  keyname : String
  label : String
  pairedAt : String
  /-- The tombstone of a revoked peer. -/
  revokedAt : Option String
  lastSeenAt : Option String
  memberId : Option String
  deriving DecidableEq, Repr

def DevicePeer.isRevoked (peer : DevicePeer) : Bool := peer.revokedAt.isSome

structure DeviceRotation where
  oldPublicKey : String
  newPublicKey : String
  signature : String
  rotatedAt : String
  deriving DecidableEq, Repr

structure PairInvite where
  id : String
  claimSha256 : String
  label : String
  createdAt : String
  expiresAt : String
  redeemedAt : Option String
  redeemedBy : Option String
  deriving DecidableEq, Repr

/-- An entry of the vault, with the secret that its ciphertext holds. -/
structure VaultSecret where
  name : String
  version : ℤ
  material : String
  createdAt : String
  rotatedAt : Option String
  lastUsedAt : Option String
  deriving DecidableEq, Repr

structure AuditEntry where
  entityType : String
  entityId : Option String
  action : String
  createdAt : String
  deriving DecidableEq, Repr

structure Device where
  identity : Option DeviceIdentity := none
  rotations : List DeviceRotation := []
  peers : List DevicePeer := []
  invites : List PairInvite := []
  secrets : List VaultSecret := []
  audit : List AuditEntry := []
  deriving DecidableEq, Repr

/-- The signatures, hashes and clock formats that the devices share. A key, a signature and a hash
are their texts in hexadecimal, and a time is its number of nanoseconds. -/
structure Platform where
  /-- The public key of a stored seed, none if the text is not a seed. -/
  publicKeyHex : String → Option String
  signHex : String → String → String
  verifyHex : String → String → String → Bool
  sha256Hex : String → String
  keynameOf : String → String
  keynameIsValid : String → Bool
  parseTime : String → Option ℤ
  formatTime : ℤ → Except String String

structure DeviceKeypair (P : Platform) where
  secret : String
  publicKey : String
  valid : P.publicKeyHex secret = some publicKey

abbrev DeviceCall := Process Device Unit DeviceFault

abbrev DeviceTx := Tx Device DeviceFault

section Texts

def isHexDigit (c : Char) : Bool :=
  ('0' ≤ c && c ≤ '9') || ('a' ≤ c && c ≤ 'f') || ('A' ≤ c && c ≤ 'F')

def truncateForMessage (raw : String) : String :=
  let shown := String.ofList (raw.toList.take 16)
  if 16 < raw.toList.length then shown ++ "…" else shown

def decodePublicKey (publicKeyHex : String) : Except DeviceFault Unit :=
  if publicKeyHex.toList.length = 64 ∧ publicKeyHex.toList.all isHexDigit then .ok ()
  else .error (.deviceKeyUnusable s!"public key {truncateForMessage publicKeyHex}")

def normalizePublicKey (raw : String) : Except DeviceFault String := do
  let lowered := (trim raw).toLower
  decodePublicKey lowered
  return lowered

def validateLabel (raw : String) : Except DeviceFault String :=
  let label := trim raw
  if label = "" then .error (.validation "device label must not be empty")
  else if 64 < label.toList.length then
    .error (.validation "device label must be 64 characters or fewer")
  else .ok label

variable (P : Platform)

def keyname (publicKeyHex : String) : Except DeviceFault String := do
  decodePublicKey publicKeyHex
  return P.keynameOf publicKeyHex

/-- The time stamp of a reading of the clock. Formatting the current time does not fail. -/
def nowIso (now : ℤ) : String :=
  (P.formatTime now).toOption.getD ""

def rotationStatement (oldPublicKey newPublicKey : String) : String :=
  "slipscan.device.rotate.v1\n" ++ oldPublicKey ++ "\n" ++ newPublicKey

def DeviceRotation.verify (rotation : DeviceRotation) : Bool :=
  P.verifyHex rotation.oldPublicKey
    (rotationStatement rotation.oldPublicKey rotation.newPublicKey) rotation.signature

end Texts

section Vault

variable (P : Platform) (now : ℤ)

def identitySecretRef : String := "device.identity.ed25519"

def findSecret (d : Device) (name : String) : Option VaultSecret :=
  lookup VaultSecret.name d.secrets name

def vaultNotFound (name : String) : DeviceFault := .notFound "vault_secret" name

def vaultEntry (action name : String) : AuditEntry :=
  ⟨"vault_secret", some name, action, nowIso P now⟩

def validateName (name : String) : Except DeviceFault Unit :=
  if trim name = "" then .error (.validation "vault secret name is empty") else .ok ()

def vaultSet (name secret : String) : DeviceTx Unit := do
  check (validateName name)
  if (findSecret (← get) name).isSome then
    throw (.validation s!"vault secret {repr name} already exists; use replace to rotate it")
  modify fun d ↦ { d with
    secrets := d.secrets ++ [⟨name, 1, secret, nowIso P now, none, none⟩]
    audit := d.audit ++ [vaultEntry P now "vault.set" name] }

def vaultReplace (name secret : String) : DeviceTx Unit := do
  check (validateName name)
  match findSecret (← get) name with
  | none => throw (vaultNotFound name)
  | some _ =>
    modify fun d ↦ { d with
      secrets := update VaultSecret.name d.secrets name fun r ↦
        { r with version := r.version + 1, material := secret, rotatedAt := some (nowIso P now) }
      audit := d.audit ++ [vaultEntry P now "vault.replace" name] }

def vaultRevoke (name : String) : DeviceTx Unit := do
  match findSecret (← get) name with
  | none => throw (vaultNotFound name)
  | some _ =>
    modify fun d ↦ { d with
      secrets := d.secrets.filter (·.name ≠ name)
      audit := d.audit ++ [vaultEntry P now "vault.revoke" name] }

/-- The write of a use of a secret, with the secret as it is decrypted. -/
def vaultUse (name : String) : DeviceTx String := do
  match findSecret (← get) name with
  | none => throw (vaultNotFound name)
  | some row =>
    modify fun d ↦ { d with
      secrets := update VaultSecret.name d.secrets name fun r ↦
        { r with lastUsedAt := some (nowIso P now) }
      audit := d.audit ++ [vaultEntry P now "vault.use" name] }
    return row.material

def useWith {α : Type} (name : String) (consume : String → Except DeviceFault α) :
    DeviceCall α := do
  let secret ← Process.atomically [] (vaultUse P now name)
  Process.ofExcept (consume secret)

end Vault

section Identity

variable (P : Platform) (now : ℤ)

def requireIdentity (d : Device) : Except DeviceFault DeviceIdentity :=
  match d.identity with
  | some identity => .ok identity
  | none => .error .deviceIdentityMissing

def auditWrite (action publicKey : String) : DeviceCall Unit :=
  Process.atomically [] (modify fun d ↦
    { d with audit := d.audit ++ [⟨"device", some publicKey, action, nowIso P now⟩] })

/-- Writes the one row of the identity. An existing row keeps the time of its creation. -/
def writeIdentity (publicKey keyname label createdAt : String) (rotatedAt : Option String) :
    DeviceTx Unit :=
  modify fun d ↦
    let createdAt := (d.identity.map DeviceIdentity.createdAt).getD createdAt
    { d with identity := some ⟨publicKey, keyname, label, createdAt, rotatedAt⟩ }

/-- Signs with the secret of the device, if it is the secret of its public key. -/
def signAs (identity : DeviceIdentity) (message secret : String) : Except DeviceFault String :=
  match P.publicKeyHex secret with
  | none => .error (.deviceKeyUnusable "this device's stored private key")
  | some publicKey =>
    if publicKey ≠ identity.publicKey then .error .deviceKeyMismatch
    else .ok (P.signHex secret message)

def sign (message : String) : DeviceCall String := do
  let identity ← Process.query requireIdentity
  let identity ← Process.ofExcept identity
  useWith P now identitySecretRef (signAs P identity message)

def deviceInitialize (keypair : DeviceKeypair P) (label : String) : DeviceCall DeviceIdentity := do
  let label ← Process.ofExcept (validateLabel label)
  match ← Process.query Device.identity with
  | some existing => Process.fail (.deviceIdentityExists existing.keyname)
  | none => do
    let torn ← Process.query fun d ↦ d.secrets.any (·.name = identitySecretRef)
    if torn then Process.fail .deviceIdentityTorn
    else do
      let keyname ← Process.ofExcept (keyname P keypair.publicKey)
      Process.atomically [] (vaultSet P now identitySecretRef keypair.secret)
      match ← (Process.atomically [] (writeIdentity keypair.publicKey keyname label (nowIso P now)
          none) : DeviceCall Unit).attempt with
      | .error e => do
        let revoked : DeviceCall Unit := Process.atomically [] (vaultRevoke P now identitySecretRef)
        let _ ← revoked.attempt
        Process.fail e
      | .ok _ => do
        auditWrite P now "device.identity.init" keypair.publicKey
        return ⟨keypair.publicKey, keyname, label, nowIso P now, none⟩

def insertRotation (rotation : DeviceRotation) : DeviceTx Unit :=
  modify fun d ↦ { d with rotations := d.rotations ++ [rotation] }

def rotate (keypair : DeviceKeypair P) : DeviceCall (DeviceIdentity × DeviceRotation) := do
  let current ← Process.query requireIdentity
  let current ← Process.ofExcept current
  let newKeyname ← Process.ofExcept (keyname P keypair.publicKey)
  let statement := rotationStatement current.publicKey keypair.publicKey
  let signature ← useWith P now identitySecretRef (signAs P current statement)
  if ¬P.verifyHex current.publicKey statement signature then Process.fail .deviceRotationUnsigned
  else do
    Process.atomically [] (vaultReplace P now identitySecretRef keypair.secret)
    let rotation : DeviceRotation :=
      ⟨current.publicKey, keypair.publicKey, signature, nowIso P now⟩
    Process.atomically [] (insertRotation rotation)
    Process.atomically [] (writeIdentity keypair.publicKey newKeyname current.label
      current.createdAt (some (nowIso P now)))
    auditWrite P now "device.identity.rotate" keypair.publicKey
    return (⟨keypair.publicKey, newKeyname, current.label, current.createdAt,
      some (nowIso P now)⟩, rotation)

def reset : DeviceCall Unit := do
  let existing ← Process.query Device.identity
  let _ ← (Process.atomically [] (vaultRevoke P now identitySecretRef) : DeviceCall Unit).attempt
  Process.atomically [] (modify fun d ↦ { d with identity := none, rotations := [], invites := [] })
  match existing with
  | some identity => auditWrite P now "device.identity.reset" identity.publicKey
  | none => return ()

end Identity

end SlipScan.Model.Devices
