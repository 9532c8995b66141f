import SlipScan.Model.Devices
import Mathlib.Data.List.Chain

namespace SlipScan.Devices.Rotation

open Model.Database Model.Devices Foundation.Transaction Foundation.Interleaving Foundation.Table
  Process

variable {P : Platform} {now : ℤ} {fates : Fates DeviceFault} {d : Device}
  {identity : DeviceIdentity} {secret : VaultSecret}

/-- What the signature scheme and the texts of its keys guarantee. -/
structure Lawful (P : Platform) : Prop where
  verify_sign : ∀ secret key message, P.publicKeyHex secret = some key →
    P.verifyHex key message (P.signHex secret message) = true
  normal : ∀ secret key, P.publicKeyHex secret = some key → normalizePublicKey key = .ok key

structure KeyRow where
  secret : String
  publicKey : String
  keyname : String

def tabled (keys : List KeyRow) (signatures : List ((String × String) × String))
    (hashes : List (String × String)) (times : List (ℤ × String)) : Platform where
  publicKeyHex secret := (lookup KeyRow.secret keys secret).map KeyRow.publicKey
  signHex secret message := (signatures.lookup (secret, message)).getD (secret ++ message)
  verifyHex key message signature := keys.any fun row ↦ row.publicKey = key ∧
    (signatures.lookup (row.secret, message)).getD (row.secret ++ message) = signature
  sha256Hex text := (hashes.lookup text).getD text
  keynameOf key := ((lookup KeyRow.publicKey keys key).map KeyRow.keyname).getD key
  keynameIsValid name := keys.any fun row ↦ row.keyname = name
  parseTime text := (times.find? fun time ↦ time.2 = text).map Prod.fst
  formatTime time := match times.lookup time with
    | some text => .ok text
    | none => .error "the year is out of range"

theorem tabled_lawful {keys : List KeyRow} {signatures : List ((String × String) × String)}
    {hashes : List (String × String)} {times : List (ℤ × String)}
    (hkeys : ∀ row ∈ keys, normalizePublicKey row.publicKey = .ok row.publicKey) :
    Lawful (tabled keys signatures hashes times) := by
  refine ⟨fun secret key message hkey ↦ ?_, fun secret key hkey ↦ ?_⟩
  · obtain ⟨row, hrow, rfl⟩ := Option.map_eq_some_iff.1 hkey
    obtain ⟨hmem, rfl⟩ := lookup_eq_some hrow
    exact List.any_eq_true.2 ⟨row, hmem, decide_eq_true ⟨rfl, rfl⟩⟩
  · obtain ⟨row, hrow, rfl⟩ := Option.map_eq_some_iff.1 hkey
    exact hkeys row (lookup_eq_some hrow).1

structure Holds (P : Platform) (d : Device) (identity : DeviceIdentity) (secret : VaultSecret) :
    Prop where
  known : d.identity = some identity
  stored : findSecret d identitySecretRef = some secret
  matching : P.publicKeyHex secret.material = some identity.publicKey

def Working (P : Platform) (d : Device) : Prop :=
  ∃ identity secret, Holds P d identity secret

/-- Each rotation is signed by its old key, its new key is the old one of the next, and the last
new key is the current one. -/
structure RotationChain (P : Platform) (rotations : List DeviceRotation) (current : String) :
    Prop where
  verified : ∀ r ∈ rotations, r.verify P = true
  linked : rotations.IsChain fun r r' ↦ r.newPublicKey = r'.oldPublicKey
  ends : ∀ r ∈ rotations.getLast?, r.newPublicKey = current

/-- What a device with an identity is for: it holds the private key of its identity, what it signs
verifies under the identity, and the recorded rotations lead to the identity. -/
structure Sound (P : Platform) (d : Device) : Prop where
  working : Working P d
  signs : ∀ now message identity, d.identity = some identity →
    ∃ signature, ((sign P now message).run d).1 = .ok signature ∧
      P.verifyHex identity.publicKey message signature = true
  chain : ∀ identity, d.identity = some identity →
    RotationChain P d.rotations identity.publicKey

section Steps

variable (P now d)

def used : Device :=
  { d with
    secrets := update VaultSecret.name d.secrets identitySecretRef fun r ↦
      { r with lastUsedAt := some (nowIso P now) }
    audit := d.audit ++ [vaultEntry P now "vault.use" identitySecretRef] }

def replaced (material : String) : Device :=
  { d with
    secrets := update VaultSecret.name d.secrets identitySecretRef fun r ↦
      { r with version := r.version + 1, material, rotatedAt := some (nowIso P now) }
    audit := d.audit ++ [vaultEntry P now "vault.replace" identitySecretRef] }

variable {P now d}

theorem validateName_identity : validateName identitySecretRef = .ok () := by
  decide

theorem vaultUse_eq (h : findSecret d identitySecretRef = some secret) :
    vaultUse P now identitySecretRef d = .ok (secret.material, used P now d) := by
  refine (bind_of_ok rfl _).trans ?_
  rw [h]
  rfl

theorem vaultReplace_eq (h : findSecret d identitySecretRef = some secret) (material : String) :
    vaultReplace P now identitySecretRef material d = .ok ((), replaced P now d material) := by
  refine (bind_of_ok (check_of_ok validateName_identity) _).trans ?_
  refine (bind_of_ok rfl _).trans ?_
  rw [h]
  rfl

theorem findSecret_used (h : findSecret d identitySecretRef = some secret) :
    findSecret (used P now d) identitySecretRef =
      some { secret with lastUsedAt := some (nowIso P now) } :=
  lookup_update_self (fun _ ↦ rfl) h

theorem findSecret_replaced (h : findSecret d identitySecretRef = some secret)
    (material : String) : findSecret (replaced P now d material) identitySecretRef =
      some { secret with
        version := secret.version + 1, material, rotatedAt := some (nowIso P now) } :=
  lookup_update_self (fun _ ↦ rfl) h

theorem Holds.used (h : Holds P d identity secret) :
    Holds P (used P now d) identity { secret with lastUsedAt := some (nowIso P now) } :=
  ⟨h.known, findSecret_used h.stored, h.matching⟩

theorem exec_useWith_bind {α β : Type} {consume : String → Except DeviceFault α} {a : α}
    (h : findSecret d identitySecretRef = some secret) (ha : consume secret.material = .ok a)
    (hfate : fates 0 = .commits) (f : α → DeviceCall β) :
    (useWith P now identitySecretRef consume >>= f).exec fates d =
      (f a).exec fates.next (Rotation.used P now d) := by
  rw [useWith, bind_assoc, exec_atomically_bind_commits hfate (vaultUse_eq h),
    exec_ofExcept_bind_ok ha]

theorem exec_useWith_bind_fails {α β : Type} {consume : String → Except DeviceFault α}
    (hfate : fates 0 ≠ .commits) (f : α → DeviceCall β) :
    ((useWith P now identitySecretRef consume >>= f).exec fates d).2.1 = d := by
  rw [useWith, bind_assoc, exec_atomically_bind_fails hfate]

theorem exec_useWith_bind_missing {α β : Type} {consume : String → Except DeviceFault α}
    (h : findSecret d identitySecretRef = none) (hfate : fates 0 = .commits)
    (f : α → DeviceCall β) :
    ((useWith P now identitySecretRef consume >>= f).exec fates d).2.1 = d := by
  have huse : vaultUse P now identitySecretRef d = .error (vaultNotFound identitySecretRef) := by
    refine (bind_of_ok rfl _).trans ?_
    rw [h]
    rfl
  rw [useWith, bind_assoc, exec_atomically_bind_error hfate huse]

theorem exec_useWith_bind_refused {α β : Type} {consume : String → Except DeviceFault α}
    {e : DeviceFault} (h : findSecret d identitySecretRef = some secret)
    (he : consume secret.material = .error e) (hfate : fates 0 = .commits)
    (f : α → DeviceCall β) :
    ((useWith P now identitySecretRef consume >>= f).exec fates d).2.1 =
      Rotation.used P now d := by
  rw [useWith, bind_assoc, exec_atomically_bind_commits hfate (vaultUse_eq h),
    exec_ofExcept_bind_error he]

theorem keyname_eq (hP : Lawful P) (keypair : DeviceKeypair P) :
    keyname P keypair.publicKey = .ok (P.keynameOf keypair.publicKey) := by
  have hnormal := hP.normal _ _ keypair.valid
  rw [normalizePublicKey] at hnormal
  obtain ⟨⟨⟩, hdecode, hlowered⟩ := except_bind_eq_ok.1 hnormal
  rw [except_pure_eq_ok.1 hlowered] at hdecode
  rw [keyname, hdecode]
  rfl

theorem signAs_eq (h : Holds P d identity secret) (message : String) :
    signAs P identity message secret.material = .ok (P.signHex secret.material message) := by
  rw [signAs, h.matching]
  exact if_neg fun hne ↦ hne rfl

end Steps

theorem insertRotation_eq (rotation : DeviceRotation) :
    insertRotation rotation d = .ok ((), { d with rotations := d.rotations ++ [rotation] }) :=
  rfl

theorem writeIdentity_eq (h : d.identity = some identity)
    {publicKey keyname label createdAt : String} {rotatedAt : Option String} :
    writeIdentity publicKey keyname label createdAt rotatedAt d =
      .ok ((), { d with
        identity := some ⟨publicKey, keyname, label, identity.createdAt, rotatedAt⟩ }) := by
  change Except.ok ((), { d with identity := some ⟨publicKey, keyname, label,
    (d.identity.map DeviceIdentity.createdAt).getD createdAt, rotatedAt⟩ }) = _
  rw [h]
  rfl

theorem exec_auditWrite {α : Type} (action publicKey : String) (a : α) : ∃ audit,
    ((auditWrite P now action publicKey >>= fun _ ↦ pure a).exec fates d).2.1 =
      { d with audit } := by
  by_cases hfate : fates 0 = .commits
  · rw [auditWrite, exec_atomically_bind_commits hfate rfl]
    exact ⟨_, rfl⟩
  · refine ⟨d.audit, ?_⟩
    rw [auditWrite, exec_atomically_bind_fails hfate]

section Rotate

variable (P now d identity secret)

def rotation (keypair : DeviceKeypair P) : DeviceRotation :=
  ⟨identity.publicKey, keypair.publicKey, P.signHex secret.material
    (rotationStatement identity.publicKey keypair.publicKey), nowIso P now⟩

def rekeyed (keypair : DeviceKeypair P) : Device :=
  replaced P now (used P now d) keypair.secret

def recorded (keypair : DeviceKeypair P) : Device :=
  { rekeyed P now d keypair with
    rotations := d.rotations ++ [rotation P now identity secret keypair] }

def rotatedIdentity (keypair : DeviceKeypair P) : DeviceIdentity :=
  ⟨keypair.publicKey, P.keynameOf keypair.publicKey, identity.label, identity.createdAt,
    some (nowIso P now)⟩

variable {P now d identity secret}

variable (now fates) in
/-- What a rotation of a working identity can leave: the key as it was, the new key under the old
identity, or the new key under its own. -/
theorem rotate_cases (hP : Lawful P) (h : Holds P d identity secret) (keypair : DeviceKeypair P) :
    ((fates 0 ≠ .commits ∨ fates 1 ≠ .commits) ∧
        (((rotate P now keypair).exec fates d).2.1 = d ∨
          ((rotate P now keypair).exec fates d).2.1 = used P now d)) ∨
      (fates 0 = .commits ∧ fates 1 = .commits ∧ fates 2 ≠ .commits ∧
        ((rotate P now keypair).exec fates d).2.1 = rekeyed P now d keypair) ∨
      (fates 0 = .commits ∧ fates 1 = .commits ∧ fates 2 = .commits ∧ fates 3 ≠ .commits ∧
        ((rotate P now keypair).exec fates d).2.1 =
          recorded P now d identity secret keypair) ∨
      (fates 0 = .commits ∧ fates 1 = .commits ∧ fates 2 = .commits ∧ fates 3 = .commits ∧
        ∃ audit, ((rotate P now keypair).exec fates d).2.1 =
          { recorded P now d identity secret keypair with
            identity := some (rotatedIdentity P now identity keypair), audit }) := by
  have hrequire : requireIdentity d = .ok identity := by rw [requireIdentity, h.known]
  have hverify : ¬¬P.verifyHex identity.publicKey
      (rotationStatement identity.publicKey keypair.publicKey)
      (P.signHex secret.material (rotationStatement identity.publicKey keypair.publicKey)) = true :=
    not_not.2 (hP.verify_sign _ _ _ h.matching)
  rw [rotate, exec_query_bind, exec_ofExcept_bind_ok hrequire,
    exec_ofExcept_bind_ok (keyname_eq hP keypair)]
  by_cases h₀ : fates 0 = .commits
  · rw [exec_useWith_bind h.stored (signAs_eq h _) h₀, if_neg hverify]
    by_cases h₁ : fates 1 = .commits
    · rw [exec_atomically_bind_commits h₁ (vaultReplace_eq (findSecret_used h.stored) _)]
      right
      by_cases h₂ : fates 2 = .commits
      · rw [exec_atomically_bind_commits h₂ (insertRotation_eq _)]
        right
        by_cases h₃ : fates 3 = .commits
        · right
          refine ⟨h₀, h₁, h₂, h₃, ?_⟩
          have hrecorded : (recorded P now d identity secret keypair).identity = some identity :=
            h.known
          change ∃ audit, (exec _ _ (recorded P now d identity secret keypair)).2.1 = _
          rw [exec_atomically_bind_commits h₃ (writeIdentity_eq hrecorded)]
          exact exec_auditWrite _ _ _
        · left
          refine ⟨h₀, h₁, h₂, h₃, ?_⟩
          rw [exec_atomically_bind_fails h₃]
          rfl
      · left
        refine ⟨h₀, h₁, h₂, ?_⟩
        rw [exec_atomically_bind_fails h₂]
        rfl
    · left
      exact ⟨.inr h₁, .inr (exec_atomically_bind_fails h₁ _)⟩
  · left
    exact ⟨.inl h₀, .inl (exec_useWith_bind_fails h₀ _)⟩

end Rotate

section Chains

variable {rotations : List DeviceRotation} {current : String}

theorem RotationChain.nil : RotationChain P [] current :=
  ⟨by simp, .nil, by simp⟩

theorem RotationChain.concat (h : RotationChain P rotations current) {r : DeviceRotation}
    (hr : r.verify P = true) (hold : r.oldPublicKey = current) :
    RotationChain P (rotations ++ [r]) r.newPublicKey := by
  refine ⟨?_, ?_, by simp⟩
  · rw [List.forall_mem_append, List.forall_mem_singleton]
    exact ⟨h.verified, hr⟩
  · refine h.linked.append (.singleton r) fun r' hr' r'' hr'' ↦ ?_
    obtain rfl := Option.mem_some.1 hr''
    exact (h.ends r' hr').trans hold.symm

theorem verify_rotation (hP : Lawful P) (h : Holds P d identity secret)
    (keypair : DeviceKeypair P) : (rotation P now identity secret keypair).verify P = true :=
  hP.verify_sign _ _ _ h.matching

end Chains

section Soundness

theorem Holds.signs (hP : Lawful P) (h : Holds P d identity secret) (message : String) :
    ∃ signature, ((sign P now message).run d).1 = .ok signature ∧
      P.verifyHex identity.publicKey message signature = true := by
  refine ⟨P.signHex secret.material message, ?_, hP.verify_sign _ _ _ h.matching⟩
  have hrequire : requireIdentity d = .ok identity := by rw [requireIdentity, h.known]
  have hexec := exec_of_commits (sign P now message) d
  rw [sign, exec_query_bind, exec_ofExcept_bind_ok hrequire, useWith,
    exec_atomically_bind_commits rfl (vaultUse_eq h.stored), exec_ofExcept, signAs_eq h] at hexec
  exact (Option.some.inj (congrArg (·.1) hexec)).symm

theorem Holds.sound (hP : Lawful P) (h : Holds P d identity secret)
    (hchain : RotationChain P d.rotations identity.publicKey) : Sound P d := by
  refine ⟨⟨identity, secret, h⟩, fun now message identity' h' ↦ ?_, fun identity' h' ↦ ?_⟩
  · obtain rfl := Option.some.inj (h.known.symm.trans h')
    exact h.signs hP message
  · obtain rfl := Option.some.inj (h.known.symm.trans h')
    exact hchain

theorem working_iff (hknown : d.identity = some identity)
    (hstored : findSecret d identitySecretRef = some secret) :
    Working P d ↔ P.publicKeyHex secret.material = some identity.publicKey := by
  constructor
  · rintro ⟨identity', secret', h⟩
    obtain rfl := Option.some.inj (hknown.symm.trans h.known)
    obtain rfl := Option.some.inj (hstored.symm.trans h.stored)
    exact h.matching
  · exact fun h ↦ ⟨identity, secret, hknown, hstored, h⟩

/-- The vault of the device holds the private key of `key`, and if that is the key of the identity
then the recorded rotations lead to it. -/
structure Keyed (P : Platform) (d : Device) (identity : DeviceIdentity) (key : String) : Prop where
  known : d.identity = some identity
  stored : ∃ secret, findSecret d identitySecretRef = some secret ∧
    P.publicKeyHex secret.material = some key
  chain : key = identity.publicKey → RotationChain P d.rotations identity.publicKey

theorem Holds.keyed (h : Holds P d identity secret)
    (hchain : RotationChain P d.rotations identity.publicKey) :
    Keyed P d identity identity.publicKey :=
  ⟨h.known, ⟨secret, h.stored, h.matching⟩, fun _ ↦ hchain⟩

theorem Keyed.sound_iff {key : String} (hP : Lawful P) (h : Keyed P d identity key) :
    Sound P d ↔ key = identity.publicKey := by
  obtain ⟨secret, hstored, hkey⟩ := h.stored
  constructor
  · intro hsound
    have hmatching := (working_iff h.known hstored).1 hsound.working
    exact Option.some.inj (hkey.symm.trans hmatching)
  · intro heq
    exact Holds.sound hP ⟨h.known, hstored, heq ▸ hkey⟩ (h.chain heq)

variable (now fates) in
/-- After a rotation the vault holds the key of the identity, unless its new key is another one
and came to the vault and not to the identity. -/
theorem rotate_keyed (hP : Lawful P) (h : Holds P d identity secret)
    (hchain : RotationChain P d.rotations identity.publicKey) (keypair : DeviceKeypair P) :
    ∃ identity' key, Keyed P ((rotate P now keypair).exec fates d).2.1 identity' key ∧
      (key = identity'.publicKey ↔
        ¬(identity.publicKey ≠ keypair.publicKey ∧ fates 0 = .commits ∧ fates 1 = .commits ∧
          ¬(fates 2 = .commits ∧ fates 3 = .commits))) := by
  have hrekeyed : findSecret (rekeyed P now d keypair) identitySecretRef = some _ :=
    findSecret_replaced (findSecret_used h.stored) keypair.secret
  have hrecorded : RotationChain P (d.rotations ++ [rotation P now identity secret keypair])
      keypair.publicKey := hchain.concat (verify_rotation hP h keypair) rfl
  obtain ⟨hfate, heq | heq⟩ | ⟨h₀, h₁, h₂, heq⟩ | ⟨h₀, h₁, h₂, h₃, heq⟩ |
    ⟨h₀, h₁, h₂, h₃, audit, heq⟩ := rotate_cases now fates hP h keypair
  · rw [heq]
    exact ⟨identity, identity.publicKey, h.keyed hchain,
      iff_of_true rfl fun ⟨_, h₀, h₁, _⟩ ↦ hfate.elim (· h₀) (· h₁)⟩
  · rw [heq]
    exact ⟨identity, identity.publicKey, h.used.keyed hchain,
      iff_of_true rfl fun ⟨_, h₀, h₁, _⟩ ↦ hfate.elim (· h₀) (· h₁)⟩
  · rw [heq]
    refine ⟨identity, keypair.publicKey,
      ⟨h.known, ⟨_, hrekeyed, keypair.valid⟩, fun _ ↦ hchain⟩, ?_⟩
    simp [h₀, h₁, h₂, eq_comm]
  · rw [heq]
    refine ⟨identity, keypair.publicKey,
      ⟨h.known, ⟨_, hrekeyed, keypair.valid⟩, fun hkey ↦ hkey ▸ hrecorded⟩, ?_⟩
    simp [h₀, h₁, h₃, eq_comm]
  · rw [heq]
    exact ⟨rotatedIdentity P now identity keypair, keypair.publicKey,
      ⟨rfl, ⟨_, hrekeyed, keypair.valid⟩, fun _ ↦ hrecorded⟩,
      iff_of_true rfl fun ⟨_, _, _, hnot⟩ ↦ hnot ⟨h₂, h₃⟩⟩

end Soundness

end SlipScan.Devices.Rotation
