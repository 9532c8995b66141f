import SlipScan.Banking.Deduplication
import SlipScan.Foundation.Correspondence
import SlipScan.Foundation.Files
import SlipScan.Foundation.Utf8
import SlipScan.Model.Vault

namespace SlipScan.Secrets.Vault

open Model.Database Model.Dedupe Model.Vault Foundation.Framing Foundation.Interleaving
  Foundation.Table Foundation.Transaction Process Banking.Deduplication
open Model.Devices (Device DeviceCall DeviceFault VaultSecret nowIso)

-- The check of a name is not to be computed when a call is unfolded.
seal Model.Devices.validateName

variable {h : VaultHost} {m s t : Machine} {d : Device} {draw : Draw} {now : ℤ}
  {key aad nonce plaintext ciphertext dek : Bytes} {name secret : String} {row : SecretRow}

section Texts

theorem digitValue_hexDigit {n : UInt8} (hn : n.toNat < 16) :
    Model.Packs.digitValue (Model.SyncLog.hexDigit n) = some n ∧ Model.SyncLog.hexDigit n ≠ '+' := by
  have hall : ∀ k : Fin 16, Model.Packs.digitValue (Model.SyncLog.hexDigit (UInt8.ofNat k)) =
      some (UInt8.ofNat k) ∧ Model.SyncLog.hexDigit (UInt8.ofNat k) ≠ '+' := by
    decide
  have hdigit := hall ⟨n.toNat, hn⟩
  rwa [UInt8.ofNat_toNat] at hdigit

theorem fromHex_encodeHex (bytes : Bytes) :
    fromHex (Model.SyncLog.encodeHex bytes) = .ok bytes := by
  have hbytes : hexBytes (bytes.flatMap fun b ↦
      [Model.SyncLog.hexDigit (b / 16), Model.SyncLog.hexDigit (b % 16)]) = some bytes := by
    induction bytes with
    | nil => rfl
    | cons b bytes ih =>
      have hlt := b.toNat_lt
      have hhigh := digitValue_hexDigit (n := b / 16) (by rw [UInt8.toNat_div]; simp; omega)
      have hlow := digitValue_hexDigit (n := b % 16) (by rw [UInt8.toNat_mod]; simp; omega)
      have hbyte : 16 * (b / 16) + b % 16 = b := by
        rw [← UInt8.toNat_inj, UInt8.toNat_add, UInt8.toNat_mul, UInt8.toNat_div, UInt8.toNat_mod]
        have hsixteen : (16 : UInt8).toNat = 16 := rfl
        rw [hsixteen]
        omega
      rw [List.flatMap_cons, List.cons_append, List.cons_append, List.nil_append, hexBytes, ih,
        hexByte, if_neg hhigh.2, hhigh.1, hlow.1]
      simp [hbyte]
  rw [fromHex, Model.SyncLog.encodeHex, String.toList_ofList, hbytes]

theorem decodeSecret_asBytes (secret : String) : decodeSecret (asBytes secret) = .ok secret := by
  have hbytes : asBytes secret = Foundation.Utf8.bytes secret.toList := by
    rw [← Foundation.Utf8.toList_toByteArray_ofList, String.ofList_toList, asBytes]
  rw [decodeSecret, hbytes, Foundation.Utf8.fromUTF8?_bytes, String.ofList_toList]

theorem secretAad_inj {name' : String} {version version' : Int64} :
    secretAad name version = secretAad name' version' ↔ name = name' ∧ version = version' := by
  constructor
  · intro heq
    obtain ⟨hname, hversion⟩ := List.append_inj' heq (by simp)
    have hbytes := (List.cons.inj (List.append_cancel_left hname)).2
    have hnumber : version.toUInt64.toNat = version'.toUInt64.toNat :=
      littleEndian_inj version.toUInt64.toNat_lt version'.toUInt64.toNat_lt
        (List.cons.inj hversion).2
    refine ⟨asBytes_injective hbytes, ?_⟩
    exact Int64.toBitVec_inj.1 (congrArg UInt64.toBitVec (UInt64.toNat_inj.1 hnumber))
  · rintro ⟨rfl, rfl⟩
    rfl

end Texts

section Cipher

/-- What the cipher promises to its users: what was encrypted can be decrypted. -/
structure Faithful (h : VaultHost) : Prop where
  decrypts : ∀ key nonce aad plaintext ciphertext,
    h.encrypt key nonce aad plaintext = some ciphertext →
      h.decrypt key nonce aad ciphertext = some plaintext

theorem sealBytes_eq_ok : sealBytes h key nonce aad plaintext = .ok ciphertext ↔
    key.length = 32 ∧ h.encrypt key nonce aad plaintext = some ciphertext := by
  unfold sealBytes
  split_ifs with hlength
  · simp [hlength]
  · rw [not_not] at hlength
    cases h.encrypt key nonce aad plaintext with
    | none => simp
    | some c => simp [hlength]

theorem openBytes_eq_ok : openBytes h key aad nonce ciphertext = .ok plaintext ↔
    key.length = 32 ∧ nonce.length = 24 ∧ h.decrypt key nonce aad ciphertext = some plaintext := by
  unfold openBytes
  split_ifs with hlength
  · simp only [false_iff]
    tauto
  · rw [not_or, not_not, not_not] at hlength
    cases h.decrypt key nonce aad ciphertext with
    | none => simp
    | some p => simp [hlength]

theorem openBytes_of_sealBytes (hfaithful : Faithful h) (hnonce : nonce.length = 24)
    (hsealed : sealBytes h key nonce aad plaintext = .ok ciphertext) :
    openBytes h key aad nonce ciphertext = .ok plaintext := by
  obtain ⟨hlength, hencrypt⟩ := sealBytes_eq_ok.1 hsealed
  exact openBytes_eq_ok.2 ⟨hlength, hnonce, hfaithful.decrypts _ _ _ _ _ hencrypt⟩

end Cipher

section Key

/-- The data key of a machine: what the wrapped key is under the key of the keychain. -/
structure HasKey (h : VaultHost) (m : Machine) (dek : Bytes) : Prop where
  opens : ∃ row kekHex kek, m.keys = some row ∧ getSecret m row.kekRef = some kekHex ∧
    fromHex kekHex = .ok kek ∧ openBytes h kek dekAad row.nonce row.wrappedKey = .ok dek

/-- What a call may do before it writes to the database: put a key into the keychain. -/
structure Untouched (s t : Machine) : Prop where
  keys : t.keys = s.keys
  secrets : t.secrets = s.secrets
  audit : t.audit = s.audit
  keychain : ∀ entry value, getSecret s entry = some value → getSecret t entry = some value

instance isPreorder_untouched : IsPreorder Machine Untouched where
  refl _ := ⟨rfl, rfl, rfl, fun _ _ hv ↦ hv⟩
  trans _ _ _ hst htu := ⟨htu.keys.trans hst.keys, htu.secrets.trans hst.secrets,
    htu.audit.trans hst.audit, fun entry value hv ↦ htu.keychain _ _ (hst.keychain entry value hv)⟩

theorem HasKey.untouched (hs : HasKey h s dek) (ht : Untouched s t) : HasKey h t dek := by
  obtain ⟨row, kekHex, kek, hrow, hkek, hhex, hopen⟩ := hs.opens
  exact ⟨row, kekHex, kek, ht.keys.trans hrow, ht.keychain _ _ hkek, hhex, hopen⟩

theorem hasKey_unique {dek' : Bytes} (hs : HasKey h s dek) (hs' : HasKey h s dek') : dek = dek' := by
  obtain ⟨row, kekHex, kek, hrow, hkek, hhex, hopen⟩ := hs.opens
  obtain ⟨row', kekHex', kek', hrow', hkek', hhex', hopen'⟩ := hs'.opens
  cases hrow.symm.trans hrow'
  cases hkek.symm.trans hkek'
  cases hhex.symm.trans hhex'
  exact Except.ok.inj (hopen.symm.trans hopen')

theorem getSecret_setSecret (entry value other : String) :
    getSecret (setSecret entry value m) other =
      if other = entry then some value else getSecret m other := by
  unfold getSecret setSecret
  dsimp only
  by_cases hother : other = entry
  · subst hother
    have hnone : lookup KeychainItem.entry (m.keychain.filter fun item ↦ item.entry ≠ other) other =
        none := by
      rw [lookup_drop, if_pos rfl]
    rw [if_pos rfl, lookup_append, hnone, Option.none_or]
    simp [lookup]
  · rw [if_neg hother, lookup_concat_of_ne fun heq ↦ hother heq.symm, lookup_drop, if_neg hother]

theorem untouched_setSecret (hnone : getSecret m kekEntry = none) (value : String) :
    Untouched m (setSecret kekEntry value m) := by
  refine ⟨rfl, rfl, rfl, fun entry v hv ↦ ?_⟩
  rw [getSecret_setSecret, if_neg ?_, hv]
  rintro rfl
  rw [hnone] at hv
  cases hv

theorem attains_obtainKek : (obtainKek draw).Attains s (Untouched s) fun kek t ↦
    ∃ kekHex, getSecret t kekEntry = some kekHex ∧ fromHex kekHex = .ok kek := by
  have hs : Untouched s s := refl_of Untouched s
  unfold obtainKek
  refine attains_query_bind _ ?_
  cases hkek : getSecret s kekEntry with
  | some existing =>
    exact attains_ofExcept hs fun kek hhex ↦ ⟨existing, hkek, hhex⟩
  | none =>
    have hset := untouched_setSecret hkek (Model.SyncLog.encodeHex draw.kek)
    have hwrite : (Process.atomically [] (modify (setSecret kekEntry
        (Model.SyncLog.encodeHex draw.kek))) : VaultCall Unit).Attains s (Untouched s) fun _ t ↦
          getSecret t kekEntry = some (Model.SyncLog.encodeHex draw.kek) := by
      refine attains_atomically hs ((ensures_modify _).2 ⟨hset, ?_⟩)
      rw [getSecret_setSecret, if_pos rfl]
    exact hwrite.bind fun _ t ht hkek ↦ attains_pure ht ⟨_, hkek, fromHex_encodeHex _⟩

def withKeys (keys : Option KeyRow) (m : Machine) : Machine :=
  { m with keys := keys.orElse fun _ ↦ m.keys }

theorem attains_loadOrInitDek (hfaithful : Faithful h) (draw : Draw) :
    (loadOrInitDek h draw).Attains s (Untouched s) fun out t ↦
      HasKey h (withKeys out.2 t) out.1 ∧ ∀ dek, HasKey h s dek → out = (dek, none) := by
  have hs : Untouched s s := refl_of Untouched s
  unfold loadOrInitDek
  refine attains_query_bind _ ?_
  cases hkeys : s.keys with
  | some row =>
    refine attains_query_bind _ ?_
    cases hkek : getSecret s row.kekRef with
    | none => exact attains_error hs
    | some kekHex =>
      refine attains_ofExcept_bind hs fun kek hhex ↦ attains_ofExcept_bind hs fun dek hopen ↦ ?_
      have hkey : HasKey h s dek := ⟨row, kekHex, kek, hkeys, hkek, hhex, hopen⟩
      refine attains_pure hs ⟨hkey, fun dek' hdek' ↦ ?_⟩
      rw [hasKey_unique hkey hdek']
  | none =>
    refine attains_obtainKek.bind fun kek t ht hkek ↦ attains_ofExcept_bind ht
      fun wrapped hsealed ↦ attains_pure ht ⟨?_, fun dek hdek ↦ ?_⟩
    · obtain ⟨kekHex, hkek, hhex⟩ := hkek
      exact ⟨⟨_, kekHex, kek, rfl, hkek, hhex,
        openBytes_of_sealBytes hfaithful draw.dekNonce.2 hsealed⟩⟩
    · obtain ⟨row, -, -, hrow, -⟩ := hdek.opens
      rw [hkeys] at hrow
      cases hrow

/-- A machine that has its data key does not make another one. -/
theorem run_loadOrInitDek (hkey : HasKey h s dek) :
    (loadOrInitDek h draw).run s = (.ok (dek, none), s) := by
  obtain ⟨row, kekHex, kek, hrow, hkek, hhex, hopen⟩ := hkey.opens
  rw [loadOrInitDek, run_query_bind, hrow]
  dsimp only
  rw [run_query_bind, hkek]
  dsimp only
  rw [hhex, run_bind_of_ok (run_ofExcept _ _), hopen, run_bind_of_ok (run_ofExcept _ _)]
  rfl

end Key

section Refinement

structure Shows (h : VaultHost) (m : Machine) (row : SecretRow) (entry : VaultSecret) : Prop where
  name : row.name = entry.name
  version : row.version = Int64.ofInt entry.version
  createdAt : row.createdAt = entry.createdAt
  rotatedAt : row.rotatedAt = entry.rotatedAt
  lastUsedAt : row.lastUsedAt = entry.lastUsedAt
  nonce : row.nonce.length = 24
  ciphertext : ∃ dek, HasKey h m dek ∧ sealBytes h dek row.nonce (secretAad row.name row.version)
    (asBytes entry.material) = .ok row.ciphertext

theorem Shows.keep {entry : VaultSecret} (hs : Shows h s row entry)
    (hkey : ∀ dek, HasKey h s dek → HasKey h t dek) : Shows h t row entry := by
  obtain ⟨dek, hdek, hsealed⟩ := hs.ciphertext
  exact { hs with ciphertext := ⟨dek, hkey dek hdek, hsealed⟩ }

def auditOf (entry : VaultAudit) : Model.Devices.AuditEntry :=
  ⟨"vault_secret", some entry.name, entry.action, entry.createdAt⟩

/-- The machine keeps what a device keeps that has its secrets in the clear. -/
structure Refines (h : VaultHost) (m : Machine) (d : Device) : Prop where
  secrets : Corresponds SecretRow.name VaultSecret.name (Shows h m) m.secrets.rows d.secrets
  audit : m.audit.map auditOf = d.audit

theorem Refines.untouched (hs : Refines h s d) (ht : Untouched s t) : Refines h t d := by
  refine ⟨?_, ?_⟩
  · rw [ht.secrets]
    exact hs.secrets.mono fun _ _ hrow ↦ hrow.keep fun dek hdek ↦ hdek.untouched ht
  · rw [ht.audit, hs.audit]

def KeepsKey (h : VaultHost) (s t : Machine) : Prop :=
  ∀ dek, HasKey h s dek → HasKey h t dek

def committed (keys : Option KeyRow) (entry : VaultAudit) (secrets : Keyed SecretRow.name)
    (m : Machine) : Machine :=
  { withKeys keys m with secrets, audit := m.audit ++ [entry] }

theorem HasKey.committed {keys : Option KeyRow} {entry : VaultAudit} {secrets : Keyed SecretRow.name}
    (hkey : HasKey h (withKeys keys s) dek) : HasKey h (committed keys entry secrets s) dek := by
  obtain ⟨row, kekHex, kek, hrow, hkek, hrest⟩ := hkey.opens
  exact ⟨row, kekHex, kek, hrow, hkek, hrest⟩

theorem keepsKey_committed {out : Bytes × Option KeyRow} (hout : HasKey h (withKeys out.2 t) out.1)
    (hsame : ∀ dek, HasKey h s dek → out = (dek, none)) (entry : VaultAudit)
    (secrets : Keyed SecretRow.name) : KeepsKey h s (committed out.2 entry secrets t) := by
  intro dek hdek
  obtain rfl := hsame dek hdek
  exact hout.committed

/-- What a transaction leaves that keeps the data key. -/
theorem refines_committed {keys : Option KeyRow} {entry : VaultAudit}
    {secrets : Keyed SecretRow.name} {d' : Device} (hs : Refines h s d) (hmt : Untouched s t)
    (hkeeps : ∀ entry secrets, KeepsKey h s (committed keys entry secrets t))
    (hsecrets : Corresponds SecretRow.name VaultSecret.name (Shows h (committed keys entry secrets t))
      t.secrets.rows d.secrets → Corresponds SecretRow.name VaultSecret.name
        (Shows h (committed keys entry secrets t)) secrets.rows d'.secrets)
    (haudit : d'.audit = d.audit ++ [auditOf entry]) :
    KeepsKey h s (committed keys entry secrets t) ∧
      Refines h (committed keys entry secrets t) d' := by
  refine ⟨hkeeps _ _, hsecrets ?_, ?_⟩
  · rw [hmt.secrets]
    exact hs.secrets.mono fun _ _ hrow ↦ hrow.keep (hkeeps _ _)
  · rw [haudit, ← hs.audit, ← hmt.audit]
    exact List.map_append

end Refinement

section Calls

variable {α β : Type}

def Fails (h : VaultHost) (s : Machine) (d : Device) (t : Machine) : Prop :=
  KeepsKey h s t ∧ Refines h t d

theorem Refines.fails (hs : Refines h s d) (ht : Untouched s t) : Fails h s d t :=
  ⟨fun _ hdek ↦ hdek.untouched ht, hs.untouched ht⟩

/-- What a call leaves: it failed and changed no secret, or it did what the transaction does with
secrets in the clear. -/
def Mirrors (h : VaultHost) (s : Machine) (d : Device) (body : Model.Devices.DeviceTx β)
    (R : α → β → Prop) : Except VaultFault α → Machine → Prop
  | .error _, t => Fails h s d t
  | .ok a, t => ∃ b d', body d = .ok (b, d') ∧ R a b ∧ KeepsKey h s t ∧ Refines h t d'

def recorded (d : Device) (secrets : List VaultSecret) (entry : Model.Devices.AuditEntry) : Device :=
  { d with secrets, audit := d.audit ++ [entry] }

theorem clear_vaultSet {u : Unit} (hname : Model.Devices.validateName name = .ok u)
    (hnone : Model.Devices.findSecret d name = none) :
    Model.Devices.vaultSet h.toPlatform now name secret d =
      .ok ((), recorded d (d.secrets ++ [⟨name, 1, secret, nowIso h.toPlatform now, none, none⟩])
        (Model.Devices.vaultEntry h.toPlatform now "vault.set" name)) := by
  refine (bind_of_ok (check_of_ok hname) _).trans ((bind_of_ok rfl _).trans ?_)
  rw [hnone]
  rfl

theorem clear_vaultReplace {u : Unit} {entry : VaultSecret}
    (hname : Model.Devices.validateName name = .ok u)
    (hsome : Model.Devices.findSecret d name = some entry) :
    Model.Devices.vaultReplace h.toPlatform now name secret d =
      .ok ((), recorded d (update VaultSecret.name d.secrets name fun r ↦ { r with
        version := r.version + 1, material := secret, rotatedAt := some (nowIso h.toPlatform now) })
        (Model.Devices.vaultEntry h.toPlatform now "vault.replace" name)) := by
  refine (bind_of_ok (check_of_ok hname) _).trans ((bind_of_ok rfl _).trans ?_)
  rw [hsome]
  rfl

theorem clear_vaultRevoke {entry : VaultSecret}
    (hsome : Model.Devices.findSecret d name = some entry) :
    Model.Devices.vaultRevoke h.toPlatform now name d =
      .ok ((), recorded d (d.secrets.filter (·.name ≠ name))
        (Model.Devices.vaultEntry h.toPlatform now "vault.revoke" name)) := by
  refine (bind_of_ok rfl _).trans ?_
  rw [hsome]
  rfl

theorem clear_vaultUse {entry : VaultSecret}
    (hsome : Model.Devices.findSecret d name = some entry) :
    Model.Devices.vaultUse h.toPlatform now name d =
      .ok (entry.material, recorded d (update VaultSecret.name d.secrets name fun r ↦ { r with
        lastUsedAt := some (nowIso h.toPlatform now) })
        (Model.Devices.vaultEntry h.toPlatform now "vault.use" name)) := by
  refine (bind_of_ok rfl _).trans ?_
  rw [hsome]
  rfl

theorem survives_vaultSet (hfaithful : Faithful h) (hs : Refines h s d) :
    (vaultSet h draw now name secret).Survives s (Fails h s d)
      (Mirrors h s d (Model.Devices.vaultSet h.toPlatform now name secret) fun _ _ ↦ True) := by
  have huntouched : Untouched s s := refl_of Untouched s
  unfold vaultSet
  refine survives_ofExcept_bind (fun _ ↦ hs.fails huntouched) fun _ hname ↦ ?_
  rw [except_mapError_eq_ok] at hname
  refine survives_query_bind _ ?_
  cases hfind : findSecret s name with
  | some row => exact hs.fails huntouched
  | none =>
    refine (attains_loadOrInitDek hfaithful draw).bind_survives (fun t ht ↦ hs.fails ht)
      (fun e t ht ↦ hs.fails ht) fun out t ht hout ↦ ?_
    refine survives_ofExcept_bind (fun _ ↦ hs.fails ht) fun ciphertext hsealed ↦ ?_
    refine survives_atomically_bind (hs.fails ht) (fun _ ↦ hs.fails ht) ?_
    rw [ensures_bind, ensures_get]
    split
    · exact (ensures_throw _).2 trivial
    · rename_i secrets hadd
      obtain ⟨hnone, hrows⟩ := Keyed.addNew_eq_some.1 hadd
      rw [commitRows, ensures_modify, survives_pure]
      refine ⟨(), _, clear_vaultSet hname (hs.secrets.none_iff.1 hfind), trivial, ?_⟩
      have hkeeps := keepsKey_committed hout.1 hout.2
      refine refines_committed hs ht hkeeps (fun hsecrets ↦ ?_) rfl
      rw [hrows]
      refine hsecrets.concat rfl ?_ hnone
      exact ⟨rfl, rfl, rfl, rfl, rfl, draw.nonce.2, _, hout.1.committed, hsealed⟩

theorem survives_vaultReplace (hfaithful : Faithful h) (hs : Refines h s d) :
    (vaultReplace h draw now name secret).Survives s (Fails h s d)
      (Mirrors h s d (Model.Devices.vaultReplace h.toPlatform now name secret) fun _ _ ↦ True) := by
  have huntouched : Untouched s s := refl_of Untouched s
  unfold vaultReplace
  refine survives_ofExcept_bind (fun _ ↦ hs.fails huntouched) fun _ hname ↦ ?_
  rw [except_mapError_eq_ok] at hname
  refine survives_query_bind _ ?_
  cases hfind : findSecret s name with
  | none => exact hs.fails huntouched
  | some row =>
    obtain ⟨entry, hentry, -⟩ := hs.secrets.exists hfind
    refine (attains_loadOrInitDek hfaithful draw).bind_survives (fun t ht ↦ hs.fails ht)
      (fun e t ht ↦ hs.fails ht) fun out t ht hout ↦ ?_
    refine survives_ofExcept_bind (fun _ ↦ hs.fails ht) fun ciphertext hsealed ↦ ?_
    refine survives_atomically_bind (hs.fails ht) (fun _ ↦ hs.fails ht) ?_
    rw [commitRows, ensures_modify, survives_pure]
    refine ⟨(), _, clear_vaultReplace hname hentry, trivial, ?_⟩
    have hkeeps := keepsKey_committed hout.1 hout.2
    refine refines_committed hs ht hkeeps (fun hsecrets ↦ ?_) rfl
    refine hsecrets.update (fun _ ↦ rfl) (fun _ ↦ rfl) ?_
    intro r entry' hr hrow
    rw [ht.secrets] at hr
    cases hr.symm.trans hfind
    have hversion : row.version + 1 = Int64.ofInt (entry'.version + 1) := by
      rw [Int64.ofInt_add, hrow.version]
      rfl
    refine ⟨hrow.name, hversion, hrow.createdAt, rfl, hrow.lastUsedAt, draw.nonce.2, _,
      hout.1.committed, ?_⟩
    rwa [← (lookup_eq_some hfind).2] at hsealed

theorem survives_vaultRevoke (hs : Refines h s d) :
    (vaultRevoke h now name).Survives s (Fails h s d)
      (Mirrors h s d (Model.Devices.vaultRevoke h.toPlatform now name) fun _ _ ↦ True) := by
  have huntouched : Untouched s s := refl_of Untouched s
  unfold vaultRevoke
  refine survives_query_bind _ ?_
  cases hfind : findSecret s name with
  | none => exact hs.fails huntouched
  | some row =>
    obtain ⟨entry, hentry, -⟩ := hs.secrets.exists hfind
    refine survives_atomically (hs.fails huntouched) (fun _ ↦ hs.fails huntouched) ?_
    rw [commitRows, ensures_modify]
    refine ⟨(), _, clear_vaultRevoke hentry, trivial, ?_⟩
    have hkeeps : ∀ entry secrets, KeepsKey h s (committed none entry secrets s) :=
      fun _ _ _ hdek ↦ HasKey.committed hdek
    refine refines_committed hs huntouched hkeeps (fun hsecrets ↦ ?_) rfl
    exact hsecrets.drop

theorem survives_vaultUse (hfaithful : Faithful h) (hs : Refines h s d) (draw : Draw) (now : ℤ)
    (name : String) :
    (vaultUse h draw now name).Survives s (Fails h s d)
      (Mirrors h s d (Model.Devices.vaultUse h.toPlatform now name) Eq) := by
  have huntouched : Untouched s s := refl_of Untouched s
  unfold vaultUse
  refine survives_query_bind _ ?_
  cases hfind : findSecret s name with
  | none => exact hs.fails huntouched
  | some row =>
    obtain ⟨entry, hentry, hshows⟩ := hs.secrets.exists hfind
    refine (attains_loadOrInitDek hfaithful draw).bind_survives (fun t ht ↦ hs.fails ht)
      (fun e t ht ↦ hs.fails ht) fun out t ht hout ↦ ?_
    refine survives_ofExcept_bind (fun _ ↦ hs.fails ht) fun plaintext hopen ↦ ?_
    refine survives_ofExcept_bind (fun _ ↦ hs.fails ht) fun secret hdecode ↦ ?_
    refine survives_atomically_bind (hs.fails ht) (fun _ ↦ hs.fails ht) ?_
    rw [commitRows, ensures_modify, survives_pure]
    refine ⟨_, _, clear_vaultUse hentry, ?_, ?_⟩
    · obtain ⟨dek, hdek, hsealed⟩ := hshows.ciphertext
      obtain rfl := hout.2 dek hdek
      rw [(lookup_eq_some hfind).2] at hsealed
      cases hopen.symm.trans (openBytes_of_sealBytes hfaithful hshows.nonce hsealed)
      exact Except.ok.inj (hdecode.symm.trans (decodeSecret_asBytes _))
    · have hkeeps := keepsKey_committed hout.1 hout.2
      refine refines_committed hs ht hkeeps (fun hsecrets ↦ ?_) rfl
      refine hsecrets.update (fun _ ↦ rfl) (fun _ ↦ rfl) ?_
      intro r entry' _ hrow
      exact ⟨hrow.name, hrow.version, hrow.createdAt, hrow.rotatedAt, rfl, hrow.nonce,
        hrow.ciphertext⟩

/-- A secret that the vault has can be used when no write is refused. -/
theorem completes_vaultUse (hfaithful : Faithful h) (hs : Refines h s d)
    (hfind : findSecret s name = some row) (draw : Draw) (now : ℤ) :
    (vaultUse h draw now name).Completes s fun _ _ ↦ True := by
  obtain ⟨entry, -, hshows⟩ := hs.secrets.exists hfind
  obtain ⟨dek, hdek, hsealed⟩ := hshows.ciphertext
  rw [(lookup_eq_some hfind).2] at hsealed
  unfold vaultUse
  refine completes_query_bind _ ?_
  rw [hfind]
  refine (completes_of_run (run_loadOrInitDek hdek)).bind fun out t hout ↦ ?_
  obtain ⟨rfl, rfl⟩ := hout
  refine completes_ofExcept_bind (openBytes_of_sealBytes hfaithful hshows.nonce hsealed) ?_
  refine completes_ofExcept_bind (decodeSecret_asBytes _) ?_
  refine (completes_atomically (P := fun _ _ ↦ True) ?_).bind fun _ _ _ ↦ completes_pure trivial
  exact (succeeds_modify _).2 trivial

end Calls

end SlipScan.Secrets.Vault
