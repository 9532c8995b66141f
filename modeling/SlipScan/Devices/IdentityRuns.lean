import SlipScan.Devices.Rotation

namespace SlipScan.Devices.IdentityRuns

open Model.Database Model.Devices Foundation.Transaction Foundation.Interleaving Foundation.Table
  Process Rotation

variable {P : Platform} {now : ℤ} {d : Device}

inductive IdentityCall (P : Platform)
  | init (keypair : DeviceKeypair P) (label : String)
  | rotate (keypair : DeviceKeypair P)
  | reset

structure IdentityEvent (P : Platform) where
  call : IdentityCall P
  now : ℤ
  fates : Fates DeviceFault

def IdentityEvent.after (e : IdentityEvent P) (d : Device) : Device :=
  match e.call with
  | .init keypair label => ((deviceInitialize P e.now keypair label).exec e.fates d).2.1
  | .rotate keypair => ((Model.Devices.rotate P e.now keypair).exec e.fates d).2.1
  | .reset => ((Model.Devices.reset P e.now).exec e.fates d).2.1

def afterAll (events : List (IdentityEvent P)) (d : Device) : Device :=
  events.foldl (fun d e ↦ e.after d) d

/-- A rotation that changes the key in the vault and does not come to the identity. -/
def IdentityEvent.Strands (e : IdentityEvent P) (d : Device) : Prop :=
  match e.call with
  | .rotate keypair => d.identity.map DeviceIdentity.publicKey ≠ some keypair.publicKey ∧
      e.fates 0 = .commits ∧ e.fates 1 = .commits ∧ ¬(e.fates 2 = .commits ∧ e.fates 3 = .commits)
  | _ => False

/-- A device without an identity has no history, and the history of a device that holds its key
leads to its identity. -/
structure Steady (P : Platform) (d : Device) : Prop where
  blank : d.identity = none → d.rotations = []
  chain : ∀ identity secret, Holds P d identity secret →
    RotationChain P d.rotations identity.publicKey

theorem steady_of_nil (hnil : d.rotations = []) : Steady P d :=
  ⟨fun _ ↦ hnil, fun _ _ _ ↦ hnil ▸ RotationChain.nil⟩

theorem Keyed.steady {identity : DeviceIdentity} {key : String} (h : Keyed P d identity key) :
    Steady P d := by
  obtain ⟨secret, hstored, hkey⟩ := h.stored
  refine ⟨fun hnone ↦ (nomatch h.known.symm.trans hnone), fun identity' secret' h' ↦ ?_⟩
  obtain rfl := Option.some.inj (h.known.symm.trans h'.known)
  obtain rfl := Option.some.inj (hstored.symm.trans h'.stored)
  exact h.chain (Option.some.inj (hkey.symm.trans h'.matching))

theorem Holds.congr {t : Device} {identity : DeviceIdentity} {secret : VaultSecret}
    (h : Holds P t identity secret) (hidentity : t.identity = d.identity)
    (hsecret : findSecret t identitySecretRef = findSecret d identitySecretRef) :
    Holds P d identity secret :=
  ⟨hidentity ▸ h.known, hsecret ▸ h.stored, h.matching⟩

theorem Steady.congr {t : Device} (hd : Steady P d) (hidentity : t.identity = d.identity)
    (hrotations : t.rotations = d.rotations)
    (hsecret : findSecret t identitySecretRef = findSecret d identitySecretRef) : Steady P t := by
  refine ⟨fun hnone ↦ ?_, fun identity secret h ↦ ?_⟩
  · exact hrotations.trans (hd.blank (hidentity ▸ hnone))
  · rw [hrotations]
    exact hd.chain _ _ (Holds.congr h hidentity hsecret)

section Steps

theorem vaultSet_ensures (name secret : String) (h : findSecret d name = none) :
    Ensures (vaultSet P now name secret) d fun _ t ↦
      t.identity = d.identity ∧ t.rotations = d.rotations ∧
        findSecret t name = some ⟨name, 1, secret, nowIso P now, none, none⟩ := by
  simp only [vaultSet, ensures_bind, ensures_check, ensures_get, ensures_ite, ensures_throw,
    ensures_modify]
  refine fun _ _ ↦ ⟨fun _ ↦ trivial, fun _ ↦ ⟨trivial, trivial, ?_⟩⟩
  exact lookup_concat_self (r := (⟨name, 1, secret, nowIso P now, none, none⟩ : VaultSecret))
    (lookup_eq_none.1 h)

theorem vaultRevoke_ensures (name : String) :
    Ensures (vaultRevoke P now name) d fun _ t ↦
      t.identity = d.identity ∧ t.rotations = d.rotations ∧ findSecret t name = none := by
  rw [vaultRevoke, ensures_bind, ensures_get]
  split
  · exact (ensures_throw _).2 trivial
  · refine (ensures_modify _).2 ⟨rfl, rfl, lookup_eq_none.2 fun r hr ↦ ?_⟩
    simpa using (List.mem_filter.1 hr).2

theorem auditWrite_steady (hd : Steady P d) (action publicKey : String) :
    (auditWrite P now action publicKey).Survives d (Steady P) fun _ ↦ Steady P :=
  survives_atomically hd (fun _ ↦ hd) ((ensures_modify _).2 (hd.congr rfl rfl rfl))

theorem deviceInitialize_steady (hd : Steady P d) (keypair : DeviceKeypair P) (label : String) :
    (deviceInitialize P now keypair label).Survives d (Steady P) fun _ ↦ Steady P := by
  rw [deviceInitialize, survives_bind, survives_ofExcept]
  cases validateLabel label with
  | error e => exact hd
  | ok label =>
    rw [continues_ok, survives_bind, survives_query, continues_ok]
    cases hidentity : d.identity with
    | some existing => exact hd
    | none =>
      rw [survives_bind, survives_query, continues_ok, survives_ite]
      refine ⟨fun _ ↦ hd, fun htorn ↦ ?_⟩
      rw [survives_bind, survives_ofExcept]
      cases keyname P keypair.publicKey with
      | error e => exact hd
      | ok keyname =>
        have habsent : findSecret d identitySecretRef = none := by
          refine lookup_eq_none.2 fun r hr hname ↦ htorn (List.any_eq_true.2 ⟨r, hr, ?_⟩)
          exact decide_eq_true hname
        rw [continues_ok, survives_bind]
        refine survives_atomically hd (fun _ ↦ hd) ?_
        refine (vaultSet_ensures _ _ habsent).mono fun _ t ⟨_, hnil, _⟩ ↦ ?_
        rw [hd.blank hidentity] at hnil
        have ht : Steady P t := steady_of_nil hnil
        rw [continues_ok, survives_bind, survives_attempt]
        refine survives_atomically ht (fun e ↦ ?_) ((ensures_modify _).2 ?_)
        · rw [continues_ok, survives_bind, survives_attempt]
          refine survives_atomically ht (fun _ ↦ ht) ?_
          exact (vaultRevoke_ensures _).mono fun _ u hu ↦ steady_of_nil (hu.2.1.trans hnil)
        · rw [continues_ok, survives_bind]
          refine (auditWrite_steady ?_ _ _).mono (fun _ h ↦ h) fun r u hu ↦ ?_
          · exact steady_of_nil hnil
          · cases r <;> exact hu

/-- The end of a reset: the tables are cleared and the audit row is written. -/
theorem clear_steady {t : Device} (ht : Steady P t) (existing : Option DeviceIdentity) :
    (atomically [] (modify fun d ↦ { d with identity := none, rotations := [], invites := [] }) >>=
      fun _ ↦ match existing with
        | some identity => auditWrite P now "device.identity.reset" identity.publicKey
        | none => return () : DeviceCall Unit).Survives t (Steady P) fun _ ↦ Steady P := by
  rw [survives_bind]
  refine survives_atomically ht (fun _ ↦ ht) ((ensures_modify _).2 ?_)
  have hcleared : Steady P { t with identity := none, rotations := [], invites := [] } :=
    steady_of_nil rfl
  cases existing with
  | some identity => exact auditWrite_steady hcleared _ _
  | none => exact hcleared

theorem reset_steady (hd : Steady P d) :
    (Model.Devices.reset P now).Survives d (Steady P) fun _ ↦ Steady P := by
  rw [Model.Devices.reset, survives_bind, survives_query, continues_ok, survives_bind,
    survives_attempt]
  refine survives_atomically hd (fun _ ↦ clear_steady hd _) ?_
  refine (vaultRevoke_ensures _).mono fun _ t ht ↦ clear_steady ?_ _
  obtain ⟨hidentity, hrotations, hgone⟩ := ht
  refine ⟨fun hnone ↦ hrotations.trans (hd.blank (hidentity ▸ hnone)), fun _ _ h ↦ ?_⟩
  have hstored := hgone.symm.trans h.stored
  cases hstored

theorem signAs_refuses {identity : DeviceIdentity} {secret : VaultSecret}
    (hknown : d.identity = some identity) (hstored : findSecret d identitySecretRef = some secret)
    (hnot : ¬Working P d) (message : String) :
    ∃ e, signAs P identity message secret.material = .error e := by
  rw [working_iff hknown hstored] at hnot
  cases hkey : P.publicKeyHex secret.material with
  | none => exact ⟨_, by rw [signAs, hkey]⟩
  | some key =>
    rw [hkey, Option.some_inj] at hnot
    refine ⟨.deviceKeyMismatch, ?_⟩
    rw [signAs, hkey]
    exact if_pos hnot

theorem rotate_of_not_working (now : ℤ) (fates : Fates DeviceFault) (hnot : ¬Working P d)
    (keypair : DeviceKeypair P) :
    ((Model.Devices.rotate P now keypair).exec fates d).2.1 = d ∨
      ((Model.Devices.rotate P now keypair).exec fates d).2.1 = used P now d := by
  rw [Model.Devices.rotate, exec_query_bind]
  cases hknown : d.identity with
  | none =>
    have hrequire : requireIdentity d = .error .deviceIdentityMissing := by
      rw [requireIdentity, hknown]
    exact .inl (by rw [exec_ofExcept_bind_error hrequire])
  | some identity =>
    have hrequire : requireIdentity d = .ok identity := by rw [requireIdentity, hknown]
    rw [exec_ofExcept_bind_ok hrequire]
    cases hname : keyname P keypair.publicKey with
    | error e => exact .inl (by rw [exec_ofExcept_bind_error rfl])
    | ok name =>
      rw [exec_ofExcept_bind_ok rfl]
      by_cases hfate : fates 0 = .commits
      · cases hstored : findSecret d identitySecretRef with
        | none => exact .inl (exec_useWith_bind_missing hstored hfate _)
        | some secret =>
          obtain ⟨e, he⟩ := signAs_refuses hknown hstored hnot
            (rotationStatement identity.publicKey keypair.publicKey)
          exact .inr (exec_useWith_bind_refused hstored he hfate _)
      · exact .inl (exec_useWith_bind_fails hfate _)

end Steps

section Runs

theorem findSecret_used_eq_none (h : findSecret d identitySecretRef = none) :
    findSecret (used P now d) identitySecretRef = none := by
  rw [findSecret, lookup_eq_none] at h ⊢
  intro r hr
  obtain ⟨a, ha, rfl⟩ := mem_update.1 hr
  split <;> exact h a ha

theorem steady_used (hd : Steady P d) (hnot : ¬Working P d) : Steady P (used P now d) := by
  refine ⟨hd.blank, fun identity secret h ↦ absurd ?_ hnot⟩
  cases hstored : findSecret d identitySecretRef with
  | none => exact nomatch (findSecret_used_eq_none hstored).symm.trans h.stored
  | some secret' =>
    obtain rfl := Option.some.inj ((findSecret_used hstored).symm.trans h.stored)
    exact ⟨identity, secret', h.known, hstored, h.matching⟩

theorem rotate_steady (hP : Lawful P) (hd : Steady P d) (keypair : DeviceKeypair P)
    (fates : Fates DeviceFault) :
    Steady P ((Model.Devices.rotate P now keypair).exec fates d).2.1 := by
  by_cases hworking : Working P d
  · obtain ⟨identity, secret, h⟩ := hworking
    obtain ⟨identity', key, hkeyed, _⟩ :=
      rotate_keyed now fates hP h (hd.chain _ _ h) keypair
    exact Keyed.steady hkeyed
  · obtain heq | heq := rotate_of_not_working now fates hworking keypair
    · rw [heq]
      exact hd
    · rw [heq]
      exact steady_used hd hworking

theorem IdentityEvent.after_steady (hP : Lawful P) (hd : Steady P d) (e : IdentityEvent P) :
    Steady P (e.after d) := by
  obtain ⟨call, now, fates⟩ := e
  cases call with
  | init keypair label => exact exec_store_of_survives (deviceInitialize_steady hd keypair label) fates
  | rotate keypair => exact rotate_steady hP hd keypair fates
  | reset => exact exec_store_of_survives (reset_steady hd) fates

theorem afterAll_steady (hP : Lawful P) (hd : Steady P d) (events : List (IdentityEvent P)) :
    Steady P (afterAll events d) := by
  induction events generalizing d with
  | nil => exact hd
  | cons e events ih => exact ih (e.after_steady hP hd)

theorem initialize_refused {identity : DeviceIdentity} (hknown : d.identity = some identity)
    (keypair : DeviceKeypair P) (label : String) (fates : Fates DeviceFault) :
    ((deviceInitialize P now keypair label).exec fates d).2.1 = d := by
  rw [deviceInitialize]
  cases hlabel : validateLabel label with
  | error e => rw [exec_ofExcept_bind_error rfl]
  | ok label =>
    rw [exec_ofExcept_bind_ok rfl, exec_query_bind, hknown]
    rfl

/-- A call on a device with a working identity leaves it with one, and with the history that leads
to it, except when a rotation changes the key in the vault and not the identity. -/
theorem sound_after_iff (hP : Lawful P) (d₀ : Device) (hnil : d₀.rotations = [])
    (events : List (IdentityEvent P)) (e : IdentityEvent P) (hcall : e.call ≠ .reset)
    (hworking : Working P (afterAll events d₀)) :
    Sound P (e.after (afterAll events d₀)) ↔ ¬e.Strands (afterAll events d₀) := by
  have hsteady := afterAll_steady hP (steady_of_nil (P := P) hnil) events
  obtain ⟨identity, secret, h⟩ := hworking
  obtain ⟨call, now, fates⟩ := e
  have hchain := hsteady.chain _ _ h
  cases call with
  | init keypair label =>
    change Sound P ((deviceInitialize P now keypair label).exec fates _).2.1 ↔ ¬False
    rw [initialize_refused h.known]
    exact iff_of_true (h.sound hP hchain) id
  | rotate keypair =>
    obtain ⟨identity', key, hkeyed, hkey⟩ := rotate_keyed now fates hP h hchain keypair
    change Sound P ((Model.Devices.rotate P now keypair).exec fates _).2.1 ↔ _
    rw [hkeyed.sound_iff hP, hkey]
    simp only [IdentityEvent.Strands, h.known, Option.map_some, ne_eq, Option.some_inj]
  | reset => exact absurd rfl hcall

def oldKey : KeyRow :=
  ⟨"9d61b19deffd5a60ba844af492ec2cc44449c5697b326919703bac031cae7f60",
    "d75a980182b10ab7d54bfed3c964073a0ee172f3daa62325af021a68f707511a",
    "suba-gome-gina-delu-vosu-vazo-poti-kofi-zidu"⟩

def newKey : KeyRow :=
  ⟨"4ccd089b28ff96da9db6c346ec114e0f5b8a319f35aba624da8cf6ed4fb8a6fb",
    "3d4017c3e843895a92b70aa74d1b7ebc9c982ccf2ec4968cc0cd55f12af4660c",
    "pusu-sila-lozo-rabo-nefe-bire-zola-keze-tilu"⟩

def signedRotation : (String × String) × String :=
  ((oldKey.secret, rotationStatement oldKey.publicKey newKey.publicKey),
    "b7187dd9decb195ba5132dfe38d5edbc59611a9221bcf40bca6a836e3dc31472" ++
      "1ab69bb0f8a92358f8711e88d68a87b540af4dc81bb4846512f8eace4d8eb308")

def twoKeys : Platform :=
  tabled [oldKey, newKey] [signedRotation] [] [(0, "2026-03-01T09:00:00Z")]

theorem twoKeys_lawful : Lawful twoKeys :=
  tabled_lawful (by decide +kernel)

def initial : IdentityEvent twoKeys :=
  ⟨.init ⟨oldKey.secret, oldKey.publicKey, by decide +kernel⟩ "laptop", 0, fun _ ↦ .commits⟩

def laptop : Device := initial.after {}

def rotationWithout (n : ℕ) : IdentityEvent twoKeys :=
  ⟨.rotate ⟨newKey.secret, newKey.publicKey, by decide +kernel⟩, 0,
    fun k ↦ if k = n then .refused (.sqlite "database or disk is full") else .commits⟩

theorem laptop_known : laptop.identity = some ⟨oldKey.publicKey, oldKey.keyname, "laptop",
    "2026-03-01T09:00:00Z", none⟩ := by
  decide +kernel

theorem laptop_stored : findSecret laptop identitySecretRef =
    some ⟨identitySecretRef, 1, oldKey.secret, "2026-03-01T09:00:00Z", none, none⟩ := by
  decide +kernel

theorem laptop_working : Working twoKeys laptop :=
  (working_iff laptop_known laptop_stored).2 (by decide +kernel)

/-- The identity of the laptop is written last, and without that write it cannot sign. -/
theorem rotation_strands : ¬∀ (P : Platform), Lawful P → ∀ d₀ : Device, d₀.rotations = [] →
    ∀ (events : List (IdentityEvent P)) (e : IdentityEvent P), e.call ≠ .reset →
      Working P (afterAll events d₀) → Sound P (e.after (afterAll events d₀)) := by
  intro h
  have hsound := h twoKeys twoKeys_lawful {} rfl [initial] (rotationWithout 3)
    (by rintro ⟨⟩) laptop_working
  have hknown : ((rotationWithout 3).after laptop).identity = laptop.identity := by decide +kernel
  have hstored : findSecret ((rotationWithout 3).after laptop) identitySecretRef =
      some ⟨identitySecretRef, 2, newKey.secret, "2026-03-01T09:00:00Z",
        some "2026-03-01T09:00:00Z", some "2026-03-01T09:00:00Z"⟩ := by decide +kernel
  have hmatching := (working_iff (hknown.trans laptop_known) hstored).1 hsound.working
  revert hmatching
  decide +kernel

/-- A rotation of which the last write, the entry of the log, does not go through. -/
theorem rotation_without_log_sound : Sound twoKeys ((rotationWithout 4).after laptop) :=
  (sound_after_iff twoKeys_lawful {} rfl [initial] (rotationWithout 4)
    (by rintro ⟨⟩) laptop_working).2 fun h ↦ h.2.2.2 ⟨rfl, rfl⟩

end Runs

end SlipScan.Devices.IdentityRuns
