import SlipScan.Secrets.VaultRuns

namespace SlipScan.Secrets.VaultService

open Model.Dedupe Model.Vault Foundation.Interleaving Foundation.Table Foundation.Transaction Process Vault
  VaultRuns
open Model.Devices (Device DeviceCall DeviceFault validateName)
open Relation (ReflTransGen)

-- The check of a name is not to be computed when a call is unfolded.
seal Model.Devices.validateName

variable {h : VaultHost} {s t : Machine} {d : Device} {draw : Draw} {now : ℤ}
  {name secret : String} {α : Type}

section Clear

/-- The call on a device that keeps its secrets in the clear. -/
def clearCall (h : VaultHost) (now : ℤ) : VaultRequest → DeviceCall Unit
  | .set name secret => Process.atomically [] (Model.Devices.vaultSet h.toPlatform now name secret)
  | .replace name secret =>
    Process.atomically [] (Model.Devices.vaultReplace h.toPlatform now name secret)
  | .revoke name => Process.atomically [] (Model.Devices.vaultRevoke h.toPlatform now name)
  | .use name consume => Model.Devices.useWith h.toPlatform now name consume

/-- What a call leaves of a vault that keeps the secrets of a device: nothing changed, or it is
what the call in the clear leaves. -/
def Matches (h : VaultHost) (d : Device) (p : DeviceCall Unit) :
    Except VaultFault Unit → Machine → Prop
  | .ok _, t => (p.run d).1 = .ok () ∧ Refines h t (p.run d).2
  | .error e, t => Refines h t d ∨
    (p.run d).1.mapError VaultFault.device = .error e ∧ Refines h t (p.run d).2

theorem run_clear_atomically {body : Model.Devices.DeviceTx α} {a : α} {d' : Device}
    (hbody : body d = .ok (a, d')) :
    (Process.atomically [] body : DeviceCall α).run d = (.ok a, d') := by
  rw [run_atomically, commit_of_ok hbody]

theorem matches_of_mirrors {p : VaultCall α} {body : Model.Devices.DeviceTx Unit}
    {R : α → Unit → Prop}
    (hp : p.Survives s (Fails h s d) (Mirrors h s d body R)) :
    (p >>= fun _ ↦ pure ()).Survives s (Refines h · d)
      (Matches h d (Process.atomically [] body)) := by
  rw [survives_bind]
  refine hp.mono (fun _ ht ↦ ht.2) fun o t ht ↦ ?_
  cases o with
  | error e => exact .inl ht.2
  | ok a =>
    obtain ⟨b, d', hbody, -, -, ht⟩ := ht
    rw [continues_ok, survives_pure, Matches, run_clear_atomically hbody]
    exact ⟨rfl, ht⟩

theorem survives_request (hfaithful : Faithful h) (hs : Refines h s d) (draw : Draw) (now : ℤ)
    (request : VaultRequest) :
    (request.call h draw now).Survives s (Refines h · d) (Matches h d (clearCall h now request)) := by
  cases request with
  | set name secret =>
    rw [VaultRequest.call, clearCall]
    exact matches_of_mirrors (survives_vaultSet hfaithful hs)
  | replace name secret =>
    rw [VaultRequest.call, clearCall]
    exact matches_of_mirrors (survives_vaultReplace hfaithful hs)
  | revoke name =>
    rw [VaultRequest.call, clearCall]
    refine (survives_vaultRevoke hs).mono (fun _ ht ↦ ht.2) fun o t ht ↦ ?_
    cases o with
    | error e => exact .inl ht.2
    | ok a =>
      obtain ⟨b, d', hbody, -, -, ht⟩ := ht
      rw [Matches, run_clear_atomically hbody]
      exact ⟨rfl, ht⟩
  | use name consume =>
    rw [VaultRequest.call, clearCall, useWith, survives_bind]
    refine (survives_vaultUse hfaithful hs draw now name).mono (fun _ ht ↦ ht.2) fun o t ht ↦ ?_
    cases o with
    | error e => exact .inl ht.2
    | ok secret =>
      obtain ⟨b, d', hbody, rfl, -, ht⟩ := ht
      have hrun : (Model.Devices.useWith h.toPlatform now name consume).run d =
          (consume secret, d') := by
        rw [Model.Devices.useWith, run_bind_of_ok (run_clear_atomically hbody), run_ofExcept]
      rw [continues_ok, survives_ofExcept]
      cases hconsume : consume secret with
      | error e =>
        refine .inr ?_
        rw [hrun, hconsume]
        exact ⟨rfl, ht⟩
      | ok u =>
        rw [Except.mapError, Matches, hrun, hconsume]
        exact ⟨rfl, ht⟩

end Clear

section Keys

def Encrypts (h : VaultHost) : Prop :=
  ∀ key nonce aad plaintext, key.length = 32 → ∃ c, h.encrypt key nonce aad plaintext = some c

/-- The keychain has no key of the vault, or it has one that the cipher takes. -/
def KekSound (m : Machine) : Prop :=
  ∀ kekHex, getSecret m kekEntry = some kekHex → ∃ kek, fromHex kekHex = .ok kek ∧ kek.length = 32

def Ready (h : VaultHost) (m : Machine) : Prop :=
  (m.keys = none ∧ KekSound m) ∨ ∃ dek, HasKey h m dek ∧ dek.length = 32

theorem kekSound_setSecret {m : Machine} (kek : { key : Bytes // key.length = 32 }) :
    KekSound (setSecret kekEntry (Model.SyncLog.encodeHex kek) m) := by
  intro kekHex hkek
  rw [getSecret_setSecret, if_pos rfl] at hkek
  cases hkek
  exact ⟨kek, fromHex_encodeHex _, kek.2⟩

theorem ready_committed {out : Bytes × Option KeyRow} (hkey : HasKey h (withKeys out.2 t) out.1)
    (hlength : out.1.length = 32) (entry secrets) : Ready h (committed out.2 entry secrets t) :=
  .inr ⟨out.1, hkey.committed, hlength⟩

theorem attains_obtainKek_sound (hsound : KekSound s) (hnone : s.keys = none) :
    (obtainKek draw).Attains s (fun t ↦ t.keys = none ∧ KekSound t) fun kek _ ↦ kek.length = 32 := by
  have hs : s.keys = none ∧ KekSound s := ⟨hnone, hsound⟩
  unfold obtainKek
  refine attains_query_bind _ ?_
  cases hkek : getSecret s kekEntry with
  | some existing =>
    obtain ⟨kek, hhex, hlength⟩ := hsound existing hkek
    refine attains_ofExcept hs fun kek' hkek' ↦ ?_
    cases hhex.symm.trans hkek'
    exact hlength
  | none =>
    have hwrite : (Process.atomically [] (modify (setSecret kekEntry
        (Model.SyncLog.encodeHex draw.kek))) : VaultCall Unit).Attains s
          (fun t ↦ t.keys = none ∧ KekSound t) fun _ _ ↦ True :=
      attains_atomically hs ((ensures_modify _).2 ⟨⟨hnone, kekSound_setSecret draw.kek⟩, trivial⟩)
    exact hwrite.bind fun _ t ht _ ↦ attains_pure ht draw.kek.2

theorem attains_ready (hfaithful : Faithful h) (hready : Ready h s) :
    (loadOrInitDek h draw).Attains s (Ready h) fun out t ↦
      HasKey h (withKeys out.2 t) out.1 ∧ out.1.length = 32 := by
  have hload := attains_loadOrInitDek (s := s) hfaithful draw
  obtain ⟨hnone, hsound⟩ | ⟨dek, hkey, hlength⟩ := hready
  · have hfresh : (loadOrInitDek h draw).Attains s (Ready h) fun out _ ↦ out.1.length = 32 := by
      unfold loadOrInitDek
      refine attains_query_bind _ ?_
      rw [hnone]
      refine ((attains_obtainKek_sound hsound hnone).weaken fun _ ↦ .inl).bind fun kek t ht _ ↦ ?_
      exact attains_ofExcept_bind ht fun wrapped _ ↦ attains_pure ht draw.dek.2
    exact ((hload.and hfresh).weaken fun _ ht ↦ ht.2).mono fun _ _ _ hout ↦ ⟨hout.1.1, hout.2⟩
  · refine (hload.weaken fun t ht ↦ .inr ⟨dek, hkey.untouched ht, hlength⟩).mono fun out t _ hout ↦ ?_
    obtain rfl := hout.2 dek hkey
    exact ⟨hout.1, hlength⟩

theorem completes_load (hfaithful : Faithful h) (hencrypts : Encrypts h) (hready : Ready h s)
    (draw : Draw) :
    (loadOrInitDek h draw).Completes s fun out _ ↦ out.1.length = 32 := by
  refine (Completes.attains (P := fun _ _ ↦ True) ?_ (attains_ready hfaithful hready)).mono
    fun _ _ hout ↦ hout.2.2.2
  obtain ⟨hnone, hsound⟩ | ⟨dek, hkey, hlength⟩ := hready
  · unfold loadOrInitDek
    refine completes_query_bind _ ?_
    rw [hnone]
    have hkek : (obtainKek draw).Completes s fun kek _ ↦ kek.length = 32 := by
      refine (Completes.attains (P := fun _ _ ↦ True) ?_
        (attains_obtainKek_sound hsound hnone)).mono fun _ _ hout ↦ hout.2.2
      unfold obtainKek
      refine completes_query_bind _ ?_
      cases hkek : getSecret s kekEntry with
      | some existing =>
        obtain ⟨kek, hhex, -⟩ := hsound existing hkek
        exact ⟨kek, s, by rw [run_ofExcept, hhex], trivial⟩
      | none =>
        refine (completes_atomically (P := fun _ _ ↦ True) ?_).bind fun _ _ _ ↦
          completes_pure trivial
        exact (succeeds_modify _).2 trivial
    refine hkek.bind fun kek t hlength ↦ ?_
    obtain ⟨wrapped, hwrapped⟩ := hencrypts kek draw.dekNonce dekAad draw.dek hlength
    exact completes_ofExcept_bind (sealBytes_eq_ok.2 ⟨hlength, hwrapped⟩) (completes_pure trivial)
  · exact (completes_of_run (run_loadOrInitDek hkey)).mono fun _ _ _ ↦ trivial

/-- What every call does to the keys: it reads the data key, or makes it, and then writes with
it. -/
theorem survives_ready {f : Bytes × Option KeyRow → VaultCall α} (hfaithful : Faithful h)
    (hready : Ready h s)
    (hf : ∀ out t, Ready h t → HasKey h (withKeys out.2 t) out.1 → out.1.length = 32 →
      (f out).Survives t (Ready h) fun _ ↦ Ready h) :
    (loadOrInitDek h draw >>= f).Survives s (Ready h) fun _ ↦ Ready h :=
  (attains_ready hfaithful hready).bind_survives (fun _ ht ↦ ht) (fun _ _ ht ↦ ht)
    fun out t ht hout ↦ hf out t ht hout.1 hout.2

theorem ready_vaultSet (hfaithful : Faithful h) (hready : Ready h s) :
    (vaultSet h draw now name secret).Survives s (Ready h) fun _ ↦ Ready h := by
  unfold vaultSet
  refine survives_ofExcept_bind (fun _ ↦ hready) fun _ _ ↦ survives_query_bind _ ?_
  refine Survives.ite (fun _ ↦ hready) fun _ ↦ ?_
  refine survives_ready hfaithful hready fun out t ht hkey hlength ↦ ?_
  refine survives_ofExcept_bind (fun _ ↦ ht) fun ciphertext _ ↦ ?_
  refine survives_atomically_bind ht (fun _ ↦ ht) ?_
  rw [ensures_bind, ensures_get]
  split
  · exact (ensures_throw _).2 trivial
  · rename_i secrets _
    exact (ensures_modify _).2 (ready_committed hkey hlength _ secrets)

theorem ready_vaultReplace (hfaithful : Faithful h) (hready : Ready h s) :
    (vaultReplace h draw now name secret).Survives s (Ready h) fun _ ↦ Ready h := by
  unfold vaultReplace
  refine survives_ofExcept_bind (fun _ ↦ hready) fun _ _ ↦ survives_query_bind _ ?_
  cases findSecret s name with
  | none => exact hready
  | some existing =>
    refine survives_ready hfaithful hready fun out t ht hkey hlength ↦ ?_
    refine survives_ofExcept_bind (fun _ ↦ ht) fun ciphertext _ ↦ ?_
    refine survives_atomically_bind ht (fun _ ↦ ht) ?_
    exact (ensures_modify _).2 (ready_committed hkey hlength _ _)

theorem ready_vaultRevoke (hready : Ready h s) :
    (vaultRevoke h now name).Survives s (Ready h) fun _ ↦ Ready h := by
  unfold vaultRevoke
  refine survives_query_bind _ ?_
  cases findSecret s name with
  | none => exact hready
  | some existing =>
    refine survives_atomically hready (fun _ ↦ hready) ((ensures_modify _).2 ?_)
    obtain ⟨hnone, hsound⟩ | ⟨dek, hkey, hlength⟩ := hready
    · exact .inl ⟨hnone, hsound⟩
    · have hcommitted : ∀ entry secrets, HasKey h (committed none entry secrets s) dek :=
        fun _ _ ↦ HasKey.committed hkey
      exact .inr ⟨dek, hcommitted _ _, hlength⟩

theorem ready_useWith (hfaithful : Faithful h) (hready : Ready h s)
    (consume : String → Except DeviceFault α) :
    (useWith h draw now name consume).Survives s (Ready h) fun _ ↦ Ready h := by
  have huse : (vaultUse h draw now name).Survives s (Ready h) fun _ ↦ Ready h := by
    unfold vaultUse
    refine survives_query_bind _ ?_
    cases findSecret s name with
    | none => exact hready
    | some row =>
      refine survives_ready hfaithful hready fun out t ht hkey hlength ↦ ?_
      refine survives_ofExcept_bind (fun _ ↦ ht) fun plaintext _ ↦ ?_
      refine survives_ofExcept_bind (fun _ ↦ ht) fun secret _ ↦ ?_
      refine survives_atomically_bind ht (fun _ ↦ ht) ?_
      exact (ensures_modify _).2 (ready_committed hkey hlength _ _)
  rw [useWith, survives_bind]
  refine huse.mono (fun _ ht ↦ ht) fun o t ht ↦ ?_
  cases o with
  | error e => exact ht
  | ok secret => exact (survives_ofExcept _).2 ht

end Keys

section Outcomes

variable {u : Unit} {row : SecretRow}

theorem exists_addNew (row : SecretRow) (hfind : findSecret s row.name = none) :
    ∃ secrets, s.secrets.addNew row = some secrets := by
  rw [← Option.ne_none_iff_exists', Ne, Keyed.addNew_isNone, not_exists]
  intro a ha
  cases hfind.symm.trans ha

theorem completes_vaultSet (hfaithful : Faithful h) (hencrypts : Encrypts h) (hready : Ready h s)
    (hname : validateName name = .ok u) (hfind : findSecret s name = none) :
    (vaultSet h draw now name secret).Completes s fun _ _ ↦ True := by
  unfold vaultSet
  refine completes_ofExcept_bind (a := u) (by rw [hname]; rfl) (completes_query_bind _ ?_)
  rw [hfind]
  have hload := (completes_load hfaithful hencrypts hready draw).attains
    (attains_loadOrInitDek hfaithful draw)
  refine hload.bind fun out t hout ↦ ?_
  obtain ⟨hlength, ht, -⟩ := hout
  obtain ⟨c, hc⟩ := hencrypts out.1 draw.nonce (secretAad name 1) (asBytes secret) hlength
  refine completes_ofExcept_bind (sealBytes_eq_ok.2 ⟨hlength, hc⟩) ?_
  refine (completes_atomically (P := fun _ _ ↦ True) ?_).bind fun _ _ _ ↦ completes_pure trivial
  rw [succeeds_bind, succeeds_get, ht.secrets]
  obtain ⟨secrets, hadd⟩ := exists_addNew ⟨name, 1, c, draw.nonce, fingerprint h name secret,
    Model.Devices.nowIso h.toPlatform now, none, none⟩ hfind
  rw [hadd]
  exact (succeeds_modify _).2 trivial

theorem completes_vaultReplace (hfaithful : Faithful h) (hencrypts : Encrypts h)
    (hready : Ready h s) (hname : validateName name = .ok u)
    (hfind : findSecret s name = some row) :
    (vaultReplace h draw now name secret).Completes s fun _ _ ↦ True := by
  unfold vaultReplace
  refine completes_ofExcept_bind (a := u) (by rw [hname]; rfl) (completes_query_bind _ ?_)
  rw [hfind]
  refine (completes_load hfaithful hencrypts hready draw).bind fun out t hlength ↦ ?_
  obtain ⟨c, hc⟩ := hencrypts out.1 draw.nonce (secretAad name (row.version + 1)) (asBytes secret)
    hlength
  refine completes_ofExcept_bind (sealBytes_eq_ok.2 ⟨hlength, hc⟩) ?_
  refine (completes_atomically (P := fun _ _ ↦ True) ?_).bind fun _ _ _ ↦ completes_pure trivial
  exact (succeeds_modify _).2 trivial

theorem completes_vaultRevoke (hfind : findSecret s name = some row) (h : VaultHost) (now : ℤ) :
    (vaultRevoke h now name).Completes s fun _ _ ↦ True := by
  unfold vaultRevoke
  refine completes_query_bind _ ?_
  rw [hfind]
  exact completes_atomically ((succeeds_modify _).2 trivial)

theorem run_clear_error {body : Model.Devices.DeviceTx α} {e : DeviceFault}
    (hbody : body d = .error e) :
    ((Process.atomically [] body : DeviceCall α).run d).1 = .error e := by
  rw [run_atomically, commit_of_error hbody]

theorem run_of_completes {p : VaultCall α} {q : DeviceCall Unit} (hp : p.Completes s fun _ _ ↦ True)
    (hq : (p >>= fun _ ↦ pure ()).Survives s (Refines h · d) (Matches h d q)) :
    ((p >>= fun _ ↦ pure ()).run s).1 = (q.run d).1.mapError VaultFault.device := by
  obtain ⟨a, t, hrun, -⟩ := hp
  have hmatches := exec_of_survives hq fun _ ↦ .commits
  rw [exec_of_commits, run_bind_of_ok hrun] at hmatches
  have hclear : (q.run d).1 = .ok () := hmatches.1
  rw [run_bind_of_ok hrun, hclear]
  rfl

theorem run_vaultSet (hfaithful : Faithful h) (hencrypts : Encrypts h) (hready : Ready h s)
    (hs : Refines h s d) :
    ((VaultRequest.call h draw now (.set name secret)).run s).1 =
      ((clearCall h now (.set name secret)).run d).1.mapError VaultFault.device := by
  have hsurvives := survives_request hfaithful hs draw now (.set name secret)
  rw [VaultRequest.call, clearCall] at hsurvives ⊢
  cases hname : validateName name with
  | error e =>
    have hclear : Model.Devices.vaultSet h.toPlatform now name secret d = .error e :=
      bind_of_error (check_of_error hname) _
    rw [run_clear_error hclear, vaultSet, hname]
    rfl
  | ok u =>
    cases hfind : findSecret s name with
    | none =>
      exact run_of_completes (completes_vaultSet hfaithful hencrypts hready hname hfind) hsurvives
    | some row =>
      obtain ⟨entry, hentry, -⟩ := hs.secrets.exists hfind
      have hclear : Model.Devices.vaultSet h.toPlatform now name secret d = .error (.validation
          s!"vault secret {repr name} already exists; use replace to rotate it") := by
        refine (bind_of_ok (check_of_ok hname) _).trans ((bind_of_ok rfl _).trans ?_)
        rw [Model.Devices.findSecret, hentry]
        rfl
      have hcall : (vaultSet h draw now name secret).run s = (.error (alreadyExists name), s) := by
        rw [vaultSet, hname]
        refine (run_query_bind _ _ s).trans ?_
        rw [hfind]
        rfl
      rw [run_clear_error hclear, run_bind, hcall]
      rfl

theorem run_vaultReplace (hfaithful : Faithful h) (hencrypts : Encrypts h) (hready : Ready h s)
    (hs : Refines h s d) :
    ((VaultRequest.call h draw now (.replace name secret)).run s).1 =
      ((clearCall h now (.replace name secret)).run d).1.mapError VaultFault.device := by
  have hsurvives := survives_request hfaithful hs draw now (.replace name secret)
  rw [VaultRequest.call, clearCall] at hsurvives ⊢
  cases hname : validateName name with
  | error e =>
    have hclear : Model.Devices.vaultReplace h.toPlatform now name secret d = .error e :=
      bind_of_error (check_of_error hname) _
    rw [run_clear_error hclear, vaultReplace, hname]
    rfl
  | ok u =>
    cases hfind : findSecret s name with
    | some row =>
      exact run_of_completes (completes_vaultReplace hfaithful hencrypts hready hname hfind)
        hsurvives
    | none =>
      have hnone := hs.secrets.none_iff.1 hfind
      have hclear : Model.Devices.vaultReplace h.toPlatform now name secret d =
          .error (Model.Devices.vaultNotFound name) := by
        refine (bind_of_ok (check_of_ok hname) _).trans ((bind_of_ok rfl _).trans ?_)
        rw [Model.Devices.findSecret, hnone]
        rfl
      have hcall : (vaultReplace h draw now name secret).run s = (.error (vaultNotFound name), s) := by
        rw [vaultReplace, hname]
        refine (run_query_bind _ _ s).trans ?_
        rw [hfind]
        rfl
      rw [run_clear_error hclear, run_bind, hcall]
      rfl

theorem run_vaultRevoke (hs : Refines h s d) :
    ((VaultRequest.call h draw now (.revoke name)).run s).1 =
      ((clearCall h now (.revoke name)).run d).1.mapError VaultFault.device := by
  rw [VaultRequest.call, clearCall]
  cases hfind : findSecret s name with
  | some row =>
    obtain ⟨entry, hentry, -⟩ := hs.secrets.exists hfind
    obtain ⟨u, t, hrun, -⟩ := completes_vaultRevoke hfind h now
    rw [hrun, run_clear_atomically (clear_vaultRevoke hentry)]
    rfl
  | none =>
    have hnone := hs.secrets.none_iff.1 hfind
    have hclear : Model.Devices.vaultRevoke h.toPlatform now name d =
        .error (Model.Devices.vaultNotFound name) := by
      refine (bind_of_ok rfl _).trans ?_
      rw [Model.Devices.findSecret, hnone]
      rfl
    rw [run_clear_error hclear, vaultRevoke, run_query_bind, hfind]
    rfl

theorem run_clear_useWith (consume : String → Except DeviceFault Unit) :
    ((Model.Devices.useWith h.toPlatform now name consume).run d).1.mapError VaultFault.device =
      handed (materials d) name consume := by
  rw [handed, materials]
  cases hfind : Model.Devices.findSecret d name with
  | none =>
    have hclear : Model.Devices.vaultUse h.toPlatform now name d =
        .error (Model.Devices.vaultNotFound name) := by
      refine (bind_of_ok rfl _).trans ?_
      rw [hfind]
      rfl
    rw [Model.Devices.useWith, run_bind, run_atomically, commit_of_error hclear]
    rfl
  | some entry =>
    rw [Model.Devices.useWith, run_bind_of_ok (run_clear_atomically (clear_vaultUse hfind)),
      run_ofExcept]
    rfl

/-- When no write is refused, a call has the outcome of the call in the clear. -/
theorem run_request (hfaithful : Faithful h) (hencrypts : Encrypts h) (hready : Ready h s)
    (hs : Refines h s d) (draw : Draw) (now : ℤ) (request : VaultRequest) :
    ((request.call h draw now).run s).1 =
      ((clearCall h now request).run d).1.mapError VaultFault.device := by
  cases request with
  | set name secret => exact run_vaultSet hfaithful hencrypts hready hs
  | replace name secret => exact run_vaultReplace hfaithful hencrypts hready hs
  | revoke name => exact run_vaultRevoke hs
  | use name consume =>
    rw [VaultRequest.call, clearCall, run_clear_useWith, run_useWith hfaithful hs]

end Outcomes

section Service

open Model.PlainVault

variable {c c' : Course} {keychain : List KeychainItem}

theorem ready_request (hfaithful : Faithful h) (hready : Ready h s) (draw : Draw) (now : ℤ)
    (request : VaultRequest) :
    (request.call h draw now).Survives s (Ready h) fun _ ↦ Ready h := by
  cases request with
  | set name secret =>
    rw [VaultRequest.call, survives_bind]
    refine (ready_vaultSet hfaithful hready).mono (fun _ ht ↦ ht) fun o t ht ↦ ?_
    cases o with
    | error e => exact ht
    | ok a => exact ht
  | replace name secret =>
    rw [VaultRequest.call, survives_bind]
    refine (ready_vaultReplace hfaithful hready).mono (fun _ ht ↦ ht) fun o t ht ↦ ?_
    cases o with
    | error e => exact ht
    | ok a => exact ht
  | revoke name => exact ready_vaultRevoke hready
  | use name consume => exact ready_useWith hfaithful hready consume

theorem ready_step (hfaithful : Faithful h) (hready : Ready h c.machine) (hstep : Step h c c') :
    Ready h c'.machine := by
  have hexec : ∀ draw now request fates, Ready h
      ((VaultRequest.call h draw now request).exec fates c.machine).2.1 :=
    fun draw now request ↦ exec_store_of_survives (ready_request hfaithful hready draw now request)
  cases hstep with
  | @done log m t fates rest draw now request hrun =>
    have ht := hexec draw now request fates
    rwa [hrun] at ht
  | @failed log m t fates rest e draw now request hrun =>
    have ht := hexec draw now request fates
    rwa [hrun] at ht
  | @stopped log m t fates rest draw now request hrun =>
    have ht := hexec draw now request fates
    rwa [hrun] at ht

theorem ready_of_runs (hfaithful : Faithful h) (hsound : KekSound (fresh keychain).machine)
    (hruns : ReflTransGen (Step h) (fresh keychain) c) : Ready h c.machine := by
  induction hruns with
  | refl => exact .inl ⟨rfl, hsound⟩
  | tail _ hstep ih => exact ready_step hfaithful ih hstep

/-- A call on the vault leaves what the call in the clear leaves, or it failed or stopped and left
the secrets as they were. -/
theorem call_refines (hfaithful : Faithful h) (hs : Refines h s d) (draw : Draw) (now : ℤ)
    (request : VaultRequest) (fates : Fates VaultFault) :
    match (request.call h draw now).exec fates s with
      | (some o, t, _) => Matches h d (clearCall h now request) o t
      | (none, t, _) => Refines h t d := by
  have hexec := exec_of_survives (survives_request hfaithful hs draw now request) fates
  generalize (request.call h draw now).exec fates s = out at hexec ⊢
  obtain ⟨_ | o, t, rest⟩ := out
  · exact hexec
  · exact hexec

/-- The write of a third secret is refused, or the program stops before it. -/
theorem call_refines_second :
    ∃ d, materials d "mail" = some "second" ∧
      (match ((VaultRequest.replace "mail" "third").call plainVaultHost plainDraw 1).exec
          (fun _ ↦ .refused (.device (.sqlite "database is locked"))) secondCourse.machine with
        | (some o, t, _) =>
          Matches plainVaultHost d (clearCall plainVaultHost 1 (.replace "mail" "third")) o t
        | (none, t, _) => Refines plainVaultHost t d) ∧
      match ((VaultRequest.replace "mail" "third").call plainVaultHost plainDraw 1).exec
          (fun _ ↦ .stops) secondCourse.machine with
        | (some o, t, _) =>
          Matches plainVaultHost d (clearCall plainVaultHost 1 (.replace "mail" "third")) o t
        | (none, t, _) => Refines plainVaultHost t d := by
  obtain ⟨-, d, hd⟩ := tracks_fresh.runs plain_faithful (firstCourse_runs.trans secondCourse_runs)
  refine ⟨d, ?_, ?_, ?_⟩
  · rw [hd.secrets, current_secondCourse]
  · exact call_refines plain_faithful hd.refines plainDraw 1 (.replace "mail" "third") _
  · exact call_refines plain_faithful hd.refines plainDraw 1 (.replace "mail" "third") _

/-- After any course of calls the vault serves as a device would that keeps the same secrets in the
clear. -/
theorem calls_of_runs (hfaithful : Faithful h) (hencrypts : Encrypts h)
    (hsound : KekSound (fresh keychain).machine)
    (hruns : ReflTransGen (Step h) (fresh keychain) c) :
    ∃ d, Refines h c.machine d ∧ materials d = current c.log ∧ ∀ draw now request,
      ((VaultRequest.call h draw now request).run c.machine).1 =
        ((clearCall h now request).run d).1.mapError VaultFault.device := by
  obtain ⟨-, d, hd⟩ := tracks_fresh.runs hfaithful hruns
  have hready := ready_of_runs hfaithful hsound hruns
  exact ⟨d, hd.refines, hd.secrets, run_request hfaithful hencrypts hready hd.refines⟩

theorem plain_encrypts : Encrypts plainVaultHost :=
  fun _ _ _ _ _ ↦ ⟨_, rfl⟩

theorem kekSound_nil : KekSound (fresh []).machine :=
  fun _ hkek ↦ by cases hkek

theorem calls_of_runs_second :
    ∃ d, Refines plainVaultHost secondCourse.machine d ∧ materials d = current secondCourse.log ∧
      ∀ draw now request,
        ((VaultRequest.call plainVaultHost draw now request).run secondCourse.machine).1 =
          ((clearCall plainVaultHost now request).run d).1.mapError VaultFault.device :=
  calls_of_runs plain_faithful plain_encrypts kekSound_nil
    (firstCourse_runs.trans secondCourse_runs)

end Service

end SlipScan.Secrets.VaultService
