import Mathlib.Logic.Function.Basic
import SlipScan.Model.PlainVault
import SlipScan.Secrets.Vault

namespace SlipScan.Secrets.VaultRuns

open Model.Vault Foundation.Interleaving Foundation.Table Foundation.Transaction Process Vault
open Model.Devices (Device DeviceFault VaultSecret)
open Relation (ReflTransGen)

-- The check of a name is not to be computed when a call is unfolded.
seal Model.Devices.validateName

variable {h : VaultHost} {m s t : Machine} {d d' : Device} {draw : Draw} {now : ℤ}
  {name secret : String} {α : Type}

section History

inductive VaultEvent
  | stored (name secret : String)
  | revoked (name : String)
  deriving DecidableEq

def VaultEvent.apply (secrets : String → Option String) : VaultEvent → String → Option String
  | .stored name secret => Function.update secrets name (some secret)
  | .revoked name => Function.update secrets name none

/-- The secrets after a history: the last that was stored under a name and not revoked. -/
def current (log : List VaultEvent) : String → Option String :=
  log.foldl VaultEvent.apply fun _ ↦ none

theorem current_append (log events : List VaultEvent) :
    current (log ++ events) = events.foldl VaultEvent.apply (current log) :=
  List.foldl_append

inductive VaultRequest
  | set (name secret : String)
  | replace (name secret : String)
  | revoke (name : String)
  | use (name : String) (consume : String → Except DeviceFault Unit)

def VaultRequest.call (h : VaultHost) (draw : Draw) (now : ℤ) : VaultRequest → VaultCall Unit
  | .set name secret => do
    let _ ← vaultSet h draw now name secret
    return ()
  | .replace name secret => do
    let _ ← vaultReplace h draw now name secret
    return ()
  | .revoke name => vaultRevoke h now name
  | .use name consume => useWith h draw now name consume

def VaultRequest.events : VaultRequest → List VaultEvent
  | .set name secret => [.stored name secret]
  | .replace name secret => [.stored name secret]
  | .revoke name => [.revoked name]
  | .use _ _ => []

/-- A vault with what happened to it. -/
structure Course where
  log : List VaultEvent
  machine : Machine

inductive Step (h : VaultHost) : Course → Course → Prop
  | done {log m t fates rest} (draw : Draw) (now : ℤ) (request : VaultRequest)
      (hexec : (request.call h draw now).exec fates m = (some (.ok ()), t, rest)) :
      Step h ⟨log, m⟩ ⟨log ++ request.events, t⟩
  | failed {log m t fates rest e} (draw : Draw) (now : ℤ) (request : VaultRequest)
      (hexec : (request.call h draw now).exec fates m = (some (.error e), t, rest)) :
      Step h ⟨log, m⟩ ⟨log, t⟩
  | stopped {log m t fates rest} (draw : Draw) (now : ℤ) (request : VaultRequest)
      (hexec : (request.call h draw now).exec fates m = (none, t, rest)) :
      Step h ⟨log, m⟩ ⟨log, t⟩

def fresh (keychain : List KeychainItem) : Course :=
  ⟨[], { keychain }⟩

end History

section Secrets

def materials (d : Device) (name : String) : Option String :=
  (Model.Devices.findSecret d name).map VaultSecret.material

theorem materials_vaultSet (hbody : Model.Devices.vaultSet h.toPlatform now name secret d =
    .ok ((), d')) : materials d' = Function.update (materials d) name (some secret) := by
  refine (?_ : Ensures (Model.Devices.vaultSet h.toPlatform now name secret) d fun _ d' ↦
    materials d' = Function.update (materials d) name (some secret)) () d' hbody
  simp only [Model.Devices.vaultSet, ensures_bind, ensures_check, ensures_get, ensures_ite,
    ensures_throw, ensures_modify]
  refine fun _ _ ↦ ⟨fun _ ↦ trivial, fun hnew ↦ funext fun k ↦ ?_⟩
  rw [Bool.not_eq_true, Option.isSome_eq_false_iff, Option.isNone_iff_eq_none] at hnew
  rw [Function.update_apply, materials, Model.Devices.findSecret]
  split_ifs with hk
  · subst hk
    rw [lookup_concat_self (r := (⟨k, 1, secret, _, none, none⟩ : VaultSecret))
      (lookup_eq_none.1 hnew)]
    rfl
  · rw [lookup_concat_of_ne fun heq ↦ hk heq.symm]
    rfl

theorem materials_vaultReplace (hbody : Model.Devices.vaultReplace h.toPlatform now name secret d =
    .ok ((), d')) : materials d' = Function.update (materials d) name (some secret) := by
  refine (?_ : Ensures (Model.Devices.vaultReplace h.toPlatform now name secret) d fun _ d' ↦
    materials d' = Function.update (materials d) name (some secret)) () d' hbody
  rw [Model.Devices.vaultReplace, ensures_bind, ensures_check]
  intro _ _
  rw [ensures_bind, ensures_get]
  cases hfind : Model.Devices.findSecret d name with
  | none => exact (ensures_throw _).2 trivial
  | some entry =>
    refine (ensures_modify _).2 (funext fun k ↦ ?_)
    rw [Function.update_apply, materials, Model.Devices.findSecret, lookup_update, Option.map_map]
    · split_ifs with hk
      · subst hk
        rw [Model.Devices.findSecret] at hfind
        rw [hfind, Option.map_some, Function.comp, if_pos (lookup_eq_some hfind).2]
      · refine Option.map_congr fun r hr ↦ ?_
        rw [Function.comp, if_neg fun heq ↦ hk ((lookup_eq_some hr).2.symm.trans heq)]
    · exact fun _ ↦ rfl

theorem materials_vaultRevoke (hbody : Model.Devices.vaultRevoke h.toPlatform now name d =
    .ok ((), d')) : materials d' = Function.update (materials d) name none := by
  refine (?_ : Ensures (Model.Devices.vaultRevoke h.toPlatform now name) d fun _ d' ↦
    materials d' = Function.update (materials d) name none) () d' hbody
  rw [Model.Devices.vaultRevoke, ensures_bind, ensures_get]
  split
  · exact (ensures_throw _).2 trivial
  · refine (ensures_modify _).2 (funext fun k ↦ ?_)
    rw [Function.update_apply, materials, Model.Devices.findSecret, lookup_drop]
    split_ifs with hk
    · rfl
    · rfl

theorem materials_vaultUse (hbody : Model.Devices.vaultUse h.toPlatform now name d =
    .ok (secret, d')) : materials d' = materials d ∧ materials d name = some secret := by
  refine (?_ : Ensures (Model.Devices.vaultUse h.toPlatform now name) d fun secret d' ↦
    materials d' = materials d ∧ materials d name = some secret) secret d' hbody
  rw [Model.Devices.vaultUse, ensures_bind, ensures_get]
  cases hfind : Model.Devices.findSecret d name with
  | none => exact (ensures_throw _).2 trivial
  | some entry =>
    rw [ensures_bind, ensures_modify, ensures_pure]
    refine ⟨funext fun k ↦ ?_, ?_⟩
    · rw [materials, Model.Devices.findSecret, lookup_update, Option.map_map]
      · refine Option.map_congr fun r _ ↦ ?_
        rw [Function.comp]
        split_ifs with hr
        · rfl
        · rfl
      · exact fun _ ↦ rfl
    · rw [materials, hfind, Option.map_some]

end Secrets

section Runs

def Leaves (h : VaultHost) (s : Machine) (secrets : String → Option String) (t : Machine) : Prop :=
  KeepsKey h s t ∧ ∃ d', Refines h t d' ∧ materials d' = secrets

theorem fails_leaves (ht : Fails h s d t) : Leaves h s (materials d) t :=
  ⟨ht.1, d, ht.2, rfl⟩

/-- A call that fails leaves the secrets, and one that succeeds leaves others. -/
def Ends (h : VaultHost) (s : Machine) (d : Device) (secrets : String → Option String) :
    Except VaultFault α → Machine → Prop
  | .error _, t => Leaves h s (materials d) t
  | .ok _, t => Leaves h s secrets t

theorem ends_of_mirrors {p : VaultCall α} {β : Type} {body : Model.Devices.DeviceTx β}
    {R : α → β → Prop} {secrets : String → Option String}
    (hp : p.Survives s (Fails h s d) (Mirrors h s d body R))
    (hbody : ∀ b d', body d = .ok (b, d') → materials d' = secrets) :
    p.Survives s (Leaves h s (materials d)) (Ends h s d secrets) := by
  refine hp.mono (fun _ ↦ fails_leaves) fun o t ht ↦ ?_
  cases o with
  | error e => exact fails_leaves ht
  | ok a =>
    obtain ⟨b, d', hrun, -, hkeeps, ht⟩ := ht
    exact ⟨hkeeps, d', ht, hbody b d' hrun⟩

theorem ends_discard {p : VaultCall α} {secrets : String → Option String}
    (hp : p.Survives s (Leaves h s (materials d)) (Ends h s d secrets)) :
    (p >>= fun _ ↦ pure ()).Survives s (Leaves h s (materials d)) (Ends h s d secrets) := by
  rw [survives_bind]
  refine hp.mono (fun _ ht ↦ ht) fun o t ht ↦ ?_
  cases o with
  | error e => exact ht
  | ok a => exact ht

theorem survives_call (hfaithful : Faithful h) (hs : Refines h s d) (draw : Draw) (now : ℤ)
    (request : VaultRequest) :
    (request.call h draw now).Survives s (Leaves h s (materials d))
      (Ends h s d (request.events.foldl VaultEvent.apply (materials d))) := by
  cases request with
  | set name secret =>
    rw [VaultRequest.call]
    refine ends_discard ?_
    exact ends_of_mirrors (survives_vaultSet hfaithful hs) fun _ _ ↦ materials_vaultSet
  | replace name secret =>
    rw [VaultRequest.call]
    refine ends_discard ?_
    exact ends_of_mirrors (survives_vaultReplace hfaithful hs) fun _ _ ↦ materials_vaultReplace
  | revoke name =>
    rw [VaultRequest.call]
    exact ends_of_mirrors (survives_vaultRevoke hs) fun _ _ ↦ materials_vaultRevoke
  | use name consume =>
    have huse := ends_of_mirrors (survives_vaultUse hfaithful hs draw now name) fun _ _ hbody ↦ (materials_vaultUse hbody).1
    rw [VaultRequest.call, useWith, survives_bind]
    refine huse.mono (fun _ ht ↦ ht) fun o t ht ↦ ?_
    cases o with
    | error e => exact ht
    | ok secret =>
      rw [continues_ok, survives_ofExcept]
      cases consume secret with
      | error e => exact ht
      | ok u => exact ht

/-- The device in the clear that a vault stands for. -/
structure Tracks (h : VaultHost) (c : Course) (d : Device) : Prop where
  refines : Refines h c.machine d
  secrets : materials d = current c.log

variable {c c' : Course} {keychain : List KeychainItem}

theorem tracks_fresh : Tracks h (fresh keychain) {} :=
  ⟨⟨corresponds_nil, rfl⟩, rfl⟩

theorem Tracks.of_leaves (hc : Tracks h c d) (events : List VaultEvent)
    (ht : Leaves h c.machine (events.foldl VaultEvent.apply (materials d)) t) :
    KeepsKey h c.machine t ∧ ∃ d', Tracks h ⟨c.log ++ events, t⟩ d' := by
  obtain ⟨hkeeps, d', hrefines, hsecrets⟩ := ht
  refine ⟨hkeeps, d', hrefines, ?_⟩
  rw [hsecrets, hc.secrets, current_append]

theorem Tracks.step (hfaithful : Faithful h) (hc : Tracks h c d) (hstep : Step h c c') :
    KeepsKey h c.machine c'.machine ∧ ∃ d', Tracks h c' d' := by
  cases hstep with
  | @done log m t fates rest draw now request hexec =>
    have hends := exec_of_survives (survives_call hfaithful hc.refines draw now request) fates
    rw [hexec] at hends
    exact hc.of_leaves _ hends
  | @failed log m t fates rest e draw now request hexec =>
    have hends := exec_of_survives (survives_call hfaithful hc.refines draw now request) fates
    rw [hexec] at hends
    simpa only [List.append_nil] using hc.of_leaves [] hends
  | @stopped log m t fates rest draw now request hexec =>
    have hends := exec_of_survives (survives_call hfaithful hc.refines draw now request) fates
    rw [hexec] at hends
    simpa only [List.append_nil] using hc.of_leaves [] hends

theorem Tracks.runs (hfaithful : Faithful h) (hc : Tracks h c d)
    (hruns : ReflTransGen (Step h) c c') :
    KeepsKey h c.machine c'.machine ∧ ∃ d', Tracks h c' d' := by
  induction hruns with
  | refl => exact ⟨fun _ hdek ↦ hdek, d, hc⟩
  | tail _ hstep ih =>
    obtain ⟨hkeeps, d', hd'⟩ := ih
    obtain ⟨hkeeps', htracks⟩ := hd'.step hfaithful hstep
    exact ⟨fun dek hdek ↦ hkeeps' dek (hkeeps dek hdek), htracks⟩

def handed (secrets : String → Option String) (name : String)
    (consume : String → Except DeviceFault α) : Except VaultFault α :=
  match secrets name with
  | some secret => (consume secret).mapError VaultFault.device
  | none => .error (vaultNotFound name)

theorem run_useWith (hfaithful : Faithful h) (hs : Refines h s d)
    (consume : String → Except DeviceFault α) :
    ((useWith h draw now name consume).run s).1 = handed (materials d) name consume := by
  cases hfind : findSecret s name with
  | none =>
    have hnone : Model.Devices.findSecret d name = none := hs.secrets.none_iff.1 hfind
    rw [handed, materials, hnone, useWith, vaultUse, bind_assoc, run_query_bind, hfind]
    rfl
  | some row =>
    obtain ⟨secret, t, hrun, -⟩ := completes_vaultUse hfaithful hs hfind draw now
    have hmirrors := exec_of_survives (survives_vaultUse hfaithful hs draw now name) fun _ ↦ .commits
    rw [exec_of_commits, hrun] at hmirrors
    obtain ⟨b, d', hbody, rfl, -⟩ := hmirrors
    rw [handed, (materials_vaultUse hbody).2, useWith, run_bind_of_ok hrun, run_ofExcept]

/-- A use that succeeds has handed out the secret. -/
theorem exec_useWith (hfaithful : Faithful h) (hs : Refines h s d)
    {consume : String → Except DeviceFault α} {fates rest : Fates VaultFault} {a : α}
    (hexec : (useWith h draw now name consume).exec fates s = (some (.ok a), t, rest)) :
    handed (materials d) name consume = .ok a := by
  rw [useWith, exec_bind] at hexec
  have hmirrors := exec_of_survives (survives_vaultUse hfaithful hs draw now name) fates
  generalize (vaultUse h draw now name).exec fates s = out at hexec hmirrors
  obtain ⟨_ | _ | secret, u, fates'⟩ := out
  · cases hexec
  · cases hexec
  · obtain ⟨b, d', hbody, rfl, -⟩ := hmirrors
    dsimp only at hexec
    rw [exec_ofExcept, Prod.mk.injEq] at hexec
    rw [handed, (materials_vaultUse hbody).2]
    exact Option.some.inj hexec.1

/-- After any course of calls, of which any write may have been refused and any call may have
stopped, a use of a secret hands out the last that was stored under its name and not revoked. -/
theorem useWith_of_runs (hfaithful : Faithful h)
    (hruns : ReflTransGen (Step h) (fresh keychain) c) (draw : Draw) (now : ℤ) (name : String)
    (consume : String → Except DeviceFault α) :
    ((useWith h draw now name consume).run c.machine).1 = handed (current c.log) name consume ∧
      ∀ fates a t rest, (useWith h draw now name consume).exec fates c.machine =
        (some (.ok a), t, rest) → handed (current c.log) name consume = .ok a := by
  obtain ⟨-, d, hd⟩ := tracks_fresh.runs hfaithful hruns
  rw [← hd.secrets]
  exact ⟨run_useWith hfaithful hd.refines consume, fun _ _ _ _ ↦ exec_useWith hfaithful hd.refines⟩

end Runs

section Sample

open Model.PlainVault

theorem plain_faithful : Faithful plainVaultHost :=
  ⟨fun _ _ _ _ _ hencrypt ↦ decrypt_eq_some.2 (Option.some.inj hencrypt).symm⟩

def Course.done (c : Course) (request : VaultRequest) : Course :=
  ⟨c.log ++ request.events,
    ((request.call plainVaultHost plainDraw 0).exec (fun _ ↦ .commits) c.machine).2.1⟩

def Course.stopped (c : Course) (request : VaultRequest) : Course :=
  ⟨c.log, ((request.call plainVaultHost plainDraw 0).exec (fun _ ↦ .stops) c.machine).2.1⟩

theorem step_done {c : Course} {request : VaultRequest}
    (hok : ((request.call plainVaultHost plainDraw 0).exec (fun _ ↦ .commits) c.machine).1 =
      some (.ok ())) : Step plainVaultHost c (c.done request) :=
  .done plainDraw 0 request (Prod.ext hok rfl)

theorem step_stopped {c : Course} {request : VaultRequest}
    (hnone : ((request.call plainVaultHost plainDraw 0).exec (fun _ ↦ .stops) c.machine).1 = none) :
    Step plainVaultHost c (c.stopped request) :=
  .stopped plainDraw 0 request (Prod.ext hnone rfl)

def firstCourse : Course := (fresh []).done (.set "mail" "first")

def secondCourse : Course :=
  (firstCourse.stopped (.replace "mail" "lost")).done (.replace "mail" "second")

theorem firstCourse_runs : ReflTransGen (Step plainVaultHost) (fresh []) firstCourse :=
  .single (step_done (by decide +kernel))

theorem secondCourse_runs : ReflTransGen (Step plainVaultHost) firstCourse secondCourse :=
  .tail (.single (step_stopped (by decide +kernel))) (step_done (by decide +kernel))

theorem current_secondCourse : current secondCourse.log "mail" = some "second" := by
  decide +kernel

theorem useWith_of_runs_second :
    ((useWith plainVaultHost plainDraw 1 "mail" Except.ok).run secondCourse.machine).1 =
        .ok "second" ∧
      ∀ fates a t rest, (useWith plainVaultHost plainDraw 1 "mail" Except.ok).exec fates
        secondCourse.machine = (some (.ok a), t, rest) →
          (.ok "second" : Except VaultFault String) = .ok a := by
  have huse := useWith_of_runs plain_faithful (firstCourse_runs.trans secondCourse_runs) plainDraw 1
    "mail" Except.ok
  rw [handed, current_secondCourse] at huse
  exact huse

end Sample

section Tampering

variable {c : Course} {keychain : List KeychainItem} {dek : Bytes}

/-- What the cipher promises against forgers: a message opens only with the data that it is bound
to, and as what it was. -/
structure Authentic (h : VaultHost) : Prop where
  opens : ∀ key nonce aad plaintext ciphertext nonce' aad' plaintext',
    h.encrypt key nonce aad plaintext = some ciphertext →
      h.decrypt key nonce' aad' ciphertext = some plaintext' → aad' = aad ∧ plaintext' = plaintext

/-- The ciphertext stood in the vault at some time of the course. -/
def Written (h : VaultHost) (keychain : List KeychainItem) (c : Course) (ciphertext : Bytes) :
    Prop :=
  ∃ c₀, ReflTransGen (Step h) (fresh keychain) c₀ ∧ ReflTransGen (Step h) c₀ c ∧
    ∃ row ∈ c₀.machine.secrets.rows, row.ciphertext = ciphertext

theorem attains_vaultUse (hfaithful : Faithful h) (hkey : HasKey h s dek) (draw : Draw) (now : ℤ)
    (name : String) :
    (vaultUse h draw now name).Attains s (fun _ ↦ True) fun secret _ ↦ ∃ row plaintext,
      findSecret s name = some row ∧
        openBytes h dek (secretAad name row.version) row.nonce row.ciphertext = .ok plaintext ∧
          decodeSecret plaintext = .ok secret := by
  unfold vaultUse
  refine attains_query_bind _ ?_
  cases hfind : findSecret s name with
  | none => exact attains_error trivial
  | some row =>
    refine ((attains_loadOrInitDek hfaithful draw).weaken fun _ _ ↦ trivial).bind fun out t _ hout ↦ ?_
    obtain rfl := hout.2 dek hkey
    refine attains_ofExcept_bind trivial fun plaintext hopen ↦ ?_
    refine attains_ofExcept_bind trivial fun secret hdecode ↦ ?_
    refine (attains_atomically (P := fun _ _ ↦ True) trivial ?_).bind fun _ _ _ _ ↦ ?_
    · exact (ensures_modify _).2 ⟨trivial, trivial⟩
    · exact attains_pure trivial ⟨row, plaintext, rfl, hopen, hdecode⟩

/-- Whatever is done to the rows of a vault without its keys, a use of a secret hands out nothing
but a secret that was stored under its name at some time. -/
theorem useWith_tampered (hfaithful : Faithful h) (hauthentic : Authentic h)
    (hkey : HasKey h c.machine dek) (hkeys : m.keys = c.machine.keys) (hkeychain : m.keychain = c.machine.keychain)
    (hrows : ∀ row ∈ m.secrets.rows, ∀ aad plaintext,
      openBytes h dek aad row.nonce row.ciphertext = .ok plaintext →
        Written h keychain c row.ciphertext)
    {consume : String → Except DeviceFault α} {fates a t rest}
    (hexec : (useWith h draw now name consume).exec fates m = (some (.ok a), t, rest)) :
    ∃ c₀ secret, ReflTransGen (Step h) (fresh keychain) c₀ ∧ ReflTransGen (Step h) c₀ c ∧
      current c₀.log name = some secret ∧ consume secret = .ok a := by
  have hkey' : HasKey h m dek := by
    obtain ⟨row, kekHex, kek, hrow, hkek, hrest⟩ := hkey.opens
    refine ⟨row, kekHex, kek, hkeys.trans hrow, ?_, hrest⟩
    rw [getSecret, hkeychain]
    exact hkek
  rw [useWith, exec_bind] at hexec
  have huse := exec_of_survives (attains_vaultUse hfaithful hkey' draw now name) fates
  generalize (vaultUse h draw now name).exec fates m = out at hexec huse
  obtain ⟨_ | _ | secret, u, fates'⟩ := out
  · cases hexec
  · cases hexec
  · obtain ⟨row, plaintext, hfind, hopen, hdecode⟩ := huse.2 secret rfl
    obtain ⟨c₀, hbefore, hafter, row₀, hrow₀, hcipher⟩ :=
      hrows row (lookup_eq_some hfind).1 _ _ hopen
    obtain ⟨-, d₀, hd₀⟩ := tracks_fresh.runs hfaithful hbefore
    have hfind₀ : findSecret c₀.machine row₀.name = some row₀ :=
      Keyed.find_eq_some.2 ⟨hrow₀, rfl⟩
    obtain ⟨entry, hentry, hshows⟩ := hd₀.refines.secrets.exists hfind₀
    obtain ⟨dek₀, hdek₀, hsealed⟩ := hshows.ciphertext
    obtain rfl := hasKey_unique ((hd₀.runs hfaithful hafter).1 dek₀ hdek₀) hkey
    rw [hcipher] at hsealed
    obtain ⟨haad, rfl⟩ := hauthentic.opens _ _ _ _ _ _ _ _ (sealBytes_eq_ok.1 hsealed).2
      (openBytes_eq_ok.1 hopen).2.2
    obtain ⟨rfl, -⟩ := secretAad_inj.1 haad
    refine ⟨c₀, entry.material, hbefore, hafter, ?_, ?_⟩
    · rw [← hd₀.secrets, materials, Model.Devices.findSecret, hentry, Option.map_some]
    · cases hdecode.symm.trans (decodeSecret_asBytes _)
      dsimp only at hexec
      rw [exec_ofExcept, Prod.mk.injEq, Option.some.injEq, except_mapError_eq_ok] at hexec
      exact hexec.1

open Model.PlainVault

theorem plain_authentic : Authentic plainVaultHost where
  opens key nonce aad plaintext ciphertext nonce' aad' plaintext' hencrypt hdecrypt := by
    obtain rfl := Option.some.inj hencrypt
    obtain ⟨rfl, rfl⟩ := header_append_inj (decrypt_eq_some.1 hdecrypt)
    exact ⟨rfl, rfl⟩

def rolledBack : Machine :=
  { secondCourse.machine with secrets := firstCourse.machine.secrets }

theorem secondCourse_hasKey : ∃ dek, HasKey plainVaultHost secondCourse.machine dek := by
  obtain ⟨-, d, hd⟩ := tracks_fresh.runs plain_faithful (firstCourse_runs.trans secondCourse_runs)
  have hstored : (findSecret secondCourse.machine "mail").isSome = true := by decide +kernel
  obtain ⟨row, hrow⟩ := Option.isSome_iff_exists.1 hstored
  obtain ⟨entry, -, hshows⟩ := hd.refines.secrets.exists hrow
  obtain ⟨dek, hdek, -⟩ := hshows.ciphertext
  exact ⟨dek, hdek⟩

theorem rolledBack_use :
    ((useWith plainVaultHost plainDraw 1 "mail" Except.ok).exec (fun _ ↦ .commits) rolledBack).1 =
      some (.ok "first") := by
  decide +kernel

theorem useWith_tampered_back : ∃ c₀ secret,
    ReflTransGen (Step plainVaultHost) (fresh []) c₀ ∧
      ReflTransGen (Step plainVaultHost) c₀ secondCourse ∧ current c₀.log "mail" = some secret ∧
        Except.ok secret = (.ok "first" : Except DeviceFault String) := by
  obtain ⟨dek, hkey⟩ := secondCourse_hasKey
  refine useWith_tampered (m := rolledBack) plain_faithful plain_authentic hkey rfl rfl ?_
    (Prod.ext rolledBack_use rfl)
  intro row hrow _ _ _
  exact ⟨firstCourse, firstCourse_runs, secondCourse_runs, row, hrow, rfl⟩

end Tampering

end SlipScan.Secrets.VaultRuns
