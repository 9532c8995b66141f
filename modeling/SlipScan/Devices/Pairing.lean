import SlipScan.Model.Pairing

namespace SlipScan.Devices.Pairing

open Model.Database Model.Devices Model.Pairing Foundation.Transaction Foundation.Interleaving
  Foundation.Table Process

variable {W : Wire} {now : ℤ} {d t : Device}

section Texts

theorem toLower_toLower (c : Char) : c.toLower.toLower = c.toLower := by
  by_cases h : c.val ≥ 'A'.val ∧ c.val ≤ 'Z'.val
  · have hlow : c.toLower.val = c.val + 32 := by
      unfold Char.toLower
      rw [dif_pos h]
      rfl
    have hnot : ¬(c.toLower.val ≥ 'A'.val ∧ c.toLower.val ≤ 'Z'.val) := by
      rw [hlow]
      obtain ⟨h₁, h₂⟩ := h
      simp only [ge_iff_le, UInt32.le_iff_toNat_le, UInt32.toNat_add] at h₁ h₂ ⊢
      have hfirst : ('A'.val).toNat = 65 := rfl
      have hlast : ('Z'.val).toNat = 90 := rfl
      have hshift : (32 : UInt32).toNat = 32 := rfl
      omega
    exact dif_neg hnot
  · have hsame : c.toLower = c := dif_neg h
    rw [hsame, hsame]

theorem trim_eq_self {s : String} (h : ∀ c ∈ s.toList, isWhitespace c = false) : trim s = s := by
  have hdrop : ∀ l : List Char, (∀ c ∈ l, isWhitespace c = false) →
      l.dropWhile isWhitespace = l := by
    intro l hl
    cases l with
    | nil => rfl
    | cons c l => rw [List.dropWhile_cons_of_neg (by simp [hl c])]
  rw [trim, hdrop _ h, hdrop _ fun c hc ↦ h c (List.mem_reverse.1 hc), List.reverse_reverse,
    String.ofList_toList]

theorem isWhitespace_of_isHexDigit {c : Char} (h : isHexDigit c = true) :
    isWhitespace c = false := by
  simp only [isHexDigit, Bool.or_eq_true, Bool.and_eq_true, decide_eq_true_eq, Char.le_def,
    UInt32.le_iff_toNat_le] at h
  have hcode : c.toNat = c.val.toNat := rfl
  simp only [isWhitespace, hcode, Bool.or_eq_false_iff, decide_eq_false_iff_not,
    Bool.and_eq_false_iff]
  have h0 : ('0'.val).toNat = 48 := rfl
  have h9 : ('9'.val).toNat = 57 := rfl
  have ha : ('a'.val).toNat = 97 := rfl
  have hf : ('f'.val).toNat = 102 := rfl
  have hA : ('A'.val).toNat = 65 := rfl
  have hF : ('F'.val).toNat = 70 := rfl
  omega

theorem normalizePublicKey_idem {raw key : String} (h : normalizePublicKey raw = .ok key) :
    normalizePublicKey key = .ok key := by
  rw [normalizePublicKey] at h
  obtain ⟨⟨⟩, hdecode, hkey⟩ := except_bind_eq_ok.1 h
  obtain rfl := except_pure_eq_ok.1 hkey
  have hhex : ∀ c ∈ (trim raw).toLower.toList, isHexDigit c = true := by
    rw [decodePublicKey] at hdecode
    split at hdecode
    · exact List.all_eq_true.1 ‹_ ∧ _›.2
    · cases hdecode
  have htrim : trim (trim raw).toLower = (trim raw).toLower :=
    trim_eq_self fun c hc ↦ isWhitespace_of_isHexDigit (hhex c hc)
  have hlower : (trim raw).toLower.toLower = (trim raw).toLower := by
    apply String.toList_injective
    unfold String.toLower
    simp only [String.toList_map, List.map_map]
    exact List.map_congr_left fun c _ ↦ toLower_toLower c
  rw [normalizePublicKey, htrim, hlower, hdecode]
  rfl

theorem size_utf8Encode {l : List Char} (h : ∀ c ∈ l, c.utf8Size = 1) :
    l.utf8Encode.size = l.length := by
  induction l with
  | nil => rw [List.utf8Encode_nil]; rfl
  | cons c l ih =>
    rw [List.forall_mem_cons] at h
    rw [List.utf8Encode_cons, ByteArray.size_append, List.utf8Encode_singleton,
      List.size_toByteArray, String.length_utf8EncodeChar, h.1, ih h.2, List.length_cons,
      Nat.add_comm]

theorem isPrefixOf?_append (l l' : List Char) : l.isPrefixOf? (l ++ l') = some l' := by
  induction l with
  | nil => rfl
  | cons c l ih =>
    rw [List.cons_append, List.isPrefixOf?, if_pos (beq_self_eq_true c), ih]

/-- A blob whose body is short and made of the characters of base64 is read back. -/
theorem decodeBlob_encodeBlob {α : Type} {codec : PayloadCodec α} {payload : α}
    (hjson : codec.fromSlice (codec.toVec payload) = .ok payload)
    (hbase : W.decodeBase64 (W.encodeBase64 (codec.toVec payload)) = some (codec.toVec payload))
    (htext : ∀ c ∈ (W.encodeBase64 (codec.toVec payload)).toList,
      isWhitespace c = false ∧ c.utf8Size = 1)
    (hsize : (W.encodeBase64 (codec.toVec payload)).toList.length ≤ 8183) :
    decodeBlob W codec (encodeBlob W codec payload) = .ok payload := by
  have hlist : (encodeBlob W codec payload).toList =
      blobPrefix.toList ++ (W.encodeBase64 (codec.toVec payload)).toList := String.toList_append
  have hall : ∀ c ∈ (encodeBlob W codec payload).toList, isWhitespace c = false ∧ c.utf8Size = 1 := by
    have hstart : blobPrefix.toList.all
        (fun c ↦ isWhitespace c = false ∧ c.utf8Size = 1) = true := by
      decide +kernel
    rw [hlist, List.forall_mem_append]
    exact ⟨fun c hc ↦ of_decide_eq_true (List.all_eq_true.1 hstart c hc), htext⟩
  have htrim : trim (encodeBlob W codec payload) = encodeBlob W codec payload :=
    trim_eq_self fun c hc ↦ (hall c hc).1
  have hbytes : (encodeBlob W codec payload).utf8ByteSize ≤ maxBlobChars := by
    rw [← String.size_toByteArray, ← String.utf8Encode_toList,
      size_utf8Encode fun c hc ↦ (hall c hc).2, hlist, List.length_append]
    have hlength : blobPrefix.toList.length = 9 := by decide +kernel
    simp only [hlength, maxBlobChars]
    omega
  simp only [decodeBlob, htrim, if_neg (Nat.not_lt.2 hbytes), hlist, isPrefixOf?_append,
    String.ofList_toList, hbase, hjson]

end Texts

section Quiet

theorem requireIdentity_eq_ok {identity : DeviceIdentity} :
    requireIdentity d = .ok identity ↔ d.identity = some identity := by
  rw [requireIdentity]
  split
  next _ h => rw [h, Except.ok.injEq, Option.some_inj]
  next _ h => simp [h]

def SameTrust (d t : Device) : Prop := t.peers = d.peers ∧ t.invites = d.invites

instance : IsPreorder Device SameTrust where
  refl _ := ⟨rfl, rfl⟩
  trans _ _ _ h h' := ⟨h'.1.trans h.1, h'.2.trans h.2⟩

variable {P : Platform}

theorem auditWrite_quiet (action publicKey : String) :
    (auditWrite P now action publicKey).Keeps SameTrust :=
  keeps_atomically fun _ ↦ (ensures_modify _).2 ⟨rfl, rfl⟩

theorem vaultUse_quiet (name : String) :
    Ensures (vaultUse P now name) d fun _ ↦ SameTrust d := by
  rw [vaultUse, ensures_bind, ensures_get]
  split
  · exact (ensures_throw _).2 trivial
  · rw [ensures_bind, ensures_modify, ensures_pure]
    exact ⟨rfl, rfl⟩

theorem sign_quiet (message : String) : (sign P now message).Keeps SameTrust :=
  (keeps_query _).bind fun _ ↦ (keeps_ofExcept _).bind fun _ ↦
    (keeps_atomically fun _ ↦ vaultUse_quiet _).bind fun _ ↦ keeps_ofExcept _

theorem vaultSet_quiet (name secret : String) :
    Ensures (vaultSet P now name secret) d fun _ ↦ SameTrust d := by
  simp only [vaultSet, ensures_bind, ensures_check, ensures_get, ensures_ite, ensures_throw,
    ensures_modify]
  exact fun _ _ ↦ ⟨fun _ ↦ trivial, fun _ ↦ ⟨rfl, rfl⟩⟩

theorem vaultReplace_quiet (name secret : String) :
    Ensures (vaultReplace P now name secret) d fun _ ↦ SameTrust d := by
  rw [vaultReplace, ensures_bind, ensures_check]
  intro _ _
  rw [ensures_bind, ensures_get]
  split
  · exact (ensures_throw _).2 trivial
  · exact (ensures_modify _).2 ⟨rfl, rfl⟩

theorem vaultRevoke_quiet (name : String) :
    Ensures (vaultRevoke P now name) d fun _ ↦ SameTrust d := by
  rw [vaultRevoke, ensures_bind, ensures_get]
  split
  · exact (ensures_throw _).2 trivial
  · exact (ensures_modify _).2 ⟨rfl, rfl⟩

theorem deviceInitialize_quiet (keypair : DeviceKeypair P) (label : String) :
    (deviceInitialize P now keypair label).Keeps SameTrust := by
  refine (keeps_ofExcept _).bind fun label ↦ (keeps_query _).bind fun existing ↦ ?_
  cases existing with
  | some existing => exact keeps_fail _
  | none =>
    refine (keeps_query _).bind fun torn ↦ .ite (fun _ ↦ keeps_fail _) fun _ ↦ ?_
    refine (keeps_ofExcept _).bind fun keyname ↦ ?_
    refine (keeps_atomically fun _ ↦ vaultSet_quiet _ _).bind fun _ ↦ ?_
    refine (Keeps.attempt (keeps_atomically fun _ ↦ (ensures_modify _).2 ⟨rfl, rfl⟩)).bind fun r ↦ ?_
    cases r with
    | error e =>
      exact (Keeps.attempt (keeps_atomically fun _ ↦ vaultRevoke_quiet _)).bind fun _ ↦ keeps_fail _
    | ok r => exact (auditWrite_quiet _ _).bind fun _ ↦ keeps_pure _

theorem rotate_quiet (keypair : DeviceKeypair P) :
    (rotate P now keypair).Keeps SameTrust := by
  refine (keeps_query _).bind fun current ↦ (keeps_ofExcept _).bind fun current ↦
    (keeps_ofExcept _).bind fun name ↦ ?_
  refine (keeps_atomically (fun _ ↦ vaultUse_quiet _) |>.bind fun _ ↦ keeps_ofExcept _).bind
    fun signature ↦ .ite (fun _ ↦ keeps_fail _) fun _ ↦ ?_
  refine (keeps_atomically fun _ ↦ vaultReplace_quiet _ _).bind fun _ ↦ ?_
  refine (keeps_atomically fun _ ↦ (ensures_modify _).2 ⟨rfl, rfl⟩).bind fun _ ↦ ?_
  refine (keeps_atomically fun _ ↦ (ensures_modify _).2 ⟨rfl, rfl⟩).bind fun _ ↦ ?_
  exact (auditWrite_quiet _ _).bind fun _ ↦ keeps_pure _

end Quiet

section Pinning

/-- What a pin of `key` leaves alone, and that the key was not revoked. -/
structure PinsOnly (key : String) (d t : Device) : Prop where
  active : ∀ peer, findPeer d key = some peer → peer.isRevoked = false
  others : ∀ k, k ≠ key → findPeer t k = findPeer d k
  invites : t.invites = d.invites

theorem findPeer_update {f : DevicePeer → DevicePeer} (hf : ∀ r, (f r).publicKey = r.publicKey)
    {key k : String} (hk : k ≠ key) (hpeers : t.peers = update DevicePeer.publicKey d.peers key f) :
    findPeer t k = findPeer d k := by
  rw [findPeer, hpeers, lookup_update f hf, findPeer]
  cases hfind : lookup DevicePeer.publicKey d.peers k with
  | none => rfl
  | some r =>
    have hne : r.publicKey ≠ key := (lookup_eq_some hfind).2.trans_ne hk
    rw [Option.map_some, if_neg hne]

theorem pinPeer_ensures {P : Platform} {raw label key : String}
    (hkey : normalizePublicKey raw = .ok key) :
    Ensures (pinPeer P now raw label) d fun peer t ↦ PinsOnly key d t ∧ peer.publicKey = key := by
  simp only [pinPeer, ensures_bind, ensures_check, ensures_get, hkey, Except.ok.injEq]
  rintro _ rfl name - label -
  cases hfind : findPeer d key with
  | none =>
    rw [ensures_bind, ensures_modify, ensures_pure]
    refine ⟨⟨fun peer h ↦ ?_, fun k hk ↦ lookup_concat_of_ne (Ne.symm hk), rfl⟩, rfl⟩
    rw [hfind] at h
    cases h
  | some peer =>
    rw [ensures_ite, ensures_throw, ensures_bind, ensures_modify, ensures_pure]
    refine ⟨fun _ ↦ trivial, fun hactive ↦ ⟨⟨fun peer' h ↦ ?_, fun k hk ↦ ?_, rfl⟩, ?_⟩⟩
    · obtain rfl := Option.some.inj (hfind.symm.trans h)
      exact Bool.eq_false_iff.2 hactive
    · exact findPeer_update (f := fun r ↦ { r with label }) (fun _ ↦ rfl) hk rfl
    · exact (lookup_eq_some hfind).2

/-- How a call may change what a device trusts: rows of hashes outside `minted` stay burned, and
keys outside `forgotten` stay revoked. -/
structure Evolves (minted forgotten : Set String) (d t : Device) : Prop where
  burned : ∀ h ∉ minted, ∀ r, findInvite t h = some r → ∃ r', findInvite d h = some r' ∧
    (r'.redeemedAt.isSome → r.redeemedAt.isSome)
  revoked : ∀ k ∉ forgotten, ∀ peer, findPeer d k = some peer → peer.isRevoked = true →
    findPeer t k = some peer

variable {minted forgotten : Set String}

instance : IsPreorder Device (Evolves minted forgotten) where
  refl _ := ⟨fun _ _ r hr ↦ ⟨r, hr, id⟩, fun _ _ _ hpeer _ ↦ hpeer⟩
  trans d t u h h' := by
    refine ⟨fun hash hhash r hr ↦ ?_, fun k hk peer hpeer hrevoked ↦ ?_⟩
    · obtain ⟨r', hr', hburned'⟩ := h'.burned hash hhash r hr
      obtain ⟨r'', hr'', hburned''⟩ := h.burned hash hhash r' hr'
      exact ⟨r'', hr'', hburned' ∘ hburned''⟩
    · exact h'.revoked k hk peer (h.revoked k hk peer hpeer hrevoked) hrevoked

theorem SameTrust.evolves (h : SameTrust d t) : Evolves minted forgotten d t := by
  refine ⟨fun hash _ r hr ↦ ⟨r, ?_, id⟩, fun k _ peer hpeer _ ↦ ?_⟩
  · rwa [findInvite, ← h.2]
  · rwa [findPeer, h.1]

theorem PinsOnly.evolves {key : String} (h : PinsOnly key d t) : Evolves minted forgotten d t := by
  refine ⟨fun hash _ r hr ↦ ⟨r, ?_, id⟩, fun k _ peer hpeer hrevoked ↦ ?_⟩
  · rwa [findInvite, ← h.invites]
  · have hne : k ≠ key := by
      rintro rfl
      rw [h.active peer hpeer] at hrevoked
      cases hrevoked
    exact (h.others k hne).trans hpeer

end Pinning

section Calls

structure Addressed (W : Wire) (d : Device) (blob : String) (identity : DeviceIdentity)
    (payload : AcceptPayload) (key : String) : Prop where
  known : d.identity = some identity
  decodes : decodeBlob W W.acceptCodec blob = .ok payload
  names : normalizePublicKey payload.deviceId = .ok key
  verifies : W.verifyHex key
    (acceptStatement key identity.publicKey (W.sha256Hex payload.claim)) payload.sig = true

structure Redeems (W : Wire) (now : ℤ) (claim key : String) (d t : Device) : Prop where
  live : ∃ invite, findInvite d (W.sha256Hex claim) = some invite ∧ invite.redeemedAt = none ∧
    isExpired W now invite.expiresAt = .ok false
  burned : ∀ invite, findInvite t (W.sha256Hex claim) = some invite → invite.redeemedAt.isSome
  evolves : Evolves ∅ ∅ d t
  others : ∀ k, k ≠ key → findPeer t k = findPeer d k

/-- What a confirmation leaves: the device as it was, or, when no check refuses it, one invite
redeemed. -/
def Confirms (W : Wire) (now : ℤ) (blob : String) (check : KeynameCheck) (d t : Device) : Prop :=
  SameTrust d t ∨ ((∃ peer, ((pairConfirm W now blob check).run d).1 = .ok peer) ∧
    ∃ identity payload key, Addressed W d blob identity payload key ∧
      Redeems W now payload.claim key d t)

section Burn

variable {id redeemedAt redeemedBy : String} {r : PairInvite}

theorem claimSha256_burn : (burn id redeemedAt redeemedBy r).claimSha256 = r.claimSha256 := by
  rw [burn]
  split <;> rfl

theorem redeemedAt_burn_of_isSome (h : r.redeemedAt.isSome) :
    (burn id redeemedAt redeemedBy r).redeemedAt.isSome := by
  rw [burn]
  split
  · rfl
  · exact h

theorem redeemedAt_burn_self : (burn r.id redeemedAt redeemedBy r).redeemedAt.isSome := by
  rw [burn]
  split
  next => rfl
  next h => exact Option.isSome_iff_ne_none.2 fun hnone ↦ h ⟨rfl, hnone⟩

theorem findInvite_burn {hash : String}
    (ht : t.invites = d.invites.map (burn id redeemedAt redeemedBy)) :
    findInvite t hash = (findInvite d hash).map (burn id redeemedAt redeemedBy) := by
  rw [findInvite, ht, lookup_map fun _ ↦ claimSha256_burn, findInvite]

end Burn

theorem redeemInvite_ensures {accepterId label claim : String}
    (hkey : normalizePublicKey accepterId = .ok accepterId) :
    Ensures (redeemInvite W now accepterId label (W.sha256Hex claim)) d fun _ ↦
      Redeems W now claim accepterId d := by
  rw [redeemInvite, ensures_bind, ensures_get]
  split
  · exact (ensures_throw _).2 trivial
  next invite hinvite =>
  simp only [ensures_bind, ensures_ite, ensures_throw, ensures_pure, ensures_check, ensures_modify]
  refine ⟨fun _ ↦ trivial, fun hfresh expired hexpired ↦ ⟨fun _ ↦ trivial, fun hlive ↦ ?_⟩⟩
  refine (pinPeer_ensures hkey).mono fun peer t ht ↦ ?_
  obtain ⟨hpins, _⟩ := ht
  have hfind : ∀ hash, findInvite
      { t with invites := t.invites.map (burn invite.id (nowIso W.toPlatform now) peer.publicKey) }
      hash = (findInvite d hash).map (burn invite.id (nowIso W.toPlatform now) peer.publicKey) :=
    fun hash ↦ findInvite_burn (congrArg (List.map _) hpins.invites)
  refine ⟨⟨invite, hinvite, ?_, ?_⟩, fun r hr ↦ ?_, ⟨fun hash _ r hr ↦ ?_, ?_⟩, hpins.others⟩
  · simpa using hfresh
  · rw [hexpired, Bool.eq_false_iff.2 hlive]
  · rw [hfind, hinvite] at hr
    obtain rfl := Option.some.inj hr
    exact redeemedAt_burn_self
  · rw [hfind, Option.map_eq_some_iff] at hr
    obtain ⟨r', hr', rfl⟩ := hr
    exact ⟨r', hr', redeemedAt_burn_of_isSome⟩
  · have hevolves : Evolves ∅ ∅ d t := hpins.evolves
    exact hevolves.revoked

theorem Redeems.trans {claim key : String} {u : Device} (h : Redeems W now claim key d t)
    (h' : SameTrust t u) : Redeems W now claim key d u := by
  refine ⟨h.live, fun invite hinvite ↦ h.burned invite ?_, trans_of (Evolves ∅ ∅) h.evolves
    h'.evolves, fun k hk ↦ ?_⟩
  · rwa [findInvite, ← h'.2]
  · rw [findPeer, h'.1]
    exact h.others k hk

/-- The checks of a confirmation, and the redemption behind them. -/
theorem pairConfirm_survives (blob : String) (check : KeynameCheck) :
    (pairConfirm W now blob check).Survives d (Confirms W now blob check d)
      fun _ ↦ Confirms W now blob check d := by
  have hsame : Confirms W now blob check d d := .inl (refl_of SameTrust d)
  refine survives_query_bind _ (survives_ofExcept_bind (fun _ ↦ hsame) fun identity hrequire ↦ ?_)
  refine survives_ofExcept_bind (fun _ ↦ hsame) fun payload hpayload ↦ ?_
  refine .ite (fun _ ↦ hsame) fun htyp ↦ ?_
  refine survives_ofExcept_bind (fun _ ↦ hsame) fun key hkey ↦ ?_
  refine .ite (fun _ ↦ hsame) fun hown ↦ ?_
  refine survives_ofExcept_bind (fun _ ↦ hsame) fun forDeviceId hfor ↦ ?_
  refine .ite (fun _ ↦ hsame) fun haddress ↦ ?_
  refine survives_ofExcept_bind (fun _ ↦ hsame) fun name hname ↦ ?_
  refine .ite (fun _ ↦ hsame) fun hverify ↦ ?_
  refine survives_ofExcept_bind (fun _ ↦ hsame) fun _ hcheck ↦ ?_
  refine survives_atomically_bind hsame (fun _ ↦ hsame) fun peer t hredeem ↦ ?_
  have ht := redeemInvite_ensures (normalizePublicKey_idem hkey) peer t hredeem
  have hrun : ((pairConfirm W now blob check).run d).1 = .ok peer := by
    have hexec := exec_of_commits (pairConfirm W now blob check) d
    rw [pairConfirm, exec_query_bind, exec_ofExcept_bind_ok hrequire,
      exec_ofExcept_bind_ok hpayload, if_neg htyp, exec_ofExcept_bind_ok hkey, if_neg hown,
      exec_ofExcept_bind_ok hfor, if_neg haddress, exec_ofExcept_bind_ok hname, if_neg hverify,
      exec_ofExcept_bind_ok hcheck, exec_atomically_bind_commits rfl hredeem] at hexec
    exact (Option.some.inj (congrArg Prod.fst hexec)).symm
  have haddressed : Addressed W d blob identity payload key :=
    ⟨requireIdentity_eq_ok.1 hrequire, hpayload, hkey, not_not.1 hverify⟩
  refine ((auditWrite_quiet _ _).bind fun _ ↦ keeps_pure _).survives fun u hu ↦ ?_
  exact .inr ⟨⟨peer, hrun⟩, identity, payload, key, haddressed, ht.trans hu⟩

variable {minted forgotten : Set String}

theorem Confirms.evolves {blob : String} {check : KeynameCheck}
    (h : Confirms W now blob check d t) : Evolves ∅ ∅ d t := by
  obtain h | ⟨_, _, _, _, _, h⟩ := h
  · exact h.evolves
  · exact h.evolves

theorem pairConfirm_evolves (blob : String) (check : KeynameCheck) :
    (pairConfirm W now blob check).Keeps (Evolves ∅ ∅) :=
  fun _ ↦ (pairConfirm_survives blob check).mono (fun _ ↦ Confirms.evolves)
    fun _ _ ↦ Confirms.evolves

theorem keeps_evolves {α : Type} {p : DeviceCall α} (h : p.Keeps SameTrust) :
    p.Keeps (Evolves minted forgotten) :=
  h.mono fun _ _ ↦ SameTrust.evolves

theorem pairAccept_evolves (blob : String) (check : KeynameCheck) :
    (pairAccept W now blob check).Keeps (Evolves ∅ ∅) := by
  refine (keeps_query _).bind fun identity ↦ (keeps_ofExcept _).bind fun identity ↦ ?_
  refine (keeps_ofExcept _).bind fun payload ↦ .ite (fun _ ↦ keeps_fail _) fun _ ↦ ?_
  intro d
  have hrefl : Evolves ∅ ∅ d d := refl_of (Evolves ∅ ∅) d
  refine survives_ofExcept_bind (fun _ ↦ hrefl) fun inviterId hkey ↦ ?_
  refine .ite (fun _ ↦ hrefl) fun _ ↦ ?_
  refine survives_ofExcept_bind (fun _ ↦ hrefl) fun name _ ↦ .ite (fun _ ↦ hrefl) fun _ ↦ ?_
  refine survives_ofExcept_bind (fun _ ↦ hrefl) fun expired _ ↦ .ite (fun _ ↦ hrefl) fun _ ↦ ?_
  refine survives_ofExcept_bind (fun _ ↦ hrefl) fun _ _ ↦ ?_
  refine survives_atomically_bind hrefl (fun _ ↦ hrefl) ?_
  refine (pinPeer_ensures (normalizePublicKey_idem hkey)).mono fun peer t ⟨hpins, _⟩ ↦ ?_
  refine ((auditWrite_quiet _ _).bind fun _ ↦ (sign_quiet _).bind fun _ ↦
    keeps_pure _).survives fun u hu ↦ ?_
  exact trans_of (Evolves ∅ ∅) hpins.evolves hu.evolves

theorem insertInvite_ensures (invite : PairInvite) :
    Ensures (insertInvite invite) d fun _ ↦ Evolves {invite.claimSha256} ∅ d := by
  simp only [insertInvite, ensures_bind, ensures_get, ensures_ite, ensures_throw, ensures_modify]
  refine ⟨fun _ ↦ trivial, fun _ ↦ ⟨fun hash hhash r hr ↦ ⟨r, ?_, id⟩, fun _ _ _ h _ ↦ h⟩⟩
  rwa [findInvite, lookup_concat_of_ne (Ne.symm hhash)] at hr

theorem inviteCreate_evolves (label : String) (ttlSeconds : ℤ) (claim id : String) :
    (inviteCreate W now label ttlSeconds claim id).Keeps (Evolves {W.sha256Hex claim} ∅) := by
  refine .ite (fun _ ↦ keeps_fail _) fun _ ↦ (keeps_query _).bind fun identity ↦
    (keeps_ofExcept _).bind fun identity ↦ .ite (fun _ ↦ keeps_fail _) fun _ ↦ ?_
  refine (keeps_ofExcept _).bind fun expiresAt ↦ (keeps_evolves (sign_quiet _)).bind fun sig ↦ ?_
  refine (keeps_atomically fun _ ↦ insertInvite_ensures _).bind fun _ ↦ ?_
  exact (keeps_evolves (auditWrite_quiet _ _)).bind fun _ ↦ keeps_pure _

theorem inviteCancel_evolves (id : String) :
    (inviteCancel id).Keeps (Evolves minted forgotten) := by
  refine keeps_atomically fun d ↦ ?_
  simp only [ensures_bind, ensures_get, ensures_modify, ensures_pure]
  refine ⟨fun hash _ r hr ↦ ?_, fun _ _ _ h _ ↦ h⟩
  cases hfind : findInvite d hash with
  | none =>
    obtain ⟨hmem, hkey⟩ := lookup_eq_some hr
    exact absurd hkey (lookup_eq_none.1 hfind r (List.mem_filter.1 hmem).1)
  | some r' =>
    refine ⟨r', rfl, fun hburned ↦ ?_⟩
    have hkept : ¬(r'.id = id ∧ r'.redeemedAt = none) := by
      rintro ⟨-, hnone⟩
      rw [hnone] at hburned
      cases hburned
    have hstays := lookup_filter hfind (p := fun r ↦ ¬(r.id = id ∧ r.redeemedAt = none))
      (decide_eq_true hkept)
    obtain rfl := Option.some.inj (hstays.symm.trans hr)
    exact hburned

theorem reset_evolves (P : Platform) : (reset P now).Keeps (Evolves minted forgotten) := by
  refine (keeps_query _).bind fun existing ↦ ?_
  refine (Keeps.attempt (keeps_evolves (keeps_atomically fun _ ↦ vaultRevoke_quiet _))).bind
    fun _ ↦ ?_
  refine (keeps_atomically fun d ↦ (ensures_modify _).2 ?_).bind fun _ ↦ ?_
  · exact ⟨fun _ _ r hr ↦ (nomatch hr), fun _ _ _ h _ ↦ h⟩
  · cases existing with
    | some identity => exact keeps_evolves (auditWrite_quiet _ _)
    | none => exact keeps_pure _

theorem peerRevoke_evolves (P : Platform) (publicKey : String) :
    (peerRevoke P now publicKey).Keeps (Evolves minted forgotten) := by
  refine (keeps_ofExcept _).bind fun key d ↦ ?_
  have hrefl : Evolves minted forgotten d d := refl_of (Evolves minted forgotten) d
  refine survives_query_bind _ ?_
  cases hpeer : findPeer d key with
  | none => exact hrefl
  | some peer =>
    refine .ite (fun _ ↦ hrefl) fun hactive ↦ ?_
    refine survives_atomically_bind hrefl (fun _ ↦ hrefl) ((ensures_modify _).2 ?_)
    refine ((auditWrite_quiet _ _).bind fun _ ↦ keeps_pure _).survives fun u hu ↦ ?_
    refine trans_of (Evolves minted forgotten) ?_ hu.evolves
    refine PinsOnly.evolves (?_ : PinsOnly key d _)
    refine ⟨fun peer' h ↦ ?_, fun k hk ↦ ?_, rfl⟩
    · obtain rfl := Option.some.inj (hpeer.symm.trans h)
      exact Bool.eq_false_iff.2 hactive
    · exact findPeer_update (f := fun r ↦ { r with revokedAt := some (nowIso P now) })
        (fun _ ↦ rfl) hk rfl

theorem peerForget_evolves (P : Platform) (publicKey : String) :
    (peerForget P now publicKey).Keeps
      (Evolves minted {key | normalizePublicKey publicKey = .ok key}) := by
  intro d
  have hrefl := refl_of (Evolves minted {key | normalizePublicKey publicKey = .ok key}) d
  refine survives_ofExcept_bind (fun _ ↦ hrefl) fun key hkey ↦ survives_query_bind _ ?_
  cases findPeer d key with
  | none => exact hrefl
  | some peer =>
    refine survives_atomically_bind hrefl (fun _ ↦ hrefl) ((ensures_modify _).2 ?_)
    refine ((auditWrite_quiet _ _).bind fun _ ↦ keeps_pure _).survives fun u hu ↦ ?_
    have hforgets : Evolves minted {key | normalizePublicKey publicKey = .ok key} d
        { d with peers := d.peers.filter (·.publicKey ≠ key) } := by
      refine ⟨fun _ _ r hr ↦ ⟨r, hr, id⟩, fun k hk peer hpeer _ ↦ ?_⟩
      refine lookup_filter hpeer (decide_eq_true fun heq ↦ hk ?_)
      rw [← (lookup_eq_some hpeer).2, heq]
      exact hkey
    exact trans_of (Evolves minted _) hforgets hu.evolves

variable (now) in
theorem pairAccept_own {blob : String} {payload : InvitePayload} {id : String}
    (hpayload : decodeBlob W W.inviteCodec blob = .ok payload)
    (hid : normalizePublicKey payload.deviceId = .ok id)
    (hown : ∀ identity, d.identity = some identity → identity.publicKey = id)
    (check : KeynameCheck) : (pairAccept W now blob check).Survives d (SameTrust d)
      fun _ ↦ SameTrust d := by
  have hrefl := refl_of SameTrust d
  refine survives_query_bind _ (survives_ofExcept_bind (fun _ ↦ hrefl) fun identity hrequire ↦ ?_)
  refine survives_ofExcept_bind (fun _ ↦ hrefl) fun payload' hpayload' ↦ ?_
  obtain rfl := Except.ok.inj (hpayload.symm.trans hpayload')
  refine .ite (fun _ ↦ hrefl) fun _ ↦ survives_ofExcept_bind (fun _ ↦ hrefl) fun id' hid' ↦ ?_
  obtain rfl := Except.ok.inj (hid.symm.trans hid')
  refine .ite (fun _ ↦ hrefl) fun hne ↦ ?_
  exact absurd (hown identity (requireIdentity_eq_ok.1 hrequire)).symm hne

variable (W now) in
theorem inviteCreate_unidentified (hnone : d.identity = none) (label : String) (ttlSeconds : ℤ)
    (claim id : String) : (inviteCreate W now label ttlSeconds claim id).Survives d (SameTrust d)
      fun _ ↦ SameTrust d := by
  have hrefl := refl_of SameTrust d
  refine .ite (fun _ ↦ hrefl) fun _ ↦ survives_query_bind _ ?_
  refine survives_ofExcept_bind (fun _ ↦ hrefl) fun identity hrequire ↦ ?_
  exact nomatch hnone.symm.trans (requireIdentity_eq_ok.1 hrequire)

end Calls

end SlipScan.Devices.Pairing
