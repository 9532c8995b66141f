import SlipScan.Devices.IdentityRuns
import SlipScan.Devices.Pairing
import SlipScan.Foundation.Histories
import Mathlib.Logic.Equiv.Basic

namespace SlipScan.Devices.Ceremony

open Model.Database Model.Devices Model.Pairing Foundation.Transaction Foundation.Interleaving
  Foundation.Histories Foundation.Table Process Rotation IdentityRuns Pairing

variable {ι : Type} {W : Wire}

inductive PairingCall (W : Wire)
  | init (keypair : DeviceKeypair W.toPlatform) (label : String)
  | rotate (keypair : DeviceKeypair W.toPlatform)
  | reset
  | inviteCreate (label : String) (ttlSeconds : ℤ) (claim id : String)
  | inviteCancel (id : String)
  | pairAccept (blob : String) (check : KeynameCheck)
  | pairConfirm (blob : String) (check : KeynameCheck)
  | peerRevoke (publicKey : String)
  | peerForget (publicKey : String)

/-- What happens in a world of devices: a device makes a call, with any blob and at any time, or
the holder of a key that is on no device signs a message. -/
inductive Event (W : Wire) (ι : Type)
  | call (device : ι) (call : PairingCall W) (now : ℤ) (fates : Fates DeviceFault)
  | outsider (key message : String)

/-- An invite that a device minted: the identity under which it did, and the claim. -/
structure Minted (ι : Type) where
  device : ι
  id : String
  claim : String

structure World (ι : Type) where
  devices : ι → Device
  minted : List (Minted ι) := []
  /-- The messages that are signed, with the keys. -/
  signed : List (String × String) := []

namespace PairingCall

def after (call : PairingCall W) (now : ℤ) (fates : Fates DeviceFault) (d : Device) : Device :=
  match call with
  | init keypair label => ((deviceInitialize W.toPlatform now keypair label).exec fates d).2.1
  | rotate keypair => ((Model.Devices.rotate W.toPlatform now keypair).exec fates d).2.1
  | reset => ((Model.Devices.reset W.toPlatform now).exec fates d).2.1
  | inviteCreate label ttlSeconds claim id =>
    ((Model.Pairing.inviteCreate W now label ttlSeconds claim id).exec fates d).2.1
  | inviteCancel id => ((Model.Pairing.inviteCancel id).exec fates d).2.1
  | pairAccept blob check => ((Model.Pairing.pairAccept W now blob check).exec fates d).2.1
  | pairConfirm blob check => ((Model.Pairing.pairConfirm W now blob check).exec fates d).2.1
  | peerRevoke publicKey => ((Model.Pairing.peerRevoke W.toPlatform now publicKey).exec fates d).2.1
  | peerForget publicKey => ((Model.Pairing.peerForget W.toPlatform now publicKey).exec fates d).2.1

def mints (device : ι) (call : PairingCall W) (d t : Device) : List (Minted ι) :=
  match call, d.identity with
  | inviteCreate _ _ claim _, some identity =>
    if t.invites = d.invites then [] else [⟨device, identity.publicKey, claim⟩]
  | _, _ => []

def signs (call : PairingCall W) (now : ℤ) (fates : Fates DeviceFault) (d : Device) :
    List (String × String) :=
  match call, d.identity with
  | inviteCreate label ttlSeconds claim id, some identity =>
    match ((Model.Pairing.inviteCreate W now label ttlSeconds claim id).exec fates d).1 with
    | some (.ok invite) => [(identity.publicKey,
        inviteStatement identity.publicKey (W.sha256Hex claim) invite.expiresAt)]
    | _ => []
  | pairAccept blob check, some identity =>
    match ((Model.Pairing.pairAccept W now blob check).exec fates d).1,
      decodeBlob W W.inviteCodec blob with
    | some (.ok acceptance), .ok payload => [(identity.publicKey,
        acceptStatement identity.publicKey acceptance.peer.publicKey (W.sha256Hex payload.claim))]
    | _, _ => []
  | rotate keypair, some identity =>
    match ((Model.Devices.rotate W.toPlatform now keypair).exec fates d).1 with
    | some (.ok _) => [(identity.publicKey,
        rotationStatement identity.publicKey keypair.publicKey)]
    | _ => []
  | _, _ => []

end PairingCall

variable [DecidableEq ι]

def World.step (w : World ι) : Event W ι → World ι
  | .call i call now fates =>
    let d := w.devices i
    let t := call.after now fates d
    ⟨Function.update w.devices i t, w.minted ++ call.mints i d t,
      w.signed ++ call.signs now fates d⟩
  | .outsider key message => { w with signed := w.signed ++ [(key, message)] }

/-- A claim that is drawn is new, a signature that verifies was made with its key, and outsiders do
not hold the keys of the devices. -/
def Admissible (w : World ι) : Event W ι → Prop
  | .call i (.inviteCreate _ _ claim _) _ _ => ∀ m ∈ w.minted, m.device = i → m.claim ≠ claim
  | .call i (.pairConfirm blob _) _ _ => ∀ identity payload key,
      Addressed W (w.devices i) blob identity payload key →
        (key, acceptStatement key identity.publicKey (W.sha256Hex payload.claim)) ∈ w.signed
  | .outsider key _ => ∀ i, ∀ secret ∈ (w.devices i).secrets,
      W.publicKeyHex secret.material ≠ some key
  | _ => True

/-- The event carries the invite back to the device that minted it. -/
def Leads (m : Minted ι) : Event W ι → Prop
  | .call i (.pairConfirm blob _) _ _ => i = m.device ∧
      ∃ payload, decodeBlob W W.acceptCodec blob = .ok payload ∧ payload.claim = m.claim
  | .call i (.pairAccept blob _) _ _ => i = m.device ∧
      ∃ payload, decodeBlob W W.inviteCodec blob = .ok payload ∧ payload.claim = m.claim ∧
        normalizePublicKey payload.deviceId = .ok m.id
  | _ => False

def Pins (w : World ι) (e : Event W ι) (i : ι) (key : String) : Prop :=
  findPeer ((w.step e).devices i) key ≠ findPeer (w.devices i) key

def LedPin (w : World ι) (e : Event W ι) (m : Minted ι) : Prop :=
  m ∈ w.minted ∧ Leads m e ∧ ∃ key, Pins w e m.device key

/-- A device accepts an invite that it minted itself under an identity that it no longer has. -/
def AcceptsOwn (w : World ι) : Event W ι → Prop
  | .call i (.pairAccept blob _) _ _ => ∃ m ∈ w.minted, m.device = i ∧
      (∃ payload, decodeBlob W W.inviteCodec blob = .ok payload ∧ payload.claim = m.claim ∧
        normalizePublicKey payload.deviceId = .ok m.id) ∧
      ∃ identity, (w.devices i).identity = some identity ∧ identity.publicKey ≠ m.id
  | _ => False

/-- What a confirmation that pins a key answers: an acceptance that the key signed for the current
identity of the device, with the claim of an invite that the device minted and that is there,
unexpired and unredeemed. -/
structure Answers (W : Wire) (w : World ι) (i : ι) (now : ℤ) (blob key : String)
    (identity : DeviceIdentity) (payload : AcceptPayload) (invite : PairInvite) : Prop where
  known : (w.devices i).identity = some identity
  carried : decodeBlob W W.acceptCodec blob = .ok payload
  signed : (key, acceptStatement key identity.publicKey (W.sha256Hex payload.claim)) ∈ w.signed
  minted : ∃ m ∈ w.minted, m.device = i ∧ m.claim = payload.claim
  found : findInvite (w.devices i) (W.sha256Hex payload.claim) = some invite
  unredeemed : invite.redeemedAt = none
  unexpired : isExpired W now invite.expiresAt = .ok false

def World.run (w : World ι) (events : List (Event W ι)) : World ι :=
  events.foldl World.step w

structure PinsOnlyInvited (W : Wire) (w : World ι) (events : List (Event W ι)) : Prop where
  once : ∀ pre e mid e' post, events = pre ++ e :: (mid ++ e' :: post) → ∀ m,
    LedPin (w.run pre) e m → ¬LedPin (((w.run pre).step e).run mid) e' m
  invited : ∀ pre e post, events = pre ++ e :: post → ∀ i blob check now fates,
    e = .call i (.pairConfirm blob check) now fates → ∀ key, Pins (w.run pre) e i key →
      ∃ identity payload invite, Answers W (w.run pre) i now blob key identity payload invite
  revoked : ∀ pre mid post, events = pre ++ (mid ++ post) → ∀ i key peer,
    findPeer ((w.run pre).devices i) key = some peer → peer.isRevoked = true →
    (∀ publicKey now fates, .call i (.peerForget publicKey) now fates ∈ mid →
      normalizePublicKey publicKey ≠ .ok key) →
    findPeer (((w.run pre).run mid).devices i) key = some peer
  refused : ∀ pre e post, events = pre ++ e :: post → ∀ i blob check now fates,
    e = .call i (.pairConfirm blob check) now fates → ∀ fault,
    ((pairConfirm W now blob check).run ((w.run pre).devices i)).1 = .error fault →
      SameTrust ((w.run pre).devices i) (((w.run pre).step e).devices i)

section Calls

variable {d : Device} {now : ℤ} {fates : Fates DeviceFault}

def PairingCall.hashes : PairingCall W → Set String
  | .inviteCreate _ _ claim _ => {W.sha256Hex claim}
  | _ => ∅

def PairingCall.forgets : PairingCall W → Set String
  | .peerForget publicKey => {key | normalizePublicKey publicKey = .ok key}
  | _ => ∅

theorem PairingCall.after_evolves (call : PairingCall W) (now : ℤ) (fates : Fates DeviceFault)
    (d : Device) : Evolves call.hashes call.forgets d (call.after now fates d) := by
  cases call with
  | init keypair label => exact (keeps_evolves (deviceInitialize_quiet keypair label)).exec fates d
  | rotate keypair => exact (keeps_evolves (rotate_quiet keypair)).exec fates d
  | reset => exact (reset_evolves W.toPlatform).exec fates d
  | inviteCreate label ttlSeconds claim id =>
    exact (inviteCreate_evolves label ttlSeconds claim id).exec fates d
  | inviteCancel id => exact (inviteCancel_evolves id).exec fates d
  | pairAccept blob check => exact (pairAccept_evolves blob check).exec fates d
  | pairConfirm blob check => exact (pairConfirm_evolves blob check).exec fates d
  | peerRevoke publicKey => exact (peerRevoke_evolves W.toPlatform publicKey).exec fates d
  | peerForget publicKey => exact (peerForget_evolves W.toPlatform publicKey).exec fates d

end Calls

section Runs

variable {w : World ι} {i j : ι} {call : PairingCall W} {now : ℤ} {fates : Fates DeviceFault}
  {m : Minted ι}

theorem step_devices_self : (w.step (.call i call now fates)).devices i =
    call.after now fates (w.devices i) :=
  Function.update_self ..

theorem step_devices_of_ne (h : j ≠ i) :
    (w.step (.call i call now fates)).devices j = w.devices j :=
  Function.update_of_ne h ..

theorem mem_minted_step (h : m ∈ w.minted) (e : Event W ι) : m ∈ (w.step e).minted := by
  cases e with
  | call i call now fates => exact List.mem_append_left _ h
  | outsider key message => exact h

def Traced (W : Wire) (w : World ι) : Prop :=
  ∀ i hash r, findInvite (w.devices i) hash = some r →
    ∃ m ∈ w.minted, m.device = i ∧ W.sha256Hex m.claim = hash

omit [DecidableEq ι] in
theorem Traced.of_empty (h : ∀ i, (w.devices i).invites = []) : Traced W w := by
  intro i hash r hr
  rw [findInvite, h i] at hr
  cases hr

omit [DecidableEq ι] in
theorem mints_of_hash {hash : String} {d : Device} (hhash : hash ∈ call.hashes)
    (hnew : (call.after now fates d).invites ≠ d.invites) :
    ∃ m ∈ call.mints i d (call.after now fates d), m.device = i ∧ W.sha256Hex m.claim = hash := by
  cases call with
  | inviteCreate label ttlSeconds claim id =>
    cases hidentity : d.identity with
    | none =>
      have hsame := exec_store_of_survives
        (inviteCreate_unidentified W now hidentity label ttlSeconds claim id) fates
      exact absurd hsame.2 hnew
    | some identity =>
      refine ⟨⟨i, identity.publicKey, claim⟩, ?_, rfl, hhash.symm⟩
      simp only [PairingCall.mints, hidentity, if_neg hnew, List.mem_singleton]
  | _ => exact hhash.elim

theorem Traced.step (h : Traced W w) (e : Event W ι) : Traced W (w.step e) := by
  cases e with
  | outsider key message => exact h
  | call i call now fates =>
    intro j hash r hr
    by_cases hj : j = i
    · subst hj
      rw [step_devices_self] at hr
      by_cases hhash : hash ∈ call.hashes
      · by_cases hsame : (call.after now fates (w.devices j)).invites = (w.devices j).invites
        · rw [findInvite, hsame] at hr
          obtain ⟨m, hm, hmint⟩ := h j hash r hr
          exact ⟨m, List.mem_append_left _ hm, hmint⟩
        · obtain ⟨m, hm, hmint⟩ := mints_of_hash hhash hsame
          exact ⟨m, List.mem_append_right _ hm, hmint⟩
      · obtain ⟨r', hr', _⟩ := (call.after_evolves now fates _).burned hash hhash r hr
        obtain ⟨m, hm, hmint⟩ := h j hash r' hr'
        exact ⟨m, List.mem_append_left _ hm, hmint⟩
    · rw [step_devices_of_ne hj] at hr
      obtain ⟨m, hm, hmint⟩ := h j hash r hr
      exact ⟨m, List.mem_append_left _ hm, hmint⟩

theorem Traced.run (h : Traced W w) (events : List (Event W ι)) : Traced W (w.run events) := by
  induction events generalizing w with
  | nil => exact h
  | cons e events ih => exact ih (h.step e)

structure Spent (W : Wire) (w : World ι) (m : Minted ι) : Prop where
  known : m ∈ w.minted
  burned : ∀ r, findInvite (w.devices m.device) (W.sha256Hex m.claim) = some r →
    r.redeemedAt.isSome

theorem Spent.step (hsha : Function.Injective W.sha256Hex) (h : Spent W w m) {e : Event W ι}
    (he : Admissible w e) : Spent W (w.step e) m := by
  refine ⟨mem_minted_step h.known e, fun r hr ↦ ?_⟩
  cases e with
  | outsider key message => exact h.burned r hr
  | call i call now fates =>
    by_cases hi : m.device = i
    · subst hi
      rw [step_devices_self] at hr
      have hfresh : W.sha256Hex m.claim ∉ call.hashes := by
        cases call with
        | inviteCreate label ttlSeconds claim id =>
          exact fun heq ↦ he m h.known rfl (hsha heq)
        | _ => exact id
      obtain ⟨r', hr', hburned⟩ := (call.after_evolves now fates _).burned _ hfresh r hr
      exact hburned (h.burned r' hr')
    · rw [step_devices_of_ne hi] at hr
      exact h.burned r hr

theorem Spent.run (hsha : Function.Injective W.sha256Hex) (h : Spent W w m)
    {events : List (Event W ι)} (he : Along World.step Admissible w events) :
    Spent W (w.run events) m := by
  refine he.invariant (I := fun w ↦ Spent W w m) h fun w e h he ↦ ?_
  exact h.step hsha he

section Confirmation

variable {e : Event W ι} {blob key : String} {check : KeynameCheck}

theorem confirms_step (he : e = .call i (.pairConfirm blob check) now fates) :
    Confirms W now blob check (w.devices i) ((w.step e).devices i) := by
  rw [he, step_devices_self]
  exact exec_store_of_survives (pairConfirm_survives blob check) fates

theorem Pins.confirms (h : Pins w e i key)
    (he : e = .call i (.pairConfirm blob check) now fates) :
    ∃ identity payload, Addressed W (w.devices i) blob identity payload key ∧
      Redeems W now payload.claim key (w.devices i) ((w.step e).devices i) := by
  obtain hsame | ⟨_, identity, payload, key', haddressed, hredeems⟩ := confirms_step (w := w) he
  · exact absurd (congrArg (lookup DevicePeer.publicKey · key) hsame.1) h
  · have hkey : key = key' := by
      by_contra hne
      exact h (hredeems.others key hne)
    subst hkey
    exact ⟨identity, payload, haddressed, hredeems⟩

/-- An invite leads its device to a pin only through a confirmation that redeems it, if no device
accepts its own invites. -/
theorem LedPin.redeems (h : LedPin w e m) (hown : ¬AcceptsOwn w e) :
    ∃ now key, Redeems W now m.claim key (w.devices m.device) ((w.step e).devices m.device) := by
  obtain ⟨hm, hleads, key, hpins⟩ := h
  cases e with
  | outsider key message => exact hleads.elim
  | call i call now fates =>
    cases call with
    | pairConfirm blob check =>
      obtain ⟨rfl, payload, hpayload, hclaim⟩ := hleads
      obtain ⟨identity, payload', haddressed, hredeems⟩ := hpins.confirms rfl
      obtain rfl := Except.ok.inj (hpayload.symm.trans haddressed.decodes)
      exact ⟨now, key, hclaim ▸ hredeems⟩
    | pairAccept blob check =>
      obtain ⟨rfl, payload, hpayload, hclaim, hid⟩ := hleads
      have hcurrent : ∀ identity, (w.devices m.device).identity = some identity →
          identity.publicKey = m.id := by
        intro identity hidentity
        by_contra hne
        exact hown ⟨m, hm, rfl, ⟨payload, hpayload, hclaim, hid⟩, identity, hidentity, hne⟩
      have hsame := exec_store_of_survives
        (pairAccept_own now hpayload hid hcurrent check) fates
      refine absurd ?_ hpins
      rw [step_devices_self]
      exact congrArg (lookup DevicePeer.publicKey · key) hsame.1
    | _ => exact hleads.elim

end Confirmation

theorem revoked_step {key : String} {peer : DevicePeer} {e : Event W ι}
    (hpeer : findPeer (w.devices i) key = some peer) (hrevoked : peer.isRevoked = true)
    (hforgets : ∀ publicKey now fates, e = .call i (.peerForget publicKey) now fates →
      normalizePublicKey publicKey ≠ .ok key) :
    findPeer ((w.step e).devices i) key = some peer := by
  cases e with
  | outsider key message => exact hpeer
  | call j call now fates =>
    by_cases hi : i = j
    · subst hi
      have hkept : key ∉ call.forgets := by
        cases call with
        | peerForget publicKey => exact hforgets publicKey now fates rfl
        | _ => exact id
      rw [step_devices_self]
      exact (call.after_evolves now fates _).revoked key hkept peer hpeer hrevoked
    · rw [step_devices_of_ne hi]
      exact hpeer

theorem revoked_run {key : String} {peer : DevicePeer} {events : List (Event W ι)}
    (hpeer : findPeer (w.devices i) key = some peer) (hrevoked : peer.isRevoked = true)
    (hforgets : ∀ publicKey now fates, .call i (.peerForget publicKey) now fates ∈ events →
      normalizePublicKey publicKey ≠ .ok key) :
    findPeer ((w.run events).devices i) key = some peer := by
  induction events generalizing w with
  | nil => exact hpeer
  | cons e events ih =>
    refine ih (revoked_step hpeer hrevoked fun publicKey now fates he ↦ ?_) fun _ _ _ h ↦
      hforgets _ _ _ (List.mem_cons_of_mem _ h)
    exact hforgets publicKey now fates (he ▸ List.mem_cons_self)

/-- The pins of a world in which no device accepts an invite of its own under an identity that it
no longer has. -/
theorem pins_only_invited (hsha : Function.Injective W.sha256Hex) (w₀ : World ι)
    (hempty : ∀ i, (w₀.devices i).invites = []) (events : List (Event W ι))
    (hadmissible : Along World.step Admissible w₀ events)
    (hown : Along World.step (fun w e ↦ ¬AcceptsOwn w e) w₀ events) :
    PinsOnlyInvited W w₀ events := by
  have htraced := Traced.of_empty (W := W) hempty
  refine ⟨?_, ?_, ?_, ?_⟩
  · rintro pre e mid e' post rfl m h h'
    rw [along_append, Along, along_append, Along] at hadmissible hown
    obtain ⟨_, _, hmid, _⟩ := hadmissible
    obtain ⟨_, he, _, he', _⟩ := hown
    obtain ⟨now, key, hredeems⟩ := h.redeems he
    obtain ⟨now', key', hredeems'⟩ := h'.redeems he'
    have hspent : Spent W ((w₀.run pre).step e) m := ⟨mem_minted_step h.1 e, hredeems.burned⟩
    obtain ⟨invite, hinvite, hunredeemed, _⟩ := hredeems'.live
    have hburned := (hspent.run hsha hmid).burned invite hinvite
    rw [hunredeemed] at hburned
    cases hburned
  · rintro pre e post rfl i blob check now fates he key hpins
    obtain ⟨identity, payload, haddressed, hredeems⟩ := hpins.confirms he
    obtain ⟨invite, hinvite, hunredeemed, hunexpired⟩ := hredeems.live
    obtain ⟨m, hm, hdevice, hclaim⟩ := htraced.run pre i _ invite hinvite
    rw [along_append, Along, he] at hadmissible
    exact ⟨identity, payload, invite, haddressed.known, haddressed.decodes,
      hadmissible.2.1 _ _ _ haddressed, ⟨m, hm, hdevice, hsha hclaim⟩, hinvite, hunredeemed,
      hunexpired⟩
  · rintro pre mid post rfl i key peer hpeer hrevoked hforgets
    exact revoked_run hpeer hrevoked hforgets
  · rintro pre e post rfl i blob check now fates he fault hfault
    obtain hsame | ⟨⟨peer, hok⟩, _⟩ := confirms_step (w := w₀.run pre) he
    · exact hsame
    · rw [hok] at hfault
      cases hfault

end Runs

section Sample

def base64Alphabet : List Char :=
  "ABCDEFGHIJKLMNOPQRSTUVWXYZabcdefghijklmnopqrstuvwxyz0123456789-_".toList

def base64Char (n : ℕ) : Char := base64Alphabet.getD (n % 64) 'A'

def base64Url : List UInt8 → List Char
  | a :: b :: c :: rest =>
    let n := a.toNat * 65536 + b.toNat * 256 + c.toNat
    base64Char (n / 262144) :: base64Char (n / 4096) :: base64Char (n / 64) :: base64Char n ::
      base64Url rest
  | [a, b] =>
    let n := a.toNat * 1024 + b.toNat * 4
    [base64Char (n / 4096), base64Char (n / 64), base64Char n]
  | [a] => [base64Char (a.toNat / 4), base64Char (a.toNat * 16)]
  | [] => []

def quoted (text : String) : List Char := '"' :: text.toList ++ ['"']

def jsonVec (fields : List (String × List Char)) : List UInt8 :=
  let members := fields.map fun field ↦ quoted field.1 ++ ':' :: field.2
  ('\x7b' :: [','].intercalate members ++ ['\x7d']).map fun c ↦ UInt8.ofNat c.toNat

@[irreducible]
def inviteVec (p : InvitePayload) : List UInt8 :=
  jsonVec [("v", (toString p.v).toList), ("typ", quoted p.typ), ("device_id", quoted p.deviceId),
    ("keyname", quoted p.keyname), ("label", quoted p.label), ("claim", quoted p.claim),
    ("expires_at", quoted p.expiresAt), ("sig", quoted p.sig)]

@[irreducible]
def acceptVec (p : AcceptPayload) : List UInt8 :=
  jsonVec [("v", (toString p.v).toList), ("typ", quoted p.typ), ("device_id", quoted p.deviceId),
    ("keyname", quoted p.keyname), ("label", quoted p.label), ("claim", quoted p.claim),
    ("for_device_id", quoted p.forDeviceId), ("sig", quoted p.sig)]

def knownCodec {α : Type} (toVec : α → List UInt8) (known : List α) : PayloadCodec α where
  toVec := toVec
  fromSlice json := match known.find? fun payload ↦ toVec payload = json with
    | some payload => .ok payload
    | none => .error "expected value at line 1 column 1"

theorem base64Char_plain (n : ℕ) :
    isWhitespace (base64Char n) = false ∧ (base64Char n).utf8Size = 1 := by
  have hall : ∀ k < 64, isWhitespace (base64Alphabet.getD k 'A') = false ∧
      (base64Alphabet.getD k 'A').utf8Size = 1 := by decide +kernel
  exact hall (n % 64) (Nat.mod_lt n (by decide))

theorem base64Url_plain (json : List UInt8) :
    ∀ c ∈ base64Url json, isWhitespace c = false ∧ c.utf8Size = 1 := by
  fun_induction base64Url json with
  | case1 a b c rest n ih =>
    simp only [List.forall_mem_cons]
    exact ⟨base64Char_plain _, base64Char_plain _, base64Char_plain _, base64Char_plain _, ih⟩
  | case2 a b n => simp [base64Char_plain]
  | case3 a => simp [base64Char_plain]
  | case4 => simp

theorem length_base64Url (json : List UInt8) :
    (base64Url json).length = (json.length * 4 + 2) / 3 := by
  fun_induction base64Url json with
  | case1 a b c rest n ih =>
    simp only [List.length_cons, ih]
    omega
  | case2 a b n => simp
  | case3 a => simp
  | case4 => simp

def serverKey : KeyRow :=
  ⟨"c5aa8df43f9f837bedb7442f31dcb7b166d38535076f094b85ce3a2e0b4458f7",
    "fc51cd8e6218a1a38da47ed00230f0580816ed13ba3303ac5deb911548908025",
    "tofa-nive-pula-gero-sima-lodu-beki-vona-rute"⟩

def claim : String := "3f1c9a5be2d84706b1c35d0e8f72a964c0d7e1b25a3948f6017b6ed2c4589a30"

def claimHash : String := "8b37f1f15875bc09fd77aaeb1131aec26eb5b268a4cfc720d07c58aa0409fcbf"

def epoch : String := "1970-01-01T00:00:00Z"

def expiry : String := "1970-01-01T00:10:00Z"

def invitePayload : InvitePayload :=
  ⟨1, inviteTyp, oldKey.publicKey, oldKey.keyname, "laptop", claim, expiry,
    "bdd984572de725adb6af16201dfd31b09271407086127d1d5543007559f4eea4" ++
      "fabf44b6b89d448b4abb88b3bfaf5b7434423950822d1c9fdedc25ded3bd280b"⟩

def acceptPayload : AcceptPayload :=
  ⟨1, acceptTyp, serverKey.publicKey, serverKey.keyname, "server", claim, oldKey.publicKey,
    "2044aa11529d8c76986f16544bf3fe06a87d5ee6feeaaf49d8406389ac2c6673" ++
      "b67b624468e485a51a72588961d36d2a2aae4ba098313f438162fc76dadaa60b"⟩

def sampleSignatures : List ((String × String) × String) :=
  [((oldKey.secret, inviteStatement oldKey.publicKey claimHash expiry), invitePayload.sig),
    ((serverKey.secret, acceptStatement serverKey.publicKey oldKey.publicKey claimHash),
      acceptPayload.sig),
    signedRotation]

def sampleVecs : List (List UInt8) := [inviteVec invitePayload, acceptVec acceptPayload]

def sampleWire : Wire :=
  { tabled [oldKey, newKey, serverKey] sampleSignatures []
      [(0, epoch), (600000000000, expiry)] with
    sha256Hex := Equiv.swap claim claimHash
    encodeBase64 := fun json ↦ String.ofList (base64Url json)
    decodeBase64 := fun body ↦ sampleVecs.find? fun json ↦ base64Url json = body.toList
    inviteCodec := knownCodec inviteVec [invitePayload]
    acceptCodec := knownCodec acceptVec [acceptPayload] }

def inviteBlob : String := encodeBlob sampleWire sampleWire.inviteCodec invitePayload

def acceptBlob : String := encodeBlob sampleWire sampleWire.acceptCodec acceptPayload

theorem length_inviteVec : (inviteVec invitePayload).length = 437 := by decide +kernel

theorem length_acceptVec : (acceptVec acceptPayload).length = 484 := by decide +kernel

theorem sample_decodeBase64 {json : List UInt8} (h : json ∈ sampleVecs) :
    sampleWire.decodeBase64 (sampleWire.encodeBase64 json) = some json := by
  change (sampleVecs.find? fun json' ↦ base64Url json' = (String.ofList (base64Url json)).toList) =
    some json
  rw [String.toList_ofList]
  obtain rfl | h := List.mem_cons.1 h
  · exact List.find?_cons_of_pos (decide_eq_true rfl)
  · obtain rfl := List.mem_singleton.1 h
    have hne : base64Url (inviteVec invitePayload) ≠ base64Url (acceptVec acceptPayload) := by
      intro heq
      have hlength := congrArg List.length heq
      rw [length_base64Url, length_base64Url, length_inviteVec, length_acceptVec] at hlength
      omega
    rw [sampleVecs, List.find?_cons_of_neg (by simpa using hne)]
    exact List.find?_cons_of_pos (decide_eq_true rfl)

theorem sample_decodeBlob {α : Type} (codec : PayloadCodec α) (payload : α)
    (hjson : codec.fromSlice (codec.toVec payload) = .ok payload)
    (hknown : codec.toVec payload ∈ sampleVecs) :
    decodeBlob sampleWire codec (encodeBlob sampleWire codec payload) = .ok payload := by
  refine decodeBlob_encodeBlob hjson (sample_decodeBase64 hknown) ?_ ?_
  · rw [sampleWire, String.toList_ofList]
    exact base64Url_plain _
  · rw [sampleWire, String.toList_ofList, length_base64Url]
    obtain h | h := List.mem_pair.1 hknown
    · rw [h, length_inviteVec]
      decide
    · rw [h, length_acceptVec]
      decide

theorem fromSlice_knownCodec {α : Type} (toVec : α → List UInt8) (payload : α) :
    (knownCodec toVec [payload]).fromSlice (toVec payload) = .ok payload := by
  have hfind : [payload].find? (fun p ↦ toVec p = toVec payload) = some payload :=
    List.find?_cons_of_pos (decide_eq_true rfl)
  simp only [knownCodec, hfind]

theorem decode_inviteBlob :
    decodeBlob sampleWire sampleWire.inviteCodec inviteBlob = .ok invitePayload := by
  have hknown : inviteVec invitePayload ∈ sampleVecs := List.mem_cons_self
  exact sample_decodeBlob (knownCodec inviteVec [invitePayload]) invitePayload
    (fromSlice_knownCodec inviteVec invitePayload) hknown

theorem decode_acceptBlob :
    decodeBlob sampleWire sampleWire.acceptCodec acceptBlob = .ok acceptPayload := by
  have hknown : acceptVec acceptPayload ∈ sampleVecs := List.mem_cons_of_mem _ List.mem_cons_self
  exact sample_decodeBlob (knownCodec acceptVec [acceptPayload]) acceptPayload
    (fromSlice_knownCodec acceptVec acceptPayload) hknown

def mint : Event sampleWire Unit :=
  .call () (.inviteCreate "server" 600 claim "invite-1") 0 fun _ ↦ .commits

def answer : Event sampleWire Unit :=
  .outsider serverKey.publicKey (acceptStatement serverKey.publicKey oldKey.publicKey claimHash)

def confirm : Event sampleWire Unit :=
  .call () (.pairConfirm acceptBlob .confirmedByHuman) 0 fun _ ↦ .commits

def rekey : Event sampleWire Unit :=
  .call () (.rotate ⟨newKey.secret, newKey.publicKey, by decide +kernel⟩) 0 fun _ ↦ .commits

def selfAccept : Event sampleWire Unit :=
  .call () (.pairAccept inviteBlob .confirmedByHuman) 0 fun _ ↦ .commits

def fresh : World Unit :=
  { devices := fun _ ↦
      { identity := some ⟨oldKey.publicKey, oldKey.keyname, "laptop", epoch, none⟩
        secrets := [⟨identitySecretRef, 1, oldKey.secret, epoch, none, none⟩] } }

def minted : Minted Unit := ⟨(), oldKey.publicKey, claim⟩

def inviting : Device :=
  { identity := some ⟨oldKey.publicKey, oldKey.keyname, "laptop", epoch, none⟩
    invites := [⟨"invite-1", claimHash, "server", epoch, expiry, none, none⟩]
    secrets := [⟨identitySecretRef, 1, oldKey.secret, epoch, none, some epoch⟩]
    audit := [⟨"vault_secret", some identitySecretRef, "vault.use", epoch⟩,
      ⟨"device", some oldKey.publicKey, "device.pair.invite", epoch⟩] }

def serverPeer : DevicePeer :=
  ⟨serverKey.publicKey, serverKey.keyname, "server", epoch, none, none, none⟩

def paired : Device :=
  { inviting with
    peers := [serverPeer]
    invites := [⟨"invite-1", claimHash, "server", epoch, expiry, some epoch,
      some serverKey.publicKey⟩]
    audit := inviting.audit ++ [⟨"device", some serverKey.publicKey, "device.pair.confirm", epoch⟩] }

theorem after_mint : (fresh.step mint).devices () = inviting := by
  decide +kernel

theorem minted_mint : (fresh.step mint).minted = [minted] := by
  have hmints : PairingCall.mints () (.inviteCreate "server" 600 claim "invite-1" :
      PairingCall sampleWire) (fresh.devices ()) inviting = [minted] := by
    rfl
  exact hmints

theorem addressed_confirm (w : World Unit) (hw : w.devices () = inviting) :
    ∀ identity payload key, Addressed sampleWire (w.devices ()) acceptBlob identity payload key →
      (key, acceptStatement key identity.publicKey (sampleWire.sha256Hex payload.claim)) =
        (serverKey.publicKey,
          acceptStatement serverKey.publicKey oldKey.publicKey claimHash) := by
  intro identity payload key h
  obtain rfl := Except.ok.inj (decode_acceptBlob.symm.trans h.decodes)
  have hidentity := h.known
  rw [hw] at hidentity
  obtain rfl := Option.some.inj hidentity
  have hkey : normalizePublicKey acceptPayload.deviceId = .ok serverKey.publicKey := by
    decide +kernel
  obtain rfl := Except.ok.inj (hkey.symm.trans h.names)
  have hhash : sampleWire.sha256Hex acceptPayload.claim = claimHash := Equiv.swap_apply_left _ _
  rw [hhash]

theorem after_confirm (w : World Unit) (hw : w.devices () = inviting) :
    (w.step confirm).devices () = paired := by
  rw [confirm, step_devices_self, hw, PairingCall.after, pairConfirm, exec_query_bind,
    exec_ofExcept_bind_ok (requireIdentity_eq_ok.2 rfl), exec_ofExcept_bind_ok decode_acceptBlob]
  decide +kernel

def moved : Device :=
  PairingCall.after (W := sampleWire) (.rotate ⟨newKey.secret, newKey.publicKey, by decide +kernel⟩)
    0 (fun _ ↦ .commits) paired

theorem moved_known : moved.identity =
    some ⟨newKey.publicKey, newKey.keyname, "laptop", epoch, some epoch⟩ := by
  decide +kernel

theorem pins_selfAccept (w : World Unit) (hw : w.devices () = moved) :
    Pins w selfAccept () oldKey.publicKey := by
  rw [Pins, selfAccept, step_devices_self, hw, PairingCall.after, pairAccept, exec_query_bind,
    exec_ofExcept_bind_ok (requireIdentity_eq_ok.2 moved_known),
    exec_ofExcept_bind_ok decode_inviteBlob]
  decide +kernel

theorem pins_confirm (w : World Unit) (hw : w.devices () = inviting) :
    Pins w confirm () serverKey.publicKey := by
  rw [Pins, after_confirm w hw, hw]
  decide +kernel

theorem leads_confirm : Leads minted confirm :=
  ⟨rfl, acceptPayload, decode_acceptBlob, rfl⟩

theorem leads_selfAccept : Leads minted selfAccept :=
  ⟨rfl, invitePayload, decode_inviteBlob, rfl, by decide +kernel⟩

theorem minted_answer : minted ∈ ((fresh.step mint).step answer).minted := by
  refine mem_minted_step ?_ answer
  rw [minted_mint]
  exact List.mem_cons_self

theorem admissible_ceremony :
    Along World.step Admissible fresh [mint, answer, confirm, rekey, selfAccept] := by
  refine ⟨fun _ hm ↦ (nomatch hm), ?_, ?_, trivial, trivial, trivial⟩
  · intro i secret hsecret
    rw [after_mint] at hsecret
    obtain rfl := List.mem_singleton.1 hsecret
    decide +kernel
  · intro identity payload key haddressed
    rw [addressed_confirm _ after_mint identity payload key haddressed]
    exact List.mem_append_right _ List.mem_cons_self

/-- An invite of a device, once it was redeemed and the key was changed, is accepted by the device
itself, which then pins its own old key. -/
theorem own_invite_pinned : ¬∀ (W : Wire), Function.Injective W.sha256Hex →
    ∀ (w₀ : World Unit), (∀ i, (w₀.devices i).invites = []) → ∀ events : List (Event W Unit),
      Along World.step Admissible w₀ events → PinsOnlyInvited W w₀ events := by
  intro h
  have hpaired := after_confirm ((fresh.step mint).step answer) after_mint
  have hmoved : ((((fresh.step mint).step answer).step confirm).step rekey).devices () = moved := by
    rw [rekey, step_devices_self, hpaired, moved]
  have honce := (h sampleWire (Equiv.injective _) fresh (fun _ ↦ rfl) _ admissible_ceremony).once
    [mint, answer] confirm [rekey] selfAccept [] rfl minted
    ⟨minted_answer, leads_confirm, _, pins_confirm _ after_mint⟩
  have hknown := mem_minted_step (mem_minted_step minted_answer confirm) rekey
  exact honce ⟨hknown, leads_selfAccept, _, pins_selfAccept _ hmoved⟩

/-- The ceremony itself, up to the change of the key. -/
theorem ceremony_pins_only_invited :
    PinsOnlyInvited sampleWire fresh [mint, answer, confirm, rekey] := by
  have hall : Along World.step Admissible fresh ([mint, answer, confirm, rekey] ++ [selfAccept]) :=
    admissible_ceremony
  exact pins_only_invited (Equiv.injective _) fresh (fun _ ↦ rfl) [mint, answer, confirm, rekey]
    (along_append.1 hall).1 ⟨id, id, id, id, trivial⟩

end Sample

end SlipScan.Devices.Ceremony
