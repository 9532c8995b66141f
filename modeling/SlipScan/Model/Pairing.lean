import SlipScan.Model.Devices

namespace SlipScan.Model.Pairing

open Model.Database Model.Devices Foundation.Transaction Foundation.Interleaving Foundation.Table

inductive KeynameCheck
  | expect (expected : String)
  | confirmedByHuman
  deriving DecidableEq, Repr

structure PairingInvite where
  id : String
  blob : String
  keyname : String
  expiresAt : String
  deriving DecidableEq, Repr

structure PairingAcceptance where
  peer : DevicePeer
  blob : String
  deriving DecidableEq, Repr

structure InvitePayload where
  v : UInt8
  typ : String
  deviceId : String
  keyname : String
  label : String
  claim : String
  expiresAt : String
  sig : String
  deriving DecidableEq, Repr

structure AcceptPayload where
  v : UInt8
  typ : String
  deviceId : String
  keyname : String
  label : String
  claim : String
  forDeviceId : String
  sig : String
  deriving DecidableEq, Repr

structure PayloadCodec (α : Type) where
  toVec : α → List UInt8
  fromSlice : List UInt8 → Except String α

structure Wire extends Platform where
  encodeBase64 : List UInt8 → String
  decodeBase64 : String → Option (List UInt8)
  inviteCodec : PayloadCodec InvitePayload
  acceptCodec : PayloadCodec AcceptPayload

def blobPrefix : String := "ss-pair1."

def blobVersion : UInt8 := 1

def inviteTyp : String := "slipscan.pair.invite"

def acceptTyp : String := "slipscan.pair.accept"

def maxBlobChars : ℕ := 8 * 1024

def maxInviteTtlSeconds : ℤ := 86400

section Texts

variable (W : Wire) (now : ℤ)

def inviteStatement (deviceId claimSha256 expiresAt : String) : String :=
  "slipscan.pair.invite.v1\n" ++ deviceId ++ "\n" ++ claimSha256 ++ "\n" ++ expiresAt

def acceptStatement (deviceId forDeviceId claimSha256 : String) : String :=
  "slipscan.pair.accept.v1\n" ++ deviceId ++ "\n" ++ forDeviceId ++ "\n" ++ claimSha256

def isoAfter (seconds : ℤ) : Except DeviceFault String :=
  match W.formatTime (now + seconds * 1000000000) with
  | .ok text => .ok text
  | .error err => .error (.validation s!"cannot format an expiry time: {err}")

/-- A time that cannot be read is an error and not an invite without an end. -/
def isExpired (expiresAt : String) : Except DeviceFault Bool :=
  match W.parseTime expiresAt with
  | none => .error (.devicePairing s!"malformed expiry timestamp {repr expiresAt}")
  | some t => .ok (t ≤ now)

def encodeBlob {α : Type} (codec : PayloadCodec α) (payload : α) : String :=
  blobPrefix ++ W.encodeBase64 (codec.toVec payload)

def decodeBlob {α : Type} (codec : PayloadCodec α) (blob : String) : Except DeviceFault α :=
  let blob := trim blob
  if maxBlobChars < blob.utf8ByteSize then
    .error (.devicePairing
      s!"pairing blob is too large ({blob.utf8ByteSize} bytes, limit {maxBlobChars})")
  else
    match blobPrefix.toList.isPrefixOf? blob.toList with
    | none => .error (.devicePairing
        s!"not a SlipScan pairing blob (expected it to start with {repr blobPrefix})")
    | some body =>
      match W.decodeBase64 (String.ofList body) with
      | none => .error (.devicePairing "pairing blob is not valid base64url")
      | some json =>
        match codec.fromSlice json with
        | .ok payload => .ok payload
        | .error err => .error (.devicePairing s!"malformed pairing blob: {err}")

def normalizeKeyname (raw : String) : String :=
  let words := (trim raw).toLower.toList.splitOnP fun c ↦ isWhitespace c || c = '-'
  "-".intercalate ((words.filter (· ≠ [])).map String.ofList)

def checkKeyname (check : KeynameCheck) (actual : String) : Except DeviceFault Unit :=
  match check with
  | .confirmedByHuman => .ok ()
  | .expect expected =>
    let expected := normalizeKeyname expected
    if expected = "" then .error (.validation "expected key-name must not be empty")
    else if ¬W.keynameIsValid expected then .error (.deviceKeynameMistyped expected)
    else if expected ≠ actual then .error (.deviceKeynameMismatch expected actual)
    else .ok ()

end Texts

section Peers

variable (P : Platform) (now : ℤ)

def findPeer (d : Device) (publicKey : String) : Option DevicePeer :=
  lookup DevicePeer.publicKey d.peers publicKey

/-- Pins an unknown key or renames a pinned one. A revoked key is refused. -/
def pinPeer (publicKey label : String) : DeviceTx DevicePeer := do
  let publicKey ← check (normalizePublicKey publicKey)
  let keyname ← check (keyname P publicKey)
  let label ← check (validateLabel label)
  match findPeer (← get) publicKey with
  | some peer =>
    if peer.isRevoked then throw (.devicePeerRevoked peer.keyname peer.publicKey)
    else do
      modify fun d ↦ { d with
        peers := update DevicePeer.publicKey d.peers publicKey fun r ↦ { r with label } }
      return { peer with label }
  | none => do
    let peer : DevicePeer := ⟨publicKey, keyname, label, nowIso P now, none, none, none⟩
    modify fun d ↦ { d with peers := d.peers ++ [peer] }
    return peer

def peerNotFound (publicKey : String) : DeviceFault := .notFound "device peer" publicKey

def peerRevoke (publicKey : String) : DeviceCall DevicePeer := do
  let publicKey ← Process.ofExcept (normalizePublicKey publicKey)
  match ← Process.query (findPeer · publicKey) with
  | none => Process.fail (peerNotFound publicKey)
  | some peer =>
    if peer.isRevoked then return peer
    else do
      Process.atomically [] (modify fun d ↦ { d with
        peers := update DevicePeer.publicKey d.peers publicKey fun r ↦
          { r with revokedAt := some (nowIso P now) } })
      auditWrite P now "device.peer.revoke" publicKey
      return { peer with revokedAt := some (nowIso P now) }

def peerForget (publicKey : String) : DeviceCall Bool := do
  let publicKey ← Process.ofExcept (normalizePublicKey publicKey)
  match ← Process.query (findPeer · publicKey) with
  | none => return false
  | some _ => do
    Process.atomically [] (modify fun d ↦ { d with
      peers := d.peers.filter (·.publicKey ≠ publicKey) })
    auditWrite P now "device.peer.forget" publicKey
    return true

end Peers

section Ceremony

variable (W : Wire) (now : ℤ)

/-- Both the id and the hash of the claim are unique. -/
def insertInvite (invite : PairInvite) : DeviceTx Unit := do
  if (← get).invites.any fun r ↦ r.id = invite.id ∨ r.claimSha256 = invite.claimSha256 then
    throw (.sqlite "UNIQUE constraint failed: device_pair_invites")
  modify fun d ↦ { d with invites := d.invites ++ [invite] }

def inviteCreate (label : String) (ttlSeconds : ℤ) (claim id : String) :
    DeviceCall PairingInvite := do
  if ¬(1 ≤ ttlSeconds ∧ ttlSeconds ≤ maxInviteTtlSeconds) then
    Process.fail (.validation
      s!"invite lifetime must be between 1 and {maxInviteTtlSeconds} seconds")
  else do
    let identity ← Process.query requireIdentity
    let identity ← Process.ofExcept identity
    let label := trim label
    if label = "" then Process.fail (.validation "invite label must not be empty")
    else do
      let claimSha256 := W.sha256Hex claim
      let expiresAt ← Process.ofExcept (isoAfter W now ttlSeconds)
      let sig ← sign W.toPlatform now (inviteStatement identity.publicKey claimSha256 expiresAt)
      Process.atomically [] (insertInvite
        ⟨id, claimSha256, label, nowIso W.toPlatform now, expiresAt, none, none⟩)
      auditWrite W.toPlatform now "device.pair.invite" identity.publicKey
      return ⟨id, encodeBlob W W.inviteCodec ⟨blobVersion, inviteTyp, identity.publicKey,
        identity.keyname, identity.label, claim, expiresAt, sig⟩, identity.keyname, expiresAt⟩

def inviteCancel (id : String) : DeviceCall Bool :=
  Process.atomically [] do
    let removed := (← get).invites.any fun r ↦ r.id = id ∧ r.redeemedAt = none
    modify fun d ↦ { d with
      invites := d.invites.filter fun r ↦ ¬(r.id = id ∧ r.redeemedAt = none) }
    return removed

/-- Checks an invite, pins the inviter and makes the acceptance that goes back. -/
def pairAccept (blob : String) (check : KeynameCheck) : DeviceCall PairingAcceptance := do
  let identity ← Process.query requireIdentity
  let identity ← Process.ofExcept identity
  let payload ← Process.ofExcept (decodeBlob W W.inviteCodec blob)
  if payload.v ≠ blobVersion ∨ payload.typ ≠ inviteTyp then
    Process.fail (.devicePairing
      s!"not a SlipScan pairing invite (typ {repr payload.typ}, v {payload.v})")
  else do
    let inviterId ← Process.ofExcept (normalizePublicKey payload.deviceId)
    if inviterId = identity.publicKey then
      Process.fail (.devicePairing
        "this invite came from this device — pair two different devices")
    else do
      let inviterKeyname ← Process.ofExcept (keyname W.toPlatform inviterId)
      let claimSha256 := W.sha256Hex payload.claim
      let statement := inviteStatement inviterId claimSha256 payload.expiresAt
      if ¬W.verifyHex inviterId statement payload.sig then
        Process.fail (.devicePairing
          "the invite's signature does not verify under the key it carries")
      else do
        let expired ← Process.ofExcept (isExpired W now payload.expiresAt)
        if expired then
          Process.fail (.devicePairing
            s!"this invite expired at {payload.expiresAt} — ask for a fresh one")
        else do
          Process.ofExcept (checkKeyname W check inviterKeyname)
          let peer ← Process.atomically [] (pinPeer W.toPlatform now inviterId payload.label)
          auditWrite W.toPlatform now "device.pair.accept" peer.publicKey
          let sig ← sign W.toPlatform now
            (acceptStatement identity.publicKey inviterId claimSha256)
          return ⟨peer, encodeBlob W W.acceptCodec ⟨blobVersion, acceptTyp, identity.publicKey,
            identity.keyname, identity.label, payload.claim, inviterId, sig⟩⟩

def findInvite (d : Device) (claimSha256 : String) : Option PairInvite :=
  lookup PairInvite.claimSha256 d.invites claimSha256

def burn (id redeemedAt redeemedBy : String) (r : PairInvite) : PairInvite :=
  if r.id = id ∧ r.redeemedAt = none then
    { r with redeemedAt := some redeemedAt, redeemedBy := some redeemedBy }
  else r

def redeemInvite (accepterId label claimSha256 : String) : DeviceTx DevicePeer := do
  match findInvite (← get) claimSha256 with
  | none => throw (.devicePairing
      ("this acceptance answers no invite from this device — it may have been " ++
        "withdrawn, or minted somewhere else"))
  | some invite =>
    if invite.redeemedAt.isSome then
      throw (.devicePairing
        "this invite was already redeemed — invites are single-use; mint a fresh one")
    if ← check (isExpired W now invite.expiresAt) then
      throw (.devicePairing s!"this invite expired at {invite.expiresAt} — mint a fresh one")
    let peer ← pinPeer W.toPlatform now accepterId label
    modify fun d ↦ { d with
      invites := d.invites.map (burn invite.id (nowIso W.toPlatform now) peer.publicKey) }
    return peer

def pairConfirm (blob : String) (check : KeynameCheck) : DeviceCall DevicePeer := do
  let identity ← Process.query requireIdentity
  let identity ← Process.ofExcept identity
  let payload ← Process.ofExcept (decodeBlob W W.acceptCodec blob)
  if payload.v ≠ blobVersion ∨ payload.typ ≠ acceptTyp then
    Process.fail (.devicePairing
      s!"not a SlipScan pairing acceptance (typ {repr payload.typ}, v {payload.v})")
  else do
    let accepterId ← Process.ofExcept (normalizePublicKey payload.deviceId)
    if accepterId = identity.publicKey then
      Process.fail (.devicePairing
        "this acceptance came from this device — pair two different devices")
    else do
      let forDeviceId ← Process.ofExcept (normalizePublicKey payload.forDeviceId)
      if forDeviceId ≠ identity.publicKey then
        Process.fail (.devicePairing "this acceptance is addressed to a different device")
      else do
        let accepterKeyname ← Process.ofExcept (keyname W.toPlatform accepterId)
        let claimSha256 := W.sha256Hex payload.claim
        let statement := acceptStatement accepterId identity.publicKey claimSha256
        if ¬W.verifyHex accepterId statement payload.sig then
          Process.fail (.devicePairing
            "the acceptance's signature does not verify under the key it carries")
        else do
          Process.ofExcept (checkKeyname W check accepterKeyname)
          let peer ← Process.atomically [] (redeemInvite W now accepterId payload.label claimSha256)
          auditWrite W.toPlatform now "device.pair.confirm" peer.publicKey
          return peer

end Ceremony

end SlipScan.Model.Pairing
