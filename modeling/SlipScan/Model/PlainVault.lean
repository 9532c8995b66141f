import Mathlib.Data.List.Infix
import SlipScan.Model.Vault

namespace SlipScan.Model.PlainVault

open Model.Vault

def framed (bytes : Bytes) : Bytes :=
  List.replicate bytes.length 1 ++ 0 :: bytes

theorem framed_append_inj {a b x y : Bytes} (heq : framed a ++ x = framed b ++ y) :
    a = b ∧ x = y := by
  have hunary : ∀ {m n : ℕ} {u v : Bytes},
      List.replicate m 1 ++ 0 :: u = List.replicate n 1 ++ 0 :: v → m = n ∧ u = v := by
    intro m
    induction m with
    | zero =>
      intro n u v h
      cases n with
      | zero => exact ⟨rfl, (List.cons.inj h).2⟩
      | succ n => exact absurd (List.cons.inj h).1 (by decide)
    | succ m ih =>
      intro n u v h
      cases n with
      | zero => exact absurd (List.cons.inj h).1 (by decide)
      | succ n =>
        obtain ⟨hlength, hrest⟩ := ih (List.cons.inj h).2
        exact ⟨congrArg Nat.succ hlength, hrest⟩
  rw [framed, framed, List.append_assoc, List.append_assoc, List.cons_append,
    List.cons_append] at heq
  obtain ⟨hlength, hrest⟩ := hunary heq
  exact List.append_inj hrest hlength

/-- What a message is bound to stands before it. -/
def header (key nonce aad : Bytes) : Bytes :=
  framed key ++ framed nonce ++ framed aad

theorem header_append_inj {key nonce aad key' nonce' aad' x y : Bytes}
    (heq : header key nonce aad ++ x = header key' nonce' aad' ++ y) : aad = aad' ∧ x = y := by
  simp only [header, List.append_assoc] at heq
  exact framed_append_inj (framed_append_inj (framed_append_inj heq).2).2

/-- A cipher that hides nothing and that opens a message only with what it is bound to. -/
def plainVaultHost : VaultHost where
  publicKeyHex := some
  signHex _ message := message
  verifyHex _ message signature := message == signature
  sha256Hex := id
  keynameOf := id
  keynameIsValid _ := true
  parseTime _ := none
  formatTime _ := .ok "2026-03-01T09:00:00Z"
  encrypt key nonce aad plaintext := some (header key nonce aad ++ plaintext)
  decrypt key nonce aad ciphertext :=
    if header key nonce aad <+: ciphertext then
      some (ciphertext.drop (header key nonce aad).length)
    else none
  sha256 content := (content ++ List.replicate 32 0).take 32

theorem decrypt_eq_some {key nonce aad ciphertext plaintext : Bytes} :
    plainVaultHost.decrypt key nonce aad ciphertext = some plaintext ↔
      ciphertext = header key nonce aad ++ plaintext := by
  constructor
  · intro hdecrypt
    obtain ⟨⟨rest, rfl⟩, hrest⟩ := Option.ite_none_right_eq_some.1 hdecrypt
    rw [List.drop_left, Option.some.injEq] at hrest
    rw [hrest]
  · rintro rfl
    exact Option.ite_none_right_eq_some.2 ⟨⟨plaintext, rfl⟩, by rw [List.drop_left]⟩

def plainDraw : Draw where
  kek := ⟨List.replicate 32 1, rfl⟩
  dek := ⟨List.replicate 32 2, rfl⟩
  dekNonce := ⟨List.replicate 24 3, rfl⟩
  nonce := ⟨List.replicate 24 4, rfl⟩

end SlipScan.Model.PlainVault
