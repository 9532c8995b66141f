import Mathlib.Data.Nat.Digits.Defs
import Mathlib.Data.List.Basic
import Mathlib.Tactic.IntervalCases

namespace SlipScan.Foundation.Codec

/-- A way of writing values as bits such that each value ends by itself. -/
structure Code (α : Type) where
  encode : α → List Bool
  decode : List Bool → Option (α × List Bool)
  decode_encode : ∀ a rest, decode (encode a ++ rest) = some (a, rest)

variable {α β : Type}

theorem Code.decode_encode_self (c : Code α) (a : α) : c.decode (c.encode a) = some (a, []) := by
  have h := c.decode_encode a []
  rwa [List.append_nil] at h

theorem Code.encode_injective (c : Code α) : Function.Injective c.encode := by
  intro a b heq
  have h := c.decode_encode_self a
  rw [heq, c.decode_encode_self b] at h
  exact (Prod.mk.inj (Option.some.inj h)).1.symm

def bit : Code Bool where
  encode b := [b]
  decode
    | [] => none
    | b :: rest => some (b, rest)
  decode_encode _ _ := rfl

section Unary

def decodeUnary : List Bool → Option (ℕ × List Bool)
  | [] => none
  | false :: rest => some (0, rest)
  | true :: rest => (decodeUnary rest).map fun r ↦ (r.1 + 1, r.2)

theorem decodeUnary_encode (n : ℕ) (rest : List Bool) :
    decodeUnary (List.replicate n true ++ [false] ++ rest) = some (n, rest) := by
  induction n with
  | zero => rfl
  | succ n ih =>
    rw [List.replicate_succ, List.cons_append, List.cons_append, decodeUnary, ih, Option.map_some]

def unary : Code ℕ where
  encode n := List.replicate n true ++ [false]
  decode := decodeUnary
  decode_encode := decodeUnary_encode

end Unary

def via (c : Code β) (f : α → β) (g : β → Option α) (hg : ∀ a, g (f a) = some a) : Code α where
  encode a := c.encode (f a)
  decode bits := (c.decode bits).bind fun r ↦ (g r.1).map (·, r.2)
  decode_encode a rest := by rw [c.decode_encode, Option.bind_some, hg, Option.map_some]

def pair (c : Code α) (d : Code β) : Code (α × β) where
  encode p := c.encode p.1 ++ d.encode p.2
  decode bits := (c.decode bits).bind fun r ↦ (d.decode r.2).map fun q ↦ ((r.1, q.1), q.2)
  decode_encode p rest := by
    rw [List.append_assoc, c.decode_encode, Option.bind_some, d.decode_encode, Option.map_some]

section Lists

variable (c : Code α)

def decodeList : ℕ → List Bool → Option (List α × List Bool)
  | 0, bits => some ([], bits)
  | n + 1, bits =>
    (c.decode bits).bind fun r ↦ (decodeList n r.2).map fun q ↦ (r.1 :: q.1, q.2)

theorem decodeList_encode (l : List α) (rest : List Bool) :
    decodeList c l.length (l.flatMap c.encode ++ rest) = some (l, rest) := by
  induction l with
  | nil => rfl
  | cons a l ih =>
    rw [List.flatMap_cons, List.append_assoc, List.length_cons, decodeList, c.decode_encode,
      Option.bind_some, ih, Option.map_some]

def list : Code (List α) where
  encode l := unary.encode l.length ++ l.flatMap c.encode
  decode bits := (unary.decode bits).bind fun r ↦ decodeList c r.1 r.2
  decode_encode l rest := by
    rw [List.append_assoc, unary.decode_encode, Option.bind_some, decodeList_encode]

end Lists

def option (c : Code α) : Code (Option α) :=
  via (list c) Option.toList (fun l ↦ some l.head?) fun a ↦ by cases a <;> rfl

theorem ofDigits_bits (n : ℕ) :
    Nat.ofDigits 2 (((Nat.digits 2 n).map fun d ↦ decide (d = 1)).map Bool.toNat) = n := by
  have hdigits : ((Nat.digits 2 n).map fun d ↦ decide (d = 1)).map Bool.toNat =
      Nat.digits 2 n := by
    rw [List.map_map]
    refine (List.map_congr_left fun d hd ↦ ?_).trans (List.map_id _)
    have hlt := Nat.digits_lt_base (by decide) hd
    interval_cases d <;> rfl
  rw [hdigits, Nat.ofDigits_digits]

def nat : Code ℕ :=
  via (list bit) (fun n ↦ (Nat.digits 2 n).map fun d ↦ decide (d = 1))
    (fun bits ↦ some (Nat.ofDigits 2 (bits.map Bool.toNat))) fun n ↦
      congrArg some (ofDigits_bits n)

def string : Code String :=
  via (list nat) (fun s ↦ s.toList.map Char.toNat)
    (fun l ↦ some (String.ofList (l.map Char.ofNat))) fun s ↦ by
      simp [Function.comp_def, Char.ofNat_toNat]

end SlipScan.Foundation.Codec
