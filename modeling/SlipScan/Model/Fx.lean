import SlipScan.Model.Money
import Mathlib.Data.Nat.Notation

namespace SlipScan.Model.Fx

open Model.Database Model.Money

/-- A decimal number, `mantissa / 10 ^ scale` with a sign. -/
structure Decimal where
  negative : Bool
  mantissa : ℕ
  scale : ℕ
  mantissa_lt : mantissa < 2 ^ 96
  scale_le : scale ≤ 28
  deriving DecidableEq, Repr

def Decimal.toText (rate : Decimal) : String :=
  let digits := (toString rate.mantissa).toList
  let padded := List.replicate (rate.scale + 1 - digits.length) '0' ++ digits
  let whole := padded.take (padded.length - rate.scale)
  let fraction := padded.drop (padded.length - rate.scale)
  let text := if rate.scale = 0 then whole else whole ++ '.' :: fraction
  String.ofList (if rate.negative then '-' :: text else text)

section U128

/-- The result of an arithmetic operation. A development build panics on overflow, and a release
build keeps the low bits. -/
def U128.arith (dev : Bool) (operation : String) (v : ℕ) : Except Fault ℕ :=
  if v < 2 ^ 128 then .ok v
  else if dev then .error (.panic s!"attempt to {operation} with overflow")
  else .ok (v % 2 ^ 128)

def U128.add (dev : Bool) (a b : ℕ) : Except Fault ℕ :=
  U128.arith dev "add" (a + b)

def U128.mul (dev : Bool) (a b : ℕ) : Except Fault ℕ :=
  U128.arith dev "multiply" (a * b)

/-- A shift to the left. It drops the bits that leave the word in every build. -/
def U128.shl (a bits : ℕ) : ℕ :=
  (a <<< bits) % 2 ^ 128

def maskU64 : ℕ :=
  (1 <<< 64) - 1

def mulU128 (dev : Bool) (a b : ℕ) : Except Fault (ℕ × ℕ) := do
  let aHi := a >>> 64
  let aLo := a &&& maskU64
  let bHi := b >>> 64
  let bLo := b &&& maskU64
  let ll ← U128.mul dev aLo bLo
  let lh ← U128.mul dev aLo bHi
  let hl ← U128.mul dev aHi bLo
  let hh ← U128.mul dev aHi bHi
  let mid ← U128.add dev (← U128.add dev (ll >>> 64) (lh &&& maskU64)) (hl &&& maskU64)
  let lo := U128.shl mid 64 ||| (ll &&& maskU64)
  let hi ← U128.add dev (← U128.add dev (← U128.add dev hh (lh >>> 64)) (hl >>> 64)) (mid >>> 64)
  return (hi, lo)

/-- The division loop over the lowest `i` bits of `lo`, with the remainder and the quotient of the
bits above them. -/
def divLoop (lo d : ℕ) : ℕ → ℕ → ℕ → ℕ × ℕ
  | 0, rem, quo => (quo, rem)
  | i + 1, rem, quo =>
    let rem := U128.shl rem 1 ||| ((lo >>> i) &&& 1)
    let quo := U128.shl quo 1
    if rem ≥ d then divLoop lo d i (rem - d) (quo ||| 1) else divLoop lo d i rem quo

/-- The quotient and the remainder of `hi * 2 ^ 128 + lo` by `d`. -/
def divU256ByU128 (dev : Bool) (hi lo d : ℕ) : Except Fault (ℕ × ℕ) :=
  if dev ∧ ¬hi < d then .error (.panic "assertion failed: hi < d") else .ok (divLoop lo d 128 hi 0)

end U128

def overflow (amountMinor : ℤ) (rate : Decimal) : Fault :=
  .validation s!"fx conversion overflows i64 minor units ({amountMinor} × {rate.toText})"

def roundQuotient (dev : Bool) (quotient remainder divisor : ℕ) : Except Fault ℕ := do
  let twice ← U128.mul dev remainder 2
  if twice < divisor then return quotient
  else if divisor < twice then U128.add dev quotient 1
  else if quotient % 2 = 0 then return quotient
  else U128.add dev quotient 1

def withSign (amountMinor : ℤ) (rate : Decimal) (rounded : ℕ) : Except Fault ℤ :=
  if amountMinor < 0 then
    if rounded > 2 ^ 63 then .error (overflow amountMinor rate) else .ok (asI64 (-rounded))
  else if rounded < 2 ^ 63 then .ok rounded else .error (overflow amountMinor rate)

def powerOfTen (scale : ℕ) : Except Fault ℕ :=
  if 10 ^ scale < 2 ^ 128 then .ok (10 ^ scale)
  else .error (.panic "Decimal scale is <= 28, 10^28 fits u128")

def convertMinor (dev : Bool) (amountMinor : ℤ) (rate : Decimal) : Except Fault ℤ :=
  if rate.negative then
    .error (.validation s!"fx rate must not be negative (got {rate.toText})")
  else do
    let divisor ← powerOfTen rate.scale
    let (hi, lo) ← mulU128 dev amountMinor.natAbs rate.mantissa
    if hi ≥ divisor then .error (overflow amountMinor rate)
    else do
      let (quotient, remainder) ← divU256ByU128 dev hi lo divisor
      let rounded ← roundQuotient dev quotient remainder divisor
      withSign amountMinor rate rounded

end SlipScan.Model.Fx
