import SlipScan.Model.Database
import Mathlib.Algebra.Order.Group.Unbundled.Int

namespace SlipScan.Model.Money

open Model.Database

/-- The 64-bit reading of an integer. Release builds wrap around. -/
def asI64 (v : ℤ) : ℤ :=
  v.bmod (2 ^ 64)

def divRoundHalfAway (numerator denominator : ℤ) : ℤ :=
  let half := denominator.tdiv 2
  if numerator ≥ 0 then asI64 ((numerator + half).tdiv denominator)
  else asI64 ((numerator - half).tdiv denominator)

def vatFromInclusive (grossMinor rateBps : ℤ) : ℤ :=
  if rateBps ≤ 0 then 0 else divRoundHalfAway (grossMinor * rateBps) (10000 + rateBps)

def vatOnNet (netMinor rateBps : ℤ) : ℤ :=
  if rateBps ≤ 0 then 0 else divRoundHalfAway (netMinor * rateBps) 10000

def splitInclusive (grossMinor rateBps : ℤ) : ℤ × ℤ :=
  let vat := vatFromInclusive grossMinor rateBps
  (asI64 (grossMinor - vat), vat)

def sumI64 (l : List ℤ) : ℤ :=
  l.foldl (fun acc v ↦ asI64 (acc + v)) 0

/-- The sum of a column, an error as soon as it leaves the 64-bit range. -/
def sqlSum (l : List ℤ) : Except Fault ℤ :=
  l.foldlM (fun acc v ↦
    if -2 ^ 63 ≤ acc + v ∧ acc + v < 2 ^ 63 then .ok (acc + v)
    else .error (.sqlite "integer overflow")) 0

end SlipScan.Model.Money
