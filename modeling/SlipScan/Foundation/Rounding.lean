import Mathlib.Algebra.Order.Round
import Mathlib.Data.Rat.Floor
import Mathlib.Tactic.FieldSimp
import Mathlib.Tactic.Linarith
import Mathlib.Data.Int.ConditionallyCompleteOrder

namespace SlipScan.Foundation.Rounding

variable {K : Type*} [Field K] [LinearOrder K] [IsStrictOrderedRing K] [FloorRing K]

section HalfAway

def roundHalfAway (x : K) : ℤ :=
  if 0 ≤ x then round x else -round (-x)

variable {x y : K}

omit [IsStrictOrderedRing K] in
theorem roundHalfAway_of_nonneg (hx : 0 ≤ x) : roundHalfAway x = round x :=
  if_pos hx

theorem roundHalfAway_of_nonpos (hx : x ≤ 0) : roundHalfAway x = -round (-x) := by
  rcases hx.lt_or_eq with hlt | rfl
  · exact if_neg hlt.not_ge
  · simp [roundHalfAway]

theorem roundHalfAway_neg (x : K) : roundHalfAway (-x) = -roundHalfAway x := by
  rcases le_total 0 x with hx | hx
  · rw [roundHalfAway_of_nonpos (neg_nonpos.2 hx), roundHalfAway_of_nonneg hx, neg_neg]
  · rw [roundHalfAway_of_nonneg (neg_nonneg.2 hx), roundHalfAway_of_nonpos hx, neg_neg]

theorem round_mono : Monotone (round : K → ℤ) := by
  intro x y hxy
  rw [round_eq, round_eq]
  exact Int.floor_mono (by linarith)

theorem roundHalfAway_intCast (m : ℤ) : roundHalfAway (m : K) = m := by
  rw [roundHalfAway]
  split
  · exact round_intCast m
  · rw [← Int.cast_neg, round_intCast, neg_neg]

theorem roundHalfAway_zero : roundHalfAway (0 : K) = 0 := by
  simpa using roundHalfAway_intCast (K := K) 0

theorem roundHalfAway_mono : Monotone (roundHalfAway : K → ℤ) := by
  intro x y hxy
  rcases le_total 0 x with hx | hx
  · rw [roundHalfAway_of_nonneg hx, roundHalfAway_of_nonneg (hx.trans hxy)]
    exact round_mono hxy
  · rcases le_total 0 y with hy | hy
    · rw [roundHalfAway_of_nonpos hx, roundHalfAway_of_nonneg hy]
      have hleft := round_mono (neg_nonneg.2 hx)
      have hright := round_mono hy
      rw [round_zero] at hleft hright
      omega
    · rw [roundHalfAway_of_nonpos hx, roundHalfAway_of_nonpos hy]
      exact neg_le_neg (round_mono (neg_le_neg hxy))

theorem roundHalfAway_le {m : ℤ} (hx : x ≤ m) : roundHalfAway x ≤ m := by
  have hmono := roundHalfAway_mono hx
  rwa [roundHalfAway_intCast] at hmono

/-- On one side of zero a step of at most one moves the rounding by at most one. -/
theorem roundHalfAway_add_le {c : K} (hx : 0 ≤ x) (hc : 0 ≤ c) (hc' : c ≤ 1) :
    roundHalfAway (x + c) ≤ roundHalfAway x + 1 := by
  rw [roundHalfAway_of_nonneg hx, roundHalfAway_of_nonneg (add_nonneg hx hc), ← round_add_one]
  exact round_mono (by linarith)

/-- The rounding of a quotient of integers, with half the divisor added before the division. -/
theorem round_div {n d : ℤ} (hd : 0 < d) : round (n / d : K) = (n + d / 2) / d := by
  have hd' : (0 : K) < d := Int.cast_pos.2 hd
  have hle : ((n + d / 2) / d) * d ≤ n + d / 2 := Int.ediv_mul_le _ hd.ne'
  have hlt : n + d / 2 < ((n + d / 2) / d + 1) * d := Int.lt_ediv_add_one_mul_self _ hd
  generalize (n + d / 2) / d = q at hle hlt
  have hlow : 2 * (q * d) ≤ 2 * n + d := by omega
  have hhigh : 2 * n + d < 2 * ((q + 1) * d) := by omega
  have hsum : (n / d + 1 / 2 : K) = (2 * n + d) / (2 * d) := by
    field_simp
  rw [round_eq, Int.floor_eq_iff, hsum]
  constructor
  · rw [le_div_iff₀ (by linarith)]
    have hcast : ((2 * (q * d) : ℤ) : K) ≤ ((2 * n + d : ℤ) : K) := Int.cast_le.2 hlow
    push_cast at hcast
    linarith
  · rw [div_lt_iff₀ (by linarith)]
    have hcast : ((2 * n + d : ℤ) : K) < ((2 * ((q + 1) * d) : ℤ) : K) := Int.cast_lt.2 hhigh
    push_cast at hcast
    linarith

end HalfAway

section HalfEven

def roundHalfEven (x : K) : ℤ :=
  if Int.fract x < 1 / 2 then ⌊x⌋
  else if 1 / 2 < Int.fract x then ⌊x⌋ + 1
  else if Even ⌊x⌋ then ⌊x⌋ else ⌊x⌋ + 1

/-- The rounding of a quotient of natural numbers, by twice the remainder. -/
theorem roundHalfEven_div {n d : ℕ} (hd : 0 < d) : roundHalfEven (n / d : K) =
    if 2 * (n % d) < d then ((n / d : ℕ) : ℤ)
    else if d < 2 * (n % d) then ((n / d + 1 : ℕ) : ℤ)
    else if n / d % 2 = 0 then ((n / d : ℕ) : ℤ) else ((n / d + 1 : ℕ) : ℤ) := by
  have hd' : (0 : K) < d := Nat.cast_pos.2 hd
  have hfloor : ⌊(n / d : K)⌋ = ((n / d : ℕ) : ℤ) := by
    rw [Int.floor_div_natCast, Int.floor_natCast, Int.natCast_div]
  have hfract : Int.fract (n / d : K) = ((n % d : ℕ) : K) / d :=
    Int.fract_div_natCast_eq_div_natCast_mod
  have hless : Int.fract (n / d : K) < 1 / 2 ↔ 2 * (n % d) < d := by
    rw [hfract, div_lt_div_iff₀ hd' two_pos, one_mul, mul_comm]
    exact_mod_cast Iff.rfl
  have hmore : 1 / 2 < Int.fract (n / d : K) ↔ d < 2 * (n % d) := by
    rw [hfract, div_lt_div_iff₀ two_pos hd', one_mul, mul_comm]
    exact_mod_cast Iff.rfl
  have heven : Even ((n / d : ℕ) : ℤ) ↔ n / d % 2 = 0 := by
    rw [Int.even_coe_nat, Nat.even_iff]
  simp only [roundHalfEven, hless, hmore, hfloor, heven, Nat.cast_add, Nat.cast_one]

end HalfEven

end SlipScan.Foundation.Rounding
