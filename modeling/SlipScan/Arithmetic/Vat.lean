import SlipScan.Foundation.Rounding
import SlipScan.Ledger.Amounts
import Mathlib.Order.SuccPred.Basic
import Mathlib.Order.Monotone.Basic
import Mathlib.Tactic.Positivity

namespace SlipScan.Arithmetic.Vat

open Model.Money Foundation.Rounding Ledger.Amounts

section Division

def IsI64 (v : ℤ) : Prop :=
  -2 ^ 63 ≤ v ∧ v < 2 ^ 63

def IsI128 (v : ℤ) : Prop :=
  -2 ^ 127 ≤ v ∧ v < 2 ^ 127

variable {n d : ℤ}

/-- The quotient of the rounding division before it is cut to 64 bits. -/
def roundedQuotient (n d : ℤ) : ℤ :=
  if n ≥ 0 then (n + d.tdiv 2).tdiv d else (n - d.tdiv 2).tdiv d

theorem divRoundHalfAway_eq_asI64 (n d : ℤ) : divRoundHalfAway n d = asI64 (roundedQuotient n d) :=
  (apply_ite asI64 _ _ _).symm

theorem roundedQuotient_eq (hd : 0 < d) : roundedQuotient n d = roundHalfAway (n / d : ℚ) := by
  have hd' : (0 : ℚ) < d := Int.cast_pos.2 hd
  have hhalf : d.tdiv 2 = d / 2 := Int.tdiv_eq_ediv_of_nonneg hd.le
  rw [roundedQuotient, hhalf]
  split
  · next hn =>
    have hx : (0 : ℚ) ≤ n / d := div_nonneg (Int.cast_nonneg hn) hd'.le
    rw [Int.tdiv_eq_ediv_of_nonneg (by omega), roundHalfAway_of_nonneg hx, round_div hd]
  · next hn =>
    have hx : (n / d : ℚ) ≤ 0 := div_nonpos_of_nonpos_of_nonneg (Int.cast_nonpos.2 (by omega)) hd'.le
    have hneg : n - d / 2 = -(-n + d / 2) := by omega
    rw [hneg, Int.neg_tdiv, Int.tdiv_eq_ediv_of_nonneg (by omega), roundHalfAway_of_nonpos hx,
      ← neg_div, ← Int.cast_neg, round_div hd]

/-- A division of 128-bit values in which no sum overflows and whose result fits 64 bits. -/
structure Lossless (n d : ℤ) : Prop where
  numerator : IsI128 n
  denominator : IsI128 d
  sum : IsI128 (if n ≥ 0 then n + d.tdiv 2 else n - d.tdiv 2)
  quotient : IsI64 (roundedQuotient n d)

theorem divRoundHalfAway_eq (hd : 0 < d) (hloss : Lossless n d) :
    divRoundHalfAway n d = roundHalfAway (n / d : ℚ) := by
  rw [divRoundHalfAway_eq_asI64, asI64_of_mem hloss.quotient.1 hloss.quotient.2,
    roundedQuotient_eq hd]

end Division

section Shares

def share (part whole amount : ℤ) : ℤ :=
  roundHalfAway ((amount * part : ℤ) / whole : ℚ)

variable {part whole : ℤ} (hpart : 0 ≤ part) (hwhole : part ≤ whole) (hpos : 0 < whole)

theorem share_neg (amount : ℤ) : share part whole (-amount) = -share part whole amount := by
  rw [share, neg_mul, Int.cast_neg, neg_div, roundHalfAway_neg, share]

include hpart hpos in
theorem share_mono : Monotone (share part whole) := by
  intro amount amount' hle
  have hpos' : (0 : ℚ) < whole := Int.cast_pos.2 hpos
  have hmul : ((amount * part : ℤ) : ℚ) ≤ ((amount' * part : ℤ) : ℚ) :=
    Int.cast_le.2 (mul_le_mul_of_nonneg_right hle hpart)
  exact roundHalfAway_mono (div_le_div_of_nonneg_right hmul hpos'.le)

theorem share_zero : share part whole 0 = 0 := by
  simp [share, roundHalfAway_zero]

include hpart hpos in
theorem share_nonneg {amount : ℤ} (hamount : 0 ≤ amount) : 0 ≤ share part whole amount := by
  have hmono := share_mono hpart hpos hamount
  rwa [share_zero] at hmono

include hwhole hpos in
theorem share_le {amount : ℤ} (hamount : 0 ≤ amount) : share part whole amount ≤ amount := by
  have hpos' : (0 : ℚ) < whole := Int.cast_pos.2 hpos
  refine roundHalfAway_le ?_
  rw [div_le_iff₀ hpos', ← Int.cast_mul, Int.cast_le]
  exact mul_le_mul_of_nonneg_left hwhole hamount

include hpart hwhole hpos in
theorem share_succ_le (amount : ℤ) : share part whole (amount + 1) ≤ share part whole amount + 1 := by
  have hpos' : (0 : ℚ) < whole := Int.cast_pos.2 hpos
  have hratio : (0 : ℚ) ≤ part / whole := div_nonneg (Int.cast_nonneg hpart) hpos'.le
  have hratio' : (part / whole : ℚ) ≤ 1 := (div_le_one hpos').2 (Int.cast_le.2 hwhole)
  have hstep : ∀ k : ℤ, 0 ≤ k → share part whole (k + 1) ≤ share part whole k + 1 := by
    intro k hk
    have hx : (0 : ℚ) ≤ (k * part : ℤ) / whole :=
      div_nonneg (Int.cast_nonneg (mul_nonneg hk hpart)) hpos'.le
    have hsum : (((k + 1) * part : ℤ) / whole : ℚ) = (k * part : ℤ) / whole + part / whole := by
      rw [add_mul, one_mul, Int.cast_add, add_div]
    rw [share, hsum]
    exact roundHalfAway_add_le hx hratio hratio'
  rcases lt_or_ge amount 0 with hneg | hnonneg
  · have hmirror := hstep (-(amount + 1)) (by omega)
    rw [show -(amount + 1) + 1 = -amount by omega, share_neg, share_neg] at hmirror
    omega
  · exact hstep amount hnonneg

include hpart hwhole hpos in
theorem rest_mono : Monotone fun amount ↦ amount - share part whole amount := by
  refine monotone_int_of_le_succ fun amount ↦ ?_
  have hstep := share_succ_le hpart hwhole hpos amount
  omega

include hpart hwhole hpos in
theorem share_between (amount : ℤ) :
    (0 ≤ amount → 0 ≤ share part whole amount ∧ share part whole amount ≤ amount) ∧
      (amount ≤ 0 → amount ≤ share part whole amount ∧ share part whole amount ≤ 0) := by
  refine ⟨fun hle ↦ ⟨share_nonneg hpart hpos hle, share_le hwhole hpos hle⟩, fun hle ↦ ?_⟩
  have hlow := share_le hwhole hpos (neg_nonneg.2 hle)
  have hhigh := share_nonneg hpart hpos (neg_nonneg.2 hle)
  rw [share_neg] at hlow hhigh
  omega

include hpart hwhole hpos in
theorem lossless_share {amount : ℤ} (hamount : IsI64 amount) (hword : part < 2 ^ 63)
    (hword' : whole < 2 ^ 64) : Lossless (amount * part) whole := by
  obtain ⟨hlow, hhigh⟩ := hamount
  have hmul : -(2 ^ 63 * 2 ^ 63) ≤ amount * part ∧ amount * part ≤ 2 ^ 63 * 2 ^ 63 := by
    have habs : |amount * part| ≤ 2 ^ 63 * 2 ^ 63 := by
      rw [abs_mul]
      exact mul_le_mul (abs_le.2 ⟨hlow, hhigh.le⟩) (abs_le.2 ⟨by omega, hword.le⟩) (abs_nonneg _)
        (by omega)
    exact abs_le.1 habs
  have hhalf : whole.tdiv 2 = whole / 2 := Int.tdiv_eq_ediv_of_nonneg hpos.le
  have hbetween := share_between hpart hwhole hpos amount
  refine ⟨⟨by omega, by omega⟩, ⟨by omega, by omega⟩, ?_, ?_⟩
  · rw [hhalf]
    split
    · exact ⟨by omega, by omega⟩
    · exact ⟨by omega, by omega⟩
  · rw [roundedQuotient_eq hpos]
    change IsI64 (share part whole amount)
    exact ⟨by omega, by omega⟩

theorem divRoundHalfAway_share {amount : ℤ} (hpos : 0 < whole)
    (hloss : Lossless (amount * part) whole) :
    divRoundHalfAway (amount * part) whole = share part whole amount :=
  divRoundHalfAway_eq hpos hloss

end Shares

section Laws

variable {rateBps grossMinor netMinor : ℤ}

/-- The laws of the split of one gross amount. -/
structure SplitLaws (rateBps grossMinor : ℤ) : Prop where
  vat : vatFromInclusive grossMinor rateBps =
    roundHalfAway ((grossMinor * rateBps : ℤ) / (10000 + rateBps : ℤ) : ℚ)
  parts : (splitInclusive grossMinor rateBps).2 = vatFromInclusive grossMinor rateBps
  sum : (splitInclusive grossMinor rateBps).1 + (splitInclusive grossMinor rateBps).2 = grossMinor
  nonneg : 0 ≤ grossMinor →
    (0 ≤ (splitInclusive grossMinor rateBps).1 ∧
      (splitInclusive grossMinor rateBps).1 ≤ grossMinor) ∧
    0 ≤ (splitInclusive grossMinor rateBps).2 ∧ (splitInclusive grossMinor rateBps).2 ≤ grossMinor
  nonpos : grossMinor ≤ 0 →
    (grossMinor ≤ (splitInclusive grossMinor rateBps).1 ∧
      (splitInclusive grossMinor rateBps).1 ≤ 0) ∧
    grossMinor ≤ (splitInclusive grossMinor rateBps).2 ∧ (splitInclusive grossMinor rateBps).2 ≤ 0
  lossless : Lossless (grossMinor * rateBps) (10000 + rateBps)
  difference : IsI64 (grossMinor - vatFromInclusive grossMinor rateBps)

theorem splitInclusive_eq (hrate : 0 < rateBps) (hrate' : rateBps < 2 ^ 63)
    (hgross : IsI64 grossMinor) :
    Lossless (grossMinor * rateBps) (10000 + rateBps) ∧
      vatFromInclusive grossMinor rateBps = share rateBps (10000 + rateBps) grossMinor ∧
      splitInclusive grossMinor rateBps =
        (grossMinor - share rateBps (10000 + rateBps) grossMinor,
          share rateBps (10000 + rateBps) grossMinor) := by
  have hloss : Lossless (grossMinor * rateBps) (10000 + rateBps) :=
    lossless_share hrate.le (by omega) (by omega) hgross hrate' (by omega)
  have hvat : vatFromInclusive grossMinor rateBps = share rateBps (10000 + rateBps) grossMinor := by
    rw [vatFromInclusive, if_neg hrate.not_ge]
    exact divRoundHalfAway_share (by omega) hloss
  have hbetween := share_between hrate.le (by omega : rateBps ≤ 10000 + rateBps) (by omega)
    grossMinor
  obtain ⟨hlow, hhigh⟩ := hgross
  refine ⟨hloss, hvat, ?_⟩
  rw [splitInclusive, hvat, asI64_of_mem (by omega) (by omega)]

theorem splitLaws (hrate : 0 < rateBps) (hrate' : rateBps < 2 ^ 63) (hgross : IsI64 grossMinor) :
    SplitLaws rateBps grossMinor := by
  obtain ⟨hloss, hvat, hsplit⟩ := splitInclusive_eq hrate hrate' hgross
  have hbetween := share_between hrate.le (by omega : rateBps ≤ 10000 + rateBps) (by omega)
    grossMinor
  obtain ⟨hlow, hhigh⟩ := hgross
  exact
    { vat := hvat
      parts := rfl
      sum := by rw [hsplit, sub_add_cancel]
      nonneg := by
        rw [hsplit]
        omega
      nonpos := by
        rw [hsplit]
        omega
      lossless := hloss
      difference := by
        rw [hvat]
        exact ⟨by omega, by omega⟩ }

theorem splitInclusive_neg (hrate : 0 < rateBps) (hrate' : rateBps < 2 ^ 63)
    (hgross : IsI64 grossMinor) (hneg : IsI64 (-grossMinor)) :
    splitInclusive (-grossMinor) rateBps =
      (-(splitInclusive grossMinor rateBps).1, -(splitInclusive grossMinor rateBps).2) := by
  obtain ⟨-, -, hsplit⟩ := splitInclusive_eq hrate hrate' hgross
  obtain ⟨-, -, hsplit'⟩ := splitInclusive_eq hrate hrate' hneg
  rw [hsplit', hsplit, share_neg, Prod.mk.injEq]
  omega

theorem splitInclusive_mono (hrate : 0 < rateBps) (hrate' : rateBps < 2 ^ 63) {grossMinor' : ℤ}
    (hgross : IsI64 grossMinor) (hgross' : IsI64 grossMinor') (hle : grossMinor ≤ grossMinor') :
    splitInclusive grossMinor rateBps ≤ splitInclusive grossMinor' rateBps := by
  obtain ⟨-, -, hsplit⟩ := splitInclusive_eq hrate hrate' hgross
  obtain ⟨-, -, hsplit'⟩ := splitInclusive_eq hrate hrate' hgross'
  rw [hsplit, hsplit']
  exact ⟨rest_mono hrate.le (by omega) (by omega) hle, share_mono hrate.le (by omega) hle⟩

theorem vatOnNet_eq (hrate : 0 ≤ rateBps) (hrate' : rateBps ≤ 10000) (hnet : IsI64 netMinor) :
    vatOnNet netMinor rateBps = roundHalfAway ((netMinor * rateBps : ℤ) / (10000 : ℤ) : ℚ) ∧
      Lossless (netMinor * rateBps) 10000 := by
  have hloss : Lossless (netMinor * rateBps) 10000 :=
    lossless_share hrate hrate' (by omega) hnet (by omega) (by omega)
  refine ⟨?_, hloss⟩
  rw [vatOnNet]
  split
  · next hle =>
    obtain rfl : rateBps = 0 := by omega
    simp [roundHalfAway_zero]
  · exact divRoundHalfAway_share (by omega) hloss

/-- Tax is rounded half away from zero, splits add up, keep the sign and the order of the gross,
and nothing on the way is cut off. -/
theorem vat_laws :
    (∀ rateBps, 0 < rateBps → rateBps < 2 ^ 63 →
      (∀ grossMinor, IsI64 grossMinor → SplitLaws rateBps grossMinor) ∧
      (∀ grossMinor, IsI64 grossMinor → IsI64 (-grossMinor) →
        splitInclusive (-grossMinor) rateBps =
          (-(splitInclusive grossMinor rateBps).1, -(splitInclusive grossMinor rateBps).2)) ∧
      ∀ grossMinor grossMinor', IsI64 grossMinor → IsI64 grossMinor' → grossMinor ≤ grossMinor' →
        splitInclusive grossMinor rateBps ≤ splitInclusive grossMinor' rateBps) ∧
    ∀ rateBps, 0 ≤ rateBps → rateBps ≤ 10000 → ∀ netMinor, IsI64 netMinor →
      vatOnNet netMinor rateBps = roundHalfAway ((netMinor * rateBps : ℤ) / (10000 : ℤ) : ℚ) ∧
        Lossless (netMinor * rateBps) 10000 := by
  refine ⟨fun rateBps hrate hrate' ↦ ⟨fun grossMinor hgross ↦ splitLaws hrate hrate' hgross, ?_, ?_⟩,
    fun rateBps hrate hrate' netMinor hnet ↦ vatOnNet_eq hrate hrate' hnet⟩
  · intro grossMinor hgross hneg
    exact splitInclusive_neg hrate hrate' hgross hneg
  · intro grossMinor grossMinor' hgross hgross' hle
    exact splitInclusive_mono hrate hrate' hgross hgross' hle

/-- Of 27 at 15 % 3.52 are tax. -/
theorem vat_laws_of_credit_note :
    SplitLaws 1500 27 ∧ splitInclusive (-27) 1500 = (-23, -4) ∧
      splitInclusive 26 1500 ≤ splitInclusive 27 1500 ∧
      vatOnNet 333 1500 = roundHalfAway ((333 * 1500 : ℤ) / (10000 : ℤ) : ℚ) := by
  obtain ⟨hsplits, hneg, hmono⟩ := vat_laws.1 1500 (by decide) (by decide)
  refine ⟨hsplits 27 ⟨by decide, by decide⟩, ?_, ?_, ?_⟩
  · exact hneg 27 ⟨by decide, by decide⟩ ⟨by decide, by decide⟩
  · exact hmono 26 27 ⟨by decide, by decide⟩ ⟨by decide, by decide⟩ (by decide)
  · exact (vat_laws.2 1500 (by decide) (by decide) 333 ⟨by decide, by decide⟩).1

end Laws

end SlipScan.Arithmetic.Vat
