import SlipScan.Foundation.Rounding
import SlipScan.Ledger.Amounts
import SlipScan.Model.Fx

namespace SlipScan.Arithmetic.Conversion

open Model.Database Model.Money Model.Fx Foundation.Rounding Foundation.Transaction Ledger.Amounts

section Words

variable {dev : Bool} {a b d : ℕ}

theorem arith_of_lt {operation : String} {v : ℕ} (hv : v < 2 ^ 128) :
    U128.arith dev operation v = .ok v :=
  if_pos hv

theorem or_low {bits low : ℕ} (hlow : low < 2 ^ bits) (hbits : bits ≤ 128) (v : ℕ) :
    U128.shl v bits ||| low = v * 2 ^ bits % 2 ^ 128 + low := by
  obtain ⟨rest, hrest⟩ := Nat.exists_eq_add_of_le hbits
  have hshift : U128.shl v bits = (v % 2 ^ rest) <<< bits := by
    rw [U128.shl, Nat.shiftLeft_eq, Nat.shiftLeft_eq, hrest, pow_add, mul_comm (2 ^ bits),
      Nat.mul_mod_mul_right]
  rw [hshift, ← Nat.shiftLeft_add_eq_or_of_lt hlow, ← hshift, U128.shl, Nat.shiftLeft_eq]

theorem mulU128_eq (ha : a < 2 ^ 128) (hb : b < 2 ^ 128) :
    mulU128 dev a b = .ok (a * b / 2 ^ 128, a * b % 2 ^ 128) := by
  have hmask : ∀ v, v &&& maskU64 = v % 2 ^ 64 := fun v ↦ Nat.and_two_pow_sub_one_eq_mod v 64
  have hproduct : a * b = a / 2 ^ 64 * (b / 2 ^ 64) * 2 ^ 128 + a / 2 ^ 64 * (b % 2 ^ 64) * 2 ^ 64 +
      a % 2 ^ 64 * (b / 2 ^ 64) * 2 ^ 64 + a % 2 ^ 64 * (b % 2 ^ 64) := by
    conv_lhs => rw [← Nat.div_add_mod a (2 ^ 64), ← Nat.div_add_mod b (2 ^ 64)]
    ring
  have hpart : ∀ x y : ℕ, x < 2 ^ 64 → y < 2 ^ 64 → x * y ≤ (2 ^ 64 - 1) * (2 ^ 64 - 1) := by
    intro x y hx hy
    exact Nat.mul_le_mul (by omega) (by omega)
  have hll := hpart (a % 2 ^ 64) (b % 2 ^ 64) (by omega) (by omega)
  have hlh := hpart (a % 2 ^ 64) (b / 2 ^ 64) (by omega) (by omega)
  have hhl := hpart (a / 2 ^ 64) (b % 2 ^ 64) (by omega) (by omega)
  have hhh := hpart (a / 2 ^ 64) (b / 2 ^ 64) (by omega) (by omega)
  simp only [mulU128, U128.mul, U128.add, hmask, Nat.shiftRight_eq_div_pow]
  rw [hproduct]
  generalize a % 2 ^ 64 * (b % 2 ^ 64) = ll at *
  generalize a % 2 ^ 64 * (b / 2 ^ 64) = lh at *
  generalize a / 2 ^ 64 * (b % 2 ^ 64) = hl at *
  generalize a / 2 ^ 64 * (b / 2 ^ 64) = hh at *
  simp only [except_bind_eq_ok, except_pure_eq_ok]
  refine ⟨ll, arith_of_lt (by omega), lh, arith_of_lt (by omega), hl,
    arith_of_lt (by omega), hh, arith_of_lt (by omega), _, arith_of_lt (by omega), _,
    arith_of_lt (by omega), _, arith_of_lt (by omega), _, arith_of_lt (by omega), _,
    arith_of_lt (by omega), ?_⟩
  rw [or_low (by omega) (by omega), Prod.mk.injEq]
  omega

theorem divLoop_eq (hd : d ≤ 2 ^ 127) {lo i rem quo : ℕ} (hi : i ≤ 128) (hrem : rem < d)
    (hquo : quo < 2 ^ (128 - i)) :
    divLoop lo d i rem quo = (quo * 2 ^ i + (rem * 2 ^ i + lo % 2 ^ i) / d,
      (rem * 2 ^ i + lo % 2 ^ i) % d) := by
  induction i generalizing rem quo with
  | zero =>
    simp [divLoop, Nat.mod_one, Nat.div_eq_of_lt hrem, Nat.mod_eq_of_lt hrem]
  | succ i ih =>
    have hbit : lo >>> i &&& 1 = lo / 2 ^ i % 2 := by
      rw [Nat.and_one_is_mod, Nat.shiftRight_eq_div_pow]
    have hsplit : lo % 2 ^ (i + 1) = lo / 2 ^ i % 2 * 2 ^ i + lo % 2 ^ i := by
      rw [pow_succ, Nat.mod_mul]
      ring
    have hpow : 2 ^ (128 - i) = 2 * 2 ^ (128 - (i + 1)) := by
      rw [← pow_succ', show 128 - (i + 1) + 1 = 128 - i by omega]
    have hword : 2 ^ (128 - i) ≤ 2 ^ 128 := Nat.pow_le_pow_right (by omega) (by omega)
    have hone : ∀ v bit, v < 2 ^ 127 → bit < 2 → U128.shl v 1 ||| bit = 2 * v + bit := by
      intro v bit hv hbit
      rw [or_low (by simpa using hbit) (by omega)]
      omega
    have hquo' : U128.shl quo 1 = 2 * quo := by
      simpa using hone quo 0 (by omega) (by omega)
    have hnext : rem * 2 ^ (i + 1) + lo % 2 ^ (i + 1) =
        (2 * rem + lo / 2 ^ i % 2) * 2 ^ i + lo % 2 ^ i := by
      rw [hsplit, pow_succ]
      ring
    rw [divLoop, hbit, hone rem _ (by omega) (by omega), hone quo 1 (by omega) (by omega), hquo',
      hnext]
    have hshifted : 2 * rem + lo / 2 ^ i % 2 < 2 * d := by omega
    generalize 2 * rem + lo / 2 ^ i % 2 = shifted at hshifted
    split
    · next hge =>
      obtain ⟨k, rfl⟩ := Nat.exists_eq_add_of_le hge
      have hrest : (d + k) * 2 ^ i + lo % 2 ^ i = k * 2 ^ i + lo % 2 ^ i + d * 2 ^ i := by
        ring
      rw [Nat.add_sub_cancel_left, ih (by omega) (by omega) (by omega), hrest,
        Nat.add_mul_div_left _ _ (by omega), Nat.add_mul_mod_self_left, pow_succ]
      congr 1
      ring
    · next hlt =>
      rw [ih (by omega) (by omega) (by omega), pow_succ]
      congr 1
      ring

theorem divU256ByU128_eq {n : ℕ} (hd : d ≤ 2 ^ 127) (hn : n / 2 ^ 128 < d) :
    divU256ByU128 dev (n / 2 ^ 128) (n % 2 ^ 128) d = .ok (n / d, n % d) := by
  rw [divU256ByU128, if_neg fun hdev ↦ hdev.2 hn, divLoop_eq hd le_rfl hn (by omega), zero_mul,
    zero_add, Nat.mod_mod, mul_comm, Nat.div_add_mod]

end Words

section Conversion

variable {dev : Bool} {amountMinor : ℤ} {rate : Decimal}

def product (amountMinor : ℤ) (rate : Decimal) : ℕ :=
  amountMinor.natAbs * rate.mantissa

/-- The exact value, rounded half to even on its magnitude. -/
def exactConversion (amountMinor : ℤ) (rate : Decimal) : ℤ :=
  amountMinor.sign * roundHalfEven (product amountMinor rate / (10 ^ rate.scale : ℕ) : ℚ)

/-- The conversion gives the exact value where 64 bits hold it and is refused elsewhere. -/
def Converts (dev : Bool) (amountMinor : ℤ) (rate : Decimal) : Prop :=
  convertMinor dev amountMinor rate =
    if -2 ^ 63 ≤ exactConversion amountMinor rate ∧ exactConversion amountMinor rate < 2 ^ 63 then
      .ok (exactConversion amountMinor rate)
    else .error (overflow amountMinor rate)

/-- The exact value lies below `2 ^ 128` and rounds up to it. -/
def RoundsOut (amountMinor : ℤ) (rate : Decimal) : Prop :=
  product amountMinor rate < 2 ^ 128 * 10 ^ rate.scale ∧
    (2 ^ 129 - 1) * 10 ^ rate.scale ≤ 2 * product amountMinor rate

instance : Decidable (RoundsOut amountMinor rate) :=
  inferInstanceAs (Decidable (_ ∧ _))

theorem scale_le (rate : Decimal) : 10 ^ rate.scale ≤ 2 ^ 94 := by
  have hle : 10 ^ rate.scale ≤ 10 ^ 28 := Nat.pow_le_pow_right (by omega) rate.scale_le
  omega

theorem roundQuotient_eq (dev : Bool) {n d : ℕ} (hd : 0 < d) (hd' : d ≤ 2 ^ 94) (hn : n / d < 2 ^ 128) :
    ∃ v : ℕ, roundHalfEven (n / d : ℚ) = v ∧
      roundQuotient dev (n / d) (n % d) d = U128.arith dev "add" v ∧
        (v = 2 ^ 128 ↔ (2 ^ 129 - 1) * d ≤ 2 * n) ∧ v ≤ 2 ^ 128 := by
  have hsplit : d * (n / d) + n % d = n := Nat.div_add_mod n d
  have hrem : n % d < d := Nat.mod_lt n hd
  have hround : (2 ^ 129 - 1) * d ≤ 2 * n ↔ n / d = 2 ^ 128 - 1 ∧ d ≤ 2 * (n % d) := by
    rcases Nat.lt_or_ge (n / d) (2 ^ 128 - 1) with hlt | hge
    · have hmul : d * (n / d) ≤ d * (2 ^ 128 - 2) := Nat.mul_le_mul_left d (by omega)
      omega
    · have hquo : n / d = 2 ^ 128 - 1 := by omega
      rw [hquo] at hsplit
      omega
  rw [roundHalfEven_div hd, hround]
  generalize n / d = q at *
  generalize n % d = r at *
  have hrun : roundQuotient dev q r d = if 2 * r < d then .ok q
      else if d < 2 * r then U128.add dev q 1
      else if q % 2 = 0 then .ok q else U128.add dev q 1 := by
    rw [roundQuotient, U128.mul, mul_comm, arith_of_lt (by omega)]
    rfl
  have hquo : U128.arith dev "add" q = .ok q := arith_of_lt hn
  rw [hrun]
  split_ifs with hless hmore heven
  · exact ⟨q, rfl, hquo.symm, by omega, by omega⟩
  · exact ⟨q + 1, rfl, rfl, by omega, by omega⟩
  · exact ⟨q, rfl, hquo.symm, by omega, by omega⟩
  · exact ⟨q + 1, rfl, rfl, by omega, by omega⟩

theorem convertMinor_eq (hrate : rate.negative = false) (hlow : -2 ^ 63 ≤ amountMinor)
    (hhigh : amountMinor < 2 ^ 63) :
    convertMinor dev amountMinor rate =
      if 2 ^ 128 * 10 ^ rate.scale ≤ product amountMinor rate then
        .error (overflow amountMinor rate)
      else roundQuotient dev (product amountMinor rate / 10 ^ rate.scale)
        (product amountMinor rate % 10 ^ rate.scale) (10 ^ rate.scale) >>=
          withSign amountMinor rate := by
  have hscale := scale_le rate
  have hmantissa := rate.mantissa_lt
  have hd : 0 < 10 ^ rate.scale := by positivity
  have hwide : mulU128 dev amountMinor.natAbs rate.mantissa =
      .ok (product amountMinor rate / 2 ^ 128, product amountMinor rate % 2 ^ 128) :=
    mulU128_eq (by omega) (by omega)
  have hpower : powerOfTen rate.scale = .ok (10 ^ rate.scale) := if_pos (by omega)
  rw [convertMinor, hrate, if_neg Bool.false_ne_true, hpower]
  simp only [hwide, except_ok_bind]
  by_cases hge : 2 ^ 128 * 10 ^ rate.scale ≤ product amountMinor rate
  · have hhi : product amountMinor rate / 2 ^ 128 ≥ 10 ^ rate.scale := by omega
    rw [if_pos hge, if_pos hhi]
  · have hhi : product amountMinor rate / 2 ^ 128 < 10 ^ rate.scale := by omega
    rw [if_neg hge, if_neg (not_le.2 hhi), divU256ByU128_eq (by omega) hhi, except_ok_bind]

theorem withSign_eq {v : ℕ} (hzero : amountMinor = 0 → v = 0) :
    withSign amountMinor rate v =
      if -2 ^ 63 ≤ amountMinor.sign * v ∧ amountMinor.sign * v < 2 ^ 63 then
        .ok (amountMinor.sign * v)
      else .error (overflow amountMinor rate) := by
  rw [withSign]
  rcases lt_trichotomy amountMinor 0 with hneg | heq | hpos
  · rw [if_pos hneg, Int.sign_eq_neg_one_of_neg hneg, neg_one_mul]
    by_cases hv : v > 2 ^ 63
    · rw [if_pos hv, if_neg (by omega)]
    · rw [if_neg hv, if_pos (by omega), asI64_of_mem (by omega) (by omega)]
  · simp [heq, hzero heq]
  · rw [if_neg hpos.not_gt, Int.sign_eq_one_of_pos hpos, one_mul]
    by_cases hv : v < 2 ^ 63
    · rw [if_pos hv, if_pos (by omega)]
    · rw [if_neg hv, if_neg (by omega)]

theorem le_roundHalfEven {n d : ℕ} (hd : 0 < d) : ((n / d : ℕ) : ℤ) ≤ roundHalfEven (n / d : ℚ) := by
  rw [roundHalfEven_div hd]
  split_ifs <;> omega

theorem not_fits {v : ℤ} (hne : amountMinor ≠ 0) (hv : 2 ^ 128 ≤ v) :
    ¬(-2 ^ 63 ≤ amountMinor.sign * v ∧ amountMinor.sign * v < 2 ^ 63) := by
  rcases hne.lt_or_gt with hneg | hpos
  · rw [Int.sign_eq_neg_one_of_neg hneg]
    omega
  · rw [Int.sign_eq_one_of_pos hpos]
    omega

/-- The conversion is exact or refused unless the exact value rounds up to `2 ^ 128`: then the last
addition overflows, which panics in a development build and gives 0 in a release build. -/
theorem convertMinor_exact_iff (dev : Bool) (hrate : rate.negative = false)
    (hlow : -2 ^ 63 ≤ amountMinor) (hhigh : amountMinor < 2 ^ 63) :
    Converts dev amountMinor rate ↔ ¬RoundsOut amountMinor rate := by
  have hd : 0 < 10 ^ rate.scale := by positivity
  have hzero : amountMinor = 0 → product amountMinor rate = 0 := by
    intro heq
    simp [product, heq]
  rw [Converts, convertMinor_eq hrate hlow hhigh, exactConversion, RoundsOut]
  generalize product amountMinor rate = n at *
  by_cases hlarge : 2 ^ 128 * 10 ^ rate.scale ≤ n
  · have hquo : 2 ^ 128 ≤ n / 10 ^ rate.scale := (Nat.le_div_iff_mul_le hd).2 hlarge
    have hround := (Nat.cast_le (α := ℤ)).2 hquo |>.trans (le_roundHalfEven (n := n) hd)
    have hne : amountMinor ≠ 0 := by
      intro heq
      have hn := hzero heq
      omega
    rw [if_pos hlarge, if_neg (not_fits hne hround)]
    exact iff_of_true rfl fun hout ↦ hout.1.not_ge hlarge
  · have hquo : n / 10 ^ rate.scale < 2 ^ 128 := Nat.div_lt_of_lt_mul (by omega)
    obtain ⟨v, hround, hrun, hiff, hle⟩ := roundQuotient_eq dev hd (scale_le rate) hquo
    have hzero' : amountMinor = 0 → v = 0 := by
      intro heq
      simpa [hzero heq, roundHalfEven, eq_comm] using hround
    rw [if_neg hlarge, hround, hrun, ← hiff, and_iff_right (not_le.1 hlarge)]
    by_cases hv : v = 2 ^ 128
    · have hne : amountMinor ≠ 0 := by
        intro heq
        have hzero := hzero' heq
        omega
      rw [if_neg (not_fits hne (by omega)), hv]
      simp only [not_true, iff_false]
      cases dev with
      | true =>
        intro heq
        cases heq
      | false =>
        change withSign amountMinor rate (2 ^ 128 % 2 ^ 128) ≠ _
        rw [Nat.mod_self, withSign_eq fun _ ↦ rfl]
        simp
    · rw [arith_of_lt (by omega), except_ok_bind, withSign_eq hzero']
      exact iff_of_true rfl hv

/-- A tenth of 25 is 2.5, which goes to the even 2. -/
theorem convertMinor_exact_of_tie :
    Converts false 25 ⟨false, 1, 1, by decide, by decide⟩ :=
  (convertMinor_exact_iff false rfl (by decide) (by decide)).2 (by decide)

def edgeRate : Decimal :=
  ⟨false, 52854346876196097291318890977, 3, by decide, by decide⟩

/-- The release build makes nothing of an amount that is far too large for 64 bits. -/
theorem convertMinor_wraps :
    ¬∀ (dev : Bool) (amountMinor : ℤ) (rate : Decimal), rate.negative = false →
      -2 ^ 63 ≤ amountMinor → amountMinor < 2 ^ 63 → Converts dev amountMinor rate := by
  intro hclaim
  have hconverts := hclaim false 6438115065881 edgeRate rfl (by decide) (by decide)
  have hrun : convertMinor false 6438115065881 edgeRate = .ok 0 := by decide +kernel
  have hround := le_roundHalfEven (n := product 6438115065881 edgeRate) (d := 10 ^ 3) (by decide)
  have hquo : product 6438115065881 edgeRate / 10 ^ 3 = 2 ^ 128 - 1 := by decide
  rw [hquo] at hround
  rw [Converts, hrun] at hconverts
  split at hconverts
  · have hexact := Except.ok.inj hconverts
    rw [exactConversion, Int.sign_eq_one_of_pos (by decide), one_mul] at hexact
    change 0 = roundHalfEven (_ / ((10 ^ 3 : ℕ) : ℚ)) at hexact
    omega
  · cases hconverts

end Conversion

end SlipScan.Arithmetic.Conversion
