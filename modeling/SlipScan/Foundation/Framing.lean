import Mathlib.Data.List.Basic
import Mathlib.Algebra.Group.Nat.Defs

namespace SlipScan.Foundation.Framing

section Numbers

def littleEndian : ℕ → ℕ → List UInt8
  | 0, _ => []
  | width + 1, n => UInt8.ofNat n :: littleEndian width (n / 256)

@[simp]
theorem length_littleEndian (width n : ℕ) : (littleEndian width n).length = width := by
  induction width generalizing n with
  | zero => rfl
  | succ width ih => rw [littleEndian, List.length_cons, ih]

theorem littleEndian_inj {width m n : ℕ} (hm : m < 256 ^ width) (hn : n < 256 ^ width)
    (h : littleEndian width m = littleEndian width n) : m = n := by
  induction width generalizing m n with
  | zero => omega
  | succ width ih =>
    obtain ⟨hlow, hhigh⟩ := List.cons_eq_cons.1 h
    have hdiv : m / 256 = n / 256 := by
      apply ih _ _ hhigh
      · exact Nat.div_lt_of_lt_mul (by rwa [Nat.pow_succ, Nat.mul_comm] at hm)
      · exact Nat.div_lt_of_lt_mul (by rwa [Nat.pow_succ, Nat.mul_comm] at hn)
    have hmod : m % 256 = n % 256 := by
      simpa only [UInt8.toNat_ofNat'] using congrArg UInt8.toNat hlow
    omega

end Numbers

section Fields

variable {α N : Type} {a b x y : List α} {separator : α}

theorem field_inj (ha : separator ∉ a) (hb : separator ∉ b) :
    a ++ separator :: x = b ++ separator :: y ↔ a = b ∧ x = y := by
  constructor
  · intro h
    induction a generalizing b with
    | nil =>
      cases b with
      | nil => exact ⟨rfl, (List.cons_eq_cons.1 h).2⟩
      | cons c b => exact absurd (List.cons_eq_cons.1 h).1 fun heq ↦ hb (heq ▸ List.mem_cons_self)
    | cons c a ih =>
      cases b with
      | nil => exact absurd (List.cons_eq_cons.1 h).1 fun heq ↦ ha (heq ▸ List.mem_cons_self)
      | cons d b =>
        obtain ⟨rfl, htail⟩ := List.cons_eq_cons.1 h
        obtain ⟨hab, hxy⟩ := ih (fun hmem ↦ ha (List.mem_cons_of_mem _ hmem))
          (fun hmem ↦ hb (List.mem_cons_of_mem _ hmem)) htail
        exact ⟨congrArg (c :: ·) hab, hxy⟩
  · rintro ⟨rfl, rfl⟩
    rfl

theorem fixed_inj (hlen : a.length = b.length) : a ++ x = b ++ y ↔ a = b ∧ x = y :=
  ⟨fun h ↦ List.append_inj h hlen, fun ⟨hab, hxy⟩ ↦ hab ▸ hxy ▸ rfl⟩

variable [Zero N] [DecidableEq N] {mark : N → List α} {m n : N}

/-- A text, and behind it the mark of a number unless the number is zero. -/
def marked (mark : N → List α) (text : List α) (n : N) : List α :=
  text ++ if n = 0 then [] else mark n

/-- The text `x` reads as the text `y` with the mark of `n`. -/
def Shadows (mark : N → List α) (x : List α) (m : N) (y : List α) (n : N) : Prop :=
  m = 0 ∧ n ≠ 0 ∧ x = y ++ mark n

/-- A mark that is left out for zero makes a text ambiguous exactly when it ends like a mark. -/
theorem marked_eq_iff {width : ℕ} (hwidth : ∀ n, (mark n).length = width)
    (hmark : ∀ m n, mark m = mark n → m = n) :
    marked mark x m = marked mark y n ↔
      (x = y ∧ m = n) ∨ Shadows mark x m y n ∨ Shadows mark y n x m := by
  unfold marked Shadows
  by_cases hm : m = 0
  · by_cases hn : n = 0
    · simp [hm, hn]
    · have hne : ¬(m = n) := fun heq ↦ hn (heq ▸ hm)
      simp [hm, hn, show ¬(0 = n) from fun heq ↦ hn heq.symm]
  · by_cases hn : n = 0
    · simp [hm, hn, eq_comm]
    · simp only [hm, hn, if_false, false_and, ne_eq, or_false]
      constructor
      · intro h
        obtain ⟨hxy, hmn⟩ := List.append_inj' h (by rw [hwidth, hwidth])
        exact ⟨hxy, hmark m n hmn⟩
      · rintro ⟨rfl, rfl⟩
        rfl

end Fields

end SlipScan.Foundation.Framing
