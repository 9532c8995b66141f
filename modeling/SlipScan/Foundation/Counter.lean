import Mathlib.Data.List.Basic
import Mathlib.Data.List.Infix
import Mathlib.Data.Int.Notation
import Mathlib.Data.Nat.Notation

namespace SlipScan.Foundation.Counter

/-- The numbers that a series has given to its documents, and the next one it hands out. -/
structure Series where
  issued : List ℤ
  next : ℤ

/-- What becomes of the next number: it stays, a document of the series gets it, or it is lost to
something else. -/
inductive Use
  | keep
  | issue
  | lose
  deriving DecidableEq

def Series.after (s : Series) : Use → Series
  | .keep => s
  | .issue => ⟨s.issued ++ [s.next], s.next + 1⟩
  | .lose => ⟨s.issued, s.next + 1⟩

def Series.start : Series :=
  ⟨[], 1⟩

/-- The numbers 1 to n, each used once, with n the number of documents. -/
def Gapless (numbers : List ℤ) : Prop :=
  numbers = (List.range numbers.length).map fun n : ℕ ↦ (n : ℤ) + 1

instance (numbers : List ℤ) : Decidable (Gapless numbers) :=
  inferInstanceAs (Decidable (_ = _))

theorem gapless_nil : Gapless [] :=
  rfl

theorem gapless_concat {numbers : List ℤ} {n : ℤ} :
    Gapless (numbers ++ [n]) ↔ Gapless numbers ∧ n = numbers.length + 1 := by
  have hlength : (numbers ++ [n]).length = numbers.length + 1 := by simp
  rw [Gapless, hlength, List.range_succ, List.map_append, List.map_singleton,
    List.append_singleton_inj]
  rfl

variable {f : ℕ → Series} {use : ℕ → Use}

theorem next_gt (h₀ : f 0 = .start) (hstep : ∀ k, f (k + 1) = (f k).after (use k)) (n : ℕ) :
    ((f n).issued.length : ℤ) + 1 ≤ (f n).next ∧
      (∀ k < n, use k = .lose → ((f n).issued.length : ℤ) + 1 < (f n).next) := by
  induction n with
  | zero => simp [h₀, Series.start]
  | succ n ih =>
    obtain ⟨hle, hlost⟩ := ih
    have hearlier : ∀ k < n + 1, use k = .lose → k = n ∨ k < n := by
      intro k hk _
      omega
    rw [hstep n]
    cases huse : use n with
    | keep =>
      refine ⟨hle, fun k hk hlose ↦ ?_⟩
      rcases hearlier k hk hlose with rfl | hk'
      · simp [huse] at hlose
      · exact hlost k hk' hlose
    | issue =>
      simp only [Series.after, List.length_append, List.length_singleton]
      refine ⟨by omega, fun k hk hlose ↦ ?_⟩
      rcases hearlier k hk hlose with rfl | hk'
      · simp [huse] at hlose
      · have hlt := hlost k hk' hlose
        omega
    | lose =>
      simp only [Series.after]
      exact ⟨by omega, fun _ _ _ ↦ by omega⟩

/-- A series is numbered without a gap exactly when no number was lost before a document got
one. -/
theorem gapless_iff (h₀ : f 0 = .start) (hstep : ∀ k, f (k + 1) = (f k).after (use k)) (n : ℕ) :
    Gapless (f n).issued ↔ ∀ i j, i < j → j < n → use i = .lose → use j ≠ .issue := by
  have hcounted : ∀ n, (∀ i < n, use i ≠ .lose) →
      (f n).next = ((f n).issued.length : ℤ) + 1 := by
    intro n
    induction n with
    | zero => simp [h₀, Series.start]
    | succ n ih =>
      intro hnone
      have hnext := ih fun i hi ↦ hnone i (by omega)
      rw [hstep n]
      cases huse : use n with
      | keep => exact hnext
      | issue => simp [Series.after, hnext]
      | lose => exact absurd huse (hnone n (by omega))
  induction n with
  | zero => simp [h₀, Series.start, gapless_nil]
  | succ n ih =>
    have hsplit : (∀ i j, i < j → j < n + 1 → use i = .lose → use j ≠ .issue) ↔
        (∀ i j, i < j → j < n → use i = .lose → use j ≠ .issue) ∧
          (use n = .issue → ∀ i < n, use i ≠ .lose) := by
      constructor
      · intro hall
        exact ⟨fun i j hij hj ↦ hall i j hij (by omega),
          fun hissue i hi hlose ↦ hall i n hi (by omega) hlose hissue⟩
      · rintro ⟨hbefore, hlast⟩ i j hij hj hlose hissue
        rcases (by omega : j < n ∨ j = n) with hj' | rfl
        · exact hbefore i j hij hj' hlose hissue
        · exact hlast hissue i hij hlose
    rw [hstep n]
    refine Iff.trans ?_ ((and_congr_left' ih).trans hsplit.symm)
    cases huse : use n with
    | keep => simp [Series.after]
    | lose => simp [Series.after]
    | issue =>
      simp only [Series.after, gapless_concat, true_imp_iff]
      refine and_congr_right fun _ ↦ ⟨fun hnext i hi hlose ↦ ?_, fun hnone ↦ hcounted n hnone⟩
      have hlt := (next_gt h₀ hstep n).2 i hi hlose
      omega

end SlipScan.Foundation.Counter
