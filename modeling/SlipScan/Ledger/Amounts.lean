import SlipScan.Ledger.Soundness
import Mathlib.Algebra.Order.BigOperators.Group.List
import Mathlib.Tactic.NormNum

namespace SlipScan.Ledger.Amounts

open Model.Database Model.Money Foundation.Transaction Soundness

section Wrapping

theorem asI64_of_mem {v : ℤ} (hlow : -2 ^ 63 ≤ v) (hhigh : v < 2 ^ 63) : asI64 v = v := by
  apply Int.bmod_eq_of_le
  · norm_num
    omega
  · norm_num
    omega

@[simp]
theorem asI64_add_left (a b : ℤ) : asI64 (asI64 a + b) = asI64 (a + b) := by
  rw [asI64, asI64, Int.bmod_add_bmod, asI64]

@[simp]
theorem asI64_add_right (a b : ℤ) : asI64 (a + asI64 b) = asI64 (a + b) := by
  rw [add_comm, asI64_add_left, add_comm]

@[simp]
theorem asI64_sub (a b : ℤ) : asI64 (asI64 a - asI64 b) = asI64 (a - b) := by
  rw [asI64, asI64, asI64, asI64, Int.bmod_sub_bmod, Int.sub_bmod_bmod]

@[simp]
theorem asI64_zero : asI64 0 = 0 := rfl

theorem asI64_add_add (a b c : ℤ) :
    asI64 (asI64 a + asI64 b + asI64 c) = asI64 (a + b + c) := by
  have hinner : asI64 (asI64 a + asI64 b) = asI64 (a + b) := by simp
  rw [asI64_add_right, ← asI64_add_left, hinner, asI64_add_left]

theorem asI64_mem (v : ℤ) : -2 ^ 63 ≤ asI64 v ∧ asI64 v < 2 ^ 63 := by
  have hle := Int.le_bmod (x := v) (m := 2 ^ 64) (by norm_num)
  have hlt := Int.bmod_lt (x := v) (m := 2 ^ 64) (by norm_num)
  norm_num at hle hlt
  rw [asI64]
  norm_num
  omega

theorem sumI64_eq (l : List ℤ) : sumI64 l = asI64 l.sum := by
  have hfold : ∀ acc, l.foldl (fun acc v ↦ asI64 (acc + v)) (asI64 acc) = asI64 (acc + l.sum) := by
    induction l with
    | nil => simp
    | cons v l ih =>
      intro acc
      rw [List.foldl_cons, asI64_add_left, ih, List.sum_cons, add_assoc]
  simpa [sumI64] using hfold 0

end Wrapping

section Columns

theorem sqlSum_mem {l : List ℤ} {v : ℤ} (hv : sqlSum l = .ok v) : -2 ^ 63 ≤ v ∧ v < 2 ^ 63 := by
  have hfold : ∀ (l : List ℤ) (acc v : ℤ), -2 ^ 63 ≤ acc ∧ acc < 2 ^ 63 → l.foldlM (fun acc v ↦
      if -2 ^ 63 ≤ acc + v ∧ acc + v < 2 ^ 63 then Except.ok (acc + v)
      else .error (Fault.sqlite "integer overflow")) acc = .ok v → -2 ^ 63 ≤ v ∧ v < 2 ^ 63 := by
    intro l
    induction l with
    | nil =>
      intro acc v hacc hv
      obtain rfl : acc = v := by simpa [pure, Except.pure] using hv
      exact hacc
    | cons x l ih =>
      intro acc v hacc hv
      rw [List.foldlM_cons, except_bind_eq_ok] at hv
      obtain ⟨acc', hacc', hv⟩ := hv
      split at hacc'
      · obtain rfl := Except.ok.inj hacc'
        exact ih _ _ ‹_› hv
      · cases hacc'
  exact hfold l 0 v (by norm_num) hv

/-- A column without negative values adds up as long as its sum fits. -/
theorem sqlSum_of_nonneg {l : List ℤ} (hl : ∀ v ∈ l, 0 ≤ v) (hsum : l.sum < 2 ^ 63) :
    sqlSum l = .ok l.sum := by
  have hfold : ∀ (l : List ℤ) (acc : ℤ), 0 ≤ acc → (∀ v ∈ l, 0 ≤ v) → acc + l.sum < 2 ^ 63 →
      l.foldlM (fun acc v ↦
        if -2 ^ 63 ≤ acc + v ∧ acc + v < 2 ^ 63 then Except.ok (acc + v)
        else .error (Fault.sqlite "integer overflow")) acc = .ok (acc + l.sum) := by
    intro l
    induction l with
    | nil => simp [pure, Except.pure]
    | cons x l ih =>
      intro acc hacc hl hsum
      rw [List.forall_mem_cons] at hl
      have hrest : 0 ≤ l.sum := List.sum_nonneg hl.2
      rw [List.sum_cons] at hsum ⊢
      rw [List.foldlM_cons, if_pos (by omega), ← add_assoc]
      exact ih (acc + x) (by omega) hl.2 (by omega)
  have hall := hfold l 0 le_rfl hl (by rwa [zero_add])
  rw [zero_add] at hall
  exact hall

/-- A column adds up as long as every sum along the way fits. -/
theorem sqlSum_of_prefixes {l : List ℤ}
    (hl : ∀ l', l' <+: l → -2 ^ 63 ≤ l'.sum ∧ l'.sum < 2 ^ 63) : sqlSum l = .ok l.sum := by
  have hfold : ∀ (l : List ℤ) (acc : ℤ),
      (∀ l', l' <+: l → -2 ^ 63 ≤ acc + l'.sum ∧ acc + l'.sum < 2 ^ 63) →
      l.foldlM (fun acc v ↦
        if -2 ^ 63 ≤ acc + v ∧ acc + v < 2 ^ 63 then Except.ok (acc + v)
        else .error (Fault.sqlite "integer overflow")) acc = .ok (acc + l.sum) := by
    intro l
    induction l with
    | nil => simp [pure, Except.pure]
    | cons x l ih =>
      intro acc hl
      have hhead := hl [x] (List.prefix_append [x] l)
      rw [List.sum_singleton] at hhead
      rw [List.foldlM_cons, if_pos hhead, List.sum_cons, ← add_assoc]
      apply ih (acc + x)
      intro l' hprefix
      have hcons := hl (x :: l') (List.cons_prefix_cons.2 ⟨rfl, hprefix⟩)
      rwa [List.sum_cons, ← add_assoc] at hcons
  have hall := hfold l 0 (by simpa only [zero_add] using hl)
  rw [zero_add] at hall
  exact hall

end Columns

end SlipScan.Ledger.Amounts
