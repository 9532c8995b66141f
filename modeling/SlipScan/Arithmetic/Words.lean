import SlipScan.Arithmetic.Vat
import SlipScan.Foundation.Accumulation
import Mathlib.Data.ZMod.Basic

namespace SlipScan.Arithmetic.Words

open Model.Money Foundation.Grouping Ledger.Amounts Vat

def word (v : ℤ) : ZMod (2 ^ 64) :=
  v

variable {α κ : Type} [DecidableEq κ] {v v' : ℤ}

instance (v : ℤ) : Decidable (IsI64 v) :=
  inferInstanceAs (Decidable (_ ∧ _))

theorem word_add (v v' : ℤ) : word (v + v') = word v + word v' :=
  Int.cast_add v v'

theorem word_sub (v v' : ℤ) : word (v - v') = word v - word v' :=
  Int.cast_sub v v'

theorem word_asI64 (v : ℤ) : word (asI64 v) = word v :=
  (ZMod.intCast_eq_intCast_iff' _ _ _).2 Int.bmod_emod

theorem isI64_asI64 (v : ℤ) : IsI64 (asI64 v) :=
  asI64_mem v

theorem eq_of_word_eq (hv : IsI64 v) (hv' : IsI64 v') (hword : word v = word v') : v = v' := by
  have hmod : v % ((2 ^ 64 : ℕ) : ℤ) = v' % ((2 ^ 64 : ℕ) : ℤ) :=
    (ZMod.intCast_eq_intCast_iff' v v' _).1 hword
  have hbmod : asI64 v = asI64 v' := by
    rw [asI64, asI64, ← Int.emod_bmod, hmod, Int.emod_bmod]
  rwa [asI64_of_mem hv.1 hv.2, asI64_of_mem hv'.1 hv'.2] at hbmod

theorem asI64_eq_iff : asI64 v = asI64 v' ↔ word v = word v' := by
  constructor
  · intro heq
    rw [← word_asI64, heq, word_asI64]
  · intro hword
    apply eq_of_word_eq (isI64_asI64 v) (isI64_asI64 v')
    rw [word_asI64, word_asI64, hword]

theorem word_sum (f : α → ℤ) (l : List α) :
    word (l.map f).sum = (l.map fun a ↦ word (f a)).sum := by
  induction l with
  | nil => exact Int.cast_zero
  | cons a l ih => rw [List.map_cons, List.sum_cons, word_add, ih, List.map_cons, List.sum_cons]

theorem word_groupSum (key : α → κ) (f : α → ℤ) (l : List α) (k : κ) :
    groupSum key (fun a ↦ word (f a)) l k = word (groupSum key f l k) := by
  exact (word_sum f _).symm

end SlipScan.Arithmetic.Words
