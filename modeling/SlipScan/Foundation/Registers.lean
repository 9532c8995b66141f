import Mathlib.Data.List.Basic
import Mathlib.Order.Basic
import Mathlib.Order.Lattice

namespace SlipScan.Foundation.Registers

/-! A log of stamped writes, each to one register. The write with the greatest stamp wins. -/

variable {ω κ σ : Type} [LinearOrder σ]

def latest (stamp : ω → σ) : List ω → Option ω
  | [] => none
  | w :: log =>
    match latest stamp log with
    | none => some w
    | some v => if stamp v < stamp w then some w else some v

def winner [DecidableEq κ] (stamp : ω → σ) (register : ω → κ) (log : List ω) (k : κ) : Option ω :=
  latest stamp (log.filter fun w ↦ register w = k)

variable {stamp : ω → σ} {log : List ω} {w : ω}

theorem latest_concat (hw : ∀ v ∈ log, stamp v < stamp w) : latest stamp (log ++ [w]) = some w := by
  induction log with
  | nil => rfl
  | cons v log ih =>
    have htail := ih fun u hu ↦ hw u (List.mem_cons_of_mem v hu)
    have hlt := hw v (List.mem_cons_self ..)
    rw [List.cons_append, latest, htail]
    exact if_neg (not_lt.2 hlt.le)

theorem mem_of_latest (hw : latest stamp log = some w) : w ∈ log := by
  induction log generalizing w with
  | nil => cases hw
  | cons v log ih =>
    rw [latest] at hw
    cases hlatest : latest stamp log with
    | none =>
      rw [hlatest, Option.some.injEq] at hw
      exact hw ▸ List.mem_cons_self ..
    | some u =>
      simp only [hlatest] at hw
      split at hw
      · exact Option.some.inj hw ▸ List.mem_cons_self ..
      · exact Option.some.inj hw ▸ List.mem_cons_of_mem _ (ih hlatest)

variable [DecidableEq κ] {register : ω → κ} {k : κ}

theorem winner_concat_self (hw : ∀ v ∈ log, stamp v < stamp w) (hk : register w = k) :
    winner stamp register (log ++ [w]) k = some w := by
  rw [winner, List.filter_append, List.filter_cons_of_pos (by simpa using hk), List.filter_nil]
  exact latest_concat fun v hv ↦ hw v (List.mem_of_mem_filter hv)

theorem winner_concat_of_ne (hk : register w ≠ k) :
    winner stamp register (log ++ [w]) k = winner stamp register log k := by
  rw [winner, winner, List.filter_append, List.filter_cons_of_neg (by simpa using hk),
    List.filter_nil, List.append_nil]

theorem mem_of_winner (hw : winner stamp register log k = some w) : w ∈ log ∧ register w = k := by
  simpa using mem_of_latest hw

end SlipScan.Foundation.Registers
