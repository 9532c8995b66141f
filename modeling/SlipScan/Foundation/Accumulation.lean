import SlipScan.Foundation.Grouping
import Mathlib.Data.List.Induction

namespace SlipScan.Foundation.Accumulation

open Grouping

variable {α β κ M : Type} [DecidableEq κ]

section Rows

variable (rowKey : β → κ) (key : α → κ) (add : β → α → β) (fresh : α → β)

def accumulate (a : α) : List β → List β
  | [] => [fresh a]
  | b :: rows => if rowKey b = key a then add b a :: rows else b :: accumulate a rows

def collect (entries : List α) : List β :=
  entries.foldl (fun rows a ↦ accumulate rowKey key add fresh a rows) []

end Rows

variable {rowKey : β → κ} {key : α → κ} {add : β → α → β} {fresh : α → β} {rows : List β}
  {entries : List α} {a : α}

/-- A row is opened under the key of its entry and keeps it. -/
structure Keyed (rowKey : β → κ) (key : α → κ) (add : β → α → β) (fresh : α → β) : Prop where
  add : ∀ b a, rowKey (add b a) = rowKey b
  fresh : ∀ a, rowKey (fresh a) = key a

/-- A row takes over the value of every entry. -/
structure Additive [Add M] (add : β → α → β) (fresh : α → β) (v : β → M) (w : α → M) : Prop where
  add : ∀ b a, v (add b a) = v b + w a
  fresh : ∀ a, v (fresh a) = w a

/-- The row of a key was opened by an entry of that key, and entries were added to it. -/
theorem mem_collect_induction {P : β → Prop} (hfresh : ∀ a ∈ entries, P (fresh a))
    (hadd : ∀ b, P b → ∀ a ∈ entries, rowKey b = key a → P (add b a)) :
    ∀ b ∈ collect rowKey key add fresh entries, P b := by
  have hstep : ∀ a ∈ entries, ∀ rows : List β, (∀ b ∈ rows, P b) →
      ∀ b ∈ accumulate rowKey key add fresh a rows, P b := by
    intro a ha rows hrows
    induction rows with
    | nil => simpa [accumulate] using hfresh a ha
    | cons b rows ih =>
      rw [List.forall_mem_cons] at hrows
      rw [accumulate]
      split
      · next hb => exact List.forall_mem_cons.2 ⟨hadd b hrows.1 a ha hb, hrows.2⟩
      · exact List.forall_mem_cons.2 ⟨hrows.1, ih hrows.2⟩
  have hfold : ∀ l : List α, (∀ a ∈ l, a ∈ entries) → ∀ rows : List β, (∀ b ∈ rows, P b) →
      ∀ b ∈ l.foldl (fun rows a ↦ accumulate rowKey key add fresh a rows) rows, P b := by
    intro l
    induction l with
    | nil => exact fun _ _ hrows ↦ hrows
    | cons a l ih =>
      intro hl rows hrows
      rw [List.forall_mem_cons] at hl
      exact ih hl.2 _ (hstep a hl.1 rows hrows)
  exact hfold entries (fun _ ha ↦ ha) [] (by simp)

section Keys

variable (hkeyed : Keyed rowKey key add fresh)
include hkeyed

theorem map_accumulate (rows : List β) :
    (accumulate rowKey key add fresh a rows).map rowKey =
      if key a ∈ rows.map rowKey then rows.map rowKey else rows.map rowKey ++ [key a] := by
  induction rows with
  | nil => simp [accumulate, hkeyed.fresh]
  | cons b rows ih =>
    rw [accumulate]
    by_cases hb : rowKey b = key a
    · simp [hb, hkeyed.add]
    · rw [if_neg hb, List.map_cons, ih]
      by_cases hmem : key a ∈ rows.map rowKey
      · simp only [hmem, if_true, List.map_cons, List.mem_cons, or_true]
      · simp [hmem, Ne.symm hb]

theorem keys_collect (entries : List α) :
    ((collect rowKey key add fresh entries).map rowKey).Nodup ∧
      ∀ k, k ∈ (collect rowKey key add fresh entries).map rowKey ↔ k ∈ entries.map key := by
  induction entries using List.reverseRecOn with
  | nil => exact ⟨List.nodup_nil, fun k ↦ Iff.rfl⟩
  | append_singleton entries a ih =>
    obtain ⟨hnodup, hmem⟩ := ih
    rw [collect, List.foldl_append, List.foldl_cons, List.foldl_nil, ← collect,
      map_accumulate hkeyed]
    split
    · next hold =>
      refine ⟨hnodup, fun k ↦ ?_⟩
      rw [hmem, List.map_append, List.mem_append, List.map_singleton, List.mem_singleton]
      constructor
      · exact .inl
      · intro hk
        rcases hk with hk | rfl
        · exact hk
        · exact (hmem _).1 hold
    · next hnew =>
      refine ⟨List.nodup_append.2 ⟨hnodup, by simp, by simpa using hnew⟩, fun k ↦ ?_⟩
      rw [List.mem_append, hmem, List.map_append, List.mem_append]
      rfl

end Keys

section Values

variable [AddCommGroup M] {v : β → M} {w : α → M} (hkeyed : Keyed rowKey key add fresh)
  (hadditive : Additive add fresh v w)

theorem groupSum_self (hrows : (rows.map rowKey).Nodup) {b : β} (hb : b ∈ rows) :
    groupSum rowKey v rows (rowKey b) = v b := by
  induction rows with
  | nil => cases hb
  | cons c rows ih =>
    obtain ⟨hc, hrows⟩ := List.nodup_cons.1 hrows
    rw [groupSum_cons]
    rcases List.mem_cons.1 hb with rfl | hb
    · have hrest : groupSum rowKey v rows (rowKey b) = 0 :=
        groupSum_eq_zero fun d hd heq ↦ hc (heq ▸ List.mem_map_of_mem hd)
      rw [if_pos rfl, hrest, add_zero]
    · have hne : rowKey b ≠ rowKey c := fun heq ↦ hc (heq ▸ List.mem_map_of_mem hb)
      rw [if_neg hne, zero_add, ih hrows hb]

include hkeyed hadditive

omit hkeyed in
theorem sum_collect (entries : List α) :
    ((collect rowKey key add fresh entries).map v).sum = (entries.map w).sum := by
  have hstep : ∀ (a : α) (rows : List β),
      ((accumulate rowKey key add fresh a rows).map v).sum = (rows.map v).sum + w a := by
    intro a rows
    induction rows with
    | nil => rw [accumulate, List.map_singleton, List.sum_singleton, hadditive.fresh, List.map_nil,
        List.sum_nil, zero_add]
    | cons b rows ih =>
      rw [accumulate]
      split
      · rw [List.map_cons, List.sum_cons, hadditive.add, List.map_cons, List.sum_cons, add_right_comm]
      · rw [List.map_cons, List.sum_cons, ih, List.map_cons, List.sum_cons, add_assoc]
  induction entries using List.reverseRecOn with
  | nil => rfl
  | append_singleton entries a ih =>
    rw [collect, List.foldl_append, List.foldl_cons, List.foldl_nil, ← collect, hstep, ih,
      List.map_append, List.sum_append, List.map_singleton, List.sum_singleton]

theorem groupSum_accumulate (rows : List β) (k : κ) :
    groupSum rowKey v (accumulate rowKey key add fresh a rows) k =
      groupSum rowKey v rows k + if k = key a then w a else 0 := by
  induction rows with
  | nil =>
    rw [accumulate, groupSum_cons, hkeyed.fresh, hadditive.fresh, add_comm]
  | cons b rows ih =>
    rw [accumulate]
    split
    · next hb =>
      rw [groupSum_cons, groupSum_cons, hkeyed.add, hadditive.add, hb]
      split
      · abel
      · abel
    · rw [groupSum_cons, ih, groupSum_cons, add_assoc]

/-- The rows hold the totals of the entries. -/
theorem groupSum_collect (entries : List α) (k : κ) :
    groupSum rowKey v (collect rowKey key add fresh entries) k = groupSum key w entries k := by
  induction entries using List.reverseRecOn with
  | nil => rfl
  | append_singleton entries a ih =>
    rw [collect, List.foldl_append, List.foldl_cons, List.foldl_nil, ← collect,
      groupSum_accumulate hkeyed hadditive, ih, groupSum_append, groupSum_cons]
    simp [groupSum]

theorem value_of_mem_collect {b : β} (hb : b ∈ collect rowKey key add fresh entries) :
    v b = groupSum key w entries (rowKey b) := by
  rw [← groupSum_collect hkeyed hadditive, groupSum_self (keys_collect hkeyed entries).1 hb]

end Values

end SlipScan.Foundation.Accumulation
