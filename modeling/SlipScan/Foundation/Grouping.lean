import Mathlib.Algebra.BigOperators.Group.List.Basic
import Mathlib.Data.List.Dedup
import Mathlib.Tactic.Abel

namespace SlipScan.Foundation.Grouping

variable {α β κ M : Type} [DecidableEq κ] [AddCommGroup M]

def groupSum (key : α → κ) (f : α → M) (l : List α) (k : κ) : M :=
  ((l.filter fun a ↦ key a = k).map f).sum

variable {key : α → κ} {f : α → M} {l : List α} {keys : List κ}

theorem groupSum_append (l' : List α) (k : κ) :
    groupSum key f (l ++ l') k = groupSum key f l k + groupSum key f l' k := by
  simp [groupSum]

theorem groupSum_eq_zero {k : κ} (hk : ∀ a ∈ l, key a ≠ k) : groupSum key f l k = 0 := by
  have hnil : l.filter (fun a ↦ key a = k) = [] := List.filter_eq_nil_iff.2 (by simpa using hk)
  rw [groupSum, hnil]
  rfl

theorem groupSum_perm {l' : List α} (hl : l.Perm l') (k : κ) :
    groupSum key f l k = groupSum key f l' k :=
  ((hl.filter _).map _).sum_eq

theorem groupSum_cons (a : α) (l : List α) (k : κ) :
    groupSum key f (a :: l) k = (if k = key a then f a else 0) + groupSum key f l k := by
  by_cases hk : key a = k
  · simp [groupSum, hk]
  · simp [groupSum, hk, Ne.symm hk]

theorem groupSum_map (key : α → κ) (f : α → M) (g : β → α) (l : List β) (k : κ) :
    groupSum key f (l.map g) k = groupSum (fun b ↦ key (g b)) (fun b ↦ f (g b)) l k := by
  simp [groupSum, List.filter_map, Function.comp_def]

theorem sum_map_sub (f g : α → M) (l : List α) :
    (l.map fun a ↦ f a - g a).sum = (l.map f).sum - (l.map g).sum := by
  induction l with
  | nil => simp
  | cons a l ih => simp only [List.map_cons, List.sum_cons, ih, add_sub_add_comm]

theorem groupSum_sub (f g : α → M) (l : List α) (k : κ) :
    groupSum key (fun a ↦ f a - g a) l k = groupSum key f l k - groupSum key g l k :=
  sum_map_sub f g _

theorem sum_ite_eq (hkeys : keys.Nodup) {k : κ} (hk : k ∈ keys) (m : M) :
    (keys.map fun k' ↦ if k' = k then m else 0).sum = m := by
  rw [List.sum_map_ite_eq keys (fun _ ↦ m) (fun _ ↦ 0), List.count_eq_one_of_mem hkeys hk,
    one_nsmul]
  simp

theorem groupSum_of_forall₂ {rows : List β} {key : β → κ} {f : β → M} {g : κ → M}
    (hkeys : keys.Nodup) (hzero : ∀ k ∉ keys, g k = 0)
    (hrows : List.Forall₂ (fun k row ↦ key row = k ∧ f row = g k) keys rows) (k : κ) :
    groupSum key f rows k = g k := by
  have hsum : groupSum key f rows k =
      (keys.map fun k' ↦ if k' = k then g k else 0).sum := by
    clear hkeys hzero
    induction hrows with
    | nil => rfl
    | @cons k' row keys rows hrow _ ih =>
      obtain ⟨rfl, hg⟩ := hrow
      rw [groupSum_cons, ih, List.map_cons, List.sum_cons, hg]
      by_cases hk : key row = k
      · simp [hk]
      · simp [hk, Ne.symm hk]
  rw [hsum]
  by_cases hk : k ∈ keys
  · exact sum_ite_eq hkeys hk _
  · rw [hzero k hk]
    exact List.sum_eq_zero (by simp)

theorem groupSum_flatMap (g : β → List α) (l : List β) (k : κ) :
    groupSum key f (l.flatMap g) k = (l.map fun b ↦ groupSum key f (g b) k).sum := by
  induction l with
  | nil => rfl
  | cons b l ih => rw [List.flatMap_cons, groupSum_append, ih, List.map_cons, List.sum_cons]

/-- The groups of all keys together make the whole. -/
theorem sum_groupSum (key : α → κ) (f : α → M) (hkeys : keys.Nodup) (hl : ∀ a ∈ l, key a ∈ keys) :
    (keys.map (groupSum key f l)).sum = (l.map f).sum := by
  induction l with
  | nil => exact List.sum_eq_zero (by simp [groupSum])
  | cons a l ih =>
    have hcons : groupSum key f (a :: l) = fun k ↦
        (if k = key a then f a else 0) + groupSum key f l k := funext (groupSum_cons a l)
    rw [hcons, List.sum_map_add, sum_ite_eq hkeys (hl a (by simp)),
      ih fun b hb ↦ hl b (List.mem_cons_of_mem _ hb), List.map_cons, List.sum_cons]

theorem sum_filter_or {p q r : α → Bool} (f : α → M)
    (hr : ∀ a ∈ l, (r a = true ↔ p a = true ∨ q a = true) ∧ ¬(p a = true ∧ q a = true)) :
    ((l.filter r).map f).sum = ((l.filter p).map f).sum + ((l.filter q).map f).sum := by
  induction l with
  | nil => simp
  | cons a l ih =>
    rw [List.forall_mem_cons] at hr
    obtain ⟨⟨hiff, hboth⟩, hrest⟩ := hr
    have hsum := ih hrest
    cases hp : p a with
    | true =>
      have hq : q a = false := by simpa [hp] using hboth
      have hra : r a = true := hiff.2 (.inl hp)
      simp [hp, hq, hra, hsum, add_assoc]
    | false =>
      cases hq : q a with
      | true =>
        have hra : r a = true := hiff.2 (.inr hq)
        simp [hp, hq, hra, hsum, add_left_comm]
      | false =>
        have hra : r a = false := by simpa [hp, hq] using hiff
        simp [hp, hq, hra, hsum]

/-- The rows with the given keys and all the others make the whole. -/
theorem sum_without (key : α → κ) (f : α → M) (hkeys : keys.Nodup) (l : List α) :
    (l.map f).sum =
      ((l.filter fun a ↦ key a ∉ keys).map f).sum + (keys.map (groupSum key f l)).sum := by
  have hwhole : (l.map f).sum = ((l.filter fun _ ↦ true).map f).sum := by
    rw [List.filter_true]
  have hin : (keys.map (groupSum key f l)).sum = ((l.filter fun a ↦ key a ∈ keys).map f).sum := by
    rw [← sum_groupSum key f hkeys fun a ha ↦ of_decide_eq_true (List.mem_filter.1 ha).2]
    refine congrArg List.sum (List.map_congr_left fun k hk ↦ ?_)
    rw [groupSum, groupSum, List.filter_filter]
    refine congrArg (fun l ↦ (List.map f l).sum) (List.filter_congr fun a _ ↦ ?_)
    by_cases hak : key a = k
    · simp [hak, hk]
    · simp [hak]
  rw [hwhole, hin]
  exact sum_filter_or f fun a _ ↦ by simp [em']

theorem sum_change (v : α → M) (g : α → α) {a : α} (hl : (l.map key).Nodup) (ha : a ∈ l) :
    ((l.map fun b ↦ if key b = key a then g b else b).map v).sum =
      (l.map v).sum + (v (g a) - v a) := by
  induction l with
  | nil => cases ha
  | cons b l ih =>
    obtain ⟨hb, hl⟩ := List.nodup_cons.1 hl
    by_cases hba : key b = key a
    · have hrest : ∀ c ∈ l, key c ≠ key a := fun c hc heq ↦
        hb (hba.trans heq.symm ▸ List.mem_map_of_mem hc)
      obtain rfl : a = b := (List.mem_cons.1 ha).resolve_right fun ha ↦ hrest a ha rfl
      have hsame : (l.map fun c ↦ if key c = key a then g c else c) = l :=
        (List.map_congr_left fun c hc ↦ if_neg (hrest c hc)).trans (List.map_id l)
      rw [List.map_cons, if_pos rfl, hsame]
      simp only [List.map_cons, List.sum_cons]
      abel
    · have ha : a ∈ l := (List.mem_cons.1 ha).resolve_left fun heq ↦ hba (heq ▸ rfl)
      rw [List.map_cons, if_neg hba]
      simp only [List.map_cons, List.sum_cons, ih hl ha, add_assoc]

theorem sum_remove (v : α → M) {a : α} (hl : (l.map key).Nodup) (ha : a ∈ l) :
    ((l.filter fun b ↦ key b ≠ key a).map v).sum = (l.map v).sum - v a := by
  induction l with
  | nil => cases ha
  | cons b l ih =>
    obtain ⟨hb, hl⟩ := List.nodup_cons.1 hl
    by_cases hba : key b = key a
    · have hrest : ∀ c ∈ l, key c ≠ key a := fun c hc heq ↦
        hb (hba.trans heq.symm ▸ List.mem_map_of_mem hc)
      obtain rfl : a = b := (List.mem_cons.1 ha).resolve_right fun ha ↦ hrest a ha rfl
      have hsame : l.filter (fun c ↦ key c ≠ key a) = l :=
        List.filter_eq_self.2 fun c hc ↦ decide_eq_true (hrest c hc)
      rw [List.filter_cons_of_neg (by simp), hsame, List.map_cons, List.sum_cons,
        add_sub_cancel_left]
    · have ha : a ∈ l := (List.mem_cons.1 ha).resolve_left fun heq ↦ hba (heq ▸ rfl)
      rw [List.filter_cons_of_pos (by simpa using hba)]
      simp only [List.map_cons, List.sum_cons, ih hl ha, add_sub_assoc]

theorem sum_ite_zero (p : α → Prop) [DecidablePred p] (f : α → M) (l : List α) :
    (l.map fun a ↦ if p a then f a else 0).sum = ((l.filter fun a ↦ p a).map f).sum := by
  induction l with
  | nil => rfl
  | cons a l ih =>
    rw [List.map_cons, List.sum_cons, ih]
    by_cases ha : p a
    · rw [if_pos ha, List.filter_cons_of_pos (by simpa using ha), List.map_cons, List.sum_cons]
    · rw [if_neg ha, List.filter_cons_of_neg (by simpa using ha), zero_add]

theorem map_filter_eq_flatMap {γ : Type} (p : α → Bool) (g : α → γ) (l : List α) :
    (l.filter p).map g = l.flatMap fun a ↦ if p a then [g a] else [] := by
  induction l with
  | nil => rfl
  | cons a l ih =>
    rw [List.flatMap_cons, ← ih]
    by_cases ha : p a <;> simp [ha]

/-- Pairs can be gone through from either side. -/
theorem flatMap_filter_perm {γ : Type} (r : α → β → Bool) (g : α → β → γ) (l : List α)
    (l' : List β) :
    (l.flatMap fun a ↦ (l'.filter (r a)).map (g a)).Perm
      (l'.flatMap fun b ↦ (l.filter fun a ↦ r a b).map fun a ↦ g a b) := by
  induction l with
  | nil => simp
  | cons a l ih =>
    have hcons : (fun b ↦ ((a :: l).filter fun a ↦ r a b).map fun a ↦ g a b) = fun b ↦
        (if r a b then [g a b] else []) ++ (l.filter fun a ↦ r a b).map fun a ↦ g a b := by
      funext b
      by_cases hab : r a b <;> simp [hab]
    rw [List.flatMap_cons, map_filter_eq_flatMap, hcons]
    exact (ih.append_left _).trans (List.flatMap_append_perm l' _ _)

end SlipScan.Foundation.Grouping
