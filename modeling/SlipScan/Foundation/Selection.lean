import Mathlib.Data.List.MinMax
import Mathlib.Data.List.Sort

namespace SlipScan.Foundation.Selection

variable {α β γ : Type} {R : α → β → Prop} {l : List α} {l' : List β}

theorem rel_bind {δ : Type} {S : γ → δ → Prop} {x : Option α} {y : Option β} {f : α → Option γ}
    {g : β → Option δ} (hxy : Option.Rel R x y) (hfg : ∀ a b, R a b → Option.Rel S (f a) (g b)) :
    Option.Rel S (x.bind f) (y.bind g) := by
  cases hxy with
  | none => exact .none
  | some hab => exact hfg _ _ hab

theorem forall_mem_iff_of_forall₂ {p : α → Prop} {q : β → Prop}
    (hpq : ∀ a b, R a b → (p a ↔ q b)) (hl : List.Forall₂ R l l') :
    (∀ a ∈ l, p a) ↔ ∀ b ∈ l', q b := by
  induction hl with
  | nil => simp
  | cons hab hl ih => rw [List.forall_mem_cons, List.forall_mem_cons, hpq _ _ hab, ih]

theorem forall₂_orderedInsert {r : α → α → Prop} {r' : β → β → Prop} [DecidableRel r]
    [DecidableRel r'] (hr : ∀ a a' b b', R a a' → R b b' → (r a b ↔ r' a' b')) {a : α} {a' : β}
    (ha : R a a') (hl : List.Forall₂ R l l') :
    List.Forall₂ R (l.orderedInsert r a) (l'.orderedInsert r' a') := by
  induction hl with
  | nil => exact .cons ha .nil
  | @cons b b' l l' hb hl ih =>
    rw [List.orderedInsert_cons, List.orderedInsert_cons]
    by_cases hab : r a b
    · rw [if_pos hab, if_pos ((hr a a' b b' ha hb).1 hab)]
      exact .cons ha (.cons hb hl)
    · rw [if_neg hab, if_neg fun hab' ↦ hab ((hr a a' b b' ha hb).2 hab')]
      exact .cons hb ih

theorem forall₂_insertionSort {r : α → α → Prop} {r' : β → β → Prop} [DecidableRel r]
    [DecidableRel r'] (hr : ∀ a a' b b', R a a' → R b b' → (r a b ↔ r' a' b'))
    (hl : List.Forall₂ R l l') : List.Forall₂ R (l.insertionSort r) (l'.insertionSort r') := by
  induction hl with
  | nil => exact .nil
  | cons ha hl ih => exact forall₂_orderedInsert hr ha ih

/-- The best of two lists that are the same but for a relation are related. -/
theorem rel_argmin [LinearOrder γ] {f : α → γ} {f' : β → γ} (hf : ∀ a a', R a a' → f a = f' a')
    (hl : List.Forall₂ R l l') : Option.Rel R (l.argmin f) (l'.argmin f') := by
  induction hl with
  | nil => exact .none
  | @cons a a' l l' ha hl ih =>
    rw [List.argmin_cons, List.argmin_cons]
    generalize l.argmin f = best at ih ⊢
    generalize l'.argmin f' = best' at ih ⊢
    cases ih with
    | none => exact .some ha
    | @some b b' hb =>
      dsimp only
      rw [hf a a' ha, hf b b' hb]
      split
      · exact .some hb
      · exact .some ha

def minBy (cmp : α → α → Ordering) : List α → Option α
  | [] => none
  | a :: l => some (l.foldl (fun best b ↦ if cmp best b = .gt then b else best) a)

/-- A comparison by a rank selects what the rank does. -/
theorem minBy_eq_argmin [LinearOrder γ] {cmp : α → α → Ordering} {f : α → γ}
    (hcmp : ∀ a b, cmp a b = .gt ↔ f b < f a) (l : List α) : minBy cmp l = l.argmin f := by
  cases l with
  | nil => rfl
  | cons a l =>
    have hfold : ∀ best, l.foldl (List.argAux fun b c ↦ f b < f c) (some best) =
        some (l.foldl (fun best b ↦ if f b < f best then b else best) best) := by
      induction l with
      | nil => exact fun best ↦ rfl
      | cons b l ih =>
        intro best
        simp only [List.foldl_cons, List.argAux]
        split <;> exact ih _
    simp only [minBy, hcmp, List.argmin, List.foldl_cons]
    exact (hfold a).symm

/-- Where no two entries have one rank, the order of the entries does not matter. -/
theorem argmin_perm [LinearOrder γ] {f : α → γ} {l l' : List α} (hl : (l.map f).Nodup)
    (hperm : l.Perm l') : l.argmin f = l'.argmin f := by
  cases hbest : l.argmin f with
  | none =>
    rw [List.argmin_eq_none] at hbest
    subst hbest
    rw [List.nil_perm.1 hperm, List.argmin_nil]
  | some a =>
    cases hbest' : l'.argmin f with
    | none =>
      rw [List.argmin_eq_none] at hbest'
      subst hbest'
      rw [List.perm_nil.1 hperm] at hbest
      cases hbest
    | some b =>
      have ha := List.argmin_mem hbest
      have hb := hperm.mem_iff.2 (List.argmin_mem hbest')
      have hle : f a ≤ f b := List.le_of_mem_argmin hb hbest
      have hle' : f b ≤ f a := List.le_of_mem_argmin (hperm.mem_iff.1 ha) hbest'
      rw [List.inj_on_of_nodup_map hl ha hb (le_antisymm hle hle')]

/-- A fold that goes over to an entry or keeps the one it has ends with one of the entries. -/
theorem foldl_choice {f : Option α → α → Option α}
    (hf : ∀ best a, f best a = some a ∨ best.isSome ∧ f best a = best) (l : List α) :
    l = [] ∧ l.foldl f none = none ∨ ∃ a ∈ l, l.foldl f none = some a := by
  have hfold : ∀ (l : List α) (b : α), l.foldl f (some b) = some b ∨
      ∃ a ∈ l, l.foldl f (some b) = some a := by
    intro l
    induction l with
    | nil => exact fun b ↦ .inl rfl
    | cons a l ih =>
      intro b
      have htail : ∀ c, f (some b) a = some c → c = b ∨ c = a →
          (a :: l).foldl f (some b) = some b ∨ ∃ a' ∈ a :: l, (a :: l).foldl f (some b) = some a' := by
        intro c hstep hc
        rw [List.foldl_cons, hstep]
        rcases ih c with hkept | ⟨a', ha', hnew⟩
        · rw [hkept]
          rcases hc with rfl | rfl
          · exact .inl rfl
          · exact .inr ⟨c, List.mem_cons_self .., rfl⟩
        · exact .inr ⟨a', List.mem_cons_of_mem _ ha', hnew⟩
      rcases hf (some b) a with hnew | ⟨-, hkept⟩
      · exact htail a hnew (.inr rfl)
      · exact htail b hkept (.inl rfl)
  cases l with
  | nil => exact .inl ⟨rfl, rfl⟩
  | cons a l =>
    have hfirst : f none a = some a := (hf none a).resolve_right fun hkept ↦ nomatch hkept.1
    rw [List.foldl_cons, hfirst]
    rcases hfold l a with hkept | ⟨a', ha', hnew⟩
    · exact .inr ⟨a, List.mem_cons_self .., hkept⟩
    · exact .inr ⟨a', List.mem_cons_of_mem _ ha', hnew⟩

end SlipScan.Foundation.Selection
