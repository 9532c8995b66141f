import Mathlib.Data.List.Induction
import Mathlib.Data.Set.Image

namespace SlipScan.Foundation.Dependencies

/-- Items that declare a name, and some of which need a name that is declared before them. -/
structure Naming (α κ : Type*) where
  name : α → κ
  needs : α → Option κ

variable {α κ : Type*} (N : Naming α κ) {declared declared' : Set κ} {a : α}
  {first rest order : List α}

def Naming.Ready (declared : Set κ) (a : α) : Prop :=
  ∀ k ∈ N.needs a, k ∈ declared

def Naming.Legal (declared : Set κ) : List α → Prop
  | [] => True
  | a :: rest => N.Ready declared a ∧ Naming.Legal (insert (N.name a) declared) rest

variable {N}

theorem Naming.Ready.mono (hready : N.Ready declared a) (hsub : declared ⊆ declared') :
    N.Ready declared' a :=
  fun k hk ↦ hsub (hready k hk)

theorem Naming.Legal.mono (hlegal : N.Legal declared order) (hsub : declared ⊆ declared') :
    N.Legal declared' order := by
  induction order generalizing declared declared' with
  | nil => trivial
  | cons a order ih => exact ⟨hlegal.1.mono hsub, ih hlegal.2 (Set.insert_subset_insert hsub)⟩

theorem Naming.legal_append : N.Legal declared (first ++ rest) ↔
    N.Legal declared first ∧ N.Legal (declared ∪ N.name '' {a | a ∈ first}) rest := by
  induction first generalizing declared with
  | nil => simp [Naming.Legal]
  | cons a first ih =>
    have hset : insert (N.name a) declared ∪ N.name '' {b | b ∈ first} =
        declared ∪ N.name '' {b | b ∈ a :: first} := by
      ext k
      simp [or_assoc, or_left_comm, eq_comm]
    rw [List.cons_append, Naming.Legal, ih, Naming.Legal, and_assoc, hset]

/-- An item whose name is declared already can be left out of a legal list. -/
theorem Naming.Legal.erase [DecidableEq α] (hlegal : N.Legal declared order)
    (ha : N.name a ∈ declared) : N.Legal declared (order.erase a) := by
  induction order generalizing declared with
  | nil => trivial
  | cons b order ih =>
    by_cases hb : b = a
    · subst hb
      rw [List.erase_cons_head]
      have hinsert : insert (N.name b) declared = declared := Set.insert_eq_of_mem ha
      exact hinsert ▸ hlegal.2
    · rw [List.erase_cons_tail (by simpa using hb)]
      exact ⟨hlegal.1, ih hlegal.2 (Set.mem_insert_of_mem _ ha)⟩

/-- Placing the items of a part first does not make the rest impossible. -/
theorem Naming.Legal.exists_rest [DecidableEq α] (hlegal : N.Legal declared order)
    (hperm : order.Perm (first ++ rest)) :
    ∃ order', order'.Perm rest ∧ N.Legal (declared ∪ N.name '' {a | a ∈ first}) order' := by
  induction first generalizing declared order with
  | nil => exact ⟨order, hperm, hlegal.mono Set.subset_union_left⟩
  | cons a first ih =>
    have hmono : N.Legal (insert (N.name a) declared) order := hlegal.mono (Set.subset_insert _ _)
    have herase := hmono.erase (Set.mem_insert _ _)
    have hrest : (order.erase a).Perm (first ++ rest) := by
      have hcons := hperm.erase a
      rwa [List.cons_append, List.erase_cons_head] at hcons
    obtain ⟨order', hperm', hlegal'⟩ := ih herase hrest
    refine ⟨order', hperm', hlegal'.mono ?_⟩
    rintro k ((rfl | hk) | ⟨b, hb, rfl⟩)
    · exact .inr ⟨a, List.mem_cons_self, rfl⟩
    · exact .inl hk
    · exact .inr ⟨b, List.mem_cons_of_mem _ hb, rfl⟩

/-- Where none of some items is ready, no order of them is legal. -/
theorem Naming.not_legal (hne : rest ≠ []) (hstuck : ∀ a ∈ rest, ¬N.Ready declared a)
    (hperm : order.Perm rest) : ¬N.Legal declared order := by
  cases order with
  | nil => exact absurd hperm.nil_eq.symm hne
  | cons a order => exact fun hlegal ↦ hstuck a (hperm.subset List.mem_cons_self) hlegal.1

/-- In a legal list, every needed name is the name of an earlier item. -/
theorem Naming.legal_iff : N.Legal ∅ order ↔ ∀ before a after, order = before ++ a :: after →
    ∀ k ∈ N.needs a, ∃ b ∈ before, N.name b = k := by
  constructor
  · rintro hlegal before a after rfl k hk
    have hready := (Naming.legal_append.1 hlegal).2.1 k hk
    simpa using hready
  · intro hneeds
    induction order using List.reverseRecOn with
    | nil => trivial
    | append_singleton order a ih =>
      refine Naming.legal_append.2 ⟨ih fun before b after hsplit ↦ ?_, fun k hk ↦ ?_, trivial⟩
      · exact hneeds before b (after ++ [a]) (by simp [hsplit])
      · simpa using hneeds order a [] rfl k hk

end SlipScan.Foundation.Dependencies
