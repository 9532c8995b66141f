import SlipScan.Foundation.Dependencies
import SlipScan.Model.PackCompat

namespace SlipScan.Packs.CategoryOrder

open Model.Packs Model.PackCompat Foundation.Dependencies

/-- A category declares its key, and needs the one of its parent. -/
def naming : Naming PackCategory String where
  name := PackCategory.key
  needs := PackCategory.parentKey

variable {declared : List String} {pending ordered categories : List PackCategory}
  {category : PackCategory} {round : Round}

structure RoundSpec (declared : List String) (done : List PackCategory) (round : Round) : Prop where
  perm : (round.placed ++ round.next).Perm done
  declared_eq : {k | k ∈ round.declared} =
    {k | k ∈ declared} ∪ naming.name '' {c | c ∈ round.placed}
  legal : naming.Legal {k | k ∈ declared} round.placed
  stuck : round.placed = [] → ∀ c ∈ round.next, ¬naming.Ready {k | k ∈ declared} c

theorem take_of_ready (hready : naming.Ready {k | k ∈ round.declared} category) :
    round.take category = { round with
      declared := category.key :: round.declared
      placed := round.placed ++ [category] } := by
  rw [Round.take.eq_def]
  split
  · rename_i parent hparent
    exact if_neg (not_not.2 (hready parent hparent))
  · rfl

theorem take_of_not_ready (hready : ¬naming.Ready {k | k ∈ round.declared} category) :
    round.take category = { round with next := round.next ++ [category] } := by
  rw [Round.take.eq_def]
  split
  · rename_i parent hparent
    refine if_pos fun hmem ↦ hready fun k hk ↦ ?_
    obtain rfl : parent = k := Option.some.inj (hparent.symm.trans hk)
    exact hmem
  · rename_i hnone
    exact absurd (fun k hk ↦ by cases hnone.symm.trans hk) hready

theorem RoundSpec.take {done : List PackCategory} (hround : RoundSpec declared done round)
    (category : PackCategory) : RoundSpec declared (done ++ [category]) (round.take category) := by
  obtain ⟨hperm, hdeclared, hlegal, hstuck⟩ := hround
  by_cases hready : naming.Ready {k | k ∈ round.declared} category
  · rw [take_of_ready hready]
    refine ⟨?_, ?_, ?_, ?_⟩
    · have hswap : (round.placed ++ [category] ++ round.next).Perm
          (round.placed ++ round.next ++ [category]) := by
        rw [List.append_assoc, List.append_assoc]
        exact List.perm_append_comm.append_left _
      exact hswap.trans (hperm.append_right _)
    · have hcons : {k | k ∈ category.key :: round.declared} =
          insert category.key {k | k ∈ round.declared} := by
        ext k
        simp
      rw [hcons, hdeclared]
      ext k
      simp [naming, or_left_comm, or_comm, eq_comm]
    · exact Naming.legal_append.2 ⟨hlegal, hdeclared ▸ hready, trivial⟩
    · exact fun hnil ↦ absurd hnil (by simp)
  · rw [take_of_not_ready hready]
    refine ⟨?_, hdeclared, hlegal, fun hnil c hc ↦ ?_⟩
    · rw [← List.append_assoc]
      exact hperm.append_right _
    · rcases List.mem_append.1 hc with hc | hc
      · exact hstuck hnil c hc
      · rw [List.mem_singleton.1 hc]
        refine fun hbefore ↦ hready (hbefore.mono ?_)
        rw [hdeclared]
        exact Set.subset_union_left

theorem roundSpec (declared : List String) (pending : List PackCategory) :
    RoundSpec declared pending (runRound declared pending) := by
  induction pending using List.reverseRecOn with
  | nil => exact ⟨.refl _, by simp [runRound], trivial, fun _ ↦ nofun⟩
  | append_singleton pending category ih =>
    rw [runRound, List.foldl_append]
    exact ih.take category

/-- A round that leaves as many categories as there were has placed none of them. -/
theorem RoundSpec.stuck_of_length (hround : RoundSpec declared pending round)
    (hsame : round.next.length = pending.length) :
    round.next.Perm pending ∧ ∀ c ∈ pending, ¬naming.Ready {k | k ∈ declared} c := by
  have hlength := hround.perm.length_eq
  rw [List.length_append] at hlength
  have hnone : round.placed = [] := List.length_eq_zero_iff.1 (by omega)
  have hperm := hround.perm
  rw [hnone, List.nil_append] at hperm
  exact ⟨hperm, fun c hc ↦ hround.stuck hnone c (hperm.symm.subset hc)⟩

/-- The rounds go on with what is left, and fail when no order of it is possible. -/
theorem parentsFirstFrom_spec (declared : List String) (ordered pending : List PackCategory) :
    (∃ rest, parentsFirstFrom declared ordered pending = .ok (ordered ++ rest) ∧
      rest.Perm pending ∧ naming.Legal {k | k ∈ declared} rest) ∨
    (∃ e, parentsFirstFrom declared ordered pending = .error e) ∧
      ∀ order : List PackCategory, order.Perm pending →
        ¬naming.Legal {k | k ∈ declared} order := by
  induction hlength : pending.length using Nat.strong_induction_on
    generalizing declared ordered pending with
  | _ n ih =>
    have hround := roundSpec declared pending
    rw [parentsFirstFrom]
    dsimp only
    by_cases hnil : pending = []
    · subst hnil
      exact .inl ⟨[], by rw [if_pos rfl, List.append_nil], .refl _, trivial⟩
    · rw [if_neg hnil]
      by_cases hsame : (runRound declared pending).next.length = pending.length
      · rw [dif_pos hsame]
        obtain ⟨-, hstuck⟩ := hround.stuck_of_length hsame
        exact .inr ⟨⟨_, rfl⟩, fun order horder ↦ Naming.not_legal hnil hstuck horder⟩
      · rw [dif_neg hsame]
        have hlt := lt_of_le_of_ne (length_next_le declared pending) hsame
        rcases ih _ (hlength ▸ hlt) (runRound declared pending).declared
          (ordered ++ (runRound declared pending).placed) (runRound declared pending).next rfl with
          ⟨rest, hrest, hperm, hlegal⟩ | ⟨herror, hnone⟩
        · refine .inl ⟨(runRound declared pending).placed ++ rest, ?_, ?_, ?_⟩
          · rw [hrest, List.append_assoc]
          · exact (hperm.append_left _).trans hround.perm
          · rw [Naming.legal_append, ← hround.declared_eq]
            exact ⟨hround.legal, hlegal⟩
        · refine .inr ⟨herror, fun order horder hlegal ↦ ?_⟩
          obtain ⟨order', hperm', hlegal'⟩ := hlegal.exists_rest (horder.trans hround.perm.symm)
          rw [← hround.declared_eq] at hlegal'
          exact hnone order' hperm' hlegal'

/-- Every parent key is the key of an earlier category. -/
def ParentsPrecede (ordered : List PackCategory) : Prop :=
  ∀ before category after, ordered = before ++ category :: after →
    ∀ parent ∈ category.parentKey, ∃ c ∈ before, c.key = parent

/-- Where the keys are different, this is about the one category with the key of the parent. -/
theorem ParentsPrecede.parent_before (hordered : ParentsPrecede ordered)
    (hkeys : (ordered.map PackCategory.key).Nodup) {before after : List PackCategory}
    (hsplit : ordered = before ++ category :: after) {parent : PackCategory}
    (hmem : parent ∈ ordered) (hparent : category.parentKey = some parent.key) :
    parent ∈ before := by
  obtain ⟨c, hc, hkey⟩ := hordered before category after hsplit _ hparent
  have hin : c ∈ ordered := hsplit ▸ List.mem_append_left _ hc
  rwa [List.inj_on_of_nodup_map hkeys hin hmem hkey] at hc

theorem legal_iff_parentsPrecede : naming.Legal {k | k ∈ ([] : List String)} ordered ↔
    ParentsPrecede ordered := by
  have hnone : {k | k ∈ ([] : List String)} = (∅ : Set String) := by
    ext k
    simp
  rw [hnone]
  exact Naming.legal_iff

/-- The categories come back in an order with every parent before its children, or else there is no
such order. -/
theorem parentsFirst_spec (categories : List PackCategory) :
    (∀ ordered, parentsFirst categories = .ok ordered →
      ordered.Perm categories ∧ ParentsPrecede ordered) ∧
    ((∃ e, parentsFirst categories = .error e) ↔
      ¬∃ ordered : List PackCategory, ordered.Perm categories ∧ ParentsPrecede ordered) := by
  rcases parentsFirstFrom_spec [] [] categories with ⟨rest, hrest, hperm, hlegal⟩ | ⟨herror, hnone⟩
  · rw [legal_iff_parentsPrecede] at hlegal
    refine ⟨fun ordered hordered ↦ ?_, fun ⟨e, he⟩ ↦ ?_, fun hno ↦ ?_⟩
    · obtain rfl : rest = ordered := Except.ok.inj (hrest.symm.trans hordered)
      exact ⟨hperm, hlegal⟩
    · cases hrest.symm.trans he
    · exact absurd ⟨rest, hperm, hlegal⟩ hno
  · obtain ⟨e, he⟩ := herror
    refine ⟨fun ordered hordered ↦ ?_, fun _ ⟨order, horder, hprecede⟩ ↦ ?_, fun _ ↦ ⟨e, he⟩⟩
    · cases he.symm.trans hordered
    · exact hnone order horder (legal_iff_parentsPrecede.2 hprecede)

end SlipScan.Packs.CategoryOrder
