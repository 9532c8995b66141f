import SlipScan.Foundation.KeyedTable

namespace SlipScan.Foundation.Table

variable {ρ ρ' κ : Type} [DecidableEq κ] {key : ρ → κ} {key' : ρ' → κ} {R R' : ρ → ρ' → Prop}
  {rows : List ρ} {rows' : List ρ'} {k : κ}

def Corresponds (key : ρ → κ) (key' : ρ' → κ) (R : ρ → ρ' → Prop) (rows : List ρ)
    (rows' : List ρ') : Prop :=
  ∀ k, Option.Rel R (lookup key rows k) (lookup key' rows' k)

theorem corresponds_nil : Corresponds key key' R [] [] :=
  fun _ ↦ .none

theorem Corresponds.mono (h : Corresponds key key' R rows rows') (hR : ∀ r r', R r r' → R' r r') :
    Corresponds key key' R' rows rows' := by
  intro k
  have hk := h k
  generalize lookup key rows k = a at hk ⊢
  generalize lookup key' rows' k = b at hk ⊢
  cases hk with
  | none => exact .none
  | some hr => exact .some (hR _ _ hr)

theorem Corresponds.none_iff (h : Corresponds key key' R rows rows') :
    lookup key rows k = none ↔ lookup key' rows' k = none := by
  have hk := h k
  generalize lookup key rows k = a at hk ⊢
  generalize lookup key' rows' k = b at hk ⊢
  cases hk with
  | none => simp
  | some hr => simp

theorem Corresponds.exists (h : Corresponds key key' R rows rows') {r : ρ}
    (hr : lookup key rows k = some r) : ∃ r', lookup key' rows' k = some r' ∧ R r r' := by
  have hk := h k
  rw [hr] at hk
  generalize lookup key' rows' k = b at hk ⊢
  cases hk with
  | some hr' => exact ⟨_, rfl, hr'⟩

theorem Corresponds.concat (h : Corresponds key key' R rows rows') {r : ρ} {r' : ρ'}
    (hkey : key r = key' r') (hr : R r r') (hnew : lookup key rows (key r) = none) :
    Corresponds key key' R (rows ++ [r]) (rows' ++ [r']) := by
  intro k
  by_cases hk : key r = k
  · subst hk
    rw [lookup_concat_self (lookup_eq_none.1 hnew), hkey,
      lookup_concat_self (lookup_eq_none.1 (hkey ▸ h.none_iff.1 hnew))]
    exact .some hr
  · rw [lookup_concat_of_ne hk, lookup_concat_of_ne (hkey ▸ hk)]
    exact h k

theorem Corresponds.update (h : Corresponds key key' R rows rows') {f : ρ → ρ} {f' : ρ' → ρ'}
    (hf : ∀ r, key (f r) = key r) (hf' : ∀ r', key' (f' r') = key' r')
    (hR : ∀ r r', lookup key rows k = some r → R r r' → R (f r) (f' r')) :
    Corresponds key key' R (update key rows k f) (update key' rows' k f') := by
  intro k'
  rw [lookup_update f hf, lookup_update f' hf']
  cases hr : lookup key rows k' with
  | none =>
    rw [h.none_iff.1 hr]
    exact .none
  | some r =>
    obtain ⟨r', hr', hrel⟩ := h.exists hr
    rw [hr', Option.map_some, Option.map_some, (lookup_eq_some hr).2, (lookup_eq_some hr').2]
    split_ifs with hk
    · subst hk
      exact .some (hR r r' hr hrel)
    · exact .some hrel

theorem lookup_drop {k' : κ} : lookup key (rows.filter fun r ↦ key r ≠ k') k =
    if k = k' then none else lookup key rows k := by
  split_ifs with hk
  · subst hk
    exact lookup_eq_none.2 fun r hr ↦ by simpa using (List.mem_filter.1 hr).2
  · cases hr : lookup key rows k with
    | none =>
      rw [lookup_eq_none] at hr
      exact lookup_eq_none.2 fun r hmem ↦ hr r (List.mem_filter.1 hmem).1
    | some r =>
      refine lookup_filter hr ?_
      simpa [(lookup_eq_some hr).2] using hk

theorem Corresponds.drop (h : Corresponds key key' R rows rows') :
    Corresponds key key' R (rows.filter fun r ↦ key r ≠ k) (rows'.filter fun r' ↦ key' r' ≠ k) := by
  intro k'
  rw [lookup_drop, lookup_drop]
  split_ifs with hk
  · exact .none
  · exact h k'

end SlipScan.Foundation.Table
