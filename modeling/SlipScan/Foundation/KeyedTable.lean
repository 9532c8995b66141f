import SlipScan.Foundation.Table

namespace SlipScan.Foundation.Table

/-- A table in which no two rows have the same key. -/
structure Keyed {ρ κ : Type} (key : ρ → κ) where
  rows : List ρ
  distinct : (rows.map key).Nodup

namespace Keyed

variable {ρ κ : Type} {key : ρ → κ}

instance : EmptyCollection (Keyed key) :=
  ⟨⟨[], List.nodup_nil⟩⟩

@[simp]
theorem rows_empty : (∅ : Keyed key).rows = [] := rfl

def keep (t : Keyed key) (p : ρ → Bool) : Keyed key :=
  ⟨t.rows.filter p, (List.filter_sublist.map key).nodup t.distinct⟩

@[simp]
theorem mem_keep {t : Keyed key} {p : ρ → Bool} {r : ρ} :
    r ∈ (t.keep p).rows ↔ r ∈ t.rows ∧ p r = true :=
  List.mem_filter

variable [DecidableEq κ]

def find (t : Keyed key) (k : κ) : Option ρ :=
  lookup key t.rows k

def modify (t : Keyed key) (k : κ) (f : ρ → ρ) (hf : ∀ r, key (f r) = key r) : Keyed key :=
  ⟨update key t.rows k f, (map_update_of_eq f hf k).symm ▸ t.distinct⟩

def addNew (t : Keyed key) (r : ρ) : Option (Keyed key) :=
  if h : ∀ a ∈ t.rows, key a ≠ key r then some ⟨t.rows ++ [r], nodup_concat h t.distinct⟩ else none

def upsert (t : Keyed key) (r : ρ) (f : ρ → ρ) (hf : ∀ a, key (f a) = key a) : Keyed key :=
  (t.addNew r).getD (t.modify (key r) f hf)

variable {t t' : Keyed key} {r : ρ} {k : κ} {f : ρ → ρ} {hf : ∀ r, key (f r) = key r}

theorem find_eq_some : t.find k = some r ↔ r ∈ t.rows ∧ key r = k := by
  constructor
  · exact lookup_eq_some
  · rintro ⟨hr, rfl⟩
    exact lookup_of_mem (List.pairwise_map.1 t.distinct) hr

theorem find_eq_none : t.find k = none ↔ ∀ r ∈ t.rows, key r ≠ k :=
  lookup_eq_none

theorem find_keep (p : ρ → Bool) : (t.keep p).find k = (t.find k).filter p := by
  ext r
  rw [Option.filter_eq_some_iff, find_eq_some, find_eq_some, mem_keep, and_right_comm]

theorem find_modify (k' : κ) :
    (t.modify k' f hf).find k = (t.find k).map fun r ↦ if key r = k' then f r else r :=
  lookup_update f hf k'

theorem addNew_eq_some :
    t.addNew r = some t' ↔ t.find (key r) = none ∧ t'.rows = t.rows ++ [r] := by
  rw [addNew, find_eq_none]
  split
  · rename_i h
    constructor
    · intro ht
      obtain rfl := Option.some.inj ht
      exact ⟨h, rfl⟩
    · intro ht
      cases t'
      simp_all
  · rename_i h
    simp [h]

theorem mem_modify {a : ρ} (ha : a ∈ (t.modify k f hf).rows) :
    ∃ b ∈ t.rows, a = b ∨ a = f b := by
  obtain ⟨b, hb, rfl⟩ := List.mem_map.1 ha
  refine ⟨b, hb, ?_⟩
  split
  · exact .inr rfl
  · exact .inl rfl

theorem mem_upsert {a : ρ} (ha : a ∈ (t.upsert r f hf).rows) :
    a = r ∨ ∃ b ∈ t.rows, a = b ∨ a = f b := by
  rw [upsert] at ha
  cases hnew : t.addNew r with
  | some t' =>
    rw [hnew, Option.getD_some, (addNew_eq_some.1 hnew).2, List.mem_append] at ha
    obtain ha | ha := ha
    · exact .inr ⟨a, ha, .inl rfl⟩
    · exact .inl (List.mem_singleton.1 ha)
  | none =>
    rw [hnew, Option.getD_none] at ha
    exact .inr (mem_modify ha)

theorem addNew_isNone : t.addNew r = none ↔ ∃ a, t.find (key r) = some a := by
  rw [addNew, ← Option.ne_none_iff_exists', Ne, find_eq_none]
  split <;> simp_all

theorem find_of_addNew (ht : t.addNew r = some t') :
    t'.find k = if key r = k then some r else t.find k := by
  obtain ⟨hnone, hrows⟩ := addNew_eq_some.1 ht
  rw [find, hrows, lookup_append]
  by_cases hk : key r = k
  · subst hk
    have hmiss : lookup key t.rows (key r) = none := hnone
    rw [hmiss, if_pos rfl]
    simp [lookup]
  · simp [hk, lookup, find]

theorem find_upsert :
    (t.upsert r f hf).find k =
      if key r = k then some (((t.find k).map f).getD r) else t.find k := by
  rw [upsert]
  cases ht : t.addNew r with
  | some t' =>
    rw [Option.getD_some, find_of_addNew ht]
    by_cases hk : key r = k
    · subst hk
      simp [(addNew_eq_some.1 ht).1]
    · simp [hk]
  | none =>
    obtain ⟨a, ha⟩ := addNew_isNone.1 ht
    rw [Option.getD_none, find_modify]
    by_cases hk : key r = k
    · subst hk
      simp [ha, (find_eq_some.1 ha).2]
    · cases hfind : t.find k with
      | none => simp [hk]
      | some b => simp [hk, (find_eq_some.1 hfind).2, Ne.symm hk]

end Keyed

end SlipScan.Foundation.Table
