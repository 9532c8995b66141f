import Mathlib.Data.List.Basic

namespace SlipScan.Foundation.Table

variable {ρ κ : Type} [DecidableEq κ] (key : ρ → κ)

def lookup (rows : List ρ) (k : κ) : Option ρ :=
  rows.find? fun r ↦ key r = k

def update (rows : List ρ) (k : κ) (f : ρ → ρ) : List ρ :=
  rows.map fun r ↦ if key r = k then f r else r

variable {key} {rows : List ρ} {k : κ} {r : ρ}

theorem lookup_eq_some (h : lookup key rows k = some r) : r ∈ rows ∧ key r = k :=
  ⟨List.mem_of_find?_eq_some h, by simpa using List.find?_some h⟩

theorem lookup_eq_none : lookup key rows k = none ↔ ∀ r ∈ rows, key r ≠ k := by
  simp [lookup]

theorem isSome_lookup : (lookup key rows k).isSome ↔ ∃ r ∈ rows, key r = k := by
  simp [lookup]

/-- In a table with distinct keys every row is found. -/
theorem lookup_of_mem (hd : rows.Pairwise fun a b ↦ key a ≠ key b) (hr : r ∈ rows) :
    lookup key rows (key r) = some r := by
  induction rows with
  | nil => cases hr
  | cons a rows ih =>
    rw [List.pairwise_cons] at hd
    rcases List.mem_cons.1 hr with rfl | hr
    · simp [lookup]
    · simpa [lookup, hd.1 r hr] using ih hd.2 hr

omit [DecidableEq κ] in
theorem nodup_concat (hr : ∀ a ∈ rows, key a ≠ key r) (hd : (rows.map key).Nodup) :
    ((rows ++ [r]).map key).Nodup := by
  rw [List.map_append, List.nodup_append]
  refine ⟨hd, by simp, fun k hk k' hk' ↦ ?_⟩
  obtain ⟨a, ha, rfl⟩ := List.mem_map.1 hk
  obtain rfl := List.mem_singleton.1 hk'
  exact hr a ha

theorem filter_key_eq (hd : (rows.map key).Nodup) (hr : r ∈ rows) :
    rows.filter (fun a ↦ key a = key r) = [r] := by
  induction rows with
  | nil => cases hr
  | cons a rows ih =>
    obtain ⟨ha, hd⟩ := List.nodup_cons.1 hd
    rcases List.mem_cons.1 hr with rfl | hr
    · have hnil : rows.filter (fun b ↦ key b = key r) = [] := by
        simpa [List.filter_eq_nil_iff] using ha
      simp [hnil]
    · have hne : key a ≠ key r := fun heq ↦ ha (heq ▸ List.mem_map_of_mem hr)
      simp [hne, ih hd hr]

theorem lookup_append (rows' : List ρ) :
    lookup key (rows ++ rows') k = (lookup key rows k).or (lookup key rows' k) := by
  simp [lookup]

theorem lookup_concat_of_ne (h : key r ≠ k) : lookup key (rows ++ [r]) k = lookup key rows k := by
  simp [lookup, List.find?_append, h]

@[simp]
theorem lookup_concat_self (h : ∀ a ∈ rows, key a ≠ key r) :
    lookup key (rows ++ [r]) (key r) = some r := by
  rw [lookup_append, lookup_eq_none.2 h]
  simp [lookup]

theorem lookup_concat_of_some {r' : ρ} (h : lookup key rows k = some r) :
    lookup key (rows ++ [r']) k = some r := by
  rw [lookup_append, h, Option.some_or]

theorem lookup_update (f : ρ → ρ) (hf : ∀ r, key (f r) = key r) (k' : κ) :
    lookup key (update key rows k' f) k =
      (lookup key rows k).map fun r ↦ if key r = k' then f r else r := by
  induction rows with
  | nil => rfl
  | cons a rows ih =>
    have hkey : key (if key a = k' then f a else a) = key a := by
      split
      · exact hf a
      · rfl
    by_cases ha : key a = k
    · subst ha
      simp only [update, List.map_cons, lookup, List.find?_cons, hkey, decide_true, Option.map_some]
    · have hk : key (if key a = k' then f a else a) ≠ k := hkey.trans_ne ha
      simpa only [update, List.map_cons, lookup, List.find?_cons, hk, ha, decide_false] using ih

theorem lookup_update_self {f : ρ → ρ} (hf : ∀ r, key (f r) = key r)
    (hr : lookup key rows k = some r) : lookup key (update key rows k f) k = some (f r) := by
  rw [lookup_update f hf, hr, Option.map_some, if_pos (lookup_eq_some hr).2]

theorem lookup_map {f : ρ → ρ} (hf : ∀ r, key (f r) = key r) :
    lookup key (rows.map f) k = (lookup key rows k).map f := by
  have hcomp : (fun r ↦ decide (key r = k)) ∘ f = fun r ↦ decide (key r = k) := by
    funext r
    rw [Function.comp_apply, hf r]
  rw [lookup, List.find?_map, hcomp, lookup]

theorem lookup_filter {p : ρ → Bool} (hr : lookup key rows k = some r) (hp : p r = true) :
    lookup key (rows.filter p) k = some r := by
  induction rows with
  | nil => cases hr
  | cons a rows ih =>
    rw [lookup, List.find?_cons] at hr
    by_cases ha : key a = k
    · obtain rfl : a = r := by simpa [ha] using hr
      rw [List.filter_cons_of_pos hp, lookup, List.find?_cons_of_pos (by simpa using ha)]
    · have hrest : lookup key rows k = some r := by simpa [ha, lookup] using hr
      rw [List.filter_cons]
      split
      · rw [lookup, List.find?_cons_of_neg (by simpa using ha)]
        exact ih hrest
      · exact ih hrest

theorem mem_update {f : ρ → ρ} {k' : κ} :
    r ∈ update key rows k' f ↔ ∃ a ∈ rows, (if key a = k' then f a else a) = r :=
  List.mem_map

theorem update_of_ne (f : ρ → ρ) (hk : ∀ r ∈ rows, key r ≠ k) : update key rows k f = rows :=
  (List.map_congr_left fun r hr ↦ if_neg (hk r hr)).trans (List.map_id rows)

theorem filter_update {p : ρ → Bool} (f : ρ → ρ) (hp : ∀ r, p (f r) = p r) :
    (update key rows k f).filter p = update key (rows.filter p) k f := by
  have hcomp : (p ∘ fun r ↦ if key r = k then f r else r) = p := by
    funext r
    rw [Function.comp_apply]
    split
    · exact hp r
    · rfl
  rw [update, List.filter_map, hcomp, update]

theorem map_update_of_eq {τ : Type} (f : ρ → ρ) {g : ρ → τ} (hg : ∀ r, g (f r) = g r) (k' : κ) :
    (update key rows k' f).map g = rows.map g := by
  rw [update, List.map_map]
  refine List.map_congr_left fun a _ ↦ ?_
  rw [Function.comp_apply]
  split
  · exact hg a
  · rfl

end SlipScan.Foundation.Table
