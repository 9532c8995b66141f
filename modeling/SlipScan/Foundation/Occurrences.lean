import Mathlib.Data.Finset.Card
import Mathlib.Data.Finset.Lattice.Fold
import Mathlib.Order.Lattice.Nat

namespace SlipScan.Foundation.Occurrences

section Numbering

variable {R : Type} [DecidableEq R] {r : R} {n : ℕ} {seen : R → ℕ} {l : List R}

def numbered (seen : R → ℕ) : List R → List (R × ℕ)
  | [] => []
  | r :: l => (r, seen r) :: numbered (Function.update seen r (seen r + 1)) l

theorem mem_numbered : (r, n) ∈ numbered seen l ↔ seen r ≤ n ∧ n < seen r + l.countP (· = r) := by
  induction l generalizing seen with
  | nil =>
    simp only [numbered, List.not_mem_nil, List.countP_nil, false_iff]
    omega
  | cons a l ih =>
    rw [numbered, List.mem_cons, ih, List.countP_cons]
    by_cases ha : a = r
    · subst ha
      simp only [Prod.mk.injEq, true_and, Function.update_self, decide_true, if_true]
      omega
    · have ha' : ¬(r = a) := fun h ↦ ha h.symm
      simp [ha, ha']

end Numbering

section Keeping

variable {ι H : Type} [DecidableEq H] {code : ι → H} {kept items : List ι} {i : ι}

def keep (code : ι → H) (kept : List ι) (i : ι) : List ι :=
  if code i ∈ kept.map code then kept else kept ++ [i]

def keepAll (code : ι → H) (kept items : List ι) : List ι :=
  items.foldl (keep code) kept

theorem keepAll_append (items' : List ι) :
    keepAll code kept (items ++ items') = keepAll code (keepAll code kept items) items' :=
  List.foldl_append

theorem mem_map_keep {c : H} :
    c ∈ (keep code kept i).map code ↔ c ∈ kept.map code ∨ c = code i := by
  rw [keep]
  split
  · constructor
    · exact .inl
    · intro h
      rcases h with h | rfl
      · exact h
      · assumption
  · simp

theorem mem_map_keepAll {c : H} :
    c ∈ (keepAll code kept items).map code ↔ c ∈ kept.map code ∨ c ∈ items.map code := by
  induction items generalizing kept with
  | nil => simp [keepAll]
  | cons i items ih =>
    have h : c ∈ (keepAll code (keep code kept i) items).map code ↔ _ := ih
    rw [keepAll, List.foldl_cons, ← keepAll, h, mem_map_keep, List.map_cons, List.mem_cons,
      or_assoc]

theorem mem_of_mem_keepAll (h : i ∈ keepAll code kept items) : i ∈ kept ∨ i ∈ items := by
  induction items generalizing kept with
  | nil => exact .inl h
  | cons j items ih =>
    rcases ih h with h | h
    · rw [keep] at h
      split at h
      · exact .inl h
      · rcases List.mem_append.1 h with h | h
        · exact .inl h
        · exact .inr (List.mem_singleton.1 h ▸ List.mem_cons_self)
    · exact .inr (List.mem_cons_of_mem _ h)

theorem nodup_keepAll (h : (kept.map code).Nodup) : ((keepAll code kept items).map code).Nodup := by
  induction items generalizing kept with
  | nil => exact h
  | cons i items ih =>
    refine ih ?_
    rw [keep]
    split
    · exact h
    · rename_i hnot
      rw [List.map_append, List.map_singleton, List.nodup_append]
      refine ⟨h, List.nodup_singleton _, fun c hc d hd ↦ ?_⟩
      rw [List.mem_singleton.1 hd]
      exact fun heq ↦ hnot (heq ▸ hc)

end Keeping

section Counting

variable {ι H K : Type} [DecidableEq ι] [DecidableEq H] [DecidableEq K] {code : ι → H}
  {label : ι → K} {items : List ι} {expected : K → ℕ}

theorem toFinset_keepAll_subset : (keepAll code [] items).toFinset ⊆ items.toFinset := by
  intro i hi
  rw [List.mem_toFinset] at hi ⊢
  exact (mem_of_mem_keepAll hi).resolve_left List.not_mem_nil

omit [DecidableEq ι] in
theorem nodup_map_keepAll : ((keepAll code [] items).map code).Nodup :=
  nodup_keepAll List.nodup_nil

/-- All items are kept exactly when their codes tell them apart. -/
theorem toFinset_keepAll_eq_iff :
    (keepAll code [] items).toFinset = items.toFinset ↔ Set.InjOn code {i | i ∈ items} := by
  constructor
  · intro h i hi j hj hcode
    have hkept : ∀ {i}, i ∈ items → i ∈ keepAll code [] items := fun hi ↦
      List.mem_toFinset.1 (h ▸ List.mem_toFinset.2 hi)
    exact List.inj_on_of_nodup_map nodup_map_keepAll (hkept hi) (hkept hj) hcode
  · intro h
    refine toFinset_keepAll_subset.antisymm fun i hi ↦ ?_
    rw [List.mem_toFinset] at hi ⊢
    have hcode : code i ∈ (keepAll code [] items).map code :=
      mem_map_keepAll.2 (.inr (List.mem_map_of_mem hi))
    obtain ⟨j, hj, heq⟩ := List.mem_map.1 hcode
    have hmem := (mem_of_mem_keepAll hj).resolve_left List.not_mem_nil
    rwa [h hmem hi heq] at hj

def distinct (label : ι → K) (items : List ι) (k : K) : ℕ :=
  (items.toFinset.filter fun i ↦ label i = k).card

theorem length_filter_keepAll (k : K) : ((keepAll code [] items).filter (label · = k)).length =
    ((keepAll code [] items).toFinset.filter fun i ↦ label i = k).card := by
  have hnodup : (keepAll code [] items).Nodup := nodup_map_keepAll.of_map code
  rw [← List.toFinset_card_of_nodup (hnodup.filter _), List.toFinset_filter]
  simp

/-- The kept items number as expected for each label exactly when the codes tell all items apart
and the expected numbers are those of the different items. -/
theorem length_keepAll_iff (hle : ∀ k, distinct label items k ≤ expected k) :
    (∀ k, ((keepAll code [] items).filter (label · = k)).length = expected k) ↔
      Set.InjOn code {i | i ∈ items} ∧ ∀ k, distinct label items k = expected k := by
  rw [← toFinset_keepAll_eq_iff]
  simp only [length_filter_keepAll]
  constructor
  · intro h
    have hlabels : ∀ k, (keepAll code [] items).toFinset.filter (fun i ↦ label i = k) =
        items.toFinset.filter fun i ↦ label i = k := fun k ↦
      Finset.eq_of_subset_of_card_le (Finset.filter_subset_filter _ toFinset_keepAll_subset)
        ((hle k).trans (h k).ge)
    refine ⟨toFinset_keepAll_subset.antisymm fun i hi ↦ ?_, fun k ↦ ?_⟩
    · have hmem : i ∈ items.toFinset.filter fun j ↦ label j = label i :=
        Finset.mem_filter.2 ⟨hi, rfl⟩
      rw [← hlabels] at hmem
      exact (Finset.mem_filter.1 hmem).1
    · rw [distinct, ← hlabels, h]
  · rintro ⟨hall, h⟩ k
    rw [hall]
    exact h k

end Counting

section Batches

variable {R K H : Type} [DecidableEq R] [DecidableEq K] [DecidableEq H] {key : R → K} {wrap : ℕ}
  {batch : List R} {batches : List (List R)} {k : K} {o : ℕ}

/-- The items of a batch: for each element its key and its number among the equal elements, which
wraps around. -/
def itemsOf (key : R → K) (wrap : ℕ) (batch : List R) : List (K × ℕ) :=
  (numbered (fun _ ↦ 0) batch).map fun p ↦ (key p.1, p.2 % wrap)

def most (key : R → K) (batches : List (List R)) (k : K) : ℕ :=
  batches.toFinset.sup fun batch ↦ batch.countP (key · = k)

omit [DecidableEq K] in
theorem mem_itemsOf (hwrap : 0 < wrap) : (k, o) ∈ itemsOf key wrap batch ↔
    o < wrap ∧ ∃ r, key r = k ∧ o < batch.countP (· = r) := by
  rw [itemsOf, List.mem_map]
  constructor
  · rintro ⟨⟨r, n⟩, hmem, heq⟩
    obtain ⟨rfl, rfl⟩ := Prod.mk.inj heq
    have hn := (mem_numbered.1 hmem).2
    have hmod := Nat.mod_le n wrap
    refine ⟨Nat.mod_lt n hwrap, r, rfl, ?_⟩
    dsimp only
    omega
  · rintro ⟨hlt, r, rfl, ho⟩
    exact ⟨(r, o), mem_numbered.2 ⟨Nat.zero_le _, by omega⟩, by rw [Nat.mod_eq_of_lt hlt]⟩

theorem count_le_countP (r : R) : batch.countP (· = r) ≤ batch.countP (key · = key r) :=
  List.countP_mono_left fun _ _ ha ↦ decide_eq_true (congrArg key (of_decide_eq_true ha))

theorem count_le_most (h : batch ∈ batches) (r : R) :
    batch.countP (· = r) ≤ most key batches (key r) :=
  (count_le_countP r).trans
    (Finset.le_sup (f := fun batch ↦ batch.countP (key · = key r)) (List.mem_toFinset.2 h))

/-- Some batch has the most elements with the key, all of them equal, and few enough to be
numbered. -/
def Attained (key : R → K) (wrap : ℕ) (batches : List (List R)) (k : K) : Prop :=
  most key batches k ≤ wrap ∧
    (0 < most key batches k → ∃ batch ∈ batches, ∃ r, key r = k ∧
      batch.countP (· = r) = most key batches k)

theorem items_subset (hwrap : 0 < wrap) :
    ((batches.flatMap (itemsOf key wrap)).toFinset.filter fun i ↦ i.1 = k) ⊆
      (Finset.range (most key batches k)).image (k, ·) := by
  rintro ⟨k', o⟩ hi
  rw [Finset.mem_filter, List.mem_toFinset, List.mem_flatMap] at hi
  obtain ⟨⟨batch, hbatch, hmem⟩, rfl⟩ := hi
  obtain ⟨-, r, rfl, ho⟩ := (mem_itemsOf hwrap).1 hmem
  have hcount : batch.countP (· = r) ≤ most key batches (key r) := count_le_most hbatch r
  exact Finset.mem_image.2 ⟨o, Finset.mem_range.2 (ho.trans_le hcount), rfl⟩

theorem card_range_image (k : K) (n : ℕ) : ((Finset.range n).image (k, ·)).card = n := by
  rw [Finset.card_image_of_injective _ fun _ _ h ↦ (Prod.mk.inj h).2, Finset.card_range]

theorem distinct_le_most (hwrap : 0 < wrap) (k : K) :
    distinct Prod.fst (batches.flatMap (itemsOf key wrap)) k ≤ most key batches k :=
  (Finset.card_le_card (items_subset hwrap)).trans_eq (card_range_image k _)

theorem distinct_eq_most_iff (hwrap : 0 < wrap) :
    distinct Prod.fst (batches.flatMap (itemsOf key wrap)) k = most key batches k ↔
      Attained key wrap batches k := by
  constructor
  · intro h
    have hall : (batches.flatMap (itemsOf key wrap)).toFinset.filter (fun i ↦ i.1 = k) =
        (Finset.range (most key batches k)).image (k, ·) :=
      Finset.eq_of_subset_of_card_le (items_subset hwrap) ((card_range_image k _).trans h.symm).le
    rcases Nat.eq_zero_or_pos (most key batches k) with hzero | hpos
    · exact ⟨by omega, fun hpos ↦ absurd hzero hpos.ne'⟩
    · have hlast : (k, most key batches k - 1) ∈
          (Finset.range (most key batches k)).image (k, ·) :=
        Finset.mem_image.2 ⟨_, Finset.mem_range.2 (by omega), rfl⟩
      rw [← hall, Finset.mem_filter, List.mem_toFinset, List.mem_flatMap] at hlast
      obtain ⟨⟨batch, hbatch, hmem⟩, -⟩ := hlast
      obtain ⟨hlt, r, rfl, hr⟩ := (mem_itemsOf hwrap).1 hmem
      have hcount : batch.countP (· = r) ≤ most key batches (key r) := count_le_most hbatch r
      exact ⟨by omega, fun _ ↦ ⟨batch, hbatch, r, rfl, by omega⟩⟩
  · rintro ⟨hle, hattained⟩
    refine le_antisymm (distinct_le_most hwrap k) ?_
    rw [distinct, ← card_range_image k (most key batches k)]
    refine Finset.card_le_card fun i hi ↦ ?_
    obtain ⟨o, ho, rfl⟩ := Finset.mem_image.1 hi
    rw [Finset.mem_range] at ho
    obtain ⟨batch, hbatch, r, hr, hcount⟩ := hattained (by omega)
    rw [Finset.mem_filter, List.mem_toFinset, List.mem_flatMap]
    exact ⟨⟨batch, hbatch, (mem_itemsOf hwrap).2 ⟨by omega, r, hr, by omega⟩⟩, rfl⟩

/-- Keeping the items of all batches keeps as many of each key as the batch with the most has,
exactly when the codes tell the items apart and some batch attains the number. -/
theorem length_keepAll_batches_iff (hwrap : 0 < wrap) {code : K × ℕ → H} :
    (∀ k, ((keepAll code [] (batches.flatMap (itemsOf key wrap))).filter (·.1 = k)).length =
        most key batches k) ↔
      Set.InjOn code {i | i ∈ batches.flatMap (itemsOf key wrap)} ∧
        ∀ k, Attained key wrap batches k := by
  refine (length_keepAll_iff (distinct_le_most hwrap)).trans (and_congr_right fun _ ↦ ?_)
  exact forall_congr' fun k ↦ distinct_eq_most_iff hwrap

end Batches

end SlipScan.Foundation.Occurrences
