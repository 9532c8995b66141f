import SlipScan.Foundation.Table
import Mathlib.Algebra.BigOperators.Group.List.Basic
import Mathlib.Algebra.Group.Nat.Even
import Mathlib.Data.List.Induction

namespace SlipScan.Foundation.Chain

variable {ι κ M : Type}

/-- `l` is the whole chain of successors of `k`. -/
inductive Follows (next : κ → Option κ) : κ → List κ → Prop
  | nil {k : κ} (h : next k = none) : Follows next k []
  | cons {k k' : κ} {l : List κ} (h : next k = some k') (hl : Follows next k' l) :
      Follows next k (k' :: l)

section Follows

variable {next next' : κ → Option κ} {k : κ} {l l' : List κ}

theorem Follows.unique (h : Follows next k l) (h' : Follows next k l') : l = l' := by
  induction h generalizing l' with
  | nil hk =>
    cases h' with
    | nil => rfl
    | cons hk' => simp [hk] at hk'
  | cons hk _ ih =>
    cases h' with
    | nil hk' => simp [hk] at hk'
    | cons hk' hl' =>
      obtain rfl := Option.some.inj (hk.symm.trans hk')
      rw [ih hl']

theorem Follows.congr (h : Follows next k l) (hn : ∀ a, next' a = next a) : Follows next' k l := by
  induction h with
  | nil hk => exact .nil ((hn _).trans hk)
  | cons hk _ ih => exact .cons ((hn _).trans hk) ih

/-- Giving the element `t` a successor `b` makes exactly the chains that end in `t` longer. -/
theorem Follows.extend [DecidableEq κ] {t b : κ} (h : Follows next k l) (ht : next' t = some b)
    (hb : next' b = none) (hn : ∀ a, a ≠ t → next' a = next a) (htn : next t = none) :
    Follows next' k (if l.getLast?.getD k = t then l ++ [b] else l) := by
  induction h with
  | @nil k hk =>
    by_cases hkt : k = t
    · subst hkt
      simpa using Follows.cons ht (.nil hb)
    · simpa [hkt] using Follows.nil ((hn k hkt).trans hk)
  | @cons k k' l hk _ ih =>
    have hkt : k ≠ t := by
      rintro rfl
      simp [htn] at hk
    rw [List.getLast?_cons, Option.getD_some]
    have hcons := Follows.cons ((hn k hkt).trans hk) ih
    split_ifs at hcons ⊢ with hl
    · exact hcons
    · exact hcons

def walk (next : κ → Option κ) : ℕ → κ → List κ
  | 0, _ => []
  | n + 1, k =>
    match next k with
    | none => []
    | some k' => k' :: walk next n k'

theorem Follows.walk_eq (h : Follows next k l) {n : ℕ} (hn : l.length ≤ n) :
    walk next n k = l := by
  induction h generalizing n with
  | nil hk => cases n <;> simp [walk, hk]
  | cons hk _ ih =>
    obtain ⟨n, rfl⟩ := Nat.exists_eq_succ_of_ne_zero (by simp at hn; omega : n ≠ 0)
    simp only [walk, hk, ih (by simpa using hn)]

/-- Where each successor undoes its predecessor, a chain of odd length undoes its start. -/
theorem Follows.sum_map [AddCommGroup M] {f : κ → M} (h : Follows next k l)
    (hf : ∀ a b, next a = some b → f b = -f a) :
    f k + (l.map f).sum = if Even l.length then f k else 0 := by
  induction h with
  | nil => simp
  | @cons k k' l hk _ ih =>
    rw [List.map_cons, List.sum_cons, ih, hf k k' hk, List.length_cons]
    by_cases hl : Even l.length
    · simp [hl, Nat.even_add_one]
    · simp [hl, Nat.even_add_one]

end Follows

section Log

variable [DecidableEq κ] (key : ι → κ) (link : ι → Option κ)

/-- Logs that grow at the end, in which an entry may link to one earlier entry, and no two
entries link to the same one. -/
inductive WellLinked : List ι → Prop
  | nil : WellLinked []
  | snoc {log : List ι} {e : ι} (h : WellLinked log) (hkey : ∀ x ∈ log, key x ≠ key e)
      (hlink : ∀ k, link e = some k → (∃ x ∈ log, key x = k) ∧ ∀ x ∈ log, link x ≠ some k) :
      WellLinked (log ++ [e])

def successor (log : List ι) (k : κ) : Option κ :=
  (log.find? fun e ↦ link e = some k).map key

/-- The keys of the chain that starts at `k`, in one pass over the log. -/
def chain (log : List ι) (k : κ) : List κ :=
  log.foldl (fun c e ↦ if link e = some (c.getLast?.getD k) then c ++ [key e] else c) []

def tip (log : List ι) (k : κ) : κ :=
  (chain key link log k).getLast?.getD k

variable {key link} {log : List ι} {e : ι} {k t : κ}

theorem chain_snoc :
    chain key link (log ++ [e]) k =
      if link e = some (tip key link log k) then chain key link log k ++ [key e]
      else chain key link log k := by
  rw [chain, List.foldl_append]
  rfl

theorem tip_snoc :
    tip key link (log ++ [e]) k =
      if link e = some (tip key link log k) then key e else tip key link log k := by
  rw [tip, chain_snoc]
  split
  · simp
  · rfl

theorem length_chain_le : (chain key link log k).length ≤ log.length := by
  induction log using List.reverseRecOn with
  | nil => simp [chain]
  | append_singleton log e ih =>
    rw [chain_snoc]
    split <;> simp <;> omega

theorem successor_eq_none : successor key link log k = none ↔ ∀ x ∈ log, link x ≠ some k := by
  simp [successor]

theorem successor_eq_some {b : κ} (h : successor key link log k = some b) :
    ∃ x ∈ log, link x = some k ∧ key x = b := by
  obtain ⟨x, hx, rfl⟩ := Option.map_eq_some_iff.1 h
  have hlink := List.find?_some hx
  exact ⟨x, List.mem_of_find?_eq_some hx, by simpa using hlink, rfl⟩

theorem successor_snoc_of_ne (h : link e ≠ some k) :
    successor key link (log ++ [e]) k = successor key link log k := by
  simp [successor, List.find?_append, h]

theorem successor_snoc_of_eq (h : link e = some k) (hlog : ∀ x ∈ log, link x ≠ some k) :
    successor key link (log ++ [e]) k = some (key e) := by
  rw [successor, List.find?_append, List.find?_eq_none.2 (by simpa using hlog)]
  simp [h]

omit [DecidableEq κ] in
theorem WellLinked.exists_of_link (h : WellLinked key link log) :
    ∀ x ∈ log, ∀ k, link x = some k → ∃ y ∈ log, key y = k := by
  induction h with
  | nil => simp
  | snoc _ _ hlink ih =>
    intro x hx k hk
    rcases List.mem_append.1 hx with hx | hx
    · obtain ⟨y, hy, hyk⟩ := ih x hx k hk
      exact ⟨y, List.mem_append_left _ hy, hyk⟩
    · obtain rfl := List.mem_singleton.1 hx
      obtain ⟨y, hy, hyk⟩ := (hlink k hk).1
      exact ⟨y, List.mem_append_left _ hy, hyk⟩

omit [DecidableEq κ] in
theorem WellLinked.eq_of_key (h : WellLinked key link log) :
    ∀ x ∈ log, ∀ y ∈ log, key x = key y → x = y := by
  induction h with
  | nil => simp
  | snoc _ hkey _ ih =>
    intro x hx y hy hxy
    simp only [List.mem_append, List.mem_singleton] at hx hy
    rcases hx with hx | rfl <;> rcases hy with hy | rfl
    · exact ih x hx y hy hxy
    · exact absurd hxy (hkey x hx)
    · exact absurd hxy.symm (hkey y hy)
    · rfl

omit [DecidableEq κ] in
theorem WellLinked.nodup (h : WellLinked key link log) : (log.map key).Nodup := by
  induction h with
  | nil => simp
  | snoc _ hkey _ ih => exact Table.nodup_concat hkey ih

/-- In a well-linked log every chain is finite, and `chain` lists it. -/
theorem WellLinked.follows (h : WellLinked key link log) (k : κ) :
    Follows (successor key link log) k (chain key link log k) := by
  induction h with
  | nil => exact .nil rfl
  | @snoc log e hlog hkey hlink ih =>
    have hnone : ∀ x ∈ log ++ [e], link x ≠ some (key e) := by
      intro x hx hxe
      rcases List.mem_append.1 hx with hx | hx
      · obtain ⟨y, hy, hye⟩ := hlog.exists_of_link x hx _ hxe
        exact hkey y hy hye
      · obtain rfl := List.mem_singleton.1 hx
        obtain ⟨y, hy, hye⟩ := (hlink _ hxe).1
        exact hkey y hy hye
    rw [chain_snoc]
    cases he : link e with
    | none =>
      exact ih.congr fun a ↦ successor_snoc_of_ne (by simp [he])
    | some t =>
      have ht := (hlink t he).2
      have hext := ih.extend (successor_snoc_of_eq he ht) (successor_eq_none.2 hnone)
        (fun a ha ↦ successor_snoc_of_ne (by simpa [he] using ha.symm)) (successor_eq_none.2 ht)
      simpa only [tip, Option.some.injEq, eq_comm] using hext

/-- Following the links from `k` for as many steps as there are entries lists its chain. -/
theorem WellLinked.walk_eq (h : WellLinked key link log) {n : ℕ} (hn : log.length ≤ n) (k : κ) :
    walk (successor key link log) n k = chain key link log k :=
  (h.follows k).walk_eq (length_chain_le.trans hn)

theorem WellLinked.exists_of_mem_chain (h : WellLinked key link log) {b : κ}
    (hb : b ∈ chain key link log k) : ∃ y ∈ log, key y = b := by
  induction h with
  | nil => simp [chain] at hb
  | @snoc log e _ _ _ ih =>
    have hold : b ∈ chain key link log k → ∃ y ∈ log ++ [e], key y = b := fun hb ↦ by
      obtain ⟨y, hy, hyb⟩ := ih hb
      exact ⟨y, List.mem_append_left _ hy, hyb⟩
    rw [chain_snoc] at hb
    split at hb
    · rcases List.mem_append.1 hb with hb | hb
      · exact hold hb
      · exact ⟨e, by simp, (List.mem_singleton.1 hb).symm⟩
    · exact hold hb

theorem WellLinked.tip_mem (h : WellLinked key link log) {x : ι} (hx : x ∈ log) :
    ∃ y ∈ log, key y = tip key link log (key x) := by
  rw [tip]
  cases hl : (chain key link log (key x)).getLast? with
  | none => exact ⟨x, hx, rfl⟩
  | some k => exact h.exists_of_mem_chain (List.mem_of_getLast? hl)

theorem WellLinked.chain_of_fresh (h : WellLinked key link log) (hk : ∀ x ∈ log, key x ≠ k) :
    chain key link log k = [] := by
  have hnone : successor key link log k = none := by
    refine successor_eq_none.2 fun x hx hxk ↦ ?_
    obtain ⟨y, hy, hyk⟩ := h.exists_of_link x hx _ hxk
    exact hk y hy hyk
  exact (h.follows k).unique (.nil hnone)

theorem WellLinked.nodup_chain (h : WellLinked key link log) :
    ∀ x ∈ log, (key x :: chain key link log (key x)).Nodup := by
  induction h with
  | nil => simp
  | @snoc log e hlog hkey hlink ih =>
    intro x hx
    rw [chain_snoc]
    rcases List.mem_append.1 hx with hx | hx
    · split
      · rw [← List.cons_append, List.nodup_append]
        refine ⟨ih x hx, by simp, fun a ha b hb ↦ ?_⟩
        obtain rfl := List.mem_singleton.1 hb
        rcases List.mem_cons.1 ha with rfl | ha
        · exact hkey x hx
        · obtain ⟨y, hy, rfl⟩ := hlog.exists_of_mem_chain ha
          exact hkey y hy
      · exact ih x hx
    · obtain rfl := List.mem_singleton.1 hx
      have hnil := hlog.chain_of_fresh hkey
      rw [if_neg, hnil]
      · simp
      · rw [tip, hnil]
        intro hself
        obtain ⟨y, hy, hyx⟩ := (hlink _ hself).1
        exact hkey y hy hyx

theorem WellLinked.length_chain_of_none (h : WellLinked key link log)
    (hk : successor key link log k = none) : (chain key link log k).length = 0 := by
  rw [(h.follows k).unique (.nil hk), List.length_nil]

theorem WellLinked.length_chain_of_some (h : WellLinked key link log) {b : κ}
    (hk : successor key link log k = some b) :
    (chain key link log k).length = (chain key link log b).length + 1 := by
  rw [(h.follows k).unique (.cons hk (h.follows b)), List.length_cons]

omit [DecidableEq κ] in
theorem WellLinked.eq_of_link (h : WellLinked key link log) :
    ∀ x ∈ log, ∀ y ∈ log, ∀ k, link x = some k → link y = some k → x = y := by
  induction h with
  | nil => simp
  | snoc _ _ hlink ih =>
    intro x hx y hy k hxk hyk
    simp only [List.mem_append, List.mem_singleton] at hx hy
    rcases hx with hx | rfl <;> rcases hy with hy | rfl
    · exact ih x hx y hy k hxk hyk
    · exact absurd hxk ((hlink k hyk).2 x hx)
    · exact absurd hyk ((hlink k hxk).2 y hy)
    · rfl

/-- The entries that link to `k`: its successor, if it has one. -/
theorem WellLinked.filter_link (h : WellLinked key link log) (k : κ) :
    (log.filter fun e ↦ link e = some k).map key = (successor key link log k).toList := by
  induction h with
  | nil => rfl
  | @snoc log e _ _ hlink ih =>
    rw [List.filter_append, List.map_append, ih]
    by_cases he : link e = some k
    · rw [successor_snoc_of_eq he (hlink k he).2, successor_eq_none.2 (hlink k he).2]
      simp [he]
    · rw [successor_snoc_of_ne he]
      simp [he]

/-- Chains of different roots do not meet. -/
theorem WellLinked.tip_injective (h : WellLinked key link log) :
    ∀ x ∈ log, ∀ y ∈ log, link x = none → link y = none →
      tip key link log (key x) = tip key link log (key y) → x = y := by
  induction h with
  | nil => simp
  | @snoc log e hlog hkey hlink ih =>
    have hnew : ∀ x ∈ log, tip key link log (key x) ≠ key e := fun x hx heq ↦ by
      obtain ⟨y, hy, hyk⟩ := hlog.tip_mem hx
      exact hkey y hy (hyk.trans heq)
    have hself : tip key link log (key e) = key e := by
      rw [tip, hlog.chain_of_fresh hkey]
      rfl
    intro x hx y hy hxr hyr hxy
    simp only [List.mem_append, List.mem_singleton] at hx hy
    rw [tip_snoc, tip_snoc] at hxy
    rcases hx with hx | rfl <;> rcases hy with hy | rfl
    · refine ih x hx y hy hxr hyr ?_
      split at hxy <;> split at hxy
      · rename_i h₁ h₂
        exact Option.some.inj (h₁.symm.trans h₂)
      · exact absurd hxy.symm (hnew y hy)
      · exact absurd hxy (hnew x hx)
      · exact hxy
    · simp only [hyr, reduceCtorEq, if_false, hself] at hxy
      exact absurd hxy (hnew x hx)
    · simp only [hxr, reduceCtorEq, if_false, hself] at hxy
      exact absurd hxy.symm (hnew y hy)
    · rfl

end Log

end SlipScan.Foundation.Chain
