import Mathlib.Algebra.Order.BigOperators.Group.List
import Mathlib.Data.List.Nodup
import Mathlib.Logic.Function.Iterate
import Mathlib.Algebra.GroupWithZero.Nat

namespace SlipScan.Foundation.WorkLists

variable {α : Type*}

inductive Reach (next : α → List α) : ℕ → α → α → Prop
  | refl (a : α) : Reach next 0 a a
  | head {n : ℕ} {a b c : α} : b ∈ next a → Reach next n b c → Reach next (n + 1) a c

/-- The nodes that have to be visited, the next one first, each with the links that were followed to
it, and the nodes that have been visited. -/
structure WorkList (α : Type*) where
  pending : List (α × ℕ)
  visited : List α

theorem Reach.tail {next : α → List α} {n : ℕ} {a b c : α} (hreach : Reach next n a b)
    (hc : c ∈ next b) : Reach next (n + 1) a c := by
  induction hreach with
  | refl a => exact .head hc (.refl c)
  | head hb _ ih => exact .head hb (ih hc)

section Steps

variable (next : α → List α) (limit : ℕ)

def links (a : α) (depth : ℕ) : List (α × ℕ) :=
  if depth < limit then ((next a).map fun b ↦ (b, depth + 1)).reverse else []

def step [DecidableEq α] (w : WorkList α) : WorkList α :=
  match w.pending with
  | [] => w
  | (a, depth) :: pending =>
    if a ∈ w.visited then { w with pending }
    else { pending := links next limit a depth ++ pending, visited := w.visited ++ [a] }

def routes : ℕ → α → ℕ
  | 0, _ => 1
  | n + 1, a => 1 + ((next a).map (routes n)).sum

def openRoutes (pending : List (α × ℕ)) : ℕ :=
  (pending.map fun item ↦ routes next (limit - item.2) item.1).sum

end Steps

section Termination

variable {next : α → List α} {limit : ℕ} {w : WorkList α}

theorem routes_pos (n : ℕ) (a : α) : 0 < routes next n a := by
  cases n with
  | zero => exact Nat.one_pos
  | succ n => rw [routes]; omega

theorem openRoutes_append (l m : List (α × ℕ)) :
    openRoutes next limit (l ++ m) = openRoutes next limit l + openRoutes next limit m := by
  simp [openRoutes]

theorem openRoutes_links (a : α) (depth : ℕ) :
    openRoutes next limit (links next limit a depth) < routes next (limit - depth) a := by
  rw [links]
  split_ifs with hdepth
  · obtain ⟨n, hn⟩ : ∃ n, limit - depth = n + 1 := ⟨limit - depth - 1, by omega⟩
    have hrest : limit - (depth + 1) = n := by omega
    have hsum : openRoutes next limit ((next a).map fun b ↦ (b, depth + 1)).reverse =
        ((next a).map (routes next n)).sum := by
      rw [openRoutes, List.map_reverse, List.sum_reverse, List.map_map]
      simp only [Function.comp_def, hrest]
    rw [hsum, hn, routes]
    omega
  · exact routes_pos _ _

variable [DecidableEq α]

/-- A step uses up one route. -/
theorem openRoutes_step (hpending : w.pending ≠ []) :
    openRoutes next limit (step next limit w).pending < openRoutes next limit w.pending := by
  obtain ⟨pending, visited⟩ := w
  cases pending with
  | nil => exact absurd rfl hpending
  | cons item pending =>
    obtain ⟨a, depth⟩ := item
    have hcons : openRoutes next limit ((a, depth) :: pending) =
        routes next (limit - depth) a + openRoutes next limit pending := by
      simp [openRoutes]
    rw [hcons, step]
    dsimp only
    split_ifs
    · exact Nat.lt_add_of_pos_left (routes_pos _ _)
    · rw [openRoutes_append]
      exact Nat.add_lt_add_right (openRoutes_links _ _) _

theorem pending_iterate (n : ℕ) (w : WorkList α) (hn : openRoutes next limit w.pending ≤ n) :
    ((step next limit)^[n] w).pending = [] := by
  induction n generalizing w with
  | zero =>
    by_contra hpending
    exact Nat.not_lt_zero _ (Nat.lt_of_lt_of_le (openRoutes_step hpending) hn)
  | succ n ih =>
    rw [Function.iterate_succ_apply]
    apply ih
    by_cases hpending : w.pending = []
    · have hstep : step next limit w = w := by rw [step, hpending]
      rw [hstep, hpending]
      exact Nat.zero_le n
    · exact Nat.le_of_lt_succ (Nat.lt_of_lt_of_le (openRoutes_step hpending) hn)

end Termination

section Runs

variable {next : α → List α} {limit : ℕ} {roots : List α} {w : WorkList α}

def start (roots : List α) : WorkList α where
  pending := (roots.map fun root ↦ (root, 0)).reverse
  visited := []

/-- What can be reached from a node on the way from a root can be reached from it where it is
visited too. -/
def Timely (next : α → List α) (limit : ℕ) (roots : List α) (w : WorkList α) : Prop :=
  ∀ a depth, w.pending.head? = some (a, depth) → a ∉ w.visited →
    ∀ root ∈ roots, ∀ n m c, Reach next n root a → Reach next m a c → n + m ≤ limit →
      depth + m ≤ limit

def Known (w : WorkList α) (a : α) : Prop :=
  a ∈ w.visited ∨ ∃ depth, (a, depth) ∈ w.pending

/-- The roots are known, and so is what a visited node still has to lead to. -/
structure Covered (next : α → List α) (limit : ℕ) (roots : List α) (w : WorkList α) : Prop where
  begun : ∀ root ∈ roots, Known w root
  ahead : ∀ a ∈ w.visited, ∀ root ∈ roots, ∀ n m b c, Reach next n root a → b ∈ next a →
    Reach next m b c → n + (m + 1) ≤ limit → Known w b

theorem covered_start : Covered next limit roots (start roots) where
  begun _ hroot := .inr ⟨0, List.mem_reverse.2 (List.mem_map_of_mem hroot)⟩
  ahead := nofun

/-- Everything within the limit has been visited when nothing is left to be visited. -/
theorem Covered.reach (hw : Covered next limit roots w) (hpending : w.pending = []) {root a c : α}
    {n m : ℕ} (hroot : root ∈ roots) (ha : a ∈ w.visited) (hreach : Reach next n root a)
    (hahead : Reach next m a c) (hle : n + m ≤ limit) : c ∈ w.visited := by
  induction hahead generalizing n with
  | refl a => exact ha
  | head hb hc ih =>
    rename_i m a b c
    rcases hw.ahead a ha root hroot n m b c hreach hb hc hle with hb' | ⟨depth, hb'⟩
    · exact ih hb' (hreach.tail hb) (by omega)
    · rw [hpending] at hb'
      cases hb'

variable [DecidableEq α]

theorem Known.step {a : α} (ha : Known w a) : Known (step next limit w) a := by
  obtain ⟨pending, visited⟩ := w
  cases pending with
  | nil => exact ha
  | cons item pending =>
    obtain ⟨b, depth⟩ := item
    rw [WorkLists.step]
    dsimp only
    split_ifs with hb
    · rcases ha with ha | ⟨d, ha⟩
      · exact .inl ha
      · rcases List.mem_cons.1 ha with heq | ha
        · obtain rfl : a = b := congrArg Prod.fst heq
          exact .inl hb
        · exact .inr ⟨d, ha⟩
    · rcases ha with ha | ⟨d, ha⟩
      · exact .inl (List.mem_append_left _ ha)
      · rcases List.mem_cons.1 ha with heq | ha
        · obtain rfl : a = b := congrArg Prod.fst heq
          exact .inl (List.mem_append_right _ (List.mem_singleton_self _))
        · exact .inr ⟨d, List.mem_append_right _ ha⟩

/-- A node that a step visits was the next one, and what it links to is going to be visited. -/
theorem visited_step {a : α} (ha : a ∈ (step next limit w).visited) :
    a ∈ w.visited ∨ a ∉ w.visited ∧ ∃ depth, w.pending.head? = some (a, depth) ∧
      ∀ item ∈ links next limit a depth, item ∈ (step next limit w).pending := by
  obtain ⟨pending, visited⟩ := w
  cases pending with
  | nil => exact .inl ha
  | cons item pending =>
    obtain ⟨b, depth⟩ := item
    rw [step] at ha ⊢
    dsimp only at ha ⊢
    by_cases hb : b ∈ visited
    · rw [if_pos hb] at ha
      exact .inl ha
    · rw [if_neg hb] at ha
      rw [if_neg hb]
      rcases List.mem_append.1 ha with ha | ha
      · exact .inl ha
      · obtain rfl := List.mem_singleton.1 ha
        exact .inr ⟨hb, depth, rfl, fun item hitem ↦ List.mem_append_left _ hitem⟩

theorem Covered.step (hw : Covered next limit roots w) (htimely : Timely next limit roots w) :
    Covered next limit roots (step next limit w) := by
  refine ⟨fun root hroot ↦ (hw.begun root hroot).step, ?_⟩
  intro a ha root hroot n m b c hreach hb hc hle
  rcases visited_step ha with ha | ⟨ha, depth, hhead, hlinks⟩
  · exact (hw.ahead a ha root hroot n m b c hreach hb hc hle).step
  · have hdepth := htimely a depth hhead ha root hroot n (m + 1) c hreach (.head hb hc) hle
    refine .inr ⟨depth + 1, hlinks _ ?_⟩
    rw [links, if_pos (by omega), List.mem_reverse]
    exact List.mem_map_of_mem hb

theorem covered_iterate
    (htimely : ∀ n, Timely next limit roots ((step next limit)^[n] (start roots))) (n : ℕ) :
    Covered next limit roots ((step next limit)^[n] (start roots)) := by
  induction n with
  | zero => exact covered_start
  | succ n ih =>
    rw [Function.iterate_succ_apply']
    exact ih.step (htimely n)

theorem visited_iterate
    (htimely : ∀ n, Timely next limit roots ((step next limit)^[n] (start roots))) {root a : α}
    {n m : ℕ} (hn : openRoutes next limit (start roots).pending ≤ n)
    (hroot : root ∈ roots) (hreach : Reach next m root a) (hle : m ≤ limit) :
    a ∈ ((step next limit)^[n] (start roots)).visited := by
  have hcovered := covered_iterate htimely n
  have hpending := pending_iterate n (start roots) hn
  have hvisited : root ∈ ((step next limit)^[n] (start roots)).visited := by
    rcases hcovered.begun root hroot with hvisited | ⟨depth, hvisited⟩
    · exact hvisited
    · rw [hpending] at hvisited
      cases hvisited
  exact hcovered.reach hpending hroot hvisited (.refl root) hreach (by omega)

/-- All the ways to a node are of the same length. -/
def Layered (next : α → List α) (roots : List α) : Prop :=
  ∀ root ∈ roots, ∀ root' ∈ roots, ∀ n m a, Reach next n root a → Reach next m root' a → n = m

/-- The links that were followed to a node are a way to it. -/
theorem routed_step (hw : ∀ item ∈ w.pending, ∃ root ∈ roots, Reach next item.2 root item.1) :
    ∀ item ∈ (step next limit w).pending, ∃ root ∈ roots, Reach next item.2 root item.1 := by
  obtain ⟨pending, visited⟩ := w
  cases pending with
  | nil => exact hw
  | cons item pending =>
    obtain ⟨a, depth⟩ := item
    rw [List.forall_mem_cons] at hw
    rw [step]
    dsimp only
    split_ifs with ha
    · exact hw.2
    · intro item hitem
      rcases List.mem_append.1 hitem with hitem | hitem
      · rw [links] at hitem
        split_ifs at hitem
        · obtain ⟨b, hb, rfl⟩ := List.mem_map.1 (List.mem_reverse.1 hitem)
          obtain ⟨root, hroot, hreach⟩ := hw.1
          exact ⟨root, hroot, hreach.tail hb⟩
        · cases hitem
      · exact hw.2 item hitem

theorem timely_of_layered (hlayered : Layered next roots) (n : ℕ) :
    Timely next limit roots ((step next limit)^[n] (start roots)) := by
  have hrouted : ∀ item ∈ ((step next limit)^[n] (start roots)).pending,
      ∃ root ∈ roots, Reach next item.2 root item.1 := by
    induction n with
    | zero =>
      intro item hitem
      obtain ⟨root, hroot, rfl⟩ := List.mem_map.1 (List.mem_reverse.1 hitem)
      exact ⟨root, hroot, .refl root⟩
    | succ n ih =>
      rw [Function.iterate_succ_apply']
      exact routed_step ih
  intro a depth hhead _ root hroot n m c hreach _ hle
  obtain ⟨root', hroot', hreach'⟩ := hrouted _ (List.mem_of_mem_head? hhead)
  obtain rfl : depth = n := hlayered root' hroot' root hroot depth n a hreach' hreach
  exact hle

theorem nodup_step (hw : w.visited.Nodup) : (step next limit w).visited.Nodup := by
  obtain ⟨pending, visited⟩ := w
  cases pending with
  | nil => exact hw
  | cons item pending =>
    rw [step]
    dsimp only
    split_ifs with ha
    · exact hw
    · rw [← List.concat_eq_append]
      exact hw.concat ha

theorem nodup_iterate (n : ℕ) : ((step next limit)^[n] (start roots)).visited.Nodup := by
  induction n with
  | zero => exact List.nodup_nil
  | succ n ih =>
    rw [Function.iterate_succ_apply']
    exact nodup_step ih

end Runs

end SlipScan.Foundation.WorkLists
