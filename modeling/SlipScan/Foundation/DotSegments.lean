import Mathlib.Data.List.Infix
import Mathlib.Order.Basic
import Mathlib.Tactic.Push

namespace SlipScan.Foundation.DotSegments

inductive Kind
  | parent | current | name
  deriving DecidableEq, Repr

section Walking

variable {α : Type*} (kind : α → Kind)

def push (dir : List α) (seg : α) : List α :=
  match kind seg with
  | .parent => dir.dropLast
  | .current => dir
  | .name => dir ++ [seg]

def walk (dir segs : List α) : List α :=
  segs.foldl (push kind) dir

/-- The path that some segments name in a directory. One that ends in dots names the directory, with
an empty segment for what is in it. -/
def resolve (empty : α) (dir segs : List α) : List α :=
  if segs.getLast?.all (kind · = .name) then walk kind dir segs else walk kind dir segs ++ [empty]

def names (segs : List α) : ℕ :=
  segs.countP (kind · = .name)

def parents (segs : List α) : ℕ :=
  segs.countP (kind · = .parent)

/-- At no point do the segments lead above where they began. -/
def Level (segs : List α) : Prop :=
  ∀ run, run <+: segs → parents kind run ≤ names kind run

def Reaches (empty : α) (segs : List α) : Prop :=
  ∃ before seg after, segs = before ++ seg :: after ∧ kind seg = .name ∧ seg ≠ empty ∧
    Level kind before ∧ Level kind after

end Walking

section Levels

variable {α : Type*} {kind : α → Kind} {dir segs before after : List α} {seg : α}

theorem level_nil : Level kind [] := by
  intro run hrun
  rw [List.prefix_nil.1 hrun]
  exact le_rfl

theorem level_concat : Level kind (segs ++ [seg]) ↔
    Level kind segs ∧ parents kind (segs ++ [seg]) ≤ names kind (segs ++ [seg]) := by
  constructor
  · intro hlevel
    refine ⟨fun run hrun ↦ ?_, hlevel _ List.prefix_rfl⟩
    exact hlevel run (hrun.trans (List.prefix_append _ _))
  · rintro ⟨hlevel, hlast⟩ run hrun
    rcases List.prefix_concat_iff.1 hrun with rfl | hrun
    · exact hlast
    · exact hlevel run hrun

theorem walk_concat : walk kind dir (segs ++ [seg]) = push kind (walk kind dir segs) seg :=
  List.foldl_concat _ _ _ _

theorem walk_append : walk kind dir (before ++ after) = walk kind (walk kind dir before) after :=
  List.foldl_append

theorem counts_concat (kind : α → Kind) (segs : List α) (seg : α) :
    parents kind (segs ++ [seg]) = parents kind segs + (if kind seg = .parent then 1 else 0) ∧
      names kind (segs ++ [seg]) = names kind segs + (if kind seg = .name then 1 else 0) := by
  simp [parents, names, List.countP_append, List.countP_singleton]

/-- Segments that stay level add what is left of them to any directory. -/
theorem Level.spec (hlevel : Level kind segs) :
    (∀ dir, walk kind dir segs = dir ++ walk kind [] segs) ∧
      (walk kind [] segs).length + parents kind segs = names kind segs := by
  induction segs using List.reverseRecOn with
  | nil => exact ⟨fun dir ↦ (List.append_nil dir).symm, rfl⟩
  | append_singleton segs seg ih =>
    obtain ⟨hbefore, hcount⟩ := level_concat.1 hlevel
    obtain ⟨hwalk, hlength⟩ := ih hbefore
    obtain ⟨hparents, hnames⟩ := counts_concat kind segs seg
    rw [hparents, hnames] at hcount
    rw [hparents, hnames]
    simp only [walk_concat, push]
    cases hkind : kind seg with
    | parent =>
      simp only [hkind, if_pos, reduceCtorEq, if_false, Nat.add_zero] at hcount ⊢
      have hne : walk kind [] segs ≠ [] := by
        rw [← List.length_pos_iff]
        omega
      refine ⟨fun dir ↦ ?_, ?_⟩
      · rw [hwalk, List.dropLast_append_of_ne_nil hne]
      · rw [List.length_dropLast]
        have hpos := List.length_pos_iff.2 hne
        omega
    | current =>
      refine ⟨hwalk, ?_⟩
      simpa using hlength
    | name =>
      refine ⟨fun dir ↦ by rw [hwalk, List.append_assoc], ?_⟩
      simp only [List.length_append, List.length_singleton, reduceCtorEq, if_false, if_pos]
      omega

theorem Level.walk_eq (hlevel : Level kind segs) (dir : List α) :
    walk kind dir segs = dir ++ walk kind [] segs :=
  hlevel.spec.1 dir

/-- A segment leads out where it goes up and nothing is left. -/
theorem level_concat_iff : Level kind (segs ++ [seg]) ↔
    Level kind segs ∧ (kind seg = .parent → walk kind [] segs ≠ []) := by
  rw [level_concat]
  refine and_congr_right fun hlevel ↦ ?_
  obtain ⟨hparents, hnames⟩ := counts_concat kind segs seg
  have hlength := hlevel.spec.2
  rw [hparents, hnames, ne_eq, ← List.length_eq_zero_iff]
  cases kind seg with
  | parent => simp only [if_pos, reduceCtorEq, if_false, forall_const]; omega
  | current => simp only [reduceCtorEq, if_false, false_implies, iff_true]; omega
  | name => simp only [if_pos, reduceCtorEq, if_false, false_implies, iff_true]; omega

/-- Segments that do not go up stay level. -/
theorem level_of_forall (hsegs : ∀ seg ∈ segs, kind seg ≠ .parent) : Level kind segs := by
  induction segs using List.reverseRecOn with
  | nil => exact level_nil
  | append_singleton segs seg ih =>
    refine level_concat_iff.2 ⟨ih fun seg' hseg' ↦ hsegs seg' (by simp [hseg']), fun hparent ↦ ?_⟩
    exact absurd hparent (hsegs seg (by simp))

/-- What is left was named, and nothing after it leads above it. -/
theorem exists_of_walk_eq {l m : List α} (hlevel : Level kind segs)
    (hwalk : walk kind [] segs = l ++ seg :: m) :
    ∃ before after, segs = before ++ seg :: after ∧ kind seg = .name ∧ Level kind before ∧
      Level kind after ∧ walk kind [] after = m := by
  induction segs using List.reverseRecOn generalizing m with
  | nil => simp [walk] at hwalk
  | append_singleton segs last ih =>
    obtain ⟨hbefore, -⟩ := level_concat_iff.1 hlevel
    rw [walk_concat, push] at hwalk
    cases hkind : kind last with
    | parent =>
      rw [hkind] at hwalk
      dsimp only at hwalk
      have hne : walk kind [] segs ≠ [] := by
        intro hnil
        rw [hnil] at hwalk
        simp at hwalk
      obtain ⟨before, after, rfl, hname, hlevel', hafter, hm⟩ :=
        ih (m := m ++ [(walk kind [] segs).getLast hne]) hbefore (by
          rw [← List.cons_append, ← List.append_assoc, ← hwalk, List.dropLast_concat_getLast])
      refine ⟨before, after ++ [last], by simp, hname, hlevel', level_concat_iff.2 ⟨hafter, ?_⟩, ?_⟩
      · rw [hm]
        exact fun _ ↦ by simp
      · rw [walk_concat, push, hkind, hm]
        exact List.dropLast_concat
    | current =>
      rw [hkind] at hwalk
      obtain ⟨before, after, rfl, hname, hlevel', hafter, hm⟩ := ih hbefore hwalk
      refine ⟨before, after ++ [last], by simp, hname, hlevel', level_concat_iff.2 ⟨hafter, ?_⟩, ?_⟩
      · rw [hkind]
        exact nofun
      · rw [walk_concat, push, hkind]
        exact hm
    | name =>
      rw [hkind] at hwalk
      dsimp only at hwalk
      cases m using List.reverseRecOn with
      | nil =>
        obtain ⟨-, hlast⟩ := List.append_inj' hwalk rfl
        obtain rfl := List.singleton_inj.1 hlast
        exact ⟨segs, [], rfl, hkind, hbefore, level_nil, rfl⟩
      | append_singleton m last' =>
        rw [← List.cons_append, ← List.append_assoc] at hwalk
        obtain ⟨hrest, hlast⟩ := List.append_inj' hwalk rfl
        obtain rfl := List.singleton_inj.1 hlast
        obtain ⟨before, after, rfl, hname, hlevel', hafter, hm⟩ := ih hbefore hrest
        refine ⟨before, after ++ [last], by simp, hname, hlevel',
          level_concat_iff.2 ⟨hafter, ?_⟩, ?_⟩
        · rw [hkind]
          exact nofun
        · rw [walk_concat, push, hkind, hm]

/-- A directory that the segments lead out of is not found again under them. -/
theorem notMem_walk {top : α} (hlevel : ¬Level kind segs) (htop : top ∉ segs) :
    top ∉ walk kind [top] segs := by
  induction segs using List.reverseRecOn with
  | nil => exact absurd level_nil hlevel
  | append_singleton segs seg ih =>
    rw [List.mem_append, List.mem_singleton, not_or] at htop
    rw [walk_concat, push]
    by_cases hbefore : Level kind segs
    · -- the last segment leads out, so it goes up and nothing was left before it
      have hout : ¬(kind seg = .parent → walk kind [] segs ≠ []) :=
        fun h ↦ hlevel (level_concat_iff.2 ⟨hbefore, h⟩)
      push Not at hout
      rw [hbefore.walk_eq, hout.1, hout.2]
      exact List.not_mem_nil
    · have hnot := ih hbefore htop.1
      cases hkind : kind seg with
      | parent => exact fun hmem ↦ hnot (List.mem_of_mem_dropLast hmem)
      | current => exact hnot
      | name =>
        rw [List.mem_append, List.mem_singleton, not_or]
        exact ⟨hnot, htop.2⟩

end Levels

section Resolving

variable {α : Type*} {kind : α → Kind} {dir segs : List α} {empty top : α}

theorem resolve_cases (kind : α → Kind) (empty : α) (dir segs : List α) :
    resolve kind empty dir segs = walk kind dir segs ∨
      resolve kind empty dir segs = walk kind dir segs ++ [empty] := by
  rw [resolve]
  split_ifs
  · exact .inl rfl
  · exact .inr rfl

theorem resolve_append {before after : List α} (hafter : after ≠ []) :
    resolve kind empty dir (before ++ after) = resolve kind empty (walk kind dir before) after := by
  rw [resolve, resolve, List.getLast?_append_of_ne_nil _ hafter, walk_append]

theorem Reaches.exists_resolve (hsegs : Reaches kind empty segs) (dir : List α) :
    ∃ rest, resolve kind empty dir segs = dir ++ rest ∧ ∃ seg ∈ rest, seg ≠ empty := by
  obtain ⟨before, seg, after, rfl, hname, hne, hbefore, hafter⟩ := hsegs
  have hwalk : walk kind dir (before ++ seg :: after) =
      dir ++ (walk kind [] before ++ seg :: walk kind [] after) := by
    calc walk kind dir (before ++ seg :: after)
        = walk kind (push kind (walk kind dir before) seg) after := walk_append
      _ = push kind (dir ++ walk kind [] before) seg ++ walk kind [] after := by
        rw [hafter.walk_eq, hbefore.walk_eq]
      _ = _ := by simp [push, hname]
  rcases resolve_cases kind empty dir (before ++ seg :: after) with heq | heq
  · exact ⟨_, heq.trans hwalk, seg, by simp, hne⟩
  · rw [hwalk, List.append_assoc] at heq
    exact ⟨_, heq, seg, by simp, hne⟩

/-- A directory that is not among the segments shows whether they lead out. -/
theorem reaches_of_resolve (htop : top ∉ segs) (hne : top ≠ empty)
    (hresolve : ∃ rest, resolve kind empty [top] segs = [top] ++ rest ∧ ∃ seg ∈ rest, seg ≠ empty) :
    Reaches kind empty segs := by
  obtain ⟨rest, hrest, seg, hseg, hseg_ne⟩ := hresolve
  have hmem : ∀ x, x ≠ empty → x ∈ resolve kind empty [top] segs → x ∈ walk kind [top] segs := by
    intro x hx hxmem
    rcases resolve_cases kind empty [top] segs with heq | heq
    · rwa [heq] at hxmem
    · rw [heq, List.mem_append, List.mem_singleton] at hxmem
      exact hxmem.resolve_right hx
  have hlevel : Level kind segs := by
    by_contra hlevel
    exact notMem_walk hlevel htop (hmem top hne (by rw [hrest]; simp))
  have hleft : seg ∈ walk kind [] segs := by
    have hwalk := hlevel.walk_eq [top]
    rcases resolve_cases kind empty [top] segs with heq | heq
    · rw [hrest, hwalk] at heq
      rwa [← List.append_cancel_left heq]
    · rw [hrest, hwalk, List.append_assoc] at heq
      rw [List.append_cancel_left heq, List.mem_append, List.mem_singleton] at hseg
      exact hseg.resolve_right hseg_ne
  obtain ⟨l, m, hsplit⟩ := List.append_of_mem hleft
  obtain ⟨before, after, hsegs, hname, hbefore, hafter, -⟩ := exists_of_walk_eq hlevel hsplit
  exact ⟨before, seg, after, hsegs, hname, hseg_ne, hbefore, hafter⟩

end Resolving

end SlipScan.Foundation.DotSegments
