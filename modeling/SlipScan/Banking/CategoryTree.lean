import SlipScan.Model.CategoryTree
import Mathlib.Data.List.Basic
import Mathlib.Data.List.Perm.Basic

namespace SlipScan.Banking.CategoryTree

open Model.Domain Model.CategoryTree

section Nodes

mutual

def flatten : CategoryNode → List NestedCategory
  | .mk category children => category :: flattenAll children

def flattenAll : List CategoryNode → List NestedCategory
  | [] => []
  | node :: nodes => flatten node ++ flattenAll nodes

end

/-- Every node stands under its own parent, and siblings stand in the order of a list. -/
inductive InPlace (flat : List NestedCategory) : Option String → List CategoryNode → Prop
  | intro {parentId : Option String} {nodes : List CategoryNode}
      (parents : ∀ node ∈ nodes, node.category.parentId = parentId)
      (order : (nodes.map CategoryNode.category).Sublist flat)
      (below : ∀ node ∈ nodes, InPlace flat (some node.category.id) node.children) :
      InPlace flat parentId nodes

variable {flat flat' categories remaining remaining' : List NestedCategory}
  {nodes : List CategoryNode} {parentId : Option String} {fuel fuel' : ℕ}
  {attach attach' : Option String → List NestedCategory → List CategoryNode × List NestedCategory}

/-- Nothing that remains stands under one of the nodes. -/
def Taken (nodes : List CategoryNode) (remaining : List NestedCategory) : Prop :=
  ∀ category ∈ flattenAll nodes, ∀ c ∈ remaining, c.parentId ≠ some category.id

structure Attached (flat : List NestedCategory) (parentId : Option String)
    (remaining : List NestedCategory) (result : List CategoryNode × List NestedCategory) :
    Prop where
  perm : (flattenAll result.1 ++ result.2).Perm remaining
  sublist : result.2.Sublist remaining
  inPlace : InPlace flat parentId result.1
  none_left : ∀ c ∈ result.2, c.parentId ≠ parentId
  taken : Taken result.1 result.2

structure EachAttached (flat categories remaining : List NestedCategory)
    (result : List CategoryNode × List NestedCategory) : Prop where
  categories_eq : result.1.map CategoryNode.category = categories
  perm : (flattenAll result.1 ++ result.2).Perm (categories ++ remaining)
  sublist : result.2.Sublist remaining
  below : ∀ node ∈ result.1, InPlace flat (some node.category.id) node.children
  taken : Taken result.1 result.2

theorem Taken.mono (htaken : Taken nodes remaining) (hsub : remaining' ⊆ remaining) :
    Taken nodes remaining' :=
  fun category hcategory c hc ↦ htaken category hcategory c (hsub hc)

end Nodes

section Attaching

variable {flat categories remaining : List NestedCategory} {nodes : List CategoryNode}
  {parentId : Option String} {fuel fuel' : ℕ} {category : NestedCategory}
  {attach attach' : Option String → List NestedCategory → List CategoryNode × List NestedCategory}

/-- The siblings are attached one after the other, each with the nodes below it. -/
theorem attachEach_spec (hattach : ∀ id remaining, remaining.Sublist flat →
      remaining.length < fuel → Attached flat id remaining (attach id remaining))
    (hflat : remaining.Sublist flat) (hfuel : remaining.length < fuel) :
    EachAttached flat categories remaining (attachEach attach categories remaining) := by
  induction categories generalizing remaining with
  | nil => exact ⟨rfl, .refl _, .refl _, nofun, nofun⟩
  | cons category categories ih =>
    have hfirst := hattach (some category.id) remaining hflat hfuel
    rw [attachEach]
    generalize attach (some category.id) remaining = first at hfirst
    obtain ⟨children, left⟩ := first
    have hlength : left.length < fuel := Nat.lt_of_le_of_lt hfirst.sublist.length_le hfuel
    have hrest := ih (hfirst.sublist.trans hflat) hlength
    dsimp only
    generalize attachEach attach categories left = rest at hrest
    obtain ⟨nodes, last⟩ := rest
    refine ⟨?_, ?_, hrest.sublist.trans hfirst.sublist, ?_, ?_⟩
    · exact congrArg (category :: ·) hrest.categories_eq
    · have hsplit : (flattenAll children ++ (flattenAll nodes ++ last)).Perm
          (categories ++ remaining) := by
        calc (flattenAll children ++ (flattenAll nodes ++ last)).Perm
              (flattenAll children ++ (categories ++ left)) := hrest.perm.append_left _
          List.Perm _ (categories ++ (flattenAll children ++ left)) := by
              rw [← List.append_assoc, ← List.append_assoc]
              exact List.perm_append_comm.append_right _
          List.Perm _ (categories ++ remaining) := hfirst.perm.append_left _
      simpa [flattenAll, flatten] using hsplit
    · exact List.forall_mem_cons.2 ⟨hfirst.inPlace, hrest.below⟩
    · rintro c hc
      rw [flattenAll, flatten, List.cons_append, List.mem_cons, List.mem_append] at hc
      rcases hc with rfl | hc | hc
      · exact fun x hx ↦ hfirst.none_left x (hrest.sublist.subset hx)
      · exact hfirst.taken.mono hrest.sublist.subset c hc
      · exact hrest.taken c hc

theorem filter_split (parentId : Option String) (remaining : List NestedCategory) :
    (remaining.filter (·.parentId = parentId) ++ remaining.filter (·.parentId ≠ parentId)).Perm
      remaining := by
  simpa using List.filter_append_perm (fun c : NestedCategory ↦ c.parentId = parentId) remaining

theorem attachWith_spec (hflat : remaining.Sublist flat) (hfuel : remaining.length < fuel) :
    Attached flat parentId remaining (attachWith fuel parentId remaining) := by
  induction fuel generalizing parentId remaining with
  | zero => exact absurd hfuel (Nat.not_lt_zero _)
  | succ fuel ih =>
    have hsplit := filter_split parentId remaining
    have hmatched : (remaining.filter (·.parentId = parentId)).Sublist flat :=
      List.filter_sublist.trans hflat
    have hparents : ∀ c ∈ remaining.filter (·.parentId = parentId), c.parentId = parentId :=
      fun c hc ↦ of_decide_eq_true (List.mem_filter.1 hc).2
    have hrest : ∀ c ∈ remaining.filter (·.parentId ≠ parentId), c.parentId ≠ parentId :=
      fun c hc ↦ of_decide_eq_true (List.mem_filter.1 hc).2
    have hsublist : (remaining.filter (·.parentId ≠ parentId)).Sublist remaining :=
      List.filter_sublist
    rw [attachWith]
    generalize remaining.filter (·.parentId = parentId) = matched at *
    generalize remaining.filter (·.parentId ≠ parentId) = rest at *
    cases matched with
    | nil => exact ⟨hsplit, hsublist, .intro nofun (List.nil_sublist _) nofun, hrest, nofun⟩
    | cons category matched =>
      have hlength := hsplit.length_eq
      rw [List.length_append, List.length_cons] at hlength
      have heach : EachAttached flat (category :: matched) rest
          (attachEach (attachWith fuel) (category :: matched) rest) :=
        attachEach_spec (fun _ _ ↦ ih) (hsublist.trans hflat) (by omega)
      refine ⟨heach.perm.trans hsplit, heach.sublist.trans hsublist, ?_,
        fun c hc ↦ hrest c (heach.sublist.subset hc), heach.taken⟩
      refine .intro (fun node hnode ↦ hparents _ ?_) ?_ heach.below
      · rw [← heach.categories_eq]
        exact List.mem_map_of_mem hnode
      · rw [heach.categories_eq]
        exact hmatched

theorem attach_spec (parentId : Option String) (flat : List NestedCategory) :
    Attached flat parentId flat (Model.CategoryTree.attach parentId flat) :=
  attachWith_spec (.refl _) (Nat.lt_succ_self _)

/-- More levels make no difference, so that a call attaches its siblings as the source does. -/
theorem attachEach_congr (fuel : ℕ) (hattach : ∀ id remaining, remaining.length < fuel →
      attach id remaining = attach' id remaining ∧ (attach id remaining).2.Sublist remaining)
    (hfuel : remaining.length < fuel) :
    attachEach attach categories remaining = attachEach attach' categories remaining := by
  induction categories generalizing remaining with
  | nil => rfl
  | cons category categories ih =>
    obtain ⟨heq, hsublist⟩ := hattach (some category.id) remaining hfuel
    rw [attachEach, attachEach, ← heq]
    dsimp only
    rw [ih (Nat.lt_of_le_of_lt hsublist.length_le hfuel)]

theorem attachWith_eq (hfuel : remaining.length < fuel) (hfuel' : remaining.length < fuel') :
    attachWith fuel parentId remaining = attachWith fuel' parentId remaining := by
  induction fuel generalizing fuel' parentId remaining with
  | zero => exact absurd hfuel (Nat.not_lt_zero _)
  | succ fuel ih =>
    cases fuel' with
    | zero => exact absurd hfuel' (Nat.not_lt_zero _)
    | succ fuel' =>
      have hlength := (filter_split parentId remaining).length_eq
      rw [attachWith, attachWith]
      generalize remaining.filter (·.parentId = parentId) = matched at *
      generalize remaining.filter (·.parentId ≠ parentId) = rest at *
      cases matched with
      | nil => rfl
      | cons category matched =>
        rw [List.length_append, List.length_cons] at hlength
        refine attachEach_congr (min fuel fuel') (fun id remaining hlt ↦ ?_) (by omega)
        refine ⟨ih (by omega) (by omega), ?_⟩
        exact (attachWith_spec (List.Sublist.refl remaining) (by omega)).sublist

/-- The recursion of the source, for every list: each call works on fewer categories than there were,
or has nothing to attach. -/
theorem attach_eq (parentId : Option String) (remaining : List NestedCategory) :
    Model.CategoryTree.attach parentId remaining =
      attachEach Model.CategoryTree.attach (remaining.filter (·.parentId = parentId))
        (remaining.filter (·.parentId ≠ parentId)) := by
  have hlength := (filter_split parentId remaining).length_eq
  rw [Model.CategoryTree.attach, attachWith]
  generalize remaining.filter (·.parentId = parentId) = matched at *
  generalize remaining.filter (·.parentId ≠ parentId) = rest at *
  cases matched with
  | nil => rfl
  | cons category matched =>
    rw [List.length_append, List.length_cons] at hlength
    refine attachEach_congr remaining.length (fun id left hlt ↦ ⟨?_, ?_⟩) (by omega)
    · exact attachWith_eq hlt (Nat.lt_succ_self _)
    · exact (attachWith_spec (List.Sublist.refl left) hlt).sublist

end Attaching

section Forests

variable {flat : List NestedCategory}

/-- Following the parents of a category leads to one without a parent. -/
inductive Rooted (flat : List NestedCategory) : NestedCategory → Prop
  | root {category : NestedCategory} (hparent : category.parentId = none) : Rooted flat category
  | child {category parent : NestedCategory} (hmem : parent ∈ flat)
      (hparent : category.parentId = some parent.id) (hrooted : Rooted flat parent) :
      Rooted flat category

theorem Rooted.not_left {category : NestedCategory} (hrooted : Rooted flat category) :
    category ∉ (attach none flat).2 := by
  have hattached := attach_spec none flat
  induction hrooted with
  | root hparent => exact fun hleft ↦ hattached.none_left _ hleft hparent
  | @child category parent hmem hparent _ ih =>
    have hin : parent ∈ flattenAll (attach none flat).1 := by
      rcases List.mem_append.1 (hattached.perm.symm.subset hmem) with hin | hleft
      · exact hin
      · exact absurd hleft ih
    exact fun hleft ↦ hattached.taken parent hin _ hleft hparent

/-- Every category of a forest is in its tree once, under its own parent, with siblings in the order
of the list. -/
theorem buildTree_complete (hflat : ∀ category ∈ flat, Rooted flat category) :
    (flattenAll (buildTree flat)).Perm flat ∧ InPlace flat none (buildTree flat) := by
  have hattached := attach_spec none flat
  have hnone : (attach none flat).2 = [] := by
    refine List.eq_nil_iff_forall_not_mem.2 fun category hleft ↦ ?_
    have hmem := hattached.sublist.subset hleft
    exact (hflat category hmem).not_left hleft
  have hperm := hattached.perm
  rw [hnone, List.append_nil] at hperm
  exact ⟨hperm, hattached.inPlace⟩

def food : NestedCategory :=
  ⟨⟨"food", "book", .expense⟩, none⟩

def drinks : NestedCategory :=
  ⟨⟨"drinks", "book", .expense⟩, some "food"⟩

def tea : NestedCategory :=
  ⟨⟨"tea", "book", .expense⟩, some "drinks"⟩

/-- Two levels of children that come before their parents. -/
theorem buildTree_tea : (flattenAll (buildTree [tea, drinks, food])).Perm [tea, drinks, food] ∧
    InPlace [tea, drinks, food] none (buildTree [tea, drinks, food]) := by
  have hfood : Rooted [tea, drinks, food] food := .root rfl
  have hdrinks : Rooted [tea, drinks, food] drinks := .child (by simp) rfl hfood
  have htea : Rooted [tea, drinks, food] tea := .child (by simp) rfl hdrinks
  refine buildTree_complete fun category hcategory ↦ ?_
  simp only [List.mem_cons, List.not_mem_nil, or_false] at hcategory
  rcases hcategory with rfl | rfl | rfl
  · exact htea
  · exact hdrinks
  · exact hfood

end Forests

end SlipScan.Banking.CategoryTree
