import SlipScan.Arithmetic.Words
import SlipScan.Ledger.Posting
import SlipScan.Model.PlainHost
import SlipScan.Model.Purchasing

namespace SlipScan.Documents.Purchasing

open Model.Domain Model.Database Model.Money Model.Purchasing Model.PlainHost Ledger.Amounts
  Ledger.Posting Arithmetic.Vat Arithmetic.Words Relation Foundation.Transaction
  Foundation.Interleaving Foundation.Table

section Totals

def linesTotal (s : PurchasingDb) (id : String) : ℤ :=
  ((s.items.filter fun i ↦ i.purchaseOrderId = id).map fun i ↦ i.totalMinor).sum

/-- The stored totals are those of the lines. -/
structure Tracks (s : PurchasingDb) : Prop where
  lines : ∀ i ∈ s.items, i.totalMinor = i.qtyOrdered * i.unitPriceMinor
  subtotal : ∀ o ∈ s.orders, o.subtotalMinor = linesTotal s o.id
  total : ∀ o ∈ s.orders, o.totalMinor = o.subtotalMinor + o.taxMinor

structure Fits (s : PurchasingDb) : Prop where
  lines : ∀ i ∈ s.items, IsI64 (i.qtyOrdered * i.unitPriceMinor)
  subtotal : ∀ o ∈ s.orders, IsI64 (linesTotal s o.id)
  total : ∀ o ∈ s.orders, IsI64 (linesTotal s o.id + o.taxMinor)

/-- What every commit keeps, whatever it writes back. -/
structure Computed (h : Host) (s : PurchasingDb) : Prop where
  lines : ∀ i ∈ s.items, i.totalMinor = asI64 (i.qtyOrdered * i.unitPriceMinor)
  total : ∀ o ∈ s.orders, o.totalMinor = asI64 (o.subtotalMinor + o.taxMinor)
  owner : ∀ i ∈ s.items, ∀ j ∈ s.items, i.id = j.id → i.purchaseOrderId = j.purchaseOrderId
  minted : ∀ i ∈ s.items, ∀ n, s.minted ≤ n → i.id ≠ h.newId n

def Sums (s : PurchasingDb) : Prop :=
  ∀ o ∈ s.orders, o.subtotalMinor = asI64 (linesTotal s o.id)

def Owned (h : Host) (s s' : PurchasingDb) : Prop :=
  s.minted ≤ s'.minted ∧ ∀ i' ∈ s'.items,
    (∃ i ∈ s.items, i.id = i'.id ∧ i.purchaseOrderId = i'.purchaseOrderId) ∨
      ∃ n, s.minted ≤ n ∧ i'.id = h.newId n

def Evolves (h : Host) (s s' : PurchasingDb) : Prop :=
  Computed h s → Computed h s' ∧ Owned h s s'

/-- The headers that are written back still have the subtotals that are stored. -/
def Fresh (held : List PurchaseOrderHeader) (s : PurchasingDb) : Prop :=
  ∀ before ∈ held, ∀ o ∈ s.orders, o.id = before.id → o.subtotalMinor = before.subtotalMinor

instance (held : List PurchaseOrderHeader) (s : PurchasingDb) : Decidable (Fresh held s) :=
  inferInstanceAs (Decidable (∀ before ∈ held, _))

variable {h : Host} {s s' t : PurchasingDb}

theorem owned_refl (h : Host) (s : PurchasingDb) : Owned h s s :=
  ⟨le_rfl, fun i hi ↦ .inl ⟨i, hi, rfl, rfl⟩⟩

theorem Owned.trans (hst : Owned h s t) (hts : Owned h t s') : Owned h s s' := by
  refine ⟨hst.1.trans hts.1, fun i'' hi'' ↦ ?_⟩
  rcases hts.2 i'' hi'' with hold | hnew
  · obtain ⟨i', hi', hid', howner'⟩ := hold
    rcases hst.2 i' hi' with hold | hnew
    · obtain ⟨i, hi, hid, howner⟩ := hold
      exact .inl ⟨i, hi, hid.trans hid', howner.trans howner'⟩
    · obtain ⟨n, hn, hid⟩ := hnew
      exact .inr ⟨n, hn, hid'.symm.trans hid⟩
  · obtain ⟨n, hn, hid⟩ := hnew
    exact .inr ⟨n, hst.1.trans hn, hid⟩

instance : IsPreorder PurchasingDb (Evolves h) where
  refl s hs := ⟨hs, owned_refl h s⟩
  trans _ _ _ hst hts hs := by
    obtain ⟨ht, howned⟩ := hst hs
    obtain ⟨hs', howned'⟩ := hts ht
    exact ⟨hs', howned.trans howned'⟩

theorem Owned.of_id (howned : Owned h s t) (hs : Computed h s) {i i' : PurchaseOrderLine}
    (hi : i ∈ s.items) (hi' : i' ∈ t.items) (hid : i'.id = i.id) :
    i'.purchaseOrderId = i.purchaseOrderId := by
  rcases howned.2 i' hi' with hold | hnew
  · obtain ⟨j, hj, hjid, howner⟩ := hold
    exact howner.symm.trans (hs.owner j hj i hi (hjid.trans hid))
  · obtain ⟨n, hn, hnew⟩ := hnew
    exact absurd (hid.symm.trans hnew) (hs.minted i hi n hn)

theorem tracks_of_sums (hs : Computed h s) (hsums : Sums s) (hfits : Fits s) : Tracks s := by
  have hsubtotal : ∀ o ∈ s.orders, o.subtotalMinor = linesTotal s o.id := by
    intro o ho
    rw [hsums o ho]
    exact asI64_of_mem (hfits.subtotal o ho).1 (hfits.subtotal o ho).2
  refine ⟨fun i hi ↦ ?_, hsubtotal, fun o ho ↦ ?_⟩
  · rw [hs.lines i hi]
    exact asI64_of_mem (hfits.lines i hi).1 (hfits.lines i hi).2
  · rw [hs.total o ho, hsubtotal o ho]
    exact asI64_of_mem (hfits.total o ho).1 (hfits.total o ho).2

theorem sums_of_tracks (hs : Tracks s) (hfits : Fits s) : Sums s := by
  intro o ho
  rw [hs.subtotal o ho]
  exact (asI64_of_mem (hfits.subtotal o ho).1 (hfits.subtotal o ho).2).symm

end Totals

section Commits

variable {h : Host} {s s' t : PurchasingDb} {id : String}

/-- What a call does to the lines of an order before it adds them up. -/
inductive LinesChange (h : Host) (s : PurchasingDb) (owner : String) : PurchasingDb → Prop
  | add (item : PurchaseOrderLine) (hid : item.id = h.newId s.minted)
      (htotal : item.totalMinor = asI64 (item.qtyOrdered * item.unitPriceMinor))
      (howner : item.purchaseOrderId = owner) :
      LinesChange h s owner { s with minted := s.minted + 1, items := s.items ++ [item] }
  | edit (id : String) (item : PurchaseOrderLine)
      (htotal : item.totalMinor = asI64 (item.qtyOrdered * item.unitPriceMinor))
      (howner : ∀ row ∈ s.items, row.id = id → row.purchaseOrderId = owner) :
      LinesChange h s owner
        { s with items := update (fun i ↦ i.id) s.items id (overwriteItem item) }
  | delete (id : String) (howner : ∀ row ∈ s.items, row.id = id → row.purchaseOrderId = owner) :
      LinesChange h s owner { s with items := s.items.filter fun i ↦ i.id ≠ id }

def recalculated (s : PurchasingDb) (now : String) (po : PurchaseOrderHeader) :
    PurchaseOrderHeader :=
  { po with
    subtotalMinor := asI64 (linesTotal s po.id)
    totalMinor := asI64 (asI64 (linesTotal s po.id) + po.taxMinor)
    updatedAt := now }

def writeOrder (s : PurchasingDb) (po : PurchaseOrderHeader) : PurchasingDb :=
  { s with orders := update (fun o ↦ o.id) s.orders po.id (overwriteOrder po) }

inductive Commit (h : Host) : List PurchaseOrderHeader → PurchasingDb → PurchasingDb → Prop
  | header {s : PurchasingDb} (before after : PurchaseOrderHeader) (hid : after.id = before.id)
      (hsubtotal : after.subtotalMinor = before.subtotalMinor)
      (htotal : after.totalMinor = asI64 (after.subtotalMinor + after.taxMinor)) :
      Commit h [before] s (writeOrder s after)
  | lines {s : PurchasingDb} (t : PurchasingDb) (po : PurchaseOrderHeader) (now : String)
      (hlines : LinesChange h s po.id t) :
      Commit h [] s (writeOrder t (recalculated t now po))

theorem mem_writeOrder {po o' : PurchaseOrderHeader} :
    o' ∈ (writeOrder s po).orders ↔
      ∃ o ∈ s.orders, o' = if o.id = po.id then overwriteOrder po o else o := by
  rw [writeOrder, update, List.mem_map]
  simp only [eq_comm]

theorem Computed.writeOrder (hs : Computed h s) {po : PurchaseOrderHeader}
    (hpo : po.totalMinor = asI64 (po.subtotalMinor + po.taxMinor)) :
    Computed h (writeOrder s po) := by
  refine ⟨hs.lines, fun o' ho' ↦ ?_, hs.owner, hs.minted⟩
  obtain ⟨o, ho, heq⟩ := mem_writeOrder.1 ho'
  subst heq
  split
  · exact hpo
  · exact hs.total o ho

theorem Computed.linesChange (hinj : Function.Injective h.newId) (hs : Computed h s)
    (ht : LinesChange h s id t) :
    Computed h t ∧ Owned h s t ∧ t.orders = s.orders ∧
      ∀ id' ≠ id, linesTotal t id' = linesTotal s id' := by
  cases ht with
  | add item hid htotal howner =>
    refine ⟨⟨fun i hi ↦ ?_, hs.total, fun i hi j hj hij ↦ ?_, fun i hi n hn ↦ ?_⟩,
      ⟨Nat.le_succ _, fun i hi ↦ ?_⟩, rfl, fun id' hid' ↦ ?_⟩
    · rcases List.mem_append.1 hi with hi | hi
      · exact hs.lines i hi
      · exact List.mem_singleton.1 hi ▸ htotal
    · have hnew : ∀ i ∈ s.items, i.id ≠ item.id := fun i hi heq ↦
        hs.minted i hi _ le_rfl (heq.trans hid)
      rcases List.mem_append.1 hi with hi | hi <;> rcases List.mem_append.1 hj with hj | hj
      · exact hs.owner i hi j hj hij
      · exact absurd (List.mem_singleton.1 hj ▸ hij) (hnew i hi)
      · exact absurd (List.mem_singleton.1 hi ▸ hij.symm) (hnew j hj)
      · rw [List.mem_singleton.1 hi, List.mem_singleton.1 hj]
    · rcases List.mem_append.1 hi with hi | hi
      · exact hs.minted i hi n ((Nat.le_succ _).trans hn)
      · intro heq
        have hsame := hinj (hid.symm.trans (List.mem_singleton.1 hi ▸ heq))
        change s.minted + 1 ≤ n at hn
        omega
    · rcases List.mem_append.1 hi with hi | hi
      · exact .inl ⟨i, hi, rfl, rfl⟩
      · exact .inr ⟨s.minted, le_rfl, List.mem_singleton.1 hi ▸ hid⟩
    · have hnot : ¬item.purchaseOrderId = id' := fun heq ↦ hid' (heq.symm.trans howner)
      rw [linesTotal, linesTotal, List.filter_append,
        List.filter_cons_of_neg (by simpa using hnot), List.filter_nil, List.append_nil]
  | edit line item htotal howner =>
    have hmem : ∀ i' ∈ update (fun i ↦ i.id) s.items line (overwriteItem item), ∃ i ∈ s.items,
        i' = if i.id = line then overwriteItem item i else i := by
      intro i' hi'
      obtain ⟨i, hi, heq⟩ := List.mem_map.1 hi'
      exact ⟨i, hi, heq.symm⟩
    have hkept : ∀ i : PurchaseOrderLine,
        (if i.id = line then overwriteItem item i else i).id = i.id ∧
        (if i.id = line then overwriteItem item i else i).purchaseOrderId =
          i.purchaseOrderId := by
      intro i
      split
      · exact ⟨rfl, rfl⟩
      · exact ⟨rfl, rfl⟩
    refine ⟨⟨fun i' hi' ↦ ?_, hs.total, fun i' hi' j' hj' hij ↦ ?_, fun i' hi' n hn ↦ ?_⟩,
      ⟨le_rfl, fun i' hi' ↦ ?_⟩, rfl, fun id' hid' ↦ ?_⟩
    · obtain ⟨i, hi, rfl⟩ := hmem i' hi'
      split
      · exact htotal
      · exact hs.lines i hi
    · obtain ⟨i, hi, rfl⟩ := hmem i' hi'
      obtain ⟨j, hj, rfl⟩ := hmem j' hj'
      rw [(hkept i).1, (hkept j).1] at hij
      rw [(hkept i).2, (hkept j).2]
      exact hs.owner i hi j hj hij
    · obtain ⟨i, hi, rfl⟩ := hmem i' hi'
      rw [(hkept i).1]
      exact hs.minted i hi n hn
    · obtain ⟨i, hi, rfl⟩ := hmem i' hi'
      exact .inl ⟨i, hi, (hkept i).1.symm, (hkept i).2.symm⟩
    · -- the rows that are overwritten are lines of the other order
      rw [linesTotal, linesTotal, update, List.filter_map, List.map_map]
      have hfilter : s.items.filter ((fun i ↦ decide (i.purchaseOrderId = id')) ∘ fun r ↦
          if r.id = line then overwriteItem item r else r) =
          s.items.filter fun i ↦ i.purchaseOrderId = id' :=
        List.filter_congr fun i _ ↦ by simp only [Function.comp_apply, (hkept i).2]
      rw [hfilter]
      refine congrArg List.sum (List.map_congr_left fun i hi ↦ ?_)
      obtain ⟨hmem, hof⟩ := List.mem_filter.1 hi
      have hne : i.id ≠ line := fun heq ↦
        hid' ((of_decide_eq_true hof).symm.trans (howner i hmem heq))
      simp only [Function.comp_apply, if_neg hne]
  | delete line howner =>
    have hsub : ∀ i ∈ s.items.filter (fun i ↦ i.id ≠ line), i ∈ s.items := fun i hi ↦
      (List.mem_filter.1 hi).1
    refine ⟨⟨fun i hi ↦ hs.lines i (hsub i hi), hs.total,
      fun i hi j hj ↦ hs.owner i (hsub i hi) j (hsub j hj),
      fun i hi ↦ hs.minted i (hsub i hi)⟩, ⟨le_rfl, fun i hi ↦ ?_⟩, rfl, fun id' hid' ↦ ?_⟩
    · exact .inl ⟨i, hsub i hi, rfl, rfl⟩
    · rw [linesTotal, linesTotal, List.filter_filter]
      refine congrArg (fun l ↦ (List.map (fun i ↦ PurchaseOrderLine.totalMinor i) l).sum)
        (List.filter_congr fun i hi ↦ ?_)
      by_cases hof : i.purchaseOrderId = id'
      · have hne : i.id ≠ line := fun heq ↦ hid' (hof.symm.trans (howner i hi heq))
        simp [hof, hne]
      · simp [hof]

theorem commit_evolves (hinj : Function.Injective h.newId) {held : List PurchaseOrderHeader}
    (hcommit : Commit h held s s') : Evolves h s s' := by
  intro hs
  cases hcommit with
  | header _ after _ _ htotal => exact ⟨hs.writeOrder htotal, owned_refl h s⟩
  | lines t po now hlines =>
    obtain ⟨ht, howned, -, -⟩ := hs.linesChange hinj hlines
    exact ⟨ht.writeOrder rfl, howned⟩

/-- A commit keeps the subtotals if and only if the headers that it writes back are fresh. -/
theorem sums_commit (hinj : Function.Injective h.newId) (hs : Computed h s) (hsums : Sums s)
    {held : List PurchaseOrderHeader} (hcommit : Commit h held s s') : Sums s' ↔ Fresh held s := by
  cases hcommit with
  | header before after hid hsubtotal _ =>
    constructor
    · intro hsums' b hb o ho hob
      obtain rfl := List.mem_singleton.1 hb
      have hsame : o.id = after.id := hob.trans hid.symm
      have hwritten := hsums' (overwriteOrder after o)
        (mem_writeOrder.2 ⟨o, ho, by rw [if_pos hsame]⟩)
      exact (hsums o ho).trans (hwritten.symm.trans hsubtotal)
    · intro hfresh o' ho'
      obtain ⟨o, ho, rfl⟩ := mem_writeOrder.1 ho'
      split
      · next hsame =>
        have hstored := hfresh before (List.mem_singleton_self _) o ho (hsame.trans hid)
        exact hsubtotal.trans (hstored.symm.trans (hsums o ho))
      · exact hsums o ho
  | lines t po now hlines =>
    obtain ⟨-, -, horders, hothers⟩ := hs.linesChange hinj hlines
    refine iff_of_true (fun o' ho' ↦ ?_) nofun
    obtain ⟨o, ho, rfl⟩ := mem_writeOrder.1 ho'
    split
    · next hsame =>
      exact congrArg (fun id ↦ asI64 (linesTotal t id)) hsame.symm
    · next hother =>
      rw [horders] at ho
      exact (hsums o ho).trans (congrArg asI64 (hothers o.id hother).symm)

end Commits

section Calls

variable {h : Host} {s t : PurchasingDb}

theorem ensures_enforce {c : Prop} [Decidable c] {message : String}
    {Q : Unit → PurchasingDb → Prop} : Ensures (enforce c message) s Q ↔ (c → Q () s) := by
  rw [enforce]
  simp

theorem ensures_newRowId {Q : String → PurchasingDb → Prop} :
    Ensures (newRowId h) s Q ↔ Q (h.newId s.minted) { s with minted := s.minted + 1 } := by
  simp [newRowId]

theorem getOrder_eq_ok {id : String} {po : PurchaseOrderHeader} :
    getOrder s id = .ok po ↔ lookup (fun o ↦ o.id) s.orders id = some po := by
  rw [getOrder]
  cases lookup (fun o ↦ o.id) s.orders id <;> simp [orNotFound]

theorem getItem_eq_ok {id : String} {item : PurchaseOrderLine} :
    getItem s id = .ok item ↔ lookup (fun i ↦ i.id) s.items id = some item := by
  rw [getItem]
  cases lookup (fun i ↦ i.id) s.items id <;> simp [orNotFound]

theorem ensures_updateOrder (po : PurchaseOrderHeader) :
    Ensures (updateOrder po) s fun _ s' ↦ s' = writeOrder s po := by
  simp only [updateOrder, ensures_bind, ensures_get, ensures_enforce, ensures_modify]
  exact fun _ _ _ ↦ rfl

theorem ensures_recalc (id : String) : Ensures (recalcPoTotalsInTx h id) s fun _ s' ↦
    ∃ po now, po.id = id ∧ s' = writeOrder s (recalculated s now po) := by
  simp only [recalcPoTotalsInTx, ensures_bind, ensures_get, ensures_check, getOrder_eq_ok]
  intro po hpo
  obtain ⟨-, hid⟩ := lookup_eq_some hpo
  refine (ensures_updateOrder _).mono fun _ s' hs' ↦ ⟨po, h.nowIso s.minted, hid, ?_⟩
  have hsum : sumI64 ((itemListForPo s id).map fun i ↦ i.totalMinor) = asI64 (linesTotal s id) := by
    rw [sumI64_eq, linesTotal, itemListForPo, ((List.perm_insertionSort _ _).map _).sum_eq]
  rw [hs', recalculated, hsum, hid]

theorem ensures_recalc_commit {id : String} (hlines : LinesChange h s id t) :
    Ensures (recalcPoTotalsInTx h id) t fun _ s' ↦ Commit h [] s s' := by
  refine (ensures_recalc id).mono fun _ s' hs' ↦ ?_
  obtain ⟨po, now, rfl, rfl⟩ := hs'
  exact .lines t po now hlines

theorem since_poGet_bind {β : Type} {id : String}
    {f : PurchaseOrderHeader → PurchasingService β}
    (hf : ∀ t po, Evolves h s t → lookup (fun o ↦ o.id) t.orders id = some po →
      (f po).Since (Evolves h) (Commit h) t) :
    (poGet id >>= f).Since (Evolves h) (Commit h) s := by
  rw [poGet, bind_assoc]
  refine Process.Since.query_bind _ fun t ht ↦ Process.Since.ofExcept_bind _ fun po hpo ↦ ?_
  exact hf t po ht (getOrder_eq_ok.1 hpo)

theorem since_poItemGet_bind {β : Type} {id : String}
    {f : PurchaseOrderLine → PurchasingService β}
    (hf : ∀ t item, Evolves h s t → lookup (fun i ↦ i.id) t.items id = some item →
      (f item).Since (Evolves h) (Commit h) t) :
    (poItemGet id >>= f).Since (Evolves h) (Commit h) s := by
  rw [poItemGet, bind_assoc]
  refine Process.Since.query_bind _ fun t ht ↦ Process.Since.ofExcept_bind _ fun item hitem ↦ ?_
  exact hf t item ht (getItem_eq_ok.1 hitem)

theorem reading_queried {α β : Type} (g : PurchasingDb → β) (k : β → Except Fault α) :
    (Process.query g >>= fun b ↦ Process.ofExcept (k b) : PurchasingService α).Reading :=
  ((reading_query g).2 trivial).bind fun b ↦ (reading_ofExcept (k b)).2 trivial

theorem reading_patchSupplier (before : PurchaseOrderHeader) (supplierId : Option String) :
    (patchSupplier before supplierId).Reading := by
  cases supplierId with
  | none => exact (reading_pure _).2 trivial
  | some supplierId =>
    refine (reading_queried _ _).bind fun supplier ↦ ?_
    refine ((reading_ofExcept _).2 trivial).bind fun _ ↦ ?_
    exact ((reading_ofExcept _).2 trivial).bind fun _ ↦ (reading_pure _).2 trivial

theorem reading_patchLocation (before : PurchaseOrderHeader) (locationId : Option String) :
    (patchLocation before locationId).Reading := by
  cases locationId with
  | none => exact (reading_pure _).2 trivial
  | some locationId =>
    refine (reading_queried _ _).bind fun location ↦ ?_
    exact ((reading_ofExcept _).2 trivial).bind fun _ ↦ (reading_pure _).2 trivial

/-- A patch keeps the subtotal, and the total is that of the new tax. -/
theorem patchFields_eq_ok {before after : PurchaseOrderHeader} {patch : PurchaseOrderPatch}
    (hbefore : before.totalMinor = asI64 (before.subtotalMinor + before.taxMinor))
    (hafter : patchFields h before patch = .ok after) :
    after.id = before.id ∧ after.subtotalMinor = before.subtotalMinor ∧
      after.totalMinor = asI64 (after.subtotalMinor + after.taxMinor) := by
  rw [patchFields] at hafter
  simp only [except_bind_eq_ok, except_pure_eq_ok] at hafter
  obtain ⟨_, -, _, -, _, -, amounts, hamounts, _, -, hafter⟩ := hafter
  subst hafter
  refine ⟨rfl, rfl, ?_⟩
  cases htax : patch.taxMinor with
  | none =>
    rw [htax] at hamounts
    obtain rfl := Except.ok.inj hamounts
    exact hbefore
  | some taxMinor =>
    rw [htax, Model.Scheduling.patched] at hamounts
    simp only [except_bind_eq_ok, except_pure_eq_ok] at hamounts
    obtain ⟨_, -, rfl⟩ := hamounts
    rfl

theorem since_writeBack {before after : PurchaseOrderHeader} (hid : after.id = before.id)
    (hsubtotal : after.subtotalMinor = before.subtotalMinor)
    (htotal : after.totalMinor = asI64 (after.subtotalMinor + after.taxMinor)) :
    (Process.atomically [before] do
      updateOrder after
      return after : PurchasingService PurchaseOrderHeader).Since (Evolves h) (Commit h) s := by
  apply Process.Since.atomically
  intro t _
  rw [ensures_bind]
  refine (ensures_updateOrder after).mono fun _ s' hs' ↦ ?_
  subst hs'
  exact (ensures_pure _).2 (.header before after hid hsubtotal htotal)

theorem since_poUpdate (hs : Computed h s) (id : String) (patch : PurchaseOrderPatch) :
    (poUpdate h id patch).Since (Evolves h) (Commit h) s := by
  apply since_poGet_bind
  intro t before ht hbefore
  have htotal := (ht hs).1.total before (lookup_eq_some hbefore).1
  refine (reading_patchSupplier before _).bind_since fun supplierId ↦ ?_
  refine (reading_patchLocation before _).bind_since fun locationId ↦ ?_
  refine Process.Since.ofExcept_bind _ fun after hafter ↦ ?_
  refine Process.Reading.bind_since ((reading_query _).2 trivial) fun updatedAt ↦ ?_
  obtain ⟨hid, hsubtotal, htotal'⟩ := patchFields_eq_ok (by exact htotal) hafter
  exact since_writeBack hid hsubtotal htotal'

theorem since_poSetStatus (hs : Computed h s) (id : String) (toStatus : PurchaseOrderStatus) :
    (poSetStatus h id toStatus).Since (Evolves h) (Commit h) s := by
  apply since_poGet_bind
  intro t before ht hbefore
  have htotal := (ht hs).1.total before (lookup_eq_some hbefore).1
  refine Process.Since.ofExcept_bind _ fun _ _ ↦ ?_
  refine Process.Reading.bind_since ((reading_query _).2 trivial) fun updatedAt ↦ ?_
  exact since_writeBack rfl rfl htotal

theorem since_poItemAdd (new : NewPurchaseOrderItem) :
    (poItemAdd h new).Since (Evolves h) (Commit h) s := by
  apply since_poGet_bind
  intro t po _ _
  refine Process.Since.ofExcept_bind _ fun _ _ ↦ ?_
  refine (reading_queried _ _).bind_since fun variant ↦ ?_
  refine Process.Since.ofExcept_bind _ fun _ _ ↦ ?_
  refine Process.Since.ofExcept_bind _ fun _ _ ↦ ?_
  refine Process.Since.ofExcept_bind _ fun _ _ ↦ ?_
  refine Process.Reading.bind_since ((reading_query _).2 trivial) fun now ↦ ?_
  apply Process.Since.atomically
  intro u _
  simp only [ensures_bind, ensures_newRowId, insertItem, ensures_get, ensures_enforce,
    ensures_modify, ensures_pure]
  intro _ _ _
  exact ensures_recalc_commit (.add _ rfl rfl rfl)

theorem reading_patchQty (before : PurchaseOrderLine) (qtyOrdered : Option ℤ) :
    (patchQty before qtyOrdered).Reading := by
  cases qtyOrdered with
  | none => exact (reading_pure _).2 trivial
  | some qtyOrdered =>
    refine ((reading_ofExcept _).2 trivial).bind fun _ ↦ ?_
    refine ((reading_query _).2 trivial).bind fun _ ↦ ?_
    refine ((reading_ofExcept _).2 trivial).bind fun _ ↦ ?_
    exact ((reading_ofExcept _).2 trivial).bind fun _ ↦ (reading_pure _).2 trivial

theorem since_poItemUpdate (hs : Computed h s) (id : String) (patch : PurchaseOrderItemPatch) :
    (poItemUpdate h id patch).Since (Evolves h) (Commit h) s := by
  apply since_poItemGet_bind
  intro t before ht hbefore
  have hcomputed := (ht hs).1
  have hmem := (lookup_eq_some hbefore).1
  refine Process.Reading.bind_since (reading_queried _ _) fun po ↦ ?_
  refine Process.Since.ofExcept_bind _ fun _ _ ↦ ?_
  refine (reading_patchQty before _).bind_since fun qtyOrdered ↦ ?_
  refine Process.Since.ofExcept_bind _ fun unitPriceMinor _ ↦ ?_
  refine Process.Reading.bind_since ((reading_query _).2 trivial) fun updatedAt ↦ ?_
  apply Process.Since.atomically
  intro u hu
  simp only [ensures_bind, updateItem, ensures_get, ensures_enforce, ensures_modify, ensures_pure]
  intro _
  refine ensures_recalc_commit (.edit _ _ rfl fun row hrow hid ↦ ?_)
  exact (hu hcomputed).2.of_id hcomputed hmem hrow hid

theorem since_poItemDelete (hs : Computed h s) (id : String) :
    (poItemDelete h id).Since (Evolves h) (Commit h) s := by
  apply since_poItemGet_bind
  intro t before ht hbefore
  have hcomputed := (ht hs).1
  obtain ⟨hmem, hid⟩ := lookup_eq_some hbefore
  apply Process.Since.atomically
  intro u hu
  simp only [ensures_bind, deleteItem, ensures_get, ensures_enforce, ensures_modify]
  intro _
  refine ensures_recalc_commit (.delete id fun row hrow hrowId ↦ ?_)
  exact (hu hcomputed).2.of_id hcomputed hmem hrow (hrowId.trans hid.symm)

theorem since_program (hs : Computed h s) (c : PurchasingCall) :
    (c.program h).Since (Evolves h) (Commit h) s := by
  cases c with
  | poUpdate id patch =>
    exact (since_poUpdate hs id patch).bind_reading fun _ ↦ (reading_pure _).2 trivial
  | poSetStatus id toStatus =>
    exact (since_poSetStatus hs id toStatus).bind_reading fun _ ↦ (reading_pure _).2 trivial
  | poItemAdd new =>
    exact (since_poItemAdd new).bind_reading fun _ ↦ (reading_pure _).2 trivial
  | poItemUpdate id patch =>
    exact (since_poItemUpdate hs id patch).bind_reading fun _ ↦ (reading_pure _).2 trivial
  | poItemDelete id => exact since_poItemDelete hs id

end Calls

section Runs

variable {h : Host} {s : PurchasingDb} {ι : Type}

structure Kept (h : Host) (s : PurchasingDb) : Prop where
  tracks : Tracks s
  fits : Fits s
  distinct : (s.items.map fun i ↦ i.id).Nodup
  minted : ∀ i ∈ s.items, ∀ n, s.minted ≤ n → i.id ≠ h.newId n

theorem Kept.computed (hs : Kept h s) : Computed h s where
  lines i hi := by
    rw [hs.tracks.lines i hi]
    exact (asI64_of_mem (hs.fits.lines i hi).1 (hs.fits.lines i hi).2).symm
  total o ho := by
    rw [hs.tracks.total o ho, hs.tracks.subtotal o ho]
    exact (asI64_of_mem (hs.fits.total o ho).1 (hs.fits.total o ho).2).symm
  owner i hi j hj hij := by rw [List.inj_on_of_nodup_map hs.distinct hi hj hij]
  minted := hs.minted

theorem purchasing_supported (hinj : Function.Injective h.newId) (hs : Computed h s)
    (calls : ι → List PurchasingCall) :
    (purchasing h s calls).Supported (Evolves h) (Commit h) := by
  have hE : ∀ held t t', Commit h held t t' → Evolves h t t' := fun _ _ _ ↦ commit_evolves hinj
  apply supported_of_since
  intro i
  apply since_inTurn_of hE
  intro p hp t ht
  obtain ⟨c, _, rfl⟩ := List.mem_map.1 hp
  exact since_program (ht hs).1 c

variable [DecidableEq ι]

/-- A run whose headers are fresh keeps the amounts computed and the subtotals right. -/
theorem sums_of_fresh (hinj : Function.Injective h.newId) (hs : Kept h s)
    (calls : ι → List PurchasingCall) {is : List ι}
    (hturns : (purchasing h s calls).Turns Fresh is) :
    Computed h ((purchasing h s calls).play is).store ∧
      Sums ((purchasing h s calls).play is).store := by
  have hsupported := purchasing_supported hinj hs.computed calls
  have hpath := hsupported.play (fun _ _ _ ↦ commit_evolves hinj) hturns
  change ReflTransGen _ s _ at hpath
  generalize ((purchasing h s calls).play is).store = u at hpath
  induction hpath with
  | refl => exact ⟨hs.computed, sums_of_tracks hs.tracks hs.fits⟩
  | tail _ hstep ih =>
    obtain ⟨hcomputed, hsums⟩ := ih
    obtain ⟨held, hfresh, hcommit⟩ := hstep
    exact ⟨(commit_evolves hinj hcommit hcomputed).1,
      (sums_commit hinj hcomputed hsums hcommit).2 hfresh⟩

theorem computed_of_run (hinj : Function.Injective h.newId) (hs : Kept h s)
    (calls : ι → List PurchasingCall) (is : List ι) :
    Computed h ((purchasing h s calls).play is).store := by
  have hsupported := purchasing_supported hinj hs.computed calls
  have hpath := hsupported.play (fun _ _ _ ↦ commit_evolves hinj) (turns_true _ is)
  change ReflTransGen _ s _ at hpath
  generalize ((purchasing h s calls).play is).store = u at hpath
  induction hpath with
  | refl => exact hs.computed
  | tail _ hstep ih =>
    obtain ⟨held, -, hcommit⟩ := hstep
    exact (commit_evolves hinj hcommit ih).1

/-- The totals track the lines in a run whose headers are fresh when they are written back, and a
commit keeps them right if and only if its header is. -/
theorem totals_track_iff_fresh (hinj : Function.Injective h.newId) (hs : Kept h s)
    (calls : ι → List PurchasingCall) (is : List ι) :
    ((purchasing h s calls).Turns Fresh is → ∀ n,
      Fits ((purchasing h s calls).play (is.take n)).store →
        Tracks ((purchasing h s calls).play (is.take n)).store) ∧
    ∀ i, let c := (purchasing h s calls).play is
      Tracks c.store → Fits c.store → Fits (c.advance i).store → (c.advance i).store ≠ c.store →
        (Tracks (c.advance i).store ↔ Fresh (c.held i) c.store) := by
  constructor
  · intro hturns n hfits
    have hprefix : (purchasing h s calls).Turns Fresh (is.take n) := by
      rw [← List.take_append_drop n is, turns_append] at hturns
      exact hturns.1
    obtain ⟨hcomputed, hsums⟩ := sums_of_fresh hinj hs calls hprefix
    exact tracks_of_sums hcomputed hsums hfits
  · intro i c htracks hfits hfits' hchanged
    have hcomputed : Computed h c.store := computed_of_run hinj hs calls is
    have hsupported : c.Supported (Evolves h) (Commit h) :=
      (purchasing_supported hinj hs.computed calls).play_supported
        (fun _ _ _ ↦ commit_evolves hinj) is
    have hcommit := (hsupported.advance (fun _ _ _ ↦ commit_evolves hinj) i).2.resolve_left hchanged
    rw [← sums_commit hinj hcomputed (sums_of_tracks htracks hfits) hcommit]
    constructor
    · exact fun htracks' ↦ sums_of_tracks htracks' hfits'
    · exact fun hsums' ↦ tracks_of_sums (commit_evolves hinj hcommit hcomputed).1 hsums' hfits'

end Runs

section Stale

def ordering : PurchasingDb where
  contacts := [⟨⟨"supplier", "book", "Supplier"⟩, .supplier⟩]
  locations := [⟨"location", "book"⟩]
  productVariants := [⟨"variant", "book", "Product", 1000, 600⟩]
  orders := [{
    id := "order"
    bookId := "book"
    status := .draft
    currency := "ZAR"
    supplierId := "supplier"
    locationId := "location"
    poNumber := "PO-1"
    orderDate := "2025-06-01"
    expectedDelivery := none
    subtotalMinor := 0
    taxMinor := 0
    totalMinor := 0
    notes := none
    updatedAt := "2025-06-01T00:00:00Z" }]

def placeAndAdd : Bool → List PurchasingCall
  | true => [.poSetStatus "order" .ordered]
  | false => [.poItemAdd ⟨"order", "variant", 2, some 500⟩]

instance (s : PurchasingDb) : Decidable (Tracks s) :=
  decidable_of_iff ((∀ i ∈ s.items, i.totalMinor = i.qtyOrdered * i.unitPriceMinor) ∧
      (∀ o ∈ s.orders, o.subtotalMinor = linesTotal s o.id) ∧
      ∀ o ∈ s.orders, o.totalMinor = o.subtotalMinor + o.taxMinor)
    ⟨fun hall ↦ ⟨hall.1, hall.2.1, hall.2.2⟩, fun htracks ↦
      ⟨htracks.lines, htracks.subtotal, htracks.total⟩⟩

instance (s : PurchasingDb) : Decidable (Fits s) :=
  decidable_of_iff ((∀ i ∈ s.items, IsI64 (i.qtyOrdered * i.unitPriceMinor)) ∧
      (∀ o ∈ s.orders, IsI64 (linesTotal s o.id)) ∧
      ∀ o ∈ s.orders, IsI64 (linesTotal s o.id + o.taxMinor))
    ⟨fun hall ↦ ⟨hall.1, hall.2.1, hall.2.2⟩, fun hfits ↦
      ⟨hfits.lines, hfits.subtotal, hfits.total⟩⟩

theorem kept_ordering : Kept plainHost ordering :=
  ⟨by decide, by decide, by decide, nofun⟩

theorem totals_track_of_placeFirst :
    Tracks ((purchasing plainHost ordering placeAndAdd).play
      (([true, true, true] ++ List.replicate 4 false).take 7)).store := by
  have htotals := totals_track_iff_fresh plainHost_newId kept_ordering placeAndAdd
    ([true, true, true] ++ List.replicate 4 false)
  exact htotals.1 (by decide +kernel) 7 (by decide +kernel)

def readFirst : List Bool :=
  [true] ++ List.replicate 4 false ++ [true, true]

theorem stale_header_loses_line :
    ¬∀ s, Kept plainHost s → ∀ (calls : Bool → List PurchasingCall) (is : List Bool),
      (∀ n, Fits ((purchasing plainHost s calls).play (is.take n)).store) →
        Tracks ((purchasing plainHost s calls).play is).store := by
  intro hclaim
  have hfits : ∀ n ≤ 7,
      Fits ((purchasing plainHost ordering placeAndAdd).play (readFirst.take n)).store := by
    decide +kernel
  have htracks := hclaim ordering kept_ordering placeAndAdd readFirst fun n ↦ by
    rcases le_total n 7 with hn | hn
    · exact hfits n hn
    · have hlength : readFirst.length ≤ 7 := by decide
      rw [List.take_of_length_le (hlength.trans hn), ← List.take_of_length_le hlength]
      exact hfits 7 le_rfl
  exact absurd htracks (by decide +kernel)

end Stale

end SlipScan.Documents.Purchasing
