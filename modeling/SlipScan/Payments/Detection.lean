import SlipScan.Model.Payments

namespace SlipScan.Payments.Detection

open Model.Domain Model.Database Model.Payments Foundation.Transaction Foundation.Table

section Rows

/-- The offsets that times are written with: that of UTC, and those of the texts passes get. -/
def Offset (h : PayHost) (Given : String → Prop) (offset : ℤ) : Prop :=
  offset = 0 ∨ ∃ text now, Given text ∧ h.parse text = .ok now ∧ now.offset = offset

def Written (h : PayHost) (Given : String → Prop) (text : String) : Prop :=
  ∃ now, Offset h Given now.offset ∧ h.format now = some text

structure Regular (h : PayHost) (Given : String → Prop) (d : PayDelivery) : Prop where
  nonneg : 0 ≤ d.attempts
  capped : d.attempts ≤ maxDeliveryAttempts
  pending : d.state = .pending → d.attempts < maxDeliveryAttempts
  time : Written h Given d.nextAttemptAt

def pairOf (d : PayDelivery) : String × String :=
  (d.matchId, d.endpointId)

def deliveryPairs (s : PayDb) : List (String × String) :=
  s.deliveries.map pairOf

/-- What holds of the tables after every commit. -/
structure Sound (h : PayHost) (Given : String → Prop) (s : PayDb) : Prop where
  endpoints : (s.endpoints.map PayEndpoint.id).Nodup
  deliveries : (s.deliveries.map PayDelivery.id).Nodup
  pairs : (deliveryPairs s).Nodup
  known : ∀ d ∈ s.deliveries, ∃ m ∈ s.payMatches, m.id = d.matchId
  rows : ∀ d ∈ s.deliveries, Regular h Given d

def Listens (s : PayDb) (bookId endpointId : String) : Prop :=
  ∃ e ∈ s.endpoints, e.id = endpointId ∧ e.bookId = bookId ∧ e.enabled

variable {h : PayHost} {Given : String → Prop} {s t u : PayDb} {bookId : String}

theorem mem_listEnabledEndpoints {e : PayEndpoint} :
    e ∈ listEnabledEndpoints s bookId ↔ e ∈ s.endpoints ∧ e.bookId = bookId ∧ e.enabled := by
  rw [listEnabledEndpoints, List.mem_insertionSort, List.mem_filter, decide_eq_true_eq]

theorem mem_map_listEnabledEndpoints {id : String} :
    id ∈ (listEnabledEndpoints s bookId).map PayEndpoint.id ↔ Listens s bookId id := by
  simp only [List.mem_map, mem_listEnabledEndpoints, Listens]
  constructor
  · intro hid
    obtain ⟨e, ⟨he, hbook, henabled⟩, hid⟩ := hid
    exact ⟨e, he, hid, hbook, henabled⟩
  · intro hid
    obtain ⟨e, he, hid, hbook, henabled⟩ := hid
    exact ⟨e, ⟨he, hbook, henabled⟩, hid⟩

theorem nodup_listEnabledEndpoints (bookId : String)
    (hs : (s.endpoints.map PayEndpoint.id).Nodup) :
    ((listEnabledEndpoints s bookId).map PayEndpoint.id).Nodup := by
  rw [listEnabledEndpoints, ((List.perm_insertionSort _ _).map _).nodup_iff]
  exact hs.sublist (List.filter_sublist.map _)

end Rows

section Matching

variable {h : PayHost} {Given : String → Prop} {s t u : PayDb} {m : PayMatch}
  {endpoints : List PayEndpoint} {ds : List PayDelivery} {bookId : String}

theorem ensures_enforce {c : Prop} [Decidable c] {message : String} {Q : Unit → PayDb → Prop} :
    Ensures (enforce c message) s Q ↔ (c → Q () s) := by
  rw [enforce]
  simp

theorem ensures_newRowId {Q : String → PayDb → Prop} :
    Ensures (newRowId h) s Q ↔ Q (h.newId s.minted) { s with minted := s.minted + 1 } := by
  simp [newRowId]

theorem ensures_clockText :
    Ensures (clockText h) s fun text t ↦ t = s ∧ ∃ n, h.format ⟨n, 0⟩ = some text := by
  simp only [clockText, ensures_bind, ensures_get]
  cases htext : h.format ⟨h.clock s.minted, 0⟩ with
  | none => exact (ensures_throw _).2 trivial
  | some text => exact (ensures_pure _).2 ⟨rfl, _, htext⟩

def queuedRow (m : PayMatch) (payload endpointId id : String) : PayDelivery where
  id := id
  bookId := m.bookId
  endpointId := endpointId
  matchId := m.id
  payload := payload
  state := .pending
  attempts := 0
  nextAttemptAt := m.matchedAt
  lastStatus := none
  lastError := none
  createdAt := m.matchedAt
  updatedAt := m.matchedAt

theorem ensures_insertDelivery (d : PayDelivery) :
    Ensures (insertDelivery d) s fun _ t ↦ (∀ d' ∈ s.deliveries, d'.id ≠ d.id) ∧
      t = { s with deliveries := s.deliveries ++ [d] } := by
  simp only [insertDelivery, ensures_bind, ensures_get, ensures_enforce, ensures_modify]
  exact fun hnew _ ↦ ⟨hnew, trivial⟩

/-- The deliveries of a match join the queue. -/
structure Queues (m : PayMatch) (endpoints : List PayEndpoint) (s t : PayDb)
    (ds : List PayDelivery) : Prop where
  pairs : ds.map pairOf = endpoints.map fun e ↦ (m.id, e.id)
  rows : ∀ d ∈ ds, d.state = .pending ∧ d.attempts = 0 ∧ d.nextAttemptAt = m.matchedAt
  deliveries : t.deliveries = s.deliveries ++ ds
  payMatches : t.payMatches = s.payMatches
  unchanged : t.endpoints = s.endpoints
  nodup : (s.deliveries.map PayDelivery.id).Nodup → (t.deliveries.map PayDelivery.id).Nodup

theorem ensures_enqueue (payload : String) (endpoints : List PayEndpoint) :
    Ensures (enqueue h m payload endpoints) s fun _ t ↦ ∃ ds, Queues m endpoints s t ds := by
  rw [enqueue]
  induction endpoints generalizing s with
  | nil => exact (ensures_pure _).2 ⟨[], rfl, nofun, by simp, rfl, rfl, id⟩
  | cons e endpoints ih =>
    simp only [List.forM_eq_forM, List.forM_cons, ensures_bind, ensures_newRowId]
    refine (ensures_insertDelivery _).mono fun _ s' hs' ↦ ?_
    obtain ⟨hnew, rfl⟩ := hs'
    refine ih.mono fun _ t ht ↦ ?_
    obtain ⟨ds, hds⟩ := ht
    refine ⟨queuedRow m payload e.id (h.newId s.minted) :: ds, ?_, ?_, ?_, hds.payMatches,
      hds.unchanged, fun hs ↦ hds.nodup (nodup_concat hnew hs)⟩
    · rw [List.map_cons, List.map_cons, hds.pairs]
      rfl
    · rw [List.forall_mem_cons]
      exact ⟨⟨rfl, rfl, rfl⟩, hds.rows⟩
    · rw [hds.deliveries, List.append_assoc]
      rfl

/-- A watch found its code: a match is recorded, and its deliveries are queued. -/
structure Records (h : PayHost) (endpoints : List PayEndpoint) (s t : PayDb) (m : PayMatch)
    (ds : List PayDelivery) : Prop where
  new : ∀ m' ∈ s.payMatches, m'.id ≠ m.id
  time : ∃ n, h.format ⟨n, 0⟩ = some m.matchedAt
  queues : Queues m endpoints { s with payMatches := s.payMatches ++ [m] } t ds

theorem ensures_matchWatch (txn : Transaction) (endpoints : List PayEndpoint) (watch : PayWatch) :
    Ensures (matchWatch h txn endpoints watch) s fun _ t ↦ t = s ∨
      ∃ m ds, m.bookId = txn.bookId ∧ Records h endpoints s t m ds := by
  rw [matchWatch]
  split
  · simp only [ensures_bind]
    refine ensures_clockText.mono fun matchedAt s' hs' ↦ ?_
    obtain ⟨rfl, htime⟩ := hs'
    simp only [ensures_newRowId, insertMatch, ensures_bind, ensures_get, ensures_enforce,
      ensures_modify]
    intro hnew _ _
    refine (ensures_enqueue _ _).mono fun _ t ht ↦ ?_
    obtain ⟨ds, hds⟩ := ht
    refine .inr ⟨_, ds, ?_, ?_, ?_, hds.pairs, hds.rows, hds.deliveries, hds.payMatches,
      hds.unchanged, hds.nodup⟩
    · rfl
    · exact hnew
    · exact htime
  · exact (ensures_pure _).2 (.inl rfl)

structure Grown (h : PayHost) (Given : String → Prop) (s t : PayDb) : Prop where
  sound : Sound h Given t
  endpoints : t.endpoints = s.endpoints
  payMatches : s.payMatches ⊆ t.payMatches
  deliveries : s.deliveries ⊆ t.deliveries
  born : ∀ m ∈ t.payMatches, m ∉ s.payMatches →
    ∀ e, (m.id, e) ∈ deliveryPairs t ↔ Listens s m.bookId e
  kept : ∀ m ∈ s.payMatches, ∀ e, (m.id, e) ∈ deliveryPairs t → (m.id, e) ∈ deliveryPairs s

theorem Sound.grown (hs : Sound h Given s) : Grown h Given s s where
  sound := hs
  endpoints := rfl
  payMatches := List.Subset.refl _
  deliveries := List.Subset.refl _
  born _ hm hnew := absurd hm hnew
  kept _ _ _ he := he

theorem mem_deliveryPairs_append {ds : List PayDelivery}
    (hdeliveries : t.deliveries = s.deliveries ++ ds) {p : String × String} :
    p ∈ deliveryPairs t ↔ p ∈ deliveryPairs s ∨ p ∈ ds.map pairOf := by
  rw [deliveryPairs, deliveryPairs, hdeliveries, List.map_append, List.mem_append]

theorem Sound.not_mem_pairs (hs : Sound h Given s) (hm : ∀ m' ∈ s.payMatches, m'.id ≠ m.id)
    (e : String) : (m.id, e) ∉ deliveryPairs s := by
  intro hmem
  obtain ⟨d, hd, heq⟩ := List.mem_map.1 hmem
  obtain ⟨m', hm', hid⟩ := hs.known d hd
  exact hm m' hm' (hid.trans (congrArg Prod.fst heq))

/-- The endpoints that hear of a match are those that were enabled before the detection. -/
theorem Grown.records (hgrown : Grown h Given s u) (hm : m.bookId = bookId)
    (hrecords : Records h (listEnabledEndpoints s bookId) u t m ds) : Grown h Given s t := by
  obtain ⟨hnew, htime, hqueues⟩ := hrecords
  have hsound := hgrown.sound
  have hpayMatches : t.payMatches = u.payMatches ++ [m] := hqueues.payMatches
  have hpairs : ∀ p, p ∈ deliveryPairs t ↔ p ∈ deliveryPairs u ∨
      p ∈ (listEnabledEndpoints s bookId).map fun e ↦ (m.id, e.id) := by
    intro p
    rw [mem_deliveryPairs_append hqueues.deliveries, hqueues.pairs]
    exact Iff.rfl
  have hother : ∀ m' ∈ u.payMatches, ∀ e, (m'.id, e) ∈ deliveryPairs t ↔
      (m'.id, e) ∈ deliveryPairs u := by
    intro m' hm' e
    rw [hpairs]
    refine or_iff_left fun hmem ↦ ?_
    obtain ⟨e', -, heq⟩ := List.mem_map.1 hmem
    exact hnew m' hm' (congrArg Prod.fst heq).symm
  have hown : ∀ e, (m.id, e) ∈ deliveryPairs t ↔ Listens s bookId e := by
    intro e
    rw [hpairs, or_iff_right (hsound.not_mem_pairs hnew e), ← mem_map_listEnabledEndpoints]
    simp only [List.mem_map, Prod.mk.injEq, true_and]
  refine ⟨⟨?_, hqueues.nodup hsound.deliveries, ?_, fun d hd ↦ ?_, fun d hd ↦ ?_⟩,
    hqueues.unchanged.trans hgrown.endpoints, ?_, ?_, fun m' hm' hold e ↦ ?_, fun m' hm' e he ↦ ?_⟩
  · rw [hqueues.unchanged]
    exact hsound.endpoints
  · have hheard : ((listEnabledEndpoints s bookId).map fun e ↦ (m.id, e.id)).Nodup := by
      have hids := nodup_listEnabledEndpoints bookId
        (hgrown.endpoints ▸ hsound.endpoints)
      have hpair := hids.map (Prod.mk_right_injective m.id)
      rwa [List.map_map] at hpair
    rw [deliveryPairs, hqueues.deliveries, List.map_append, hqueues.pairs]
    refine hsound.pairs.append hheard fun p hp hp' ↦ ?_
    obtain ⟨e, -, rfl⟩ := List.mem_map.1 hp'
    exact hsound.not_mem_pairs hnew _ hp
  · rw [hpayMatches]
    rw [hqueues.deliveries] at hd
    rcases List.mem_append.1 hd with hd | hd
    · obtain ⟨m', hm', hid⟩ := hsound.known d hd
      exact ⟨m', List.mem_append_left _ hm', hid⟩
    · have hpair := hqueues.pairs ▸ List.mem_map_of_mem (f := pairOf) hd
      obtain ⟨e, -, heq⟩ := List.mem_map.1 hpair
      exact ⟨m, by simp, congrArg Prod.fst heq⟩
  · rw [hqueues.deliveries] at hd
    rcases List.mem_append.1 hd with hd | hd
    · exact hsound.rows d hd
    · obtain ⟨-, hattempts, hnext⟩ := hqueues.rows d hd
      obtain ⟨n, hn⟩ := htime
      refine ⟨hattempts.ge, ?_, fun _ ↦ ?_, ⟨n, 0⟩, .inl rfl, hnext ▸ hn⟩
      · rw [hattempts]
        decide
      · rw [hattempts]
        decide
  · rw [hpayMatches]
    exact fun m' hm' ↦ List.mem_append_left _ (hgrown.payMatches hm')
  · rw [hqueues.deliveries]
    exact fun d hd ↦ List.mem_append_left _ (hgrown.deliveries hd)
  · rw [hpayMatches] at hm'
    rcases List.mem_append.1 hm' with hm' | hm'
    · rw [hother m' hm', hgrown.born m' hm' hold]
    · obtain rfl := List.mem_singleton.1 hm'
      rw [hown, hm]
  · exact hgrown.kept m' hm' e ((hother m' (hgrown.payMatches hm') e).1 he)

theorem ensures_detectPaymentMatches (hs : Sound h Given s) (txn : Transaction) :
    Ensures (detectPaymentMatches h txn) s fun _ t ↦ Grown h Given s t := by
  rw [detectPaymentMatches]
  split
  · exact (ensures_pure _).2 hs.grown
  · simp only [ensures_bind, ensures_get]
    refine ensures_forM _ hs.grown fun watch _ u hu ↦ ?_
    refine (ensures_matchWatch txn _ watch).mono fun _ t ht ↦ ?_
    rcases ht with rfl | hrecords
    · exact hu
    · obtain ⟨m, ds, hm, hrecords⟩ := hrecords
      exact hu.records hm hrecords

end Matching

end SlipScan.Payments.Detection
