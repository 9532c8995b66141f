import SlipScan.Foundation.Timestamps
import SlipScan.Payments.Detection

namespace SlipScan.Payments.Webhooks

open Model.Domain Model.Database Model.Payments Detection Relation Foundation.Transaction
  Foundation.Interleaving Foundation.Table Foundation.Timestamps

section Queue

variable {h : PayHost} {Given : String → Prop} {s : PayDb} {now : String} {d : PayDelivery}

theorem mem_listDue {item : DueDelivery} : item ∈ listDue s now ↔
    ∃ d ∈ s.deliveries, ∃ e, lookup PayEndpoint.id s.endpoints d.endpointId = some e ∧
      (d.state = .pending ∧ d.nextAttemptAt ≤ now ∧ e.enabled) ∧
        ⟨d, d.endpointId, e.url⟩ = item := by
  simp only [listDue, List.mem_insertionSort, List.mem_filterMap, Option.bind_eq_some_iff,
    Option.ite_none_right_eq_some, Option.some.injEq]

theorem due_delivery {item : DueDelivery} (hitem : item ∈ listDue s now) :
    item.delivery ∈ s.deliveries ∧ item.delivery.state = .pending := by
  obtain ⟨d, hd, e, -, ⟨hpending, -⟩, rfl⟩ := mem_listDue.1 hitem
  exact ⟨hd, hpending⟩

theorem picked_iff (hs : Sound h Given s) (hd : d ∈ s.deliveries) :
    (∃ item ∈ listDue s now, item.delivery = d) ↔ d.state = .pending ∧ d.nextAttemptAt ≤ now ∧
      ∃ e ∈ s.endpoints, e.id = d.endpointId ∧ e.enabled := by
  constructor
  · intro hpicked
    obtain ⟨item, hitem, rfl⟩ := hpicked
    obtain ⟨d', hd', e, he, ⟨hpending, hdue, henabled⟩, rfl⟩ := mem_listDue.1 hitem
    obtain ⟨hmem, hid⟩ := lookup_eq_some he
    exact ⟨hpending, hdue, e, hmem, hid, henabled⟩
  · intro hpicked
    obtain ⟨hpending, hdue, e, he, hid, henabled⟩ := hpicked
    have hlookup := lookup_of_mem (List.pairwise_map.1 hs.endpoints) he
    rw [hid] at hlookup
    exact ⟨_, mem_listDue.2 ⟨d, hd, e, hlookup, ⟨hpending, hdue, henabled⟩, rfl⟩, rfl⟩

theorem nodup_listDue (hs : Sound h Given s) (now : String) :
    ((listDue s now).map fun item ↦ item.delivery.id).Nodup := by
  rw [listDue, ((List.perm_insertionSort _ _).map _).nodup_iff]
  refine List.pairwise_map.2 ((List.pairwise_map.1 hs.deliveries).filterMap _ ?_)
  intro d d' hne item hitem item' hitem'
  simp only [Option.bind_eq_some_iff, Option.ite_none_right_eq_some,
    Option.some.injEq] at hitem hitem'
  obtain ⟨e, -, -, rfl⟩ := hitem
  obtain ⟨e', -, -, rfl⟩ := hitem'
  exact hne

end Queue

section Attempts

variable {h : PayHost} {Given : String → Prop} {s : PayDb} {nowText : String}
  {now : OffsetDateTime} {d updated : PayDelivery} {answer : Except String ℤ}

/-- What an attempt leaves: settled, or to be tried again with attempts left. -/
structure Outcome (h : PayHost) (now : OffsetDateTime) (d updated : PayDelivery) : Prop where
  id : updated.id = d.id
  attempts : updated.attempts = d.attempts + 1
  left : updated.state = .pending → updated.attempts < maxDeliveryAttempts
  time : updated.nextAttemptAt = d.nextAttemptAt ∨
    ∃ n, h.format { now with nanos := n } = some updated.nextAttemptAt

theorem scheduleRetry_eq_ok {error : String} {d' : PayDelivery} (hid : d'.id = d.id)
    (hattempts : d'.attempts = d.attempts + 1) (htime : d'.nextAttemptAt = d.nextAttemptAt)
    (hupdated : scheduleRetry h d' now error = .ok updated) : Outcome h now d updated := by
  rw [scheduleRetry] at hupdated
  split at hupdated
  · obtain rfl := Except.ok.inj hupdated
    exact ⟨hid, hattempts, nofun, .inl htime⟩
  · next hleft =>
    split at hupdated
    · next text htext =>
      obtain rfl := Except.ok.inj hupdated
      exact ⟨hid, hattempts, fun _ ↦ not_le.1 hleft, .inr ⟨_, htext⟩⟩
    · cases hupdated

theorem attempted_eq_ok (hupdated : attempted h nowText now d answer = .ok updated) :
    Outcome h now d updated := by
  cases answer with
  | ok status =>
    rw [attempted] at hupdated
    split at hupdated
    · obtain rfl := Except.ok.inj hupdated
      exact ⟨rfl, rfl, nofun, .inl rfl⟩
    · split at hupdated
      · obtain rfl := Except.ok.inj hupdated
        exact ⟨rfl, rfl, nofun, .inl rfl⟩
      · exact scheduleRetry_eq_ok (by exact rfl) (by exact rfl) (by exact rfl) hupdated
  | error error => exact scheduleRetry_eq_ok (by exact rfl) (by exact rfl) (by exact rfl) hupdated

def writeOutcome (d row : PayDelivery) : PayDelivery :=
  { row with
    state := d.state
    attempts := d.attempts
    nextAttemptAt := d.nextAttemptAt
    lastStatus := d.lastStatus
    lastError := d.lastError
    updatedAt := d.updatedAt }

def recordOutcome (s : PayDb) (d : PayDelivery) : PayDb :=
  { s with deliveries := update PayDelivery.id s.deliveries d.id (writeOutcome d) }

theorem mem_recordOutcome {row : PayDelivery} : row ∈ (recordOutcome s d).deliveries ↔
    ∃ row' ∈ s.deliveries, (if row'.id = d.id then writeOutcome d row' else row') = row :=
  mem_update

theorem map_recordOutcome {τ : Type} {g : PayDelivery → τ}
    (hg : ∀ row, g (writeOutcome d row) = g row) :
    (recordOutcome s d).deliveries.map g = s.deliveries.map g :=
  map_update_of_eq _ hg _

theorem deliveryPairs_recordOutcome : deliveryPairs (recordOutcome s d) = deliveryPairs s :=
  map_recordOutcome fun _ ↦ rfl

/-- An attempt keeps the tables sound, also over a row that others have changed. -/
theorem sound_recordOutcome (hs : Sound h Given s) (hd : Regular h Given d)
    (hpending : d.state = .pending) (hnow : Offset h Given now.offset)
    (houtcome : Outcome h now d updated) : Sound h Given (recordOutcome s updated) where
  endpoints := hs.endpoints
  deliveries := by
    rw [map_recordOutcome fun _ ↦ rfl]
    exact hs.deliveries
  pairs := deliveryPairs_recordOutcome.symm ▸ hs.pairs
  known row hrow := by
    obtain ⟨row', hrow', rfl⟩ := mem_recordOutcome.1 hrow
    obtain ⟨m, hm, hid⟩ := hs.known row' hrow'
    refine ⟨m, hm, hid.trans ?_⟩
    split
    · rfl
    · rfl
  rows row hrow := by
    obtain ⟨row', hrow', rfl⟩ := mem_recordOutcome.1 hrow
    split
    · have hattempts := houtcome.attempts
      have hnonneg := hd.nonneg
      have hleft := hd.pending hpending
      refine ⟨?_, ?_, houtcome.left, ?_⟩
      · change 0 ≤ updated.attempts
        omega
      · change updated.attempts ≤ maxDeliveryAttempts
        omega
      · rcases houtcome.time with hsame | hwritten
        · change Written h Given updated.nextAttemptAt
          exact hsame.symm ▸ hd.time
        · obtain ⟨n, hn⟩ := hwritten
          exact ⟨{ now with nanos := n }, hnow, hn⟩
    · exact hs.rows row' hrow'

end Attempts

section Commits

variable {h : PayHost} {Given : String → Prop} {held : List PayDelivery} {s t : PayDb}
  {m : PayMatch} {d : PayDelivery}

def toggle (s : PayDb) (id : String) (enabled : Bool) : PayDb :=
  { s with endpoints := update PayEndpoint.id s.endpoints id fun e ↦ { e with enabled } }

inductive Commit (h : PayHost) (Given : String → Prop) : List PayDelivery → PayDb → PayDb → Prop
  | detected {s t : PayDb} (hgrown : Grown h Given s t) : Commit h Given [] s t
  | toggled {s : PayDb} (id : String) (enabled : Bool) : Commit h Given [] s (toggle s id enabled)
  | attempted {s : PayDb} {now : OffsetDateTime} {d updated : PayDelivery}
      (hd : Regular h Given d) (hpending : d.state = .pending)
      (hnow : Offset h Given now.offset) (houtcome : Outcome h now d updated) :
      Commit h Given [d] s (recordOutcome s updated)

/-- The deliveries whose outcome is written are as they were when they were picked. -/
def Fresh (held : List PayDelivery) (s : PayDb) : Prop :=
  ∀ d ∈ held, ∀ row ∈ s.deliveries, row.id = d.id → row = d

instance (held : List PayDelivery) (s : PayDb) : Decidable (Fresh held s) :=
  inferInstanceAs (Decidable (∀ d ∈ held, ∀ row ∈ s.deliveries, row.id = d.id → row = d))

theorem Commit.sound (hcommit : Commit h Given held s t) (hs : Sound h Given s) :
    Sound h Given t := by
  cases hcommit with
  | detected hgrown => exact hgrown.sound
  | toggled id enabled =>
    refine ⟨?_, hs.deliveries, hs.pairs, hs.known, hs.rows⟩
    have hids : (toggle s id enabled).endpoints.map PayEndpoint.id =
        s.endpoints.map PayEndpoint.id :=
      map_update_of_eq (fun e : PayEndpoint ↦ { e with enabled }) (fun _ ↦ rfl) _
    exact hids.symm ▸ hs.endpoints
  | attempted hd hpending hnow houtcome => exact sound_recordOutcome hs hd hpending hnow houtcome

/-- A match that is recorded keeps its deliveries, and gets no others. -/
theorem Commit.kept (hcommit : Commit h Given held s t) (hm : m ∈ s.payMatches) :
    m ∈ t.payMatches ∧ ∀ e, (m.id, e) ∈ deliveryPairs t ↔ (m.id, e) ∈ deliveryPairs s := by
  cases hcommit with
  | detected hgrown =>
    refine ⟨hgrown.payMatches hm, fun e ↦ ⟨hgrown.kept m hm e, fun he ↦ ?_⟩⟩
    obtain ⟨d, hd, heq⟩ := List.mem_map.1 he
    exact heq ▸ List.mem_map_of_mem (hgrown.deliveries hd)
  | toggled id enabled => exact ⟨hm, fun _ ↦ Iff.rfl⟩
  | attempted hd hpending hnow houtcome =>
    rw [deliveryPairs_recordOutcome]
    exact ⟨hm, fun _ ↦ Iff.rfl⟩

/-- A match gets its deliveries in the transaction that records it. -/
theorem Commit.born (hcommit : Commit h Given held s t) (hm : m ∈ t.payMatches)
    (hnew : m ∉ s.payMatches) (e : String) :
    (m.id, e) ∈ deliveryPairs t ↔ Listens s m.bookId e := by
  cases hcommit with
  | detected hgrown => exact hgrown.born m hm hnew e
  | toggled id enabled => exact absurd hm hnew
  | attempted hd hpending hnow houtcome => exact absurd hm hnew

theorem Commit.settled (hcommit : Commit h Given held s t) (hfresh : Fresh held s)
    (hd : d ∈ s.deliveries) (hstate : d.state ≠ .pending) : d ∈ t.deliveries := by
  cases hcommit with
  | detected hgrown => exact hgrown.deliveries hd
  | toggled id enabled => exact hd
  | attempted hregular hpending hnow houtcome =>
    refine mem_recordOutcome.2 ⟨d, hd, if_neg fun hid ↦ hstate ?_⟩
    have hsame := hfresh _ (List.mem_singleton_self _) d hd (hid.trans houtcome.id)
    exact hsame ▸ hpending

theorem Commit.quiet (hcommit : Commit h Given [] s t) : s.deliveries ⊆ t.deliveries := by
  cases hcommit with
  | detected hgrown => exact hgrown.deliveries
  | toggled id enabled => exact List.Subset.refl _

end Commits

section Programs

variable {h : PayHost} {Given : String → Prop} {s t : PayDb}

def KeepsSound (h : PayHost) (Given : String → Prop) (s t : PayDb) : Prop :=
  Sound h Given s → Sound h Given t

def KeepsRows (h : PayHost) (Given : String → Prop) (s t : PayDb) : Prop :=
  (Sound h Given s → Sound h Given t) ∧ s.deliveries ⊆ t.deliveries

instance : IsPreorder PayDb (KeepsSound h Given) where
  refl _ hs := hs
  trans _ _ _ hst htu hs := htu (hst hs)

instance : IsPreorder PayDb (KeepsRows h Given) where
  refl _ := ⟨id, List.Subset.refl _⟩
  trans _ _ _ hst htu := ⟨fun hs ↦ htu.1 (hst.1 hs), fun _ hd ↦ htu.2 (hst.2 hd)⟩

def QuietCommit (h : PayHost) (Given : String → Prop) (held : List PayDelivery) (s t : PayDb) :
    Prop :=
  held = [] ∧ Commit h Given held s t

def FreshCommit (h : PayHost) (Given : String → Prop) (held : List PayDelivery) (s t : PayDb) :
    Prop :=
  Fresh held s ∧ Commit h Given held s t

def Quiet : PayEvent → Prop
  | .deliverDue _ _ => False
  | _ => True

theorem ensures_transactionCreate (hs : Sound h Given s) (txn : Transaction) :
    Ensures (do insertTransaction txn; detectPaymentMatches h txn : PayTx Unit) s fun _ t ↦
      Grown h Given s t := by
  simp only [ensures_bind, insertTransaction, ensures_get, ensures_enforce, ensures_modify]
  intro _
  have hs' : Sound h Given { s with transactions := s.transactions ++ [txn] } :=
    ⟨hs.endpoints, hs.deliveries, hs.pairs, hs.known, hs.rows⟩
  refine (ensures_detectPaymentMatches hs' txn).mono fun _ t ht ↦ ?_
  exact ⟨ht.sound, ht.endpoints, ht.payMatches, ht.deliveries, ht.born, ht.kept⟩

theorem since_quiet {E : PayDb → PayDb → Prop} [IsPreorder PayDb E] {e : PayEvent}
    (he : Quiet e) (hE : ∀ t, E s t → Sound h Given t) :
    (e.program h).Since E (QuietCommit h Given) s := by
  cases e with
  | transactionCreate txn =>
    refine Process.Since.atomically fun t ht ↦ ?_
    exact (ensures_transactionCreate (hE t ht) txn).mono fun _ t ht ↦ ⟨rfl, .detected ht⟩
  | endpointSetEnabled id enabled =>
    rw [PayEvent.program, payEndpointSetEnabled]
    refine Process.Since.bind_reading ?_ fun _ ↦ (reading_pure _).2 trivial
    refine Process.Since.query_bind _ fun t _ ↦ Process.Since.ofExcept_bind _ fun before _ ↦ ?_
    refine Process.Since.atomically fun u _ ↦ ?_
    rw [ensures_bind, ensures_modify, ensures_pure]
    exact ⟨rfl, .toggled id enabled⟩
  | deliverDue post now => exact he.elim

/-- An attempt on a row that was picked, whatever others did to it since. -/
theorem ensures_updateDeliveryOutcome {now : OffsetDateTime} {nowText : String}
    {d updated : PayDelivery} {answer : Except String ℤ} (hd : Regular h Given d)
    (hpending : d.state = .pending) (hnow : Offset h Given now.offset)
    (hupdated : attempted h nowText now d answer = .ok updated) :
    Ensures (updateDeliveryOutcome updated) s fun _ t ↦ Commit h Given [d] s t := by
  rw [updateDeliveryOutcome, ensures_modify]
  exact .attempted hd hpending hnow (attempted_eq_ok hupdated)

theorem within_deliverAll {now : OffsetDateTime} {nowText : String}
    (post : DueDelivery → Except String ℤ) (hnow : Offset h Given now.offset)
    {due : List DueDelivery}
    (hdue : ∀ item ∈ due, Regular h Given item.delivery ∧ item.delivery.state = .pending) :
    (deliverAll h nowText now post due).Within (Commit h Given) := by
  induction due with
  | nil => exact (within_pure _).2 trivial
  | cons item due ih =>
    rw [List.forall_mem_cons] at hdue
    obtain ⟨⟨hd, hpending⟩, hrest⟩ := hdue
    rw [deliverAll, within_ofExcept_bind]
    intro updated hupdated
    refine ((within_atomically _ _).2 fun t ↦ ?_).bind fun _ ↦ ?_
    · exact ensures_updateDeliveryOutcome hd hpending hnow hupdated
    · exact (ih hrest).bind fun _ ↦ (within_pure _).2 trivial

theorem offset_of_parse {now : String} {nowDt : OffsetDateTime} (hgiven : Given now)
    (hparse : (match h.parse now with
      | .ok nowDt => .ok nowDt
      | .error e => .error (.validation s!"invalid now {repr now}: {e}")) =
        (.ok nowDt : Except Fault OffsetDateTime)) : Offset h Given nowDt.offset := by
  cases hp : h.parse now with
  | ok dt =>
    rw [hp] at hparse
    exact .inr ⟨now, dt, hgiven, hp, congrArg _ (Except.ok.inj hparse)⟩
  | error e =>
    rw [hp] at hparse
    cases hparse

theorem since_payDeliverDue (hs : Sound h Given s) (post : DueDelivery → Except String ℤ)
    {now : String} (hgiven : Given now) :
    (payDeliverDue h post now).Since (KeepsSound h Given) (Commit h Given) s := by
  rw [payDeliverDue]
  refine Process.Since.ofExcept_bind _ fun nowDt hparse ↦ ?_
  refine Process.Since.query_bind _ fun t ht ↦ Process.Within.since ?_
  refine within_deliverAll post (offset_of_parse hgiven hparse) fun item hitem ↦ ?_
  obtain ⟨hmem, hpending⟩ := due_delivery hitem
  exact ⟨(ht hs).rows _ hmem, hpending⟩

/-- While nobody else writes outcomes, the rows that are left to try are as they were picked. -/
theorem since_deliverAll {now : OffsetDateTime} {nowText : String}
    (post : DueDelivery → Except String ℤ) (hnow : Offset h Given now.offset)
    {due : List DueDelivery} (hs : Sound h Given s)
    (hdistinct : (due.map fun item ↦ item.delivery.id).Nodup)
    (hdue : ∀ item ∈ due, item.delivery ∈ s.deliveries ∧ item.delivery.state = .pending) :
    (deliverAll h nowText now post due).Since (KeepsRows h Given) (FreshCommit h Given) s := by
  induction due generalizing s with
  | nil => exact ((reading_pure _).2 trivial).since
  | cons item due ih =>
    rw [List.forall_mem_cons] at hdue
    obtain ⟨⟨hmem, hpending⟩, hrest⟩ := hdue
    rw [List.map_cons, List.nodup_cons] at hdistinct
    obtain ⟨hother, hdistinct⟩ := hdistinct
    rw [deliverAll]
    refine Process.Since.ofExcept_bind _ fun updated hupdated ↦ ?_
    have houtcome := attempted_eq_ok hupdated
    refine Process.Since.atomically_bind fun t ht ↦ ?_
    have ht' : Sound h Given t := ht.1 hs
    have hmem' : item.delivery ∈ t.deliveries := ht.2 hmem
    have hcommit : Commit h Given [item.delivery] t (recordOutcome t updated) :=
      .attempted (ht'.rows _ hmem') hpending hnow houtcome
    have hfresh : Fresh [item.delivery] t := by
      intro d hd row hrow hid
      obtain rfl := List.mem_singleton.1 hd
      exact List.inj_on_of_nodup_map ht'.deliveries hrow hmem' hid
    rw [updateDeliveryOutcome, ensures_modify]
    refine ⟨⟨hfresh, hcommit⟩, Process.Since.guarantees ?_⟩
    refine (ih (hcommit.sound ht') hdistinct fun item' hitem' ↦ ?_).bind_reading fun _ ↦
      (reading_pure _).2 trivial
    obtain ⟨hmem', hpending'⟩ := hrest item' hitem'
    refine ⟨mem_recordOutcome.2 ⟨_, ht.2 hmem', if_neg fun hid ↦ hother ?_⟩, hpending'⟩
    exact List.mem_map.2 ⟨item', hitem', hid.trans houtcome.id⟩

theorem since_payDeliverDue_alone (hs : Sound h Given s) (post : DueDelivery → Except String ℤ)
    {now : String} (hgiven : Given now) :
    (payDeliverDue h post now).Since (KeepsRows h Given) (FreshCommit h Given) s := by
  rw [payDeliverDue]
  refine Process.Since.ofExcept_bind _ fun nowDt hparse ↦ ?_
  refine Process.Since.query_bind _ fun t ht ↦ ?_
  exact since_deliverAll post (offset_of_parse hgiven hparse) (ht.1 hs)
    (nodup_listDue (ht.1 hs) now) fun item hitem ↦ due_delivery hitem

end Programs

section Runs

variable {h : PayHost} {ι : Type} {events : ι → List PayEvent} {s t : PayDb} {d : PayDelivery}
  {m : PayMatch}

def GivenIn (events : ι → List PayEvent) (text : String) : Prop :=
  ∃ i post, PayEvent.deliverDue post text ∈ events i

structure Start (s : PayDb) : Prop where
  endpoints : (s.endpoints.map PayEndpoint.id).Nodup
  payMatches : s.payMatches = []
  deliveries : s.deliveries = []

/-- One connection makes all the passes. The others match and toggle. -/
def OneDelivers (events : ι → List PayEvent) : Prop :=
  ∃ i, ∀ j, j ≠ i → ∀ e ∈ events j, Quiet e

/-- Times in UTC are written as the clock's, and read back. -/
structure Rfc3339 (h : PayHost) : Prop where
  format : ∀ t, h.format ⟨t, 0⟩ = utcText t
  parse : ∀ t text, utcText t = some text → h.parse text = .ok ⟨t, 0⟩

theorem Start.sound (hs : Start s) (h : PayHost) (Given : String → Prop) : Sound h Given s := by
  refine ⟨hs.endpoints, ?_, ?_, ?_, ?_⟩
  · simp [hs.deliveries]
  · simp [deliveryPairs, hs.deliveries]
  · simp [hs.deliveries]
  · simp [hs.deliveries]

theorem since_program {E : PayDb → PayDb → Prop} [IsPreorder PayDb E]
    {R : List PayDelivery → PayDb → PayDb → Prop} {e : PayEvent}
    (hE : ∀ t, E s t → Sound h (GivenIn events) t)
    (hR : ∀ t u, Commit h (GivenIn events) [] t u → R [] t u)
    (hpass : ∀ post now, e = .deliverDue post now → (payDeliverDue h post now).Since E R s) :
    (e.program h).Since E R s := by
  have hquiet : Quiet e → (e.program h).Since E R s := by
    intro hquiet t ht
    refine (since_quiet hquiet hE t ht).mono (fun held _ _ hcommit ↦ ?_) fun _ _ ↦ id
    obtain ⟨rfl, hcommit⟩ := hcommit
    exact hR _ _ hcommit
  cases e with
  | transactionCreate txn => exact hquiet trivial
  | endpointSetEnabled id enabled => exact hquiet trivial
  | deliverDue post now =>
    exact (hpass post now rfl).bind_reading fun _ ↦ (reading_pure _).2 trivial

theorem payments_supported (hs : Sound h (GivenIn events) s) :
    (payments h s events).Supported (KeepsSound h (GivenIn events))
      (Commit h (GivenIn events)) := by
  refine fun i ↦ ⟨s, id, guarantees_inTurn hs (fun _ _ ht htu ↦ htu ht)
    (fun _ _ _ ht hcommit ↦ hcommit.sound ht) fun p hp t ht ↦ ?_⟩
  obtain ⟨e, he, rfl⟩ := List.mem_map.1 hp
  refine (since_program (fun u hu ↦ hu ht) (fun _ _ ↦ id) fun post now heq ↦ ?_).guarantees
  exact since_payDeliverDue ht post ⟨i, post, heq ▸ he⟩

variable [DecidableEq ι]

def Relies (h : PayHost) (events : ι → List PayEvent) (i j : ι) : PayDb → PayDb → Prop :=
  if j = i then KeepsRows h (GivenIn events) else KeepsSound h (GivenIn events)

def Commits (h : PayHost) (events : ι → List PayEvent) (i j : ι) :
    List PayDelivery → PayDb → PayDb → Prop :=
  if j = i then FreshCommit h (GivenIn events) else QuietCommit h (GivenIn events)

instance (i j : ι) : IsPreorder PayDb (Relies h events i j) := by
  rw [Relies]
  split
  · infer_instance
  · infer_instance

theorem payments_supportedEach (hs : Sound h (GivenIn events) s) {i : ι}
    (hothers : ∀ j, j ≠ i → ∀ e ∈ events j, Quiet e) :
    (payments h s events).SupportedEach (Relies h events i) (Commits h events i) := by
  intro j
  refine ⟨s, refl_of _ _, ?_⟩
  rcases eq_or_ne j i with rfl | hne
  · rw [Relies, Commits, if_pos rfl, if_pos rfl]
    refine guarantees_inTurn hs (fun _ _ ht htu ↦ htu.1 ht)
      (fun _ _ _ ht hcommit ↦ hcommit.2.sound ht) fun p hp t ht ↦ ?_
    obtain ⟨e, he, rfl⟩ := List.mem_map.1 hp
    refine (since_program (fun u hu ↦ hu.1 ht) (fun _ _ hcommit ↦ ⟨nofun, hcommit⟩)
      fun post now heq ↦ ?_).guarantees
    exact since_payDeliverDue_alone ht post ⟨j, post, heq ▸ he⟩
  · rw [Relies, Commits, if_neg hne, if_neg hne]
    refine guarantees_inTurn hs (fun _ _ ht htu ↦ htu ht)
      (fun _ _ _ ht hcommit ↦ hcommit.2.sound ht) fun p hp t ht ↦ ?_
    obtain ⟨e, he, rfl⟩ := List.mem_map.1 hp
    exact (since_quiet (hothers j hne e he) fun u hu ↦ hu ht).guarantees

theorem Commits.relies {i j k : ι} (hk : k ≠ j) {held : List PayDelivery}
    (hcommits : Commits h events i j held s t) : Relies h events i k s t := by
  rw [Commits] at hcommits
  rw [Relies]
  split at hcommits
  · next hj =>
    rw [if_neg (hj ▸ hk)]
    exact fun hs ↦ hcommits.2.sound hs
  · obtain ⟨rfl, hcommit⟩ := hcommits
    split
    · exact ⟨fun hs ↦ hcommit.sound hs, hcommit.quiet⟩
    · exact fun hs ↦ hcommit.sound hs

theorem Commits.fresh {i j : ι} {held : List PayDelivery}
    (hcommits : Commits h events i j held s t) : FreshCommit h (GivenIn events) held s t := by
  rw [Commits] at hcommits
  split at hcommits
  · exact hcommits
  · obtain ⟨rfl, hcommit⟩ := hcommits
    exact ⟨nofun, hcommit⟩

def FreshStep (h : PayHost) (events : ι → List PayEvent) (s t : PayDb) : Prop :=
  ∃ held, FreshCommit h (GivenIn events) held s t

omit [DecidableEq ι] in
theorem settled_of_path (hs : Sound h (GivenIn events) s)
    (hpath : ReflTransGen (FreshStep h events) s t) (hd : d ∈ s.deliveries)
    (hstate : d.state ≠ .pending) : Sound h (GivenIn events) t ∧ d ∈ t.deliveries := by
  induction hpath with
  | refl => exact ⟨hs, hd⟩
  | tail _ hstep ih =>
    obtain ⟨held, hfresh, hcommit⟩ := hstep
    exact ⟨hcommit.sound ih.1, hcommit.settled hfresh ih.2 hstate⟩

omit [DecidableEq ι] in
theorem kept_of_path
    (hpath : ReflTransGen (fun s t ↦ ∃ held, True ∧ Commit h (GivenIn events) held s t) s t)
    (hm : m ∈ s.payMatches) :
    m ∈ t.payMatches ∧ ∀ e, (m.id, e) ∈ deliveryPairs t ↔ (m.id, e) ∈ deliveryPairs s := by
  induction hpath with
  | refl => exact ⟨hm, fun _ ↦ Iff.rfl⟩
  | tail _ hstep ih =>
    obtain ⟨held, -, hcommit⟩ := hstep
    obtain ⟨hm', hpairs⟩ := hcommit.kept ih.1
    exact ⟨hm', fun e ↦ (hpairs e).trans (ih.2 e)⟩

omit [DecidableEq ι] in
theorem keepsSound_of_commit {held : List PayDelivery}
    (hcommit : Commit h (GivenIn events) held s t) : KeepsSound h (GivenIn events) s t :=
  hcommit.sound

theorem sound_play (hs : Sound h (GivenIn events) s) (is : List ι) :
    Sound h (GivenIn events) ((payments h s events).play is).store := by
  have hpath := (payments_supported hs).play (fun _ _ _ ↦ keepsSound_of_commit) (turns_true _ is)
  change ReflTransGen _ s _ at hpath
  generalize ((payments h s events).play is).store = u at hpath
  induction hpath with
  | refl => exact hs
  | tail _ hstep ih =>
    obtain ⟨held, -, hcommit⟩ := hstep
    exact hcommit.sound ih

/-- The rest of a run whose outcomes are fresh, or in which one connection makes the passes. -/
theorem path_of_fresh (hs : Sound h (GivenIn events) s) (is js : List ι)
    (hfresh : (payments h s events).Turns Fresh (is ++ js) ∨ OneDelivers events) :
    ReflTransGen (FreshStep h events) ((payments h s events).play is).store
      ((payments h s events).play (is ++ js)).store := by
  rw [Config.play_append]
  rcases hfresh with hturns | hone
  · rw [turns_append] at hturns
    have hsupported := (payments_supported hs).play_supported
      (fun _ _ _ ↦ keepsSound_of_commit) is
    exact hsupported.play (fun _ _ _ ↦ keepsSound_of_commit) hturns.2
  · obtain ⟨i, hothers⟩ := hone
    have hrelies : ∀ j k, k ≠ j → ∀ held s t, Commits h events i j held s t →
        Relies h events i k s t := fun _ _ hk _ _ _ ↦ Commits.relies hk
    have hsupported := ((payments_supportedEach hs hothers).play hrelies is).1
    refine ReflTransGen.mono (fun _ _ hstep ↦ ?_) _ _ (hsupported.play hrelies js).2
    obtain ⟨j, held, hcommits⟩ := hstep
    exact ⟨held, hcommits.fresh⟩

omit [DecidableEq ι] in
theorem Rfc3339.time (hrfc : Rfc3339 h)
    (hutc : ∀ text, GivenIn events text → ∃ t, utcText t = some text) {text : String}
    (hwritten : Written h (GivenIn events) text) : ∃ t, utcText t = some text := by
  obtain ⟨⟨n, offset⟩, hoffset, hformat⟩ := hwritten
  have hzero : offset = 0 := by
    rcases hoffset with hzero | hgiven
    · exact hzero
    · obtain ⟨nowText, now, hgiven, hparse, hsame⟩ := hgiven
      obtain ⟨t, ht⟩ := hutc nowText hgiven
      obtain rfl := Except.ok.inj ((hrfc.parse t nowText ht).symm.trans hparse)
      exact hsame.symm
  subst hzero
  exact ⟨n, (hrfc.format n).symm.trans hformat⟩

/-- The turn that records a match gives it its deliveries, and later turns leave them. -/
theorem pair_mem_iff (hs : Sound h (GivenIn events) s) {is : List ι} {i : ι} (js : List ι)
    {c : Config ι PayDb PayDelivery Fault Unit} (hc : (payments h s events).play is = c)
    (hm : m ∈ (c.advance i).store.payMatches) (hnew : m ∉ c.store.payMatches) (e : String) :
    (m.id, e) ∈ deliveryPairs ((c.advance i).play js).store ↔ Listens c.store m.bookId e := by
  subst hc
  have hsupported := (payments_supported hs).play_supported (fun _ _ _ ↦ keepsSound_of_commit) is
  obtain ⟨hafter, hstep⟩ := hsupported.advance (fun _ _ _ ↦ keepsSound_of_commit) i
  have hcommit := hstep.resolve_left fun heq ↦ hnew (heq ▸ hm)
  have hpath := hafter.play (fun _ _ _ ↦ keepsSound_of_commit) (turns_true _ js)
  rw [(kept_of_path hpath hm).2 e, hcommit.born hm hnew e]

omit [DecidableEq ι] in
theorem not_due_of_settled (hs : Sound h (GivenIn events) s) (hd : d ∈ s.deliveries)
    (hstate : d.state ≠ .pending) {now : String} {item : DueDelivery}
    (hitem : item ∈ listDue s now) : item.delivery.id ≠ d.id := by
  intro hid
  obtain ⟨hmem, hpending⟩ := due_delivery hitem
  have hsame := List.inj_on_of_nodup_map hs.deliveries hmem hd hid
  exact hstate (hsame ▸ hpending)

omit [DecidableEq ι] in
/-- The texts are compared as the instants that they tell, where these are aligned. -/
theorem picked_iff_come (hrfc : Rfc3339 h)
    (hutc : ∀ text, GivenIn events text → ∃ t, utcText t = some text)
    (hs : Sound h (GivenIn events) s) (hd : d ∈ s.deliveries) {instant : ℤ} {now : String}
    (hnow : utcText instant = some now) :
    ∃ u, h.parse d.nextAttemptAt = .ok u ∧ (Aligned u.nanos instant →
      ((∃ item ∈ listDue s now, item.delivery = d) ↔ d.state = .pending ∧
        (∃ e ∈ s.endpoints, e.id = d.endpointId ∧ e.enabled) ∧ u.nanos ≤ instant)) := by
  obtain ⟨u, hu⟩ := hrfc.time hutc (hs.rows d hd).time
  refine ⟨⟨u, 0⟩, hrfc.parse u _ hu, fun haligned ↦ ?_⟩
  rw [picked_iff hs hd, utcText_le_iff hu hnow haligned]
  tauto

/-- One record for each match and endpoint enabled when it was found, attempts up to the cap, and
no attempt on a delivery that is settled. A pass picks the pending deliveries of the endpoints that
are enabled whose instants have come. -/
theorem deliveries_retry_soundly (hrfc : Rfc3339 h) (hs : Start s) (events : ι → List PayEvent)
    (is : List ι) (i : ι) (js : List ι) :
    let before := (payments h s events).play is
    let after := before.advance i
    let last := (after.play js).store
    (∀ m ∈ after.store.payMatches, m ∉ before.store.payMatches → ∀ e ∈ before.store.endpoints,
      (deliveryPairs last).count (m.id, e.id) =
        if e.bookId = m.bookId ∧ e.enabled then 1 else 0) ∧
    (∀ d ∈ last.deliveries, d.attempts ≤ maxDeliveryAttempts ∧
      ∃ m ∈ last.payMatches, m.id = d.matchId) ∧
    ((payments h s events).Turns Fresh (is ++ i :: js) ∨ OneDelivers events →
      ∀ d ∈ before.store.deliveries, d.state ≠ .pending → d ∈ last.deliveries ∧
        ∀ now, ∀ item ∈ listDue last now, item.delivery.id ≠ d.id) ∧
    ((∀ text, GivenIn events text → ∃ t, utcText t = some text) →
      ∀ t now, utcText t = some now →
        ((listDue last now).map fun item ↦ item.delivery.id).Nodup ∧
        ∀ d ∈ last.deliveries, ∃ u, h.parse d.nextAttemptAt = .ok u ∧ (Aligned u.nanos t →
          ((∃ item ∈ listDue last now, item.delivery = d) ↔ d.state = .pending ∧
            (∃ e ∈ last.endpoints, e.id = d.endpointId ∧ e.enabled) ∧ u.nanos ≤ t))) := by
  intro before after last
  have hsound := hs.sound h (GivenIn events)
  have hbefore : Sound h (GivenIn events) before.store := sound_play hsound is
  have hrun : last = ((payments h s events).play (is ++ i :: js)).store :=
    congrArg Config.store ((payments h s events).play_append is (i :: js)).symm
  have hlast : Sound h (GivenIn events) last := hrun ▸ sound_play hsound _
  refine ⟨fun m hm hnew e he ↦ ?_, fun d hd ↦ ?_, fun hfresh d hd hstate ↦ ?_,
    fun hutc t now hnow ↦ ⟨nodup_listDue hlast now, fun d hd ↦ ?_⟩⟩
  · have hpair := pair_mem_iff hsound js rfl hm hnew e.id
    have hlistens : Listens before.store m.bookId e.id ↔ e.bookId = m.bookId ∧ e.enabled := by
      constructor
      · intro hlistens
        obtain ⟨e', he', hid, hbook, henabled⟩ := hlistens
        obtain rfl := List.inj_on_of_nodup_map hbefore.endpoints he' he hid
        exact ⟨hbook, henabled⟩
      · exact fun hlistens ↦ ⟨e, he, rfl, hlistens.1, hlistens.2⟩
    split
    · next henabled =>
      exact List.count_eq_one_of_mem hlast.pairs (hpair.2 (hlistens.2 henabled))
    · next hdisabled =>
      exact List.count_eq_zero_of_not_mem fun hmem ↦ hdisabled (hlistens.1 (hpair.1 hmem))
  · exact ⟨(hlast.rows d hd).capped, hlast.known d hd⟩
  · have hpath := path_of_fresh hsound is (i :: js) hfresh
    rw [← hrun] at hpath
    obtain ⟨-, hd'⟩ := settled_of_path hbefore hpath hd hstate
    exact ⟨hd', fun now item hitem ↦ not_due_of_settled hlast hd' hstate hitem⟩
  · exact picked_iff_come hrfc hutc hlast hd hnow

end Runs

section Plain

/-- A host on which runs can be evaluated: identifiers in unary, a clock that stands half a second
after 1970 began, and times in UTC only. -/
def plainPayHost : PayHost where
  newId n := String.ofList (List.replicate (n + 1) 'x')
  clock _ := 5 * 10 ^ 8
  format now := if now.offset = 0 then utcText now.nanos else none
  parse text := match readUtc text with
    | some t => .ok ⟨t, 0⟩
    | none => .error "not a time in UTC"
  toUppercase := String.toUpper
  isAlphanumeric := Char.isAlphanum
  buildPayload watch _ matchedAt := watch.code ++ matchedAt

theorem rfc3339_plainPayHost : Rfc3339 plainPayHost where
  format t := by
    change (if (0 : ℤ) = 0 then utcText t else none) = utcText t
    rw [if_pos rfl]
  parse t text htext := by
    have hread := readUtc_utcText htext
    simp only [plainPayHost, hread]

def enabledEndpoint : PayEndpoint :=
  ⟨"on", "book", "On", "https://on.test", true, "1970-01-01T00:00:00Z"⟩

def watching : PayDb where
  watches := [⟨"watch", "book", "INV1", none, none, none, true, "1970-01-01T00:00:00Z"⟩]
  endpoints := [enabledEndpoint,
    ⟨"off", "book", "Off", "https://off.test", false, "1970-01-01T00:00:00Z"⟩]

theorem start_watching : Start watching :=
  ⟨by decide, rfl, rfl⟩

def inbound : Transaction where
  id := "transaction"
  bookId := "book"
  accountId := "account"
  categoryId := none
  source := .manual
  providerTxnId := none
  dedupeHash := "hash"
  postedDate := "1970-01-01"
  amountMinor := 50000
  currency := "ZAR"
  merchant := none
  description := some "ref inv1"
  notes := none
  status := .pending

def pass (status : ℤ) : PayEvent :=
  .deliverDue (fun _ ↦ .ok status) "1970-01-01T00:00:01Z"

def deliverAndDisable : Bool → List PayEvent
  | true => [.transactionCreate inbound, pass 200]
  | false => [.endpointSetEnabled "on" false]

def found : PayMatch :=
  ⟨"x", "book", "watch", "transaction", "1970-01-01T00:00:00.5Z"⟩

def queued : PayDelivery :=
  queuedRow found "INV11970-01-01T00:00:00.5Z" "on" "xx"

theorem deliveries_retry_of_inbound :
    let last := ((payments plainPayHost watching deliverAndDisable).play [true, true, true]).store
    (deliveryPairs last).count ("x", "on") = 1 ∧
      ∀ d ∈ last.deliveries, d.attempts ≤ maxDeliveryAttempts := by
  obtain ⟨hrecords, hattempts, -, -⟩ := deliveries_retry_soundly rfc3339_plainPayHost
    start_watching deliverAndDisable [] true [true, true]
  have hone := hrecords found (by decide +kernel) (by decide) enabledEndpoint (by decide)
  exact ⟨hone, fun d hd ↦ (hattempts d hd).1⟩

def deliverTwice : Bool → List PayEvent
  | true => [.transactionCreate inbound, pass 200]
  | false => [pass 503]

/-- A disabled endpoint parks a delivery that is due, a delivery is picked half a second before its
instant, and an attempt over a row that has changed since undoes a delivery. -/
theorem parked_early_or_undone :
    (¬∀ h s, Rfc3339 h → Start s → ∀ (events : Bool → List PayEvent) (is : List Bool) t now,
      let last := ((payments h s events).play is).store
      utcText t = some now → ∀ d ∈ last.deliveries, d.state = .pending → ∀ u,
        h.parse d.nextAttemptAt = .ok u → u.nanos ≤ t →
          ∃ item ∈ listDue last now, item.delivery = d) ∧
    (¬∀ h s, Rfc3339 h → Start s → ∀ (events : Bool → List PayEvent) (is : List Bool) t now,
      let last := ((payments h s events).play is).store
      utcText t = some now → ∀ item ∈ listDue last now, ∀ u,
        h.parse item.delivery.nextAttemptAt = .ok u → u.nanos ≤ t) ∧
    ¬∀ h s, Rfc3339 h → Start s → ∀ (events : Bool → List PayEvent) (is js : List Bool),
      ∀ d ∈ ((payments h s events).play is).store.deliveries, d.state ≠ .pending →
        d ∈ ((payments h s events).play (is ++ js)).store.deliveries := by
  have hparse : plainPayHost.parse queued.nextAttemptAt = .ok ⟨5 * 10 ^ 8, 0⟩ :=
    rfc3339_plainPayHost.parse _ _ (by decide +kernel)
  refine ⟨fun hclaim ↦ ?_, fun hclaim ↦ ?_, fun hclaim ↦ ?_⟩
  · have hpicked := hclaim plainPayHost watching rfc3339_plainPayHost start_watching
      deliverAndDisable [true, false, false] (10 ^ 9) "1970-01-01T00:00:01Z" (by decide +kernel)
      queued (by decide +kernel) rfl ⟨5 * 10 ^ 8, 0⟩ hparse (by decide)
    exact absurd hpicked (by decide +kernel)
  · have hdue : ∃ item ∈ listDue
        ((payments plainPayHost watching deliverAndDisable).play [true]).store
          "1970-01-01T00:00:00Z", item.delivery = queued := by decide +kernel
    obtain ⟨item, hitem, hqueued⟩ := hdue
    have hcome := hclaim plainPayHost watching rfc3339_plainPayHost start_watching
      deliverAndDisable [true] 0 "1970-01-01T00:00:00Z" (by decide +kernel) item hitem
      ⟨5 * 10 ^ 8, 0⟩ (hqueued ▸ hparse)
    exact absurd hcome (by decide)
  · have hsettled := hclaim plainPayHost watching rfc3339_plainPayHost start_watching
      deliverTwice [true, true, false, true] [false]
    exact absurd hsettled (by decide +kernel)

end Plain

end SlipScan.Payments.Webhooks
