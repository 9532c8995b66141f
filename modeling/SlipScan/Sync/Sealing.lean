import SlipScan.Sync.Content

namespace SlipScan.Sync.Sealing

open Model.SyncMapping Model.SyncLog Foundation.Transaction Foundation.Table
  Foundation.Registers Columns Rows Record Content

variable {E : Engine} {reread : FiniteFloat → Option FiniteFloat} {s s' : SyncDb}
  {log : List SyncOp} {op : SyncOp} {entry : Captured} {now : Instant}

section Clock

def topOf (clock : SyncClock) : ℕ ×ₗ ℕ :=
  stamp clock.hlc.wall clock.hlc.counter

theorem nowMs_le (now : Instant) : (nowMs now).toNat ≤ 32 * 10 ^ 15 := by
  have hbounded := now.bounded
  have hrange : max now.nanos 0 / 1000000 < 2 ^ 64 := by omega
  rw [nowMs, if_pos hrange, UInt64.toNat_ofNat']
  omega

/-- A clock far below the end of its range stays there. -/
theorem tickBounded_spec (hE : Sound E reread) {clock clock' : SyncClock}
    (htick : clock.tickBounded E (nowMs now) = .ok clock') :
    topOf clock < topOf clock' ∧ clock'.hlc.author = clock.hlc.author ∧
      clock'.hlc.wall.toNat < 2 ^ 63 := by
  have hnow := nowMs_le now
  simp only [SyncClock.tickBounded, except_ite_error_eq_ok, Except.ok.injEq, gt_iff_lt,
    UInt64.lt_iff_toNat_lt, not_lt] at htick
  obtain ⟨hdrift, rfl⟩ := htick
  have hbound : maxClockDriftMs.toNat = 86400000 := by decide
  have hwall : clock.hlc.wall.toNat ≤ (nowMs now).toNat + 86400000 := by
    rw [hbound] at hdrift
    split at hdrift
    · rename_i hle
      rw [UInt64.le_iff_toNat_le] at hle
      omega
    · rename_i hlt
      rw [UInt64.le_iff_toNat_le] at hlt
      rw [UInt64.toNat_sub_of_le _ _ (UInt64.le_iff_toNat_le.2 (by omega))] at hdrift
      omega
  have hticked := hE.wall clock.hlc (nowMs now)
  exact ⟨hE.later _ _ (by omega), hE.author _ _, by simp only; omega⟩

def ClockStored (s : SyncDb) : Prop :=
  ∀ c, s.clock = some c → ∃ wall : UInt64, ∃ counter,
    c = (wall.toInt64, counterColumn counter) ∧ wall.toNat < 2 ^ 63

theorem topOf_load (author : List UInt8) {wall : UInt64} {counter : UInt32}
    (hclock : s.clock = some (wall.toInt64, counterColumn counter)) (hwall : wall.toNat < 2 ^ 63) :
    topOf (SyncClock.load s author) = stamp wall counter := by
  rw [topOf, SyncClock.load, hclock]
  simp only [Option.getD_some, clamp_column hwall, clamp_counterColumn]

theorem wall_load (s : SyncDb) (author : List UInt8) :
    (SyncClock.load s author).hlc.wall.toNat < 2 ^ 63 := by
  have hclamp : ∀ i : Int64, (clamp i).toNat < 2 ^ 63 := by
    intro i
    have hlt := i.toInt_lt
    rw [clamp_toNat]
    omega
  exact hclamp _

theorem precedes_iff {wall wall' : UInt64} {counter counter' : UInt32}
    (hwall : wall.toNat < 2 ^ 63) (hwall' : wall'.toNat < 2 ^ 63) :
    precedes (wall.toInt64, counterColumn counter) (wall'.toInt64, counterColumn counter') ↔
      stamp wall counter < stamp wall' counter' := by
  have heq : wall.toInt64 = wall'.toInt64 ↔ wall = wall' :=
    ⟨fun h ↦ by simpa using congrArg Int64.toUInt64 h, congrArg _⟩
  rw [stamp_lt, precedes]
  simp only [Bool.or_eq_true, Bool.and_eq_true, decide_eq_true_eq, Int64.lt_iff_toInt_lt,
    toInt_column hwall, toInt_column hwall', toInt_counterColumn, heq, Int.ofNat_lt]

theorem store_spec (hs : ClockStored s) {clock : SyncClock} (hwall : clock.hlc.wall.toNat < 2 ^ 63)
    (author : List UInt8) : ClockStored (clock.store s) ∧
      topOf clock ≤ topOf (SyncClock.load (clock.store s) author) := by
  have hset : ∀ t : SyncDb,
      t.clock = some (clock.hlc.wall.toInt64, counterColumn clock.hlc.counter) →
        ClockStored t ∧ topOf clock ≤ topOf (SyncClock.load t author) := by
    intro t ht
    constructor
    · intro c hc
      exact ⟨clock.hlc.wall, clock.hlc.counter, Option.some.inj (hc.symm.trans ht), hwall⟩
    · rw [topOf_load author ht hwall]
      exact le_rfl
  rw [SyncClock.store]
  cases hclock : s.clock with
  | none => exact hset _ rfl
  | some c =>
    obtain ⟨wall, counter, rfl, hstored⟩ := hs c hclock
    by_cases hlater : precedes (wall.toInt64, counterColumn counter)
        (clock.hlc.wall.toInt64, counterColumn clock.hlc.counter)
    · simp only [hlater, if_true]
      exact hset _ rfl
    · simp only [hlater, Bool.false_eq_true, if_false]
      refine ⟨hs, ?_⟩
      rw [topOf_load author hclock hstored]
      exact not_lt.1 (mt (precedes_iff hstored hwall).2 hlater)

end Clock

section Entries

/-- The payload is the captured row, or the tombstone of a row that is gone. -/
theorem payloadOf_spec {payload : JsonObject} {deleted : Bool}
    (hlast : entry.deleted → lookup Row.key s.rows entry.key = none)
    (hpayload : payloadOf s entry = .ok (payload, deleted)) :
    (deleted = true ∧ payload = tombstone entry.rowId ∧
        lookup Row.key s.rows entry.key = none) ∨
      ∃ row, deleted = false ∧ lookup Row.key s.rows entry.key = some row ∧
        rowObject row = .ok payload := by
  rw [payloadOf] at hpayload
  split at hpayload
  · rename_i hdeleted
    obtain ⟨rfl, rfl⟩ := Prod.mk.inj (Except.ok.inj hpayload)
    exact .inl ⟨rfl, rfl, hlast hdeleted⟩
  · obtain ⟨found, hread, hfound⟩ := except_bind_eq_ok.1 hpayload
    rw [readRow] at hread
    split at hread
    · cases hread
    · cases hrow : lookup Row.key s.rows (entry.table, entry.rowId) with
      | none =>
        rw [hrow] at hread
        obtain rfl := Except.ok.inj hread
        obtain ⟨rfl, rfl⟩ := Prod.mk.inj (Except.ok.inj hfound)
        exact .inl ⟨rfl, rfl, hrow⟩
      | some row =>
        simp only [hrow, except_bind_eq_ok, except_pure_eq_ok] at hread
        obtain ⟨object, hobject, rfl⟩ := hread
        obtain ⟨rfl, rfl⟩ := Prod.mk.inj (Except.ok.inj hfound)
        exact .inr ⟨row, rfl, hrow, hobject⟩

theorem opForWrite_spec {ns table id : String} {payload : JsonObject} {deleted : Bool} {hlc : Hlc}
    (hop : opForWrite E ns table id payload deleted hlc = .ok op) :
    op.hlc = hlc ∧ ((isLedger table ∧ deleted = false ∧ op.kind = E.opSetAdd ∧ op.target = table ∧
        op.value = some (rowValue E payload false)) ∨
      (table ∈ lwwTables ∧ op.kind = E.opLwwSet ∧ op.target = lwwTarget table id ∧
        op.value = some (rowValue E payload deleted))) := by
  rw [opForWrite] at hop
  obtain ⟨kind, hkind, hop⟩ := except_bind_eq_ok.1 hop
  rw [kindFor] at hkind
  split at hkind
  · rename_i hledger
    obtain rfl := Except.ok.inj hkind
    cases deleted with
    | true => cases hop
    | false =>
      obtain rfl := Except.ok.inj hop
      exact ⟨rfl, .inl ⟨hledger, rfl, rfl, rfl, rfl⟩⟩
  · split at hkind
    · rename_i hlww
      obtain rfl := Except.ok.inj hkind
      obtain rfl := Except.ok.inj hop
      exact ⟨rfl, .inr ⟨by simpa using hlww, rfl, rfl, rfl⟩⟩
    · cases hkind

theorem mapped_eq_ok {α : Type} {r : Except MapError α} {a : α} :
    mapped r = .ok a ↔ r = .ok a := by
  cases r <;> simp [mapped]

theorem signed_eq_ok {α : Type} {r : Except String α} {a : α} : signed r = .ok a ↔ r = .ok a := by
  cases r <;> simp [signed]

theorem mints_of_write {payload : JsonObject} {deleted : Bool} {hlc : Hlc}
    (hlast : entry.deleted → lookup Row.key s.rows entry.key = none)
    (hpayload : payloadOf s entry = .ok (payload, deleted))
    (hop : opForWrite E entry.ns entry.table entry.rowId payload deleted hlc = .ok op) :
    Mints E s.rows entry op := by
  obtain ⟨-, ⟨hledger, rfl, hkind, htarget, hvalue⟩ | ⟨hlww, hkind, htarget, hvalue⟩⟩ :=
    opForWrite_spec hop
  · rcases payloadOf_spec hlast hpayload with ⟨habsurd, -⟩ | ⟨row, -, hrow, hobject⟩
    · cases habsurd
    · obtain ⟨hmem, hkey⟩ := lookup_eq_some hrow
      have htable : row.table = entry.table := congrArg Prod.fst hkey
      exact .fact hmem hkey ⟨htable ▸ hledger, hkind, htarget.trans htable.symm, payload, hobject,
        hvalue⟩
  · refine .edit hlww hkind htarget ?_
    rcases payloadOf_spec hlast hpayload with ⟨rfl, rfl, hnone⟩ | ⟨row, rfl, hrow, hobject⟩
    · exact hnone ▸ .dead hvalue
    · exact hrow ▸ .live hobject hvalue

variable (E) in
/-- Where a seal stands: the clock runs ahead of the log, and the rows of the entries that are
left are the dirty ones. -/
structure Underway (signing : E.Key) (start : SyncDb) (log₀ : List SyncOp) (count : ℕ)
    (left : List Captured) (progress : SyncClock × SealReport) (s : SyncDb) : Prop where
  author : progress.1.hlc.author = E.publicKey signing
  wall : progress.1.hlc.wall.toNat < 2 ^ 63
  kept : s.rows = start.rows ∧ s.outbox = start.outbox ∧ s.nextSeq = start.nextSeq ∧
    s.clock = start.clock
  later : topOf (SyncClock.load start (E.publicKey signing)) ≤ topOf progress.1
  log : ∃ new, Recorded E s.oplog (log₀ ++ new) (topOf progress.1) ∧
    Agrees E s.rows (log₀ ++ new) (fun key ↦ ∃ k ∈ left, k.key = key) ∧
    progress.2 = { captured := count, sealed := new.length }

theorem sealEntry_underway (hE : Sound E reread) {signing : E.Key} {start : SyncDb}
    {log₀ : List SyncOp} {count : ℕ} {recordedAt : String} {left : List Captured}
    {progress : SyncClock × SealReport} (hrows : (start.rows.map Row.key).Nodup)
    (hid : entry.rowId ≠ "")
    (hlast : entry.deleted → lookup Row.key start.rows entry.key = none)
    (hs : Underway E signing start log₀ count (entry :: left) progress s) :
    Ensures (sealEntry E signing (nowMs now) recordedAt progress entry) s
      (Underway E signing start log₀ count left) := by
  obtain ⟨clock, report⟩ := progress
  obtain ⟨hauthor, hwall, ⟨hsrows, hkept⟩, hlater, new, hrecorded, hagrees, hreport⟩ := hs
  simp only at hauthor hwall hlater hrecorded hreport
  rw [sealEntry]
  simp only [ensures_bind, ensures_get, ensures_check]
  rintro ⟨payload, deleted⟩ hpayload clock' htick op hop envelope henvelope
  obtain ⟨htop, hauthor', hwall'⟩ := tickBounded_spec hE htick
  have hop' := mapped_eq_ok.1 hop
  have hsigned := signed_eq_ok.1 henvelope
  obtain ⟨hhlc, -⟩ := opForWrite_spec hop'
  have hstamp : stampOf op = topOf clock' := by rw [stampOf, hhlc, topOf]
  have hrow : Sealed E (opRow E op envelope .local recordedAt) op := by
    refine ⟨⟨envelope, recordedAt, rfl, hE.signature _ _ _ ?_ hsigned⟩, hhlc ▸ hwall'⟩
    rw [hhlc, hauthor', hauthor]
  have hfresh : ∀ r ∈ s.oplog, r.opId ≠ encodeHex (E.opId op) := hrecorded.fresh hE (hstamp ▸ htop)
  have hrecorded' := hrecorded.concat hrow (hstamp ▸ htop)
  have hmints := mints_of_write (hsrows ▸ hlast) hpayload hop'
  have hagrees' := hagrees.concat hE (hsrows ▸ hrows) hid
    (fun op' hop' ↦ (hrecorded.below op' hop').trans_lt (hstamp ▸ htop)) hmints
  rw [insertOp]
  have hany : (s.oplog.any fun r ↦ r.opId = (opRow E op envelope .local recordedAt).opId) =
      false := by
    rw [List.any_eq_false]
    intro r hr
    exact mt of_decide_eq_true (hfresh r hr)
  simp only [ensures_bind, ensures_get, hany, Bool.false_eq_true, ensures_ite, false_implies,
    ensures_modify, ensures_pure, not_false_eq_true, true_implies, true_and]
  refine ⟨⟨hauthor'.trans hauthor, hwall', ⟨hsrows, hkept⟩, hlater.trans htop.le,
    new ++ [op], ?_, ?_, ?_⟩, fun habsurd ↦ absurd trivial habsurd⟩
  · rw [← List.append_assoc, ← hstamp]
    exact hrecorded'
  · rw [← List.append_assoc]
    refine hagrees'.mono ?_
    rintro key ⟨⟨k, hk, rfl⟩, hne⟩
    rcases List.mem_cons.1 hk with rfl | hk
    · exact absurd rfl hne
    · exact ⟨k, hk, rfl⟩
  · rw [hreport]
    simp

end Entries

section Seals

variable (E) in
structure Synced (s : SyncDb) (log : List SyncOp) : Prop where
  settled : Settled E s log
  recorded : Recorded E s.oplog log (topOf (SyncClock.load s []))
  stored : ClockStored s

theorem synced_empty : Synced E {} [] where
  settled := ⟨captures_empty, agrees_nil⟩
  recorded := ⟨.nil, .nil, by simp⟩
  stored _ hc := by cases hc

theorem Synced.write (hs : Synced E s log) {w : Write} (hw : w.apply s = some s') :
    Synced E s' log := by
  obtain ⟨hsettled, hoplog, hclock⟩ := hs.settled.write hw
  refine ⟨hsettled, ?_, ?_⟩
  · have hload : SyncClock.load s' [] = SyncClock.load s [] := by
      rw [SyncClock.load, SyncClock.load, hclock]
    rw [hoplog, hload]
    exact hs.recorded
  · intro c hc
    exact hs.stored c (hclock ▸ hc)

theorem drainList_eq (hs : Captures s) : drainList s = s.outbox :=
  (hs.ordered.imp Nat.le_of_lt).insertionSort_eq

theorem seq_le_highWater {entries : List Captured} (hentry : entry ∈ entries) :
    entry.seq ≤ (entries.map Captured.seq).max?.getD 0 := by
  cases hmax : (entries.map Captured.seq).max? with
  | none =>
    have hnil := List.max?_eq_none_iff.1 hmax
    exact absurd hentry (by simp [List.map_eq_nil_iff.1 hnil])
  | some m => exact (List.max?_eq_some_iff.1 hmax).2 _ (List.mem_map_of_mem hentry)

/-- What a seal achieves: it appends an operation for every captured row. -/
structure Seals (E : Engine) (log : List SyncOp) (s : SyncDb) (report : SealReport) (s' : SyncDb)
    (new : List SyncOp) : Prop where
  synced : Synced E s' (log ++ new)
  drained : s'.outbox = []
  rows : s'.rows = s.rows
  report : report.sealed = new.length ∧ report.alreadyPresent = 0

theorem sealEntries_spec (hE : Sound E reread) (hs : Synced E s log) (signing : E.Key)
    (recordedAt : String) :
    Ensures (sealEntries E signing (nowMs now) recordedAt s.outbox) s fun report s' ↦
      ∃ new, Seals E log s report s' new := by
  have hcaptures := hs.settled.captures
  have hordered := hcaptures.ordered.imp Nat.le_of_lt
  have hstart : Underway E signing s log s.outbox.length (keepLast s.outbox)
      (SyncClock.load s (E.publicKey signing), { captured := s.outbox.length }) s := by
    refine ⟨rfl, wall_load s _, ⟨rfl, rfl, rfl, rfl⟩, le_rfl, [], ?_, ?_, rfl⟩
    · rw [List.append_nil]
      exact hs.recorded
    · rw [List.append_nil]
      refine hs.settled.agrees.mono ?_
      rintro key ⟨entry, hentry, rfl⟩
      exact exists_mem_keepLast hentry
  have hloop : Ensures ((coalesce s.outbox).foldlM (sealEntry E signing (nowMs now) recordedAt)
      (SyncClock.load s (E.publicKey signing), { captured := s.outbox.length })) s fun progress t ↦
        Underway E signing s log s.outbox.length [] progress t ∧
          ∀ k ∈ ([] : List Captured), k ∈ keepLast s.outbox := by
    rw [coalesce_eq hordered]
    refine ensures_foldlM (I := fun left progress t ↦
      Underway E signing s log s.outbox.length left progress t ∧
        ∀ k ∈ left, k ∈ keepLast s.outbox) _ ⟨hstart, fun _ hk ↦ hk⟩ ?_
    rintro entry left progress t ⟨hunderway, hleft⟩
    obtain ⟨before, after, houtbox, hafter⟩ := last_of_mem_keepLast (hleft entry (by simp))
    have hmem : entry ∈ s.outbox := houtbox ▸ by simp
    refine (sealEntry_underway hE hcaptures.distinct (hcaptures.named entry hmem)
      (hcaptures.last before entry after houtbox hafter) hunderway).mono fun progress' t' ht' ↦ ?_
    exact ⟨ht', fun k hk ↦ hleft k (List.mem_cons_of_mem _ hk)⟩
  rw [sealEntries]
  simp only [ensures_bind, ensures_get, ensures_modify, ensures_pure]
  refine hloop.mono ?_
  rintro ⟨clock, report⟩ t ⟨⟨hauthor, hwall, ⟨hrows, houtbox, hseq, hclock⟩, hlater, new,
    hrecorded, hagrees, hreport⟩, -⟩
  simp only at hauthor hwall hlater hrecorded hreport
  have hstored : ClockStored t := fun c hc ↦ hs.stored c (hclock ▸ hc)
  have hkept : (clock.store t).rows = t.rows ∧ (clock.store t).outbox = t.outbox ∧
      (clock.store t).nextSeq = t.nextSeq ∧ (clock.store t).oplog = t.oplog := by
    rw [SyncClock.store]
    cases t.clock with
    | none => exact ⟨rfl, rfl, rfl, rfl⟩
    | some c =>
      simp only
      split <;> exact ⟨rfl, rfl, rfl, rfl⟩
  obtain ⟨hrows', houtbox', hseq', hoplog'⟩ := hkept
  obtain ⟨hstored', htop⟩ := store_spec hstored hwall []
  have hdrained : (clock.store t).outbox.filter (fun entry ↦
      ¬entry.seq ≤ (s.outbox.map Captured.seq).max?.getD 0) = [] := by
    rw [houtbox', houtbox]
    refine List.filter_eq_nil_iff.2 fun entry hentry ↦ ?_
    simpa using seq_le_highWater hentry
  refine ⟨new, ⟨⟨?_, ?_⟩, ?_, hstored'⟩, hdrained, hrows'.trans hrows, ?_⟩
  · constructor
    · rw [hrows', hrows]
      exact hcaptures.distinct
    · rw [hrows', hrows]
      exact hcaptures.replicated
    · rw [hdrained]
      exact .nil
    · rw [hdrained]
      simp
    · rw [hdrained]
      simp
    · intro before entry after habsurd
      rw [hdrained] at habsurd
      simp at habsurd
  · rw [hrows']
    refine hagrees.mono ?_
    rintro key ⟨k, hk, -⟩
    cases hk
  · rw [hoplog']
    exact hrecorded.mono htop
  · rw [hreport]
    exact ⟨rfl, rfl⟩

theorem sealAt_spec (hE : Sound E reread) (hs : Synced E s log) (device : Device E)
    (recordedAt : String) :
    Ensures («seal» E device now recordedAt) s fun report s' ↦ ∃ new, Seals E log s report s' new := by
  rw [«seal», sealAt]
  simp only [ensures_bind, ensures_get, ensures_check, drainList_eq hs.settled.captures]
  intro _ _
  cases houtbox : s.outbox with
  | nil =>
    simp only [List.isEmpty_nil, if_true, ensures_pure]
    exact ⟨[], by rwa [List.append_nil], houtbox, rfl, rfl, rfl⟩
  | cons entry entries =>
    simp only [List.isEmpty_cons, Bool.false_eq_true, if_false, ensures_bind, ensures_check]
    intro signing _
    rw [← houtbox]
    exact sealEntries_spec hE hs signing recordedAt

end Seals

section Runs

open Relation

variable (E) in
/-- A write to a replicated row, or a seal. A seal that fails leaves the database as it was. -/
inductive Step (s : SyncDb) : SyncDb → Prop
  | write {s' : SyncDb} (w : Write) (hw : w.apply s = some s') : Step s s'
  | «seal» (device : Device E) (now : Instant) (recordedAt : String) :
      Step s (commit («seal» E device now recordedAt) s).2

variable (E) in
def Reachable (s : SyncDb) : Prop :=
  ReflTransGen (Step E) {} s

theorem Synced.step (hE : Sound E reread) (hs : Synced E s log) (hstep : Step E s s') :
    ∃ new, Synced E s' (log ++ new) := by
  cases hstep with
  | write w hw => exact ⟨[], by rw [List.append_nil]; exact hs.write hw⟩
  | «seal» device now recordedAt =>
    cases hseal : «seal» E device now recordedAt s with
    | error e =>
      rw [commit_of_error hseal]
      exact ⟨[], by rwa [List.append_nil]⟩
    | ok r =>
      obtain ⟨report, t⟩ := r
      rw [commit_of_ok hseal]
      obtain ⟨new, hnew⟩ := sealAt_spec hE hs device recordedAt report t hseal
      exact ⟨new, hnew.synced⟩

theorem Synced.run (hE : Sound E reread) (hs : Synced E s log)
    (hrun : ReflTransGen (Step E) s s') : ∃ new, Synced E s' (log ++ new) := by
  induction hrun with
  | refl => exact ⟨[], by rwa [List.append_nil]⟩
  | tail _ hstep ih =>
    obtain ⟨new, hsynced⟩ := ih
    obtain ⟨new', hsynced'⟩ := hsynced.step hE hstep
    exact ⟨new ++ new', by rwa [← List.append_assoc]⟩

theorem synced_of_reachable (hE : Sound E reread) (hs : Reachable E s) :
    ∃ log, Synced E s log := by
  obtain ⟨log, hlog⟩ := synced_empty.run hE hs
  exact ⟨log, by rwa [List.nil_append] at hlog⟩

end Runs

end SlipScan.Sync.Sealing
