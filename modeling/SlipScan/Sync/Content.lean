import SlipScan.Sync.Record

namespace SlipScan.Sync.Content

open Model.SyncMapping Model.SyncLog Foundation Foundation.Transaction Foundation.Table
  Foundation.Registers Columns Rows Record

variable {E : Engine} {reread : FiniteFloat → Option FiniteFloat} {rows : List Row}
  {log : List SyncOp} {op : SyncOp} {row : Row} {dirty dirty' : String × String → Prop}

variable (E) in
/-- The register that an operation writes, if it writes one. -/
def register (op : SyncOp) : Option String :=
  if op.kind = E.opLwwSet then some op.target else none

variable (E) in
structure States (op : SyncOp) (row : Row) : Prop where
  ledger : isLedger row.table
  kind : op.kind = E.opSetAdd
  target : op.target = row.table
  value : ∃ object, rowObject row = .ok object ∧ op.value = some (rowValue E object false)

variable (E) in
/-- The last write to a register says what the row is, if there is one. -/
inductive Describes (id : String) : Option SyncOp → Option Row → Prop
  | untouched : Describes id none none
  | live {op : SyncOp} {row : Row} {object : JsonObject} (hobject : rowObject row = .ok object)
      (hvalue : op.value = some (rowValue E object false)) : Describes id (some op) (some row)
  | dead {op : SyncOp} (hvalue : op.value = some (rowValue E (tombstone id) true)) :
      Describes id (some op) none

variable (E) in
/-- The log agrees with the rows, but for the dirty ones. -/
structure Agrees (rows : List Row) (log : List SyncOp) (dirty : String × String → Prop) : Prop where
  edited : ∀ table ∈ lwwTables, ∀ id ≠ "", ¬dirty (table, id) →
    Describes E id (winner stampOf (register E) log (some (lwwTarget table id)))
      (lookup Row.key rows (table, id))
  facts : ∀ row ∈ rows, isLedger row.table → ¬dirty row.key → ∃ op ∈ log, States E op row
  origin : ∀ op ∈ log, (op.kind = E.opLwwSet ∧ ∃ table ∈ lwwTables, ∃ id ≠ "",
    op.target = lwwTarget table id) ∨ ∃ row ∈ rows, States E op row

theorem agrees_nil : Agrees E [] [] dirty where
  edited _ _ _ _ _ := .untouched
  facts _ hrow := by cases hrow
  origin _ hop := by cases hop

theorem mem_replicated_of_lww {table : String} (htable : table ∈ lwwTables) :
    table ∈ replicatedTables :=
  List.mem_append_left _ htable

section Sealing

inductive Mints (E : Engine) (rows : List Row) (entry : Captured) (op : SyncOp) : Prop
  | fact {row : Row} (hrow : row ∈ rows) (hkey : row.key = entry.key) (hstates : States E op row)
  | edit (htable : entry.table ∈ lwwTables) (hkind : op.kind = E.opLwwSet)
      (htarget : op.target = lwwTarget entry.table entry.rowId)
      (hdescribes : Describes E entry.rowId (some op) (lookup Row.key rows entry.key))

theorem Agrees.concat (hE : Sound E reread) (hagrees : Agrees E rows log dirty)
    (hrows : (rows.map Row.key).Nodup) {entry : Captured} (hid : entry.rowId ≠ "")
    (hlater : ∀ op' ∈ log, stampOf op' < stampOf op) (hmints : Mints E rows entry op) :
    Agrees E rows (log ++ [op]) fun key ↦ dirty key ∧ key ≠ entry.key := by
  cases hmints with
  | @fact row hrow hkey hstates =>
    have hregister : ∀ target, register E op ≠ some target := by
      intro target
      rw [register, hstates.kind, if_neg hE.kinds]
      simp
    constructor
    · intro table htable id hne hclean
      rw [winner_concat_of_ne (hregister _)]
      refine hagrees.edited table htable id hne fun hdirty ↦ hclean ⟨hdirty, ?_⟩
      rintro heq
      have hledger := hstates.ledger
      have hrowtable : row.table = table := congrArg Prod.fst (hkey.trans heq.symm)
      rw [hrowtable, not_ledger_of_lww table htable] at hledger
      cases hledger
    · intro row' hrow' hledger hclean
      by_cases hdirty : dirty row'.key
      · have heq : row'.key = entry.key := not_not.1 fun hne ↦ hclean ⟨hdirty, hne⟩
        have hsame : row' = row :=
          List.inj_on_of_nodup_map hrows hrow' hrow (heq.trans hkey.symm)
        exact ⟨op, by simp, hsame ▸ hstates⟩
      · obtain ⟨op', hop', hstates'⟩ := hagrees.facts row' hrow' hledger hdirty
        exact ⟨op', List.mem_append_left _ hop', hstates'⟩
    · intro op' hop'
      rcases List.mem_append.1 hop' with hop' | hop'
      · exact hagrees.origin op' hop'
      · exact .inr ⟨row, hrow, List.mem_singleton.1 hop' ▸ hstates⟩
  | edit htable hkind htarget hdescribes =>
    have hregister : register E op = some (lwwTarget entry.table entry.rowId) := by
      rw [register, if_pos hkind, htarget]
    constructor
    · intro table htable' id hne hclean
      by_cases hkey : (table, id) = entry.key
      · obtain ⟨rfl, rfl⟩ := Prod.mk.inj hkey
        rw [winner_concat_self hlater hregister]
        exact hdescribes
      · have hne' : register E op ≠ some (lwwTarget table id) := by
          rw [hregister]
          intro heq
          exact hkey (lwwTarget_inj (mem_replicated_of_lww htable) (mem_replicated_of_lww htable')
            hid hne (Option.some.inj heq)).symm
        rw [winner_concat_of_ne hne']
        exact hagrees.edited table htable' id hne fun hdirty ↦ hclean ⟨hdirty, hkey⟩
    · intro row' hrow' hledger hclean
      have hclean' : ¬dirty row'.key := by
        refine fun hdirty ↦ hclean ⟨hdirty, fun heq ↦ ?_⟩
        have hrowtable : row'.table = entry.table := congrArg Prod.fst heq
        rw [hrowtable, not_ledger_of_lww _ htable] at hledger
        cases hledger
      obtain ⟨op', hop', hstates'⟩ := hagrees.facts row' hrow' hledger hclean'
      exact ⟨op', List.mem_append_left _ hop', hstates'⟩
    · intro op' hop'
      rcases List.mem_append.1 hop' with hop' | hop'
      · exact hagrees.origin op' hop'
      · rw [List.mem_singleton.1 hop']
        exact .inl ⟨hkind, entry.table, htable, entry.rowId, hid, htarget⟩

end Sealing

section Writing

theorem Agrees.write (hagrees : Agrees E rows log dirty) {rows' : List Row} {k : String × String}
    (hlook : ∀ key ≠ k, lookup Row.key rows' key = lookup Row.key rows key)
    (hnew : ∀ row ∈ rows', isLedger row.table → row.key ≠ k → row ∈ rows)
    (hold : ∀ row ∈ rows, isLedger row.table → row ∈ rows') :
    Agrees E rows' log fun key ↦ dirty key ∨ key = k where
  edited table htable id hid hclean := by
    obtain ⟨hdirty, hkey⟩ := not_or.1 hclean
    rw [hlook _ hkey]
    exact hagrees.edited table htable id hid hdirty
  facts row hrow hledger hclean := by
    obtain ⟨hdirty, hkey⟩ := not_or.1 hclean
    exact hagrees.facts row (hnew row hrow hledger hkey) hledger hdirty
  origin op hop := by
    refine (hagrees.origin op hop).imp_right ?_
    rintro ⟨row, hrow, hstates⟩
    exact ⟨row, hold row hrow hstates.ledger, hstates⟩

theorem Agrees.mono (hagrees : Agrees E rows log dirty) (hdirty : ∀ key, dirty key → dirty' key) :
    Agrees E rows log dirty' where
  edited table htable id hid hclean :=
    hagrees.edited table htable id hid fun h ↦ hclean (hdirty _ h)
  facts row hrow hledger hclean := hagrees.facts row hrow hledger fun h ↦ hclean (hdirty _ h)
  origin := hagrees.origin

structure Captures (s : SyncDb) : Prop where
  distinct : (s.rows.map Row.key).Nodup
  replicated : ∀ row ∈ s.rows, row.table ∈ replicatedTables
  ordered : s.outbox.Pairwise fun a b ↦ a.seq < b.seq
  below : ∀ entry ∈ s.outbox, entry.seq < s.nextSeq
  named : ∀ entry ∈ s.outbox, entry.rowId ≠ ""
  last : ∀ before entry after, s.outbox = before ++ entry :: after →
    (∀ k ∈ after, k.key ≠ entry.key) → entry.deleted → lookup Row.key s.rows entry.key = none

def captured (s : SyncDb) (key : String × String) : Prop :=
  ∃ entry ∈ s.outbox, entry.key = key

theorem captures_empty : Captures {} where
  distinct := .nil
  replicated := by simp
  ordered := .nil
  below := by simp
  named := by simp
  last before entry after h := by simp at h

theorem Captures.capture {s : SyncDb} (hs : Captures s) {rows : List Row} {table id ns : String}
    {deleted : Bool} (hid : id ≠ "") (hdistinct : (rows.map Row.key).Nodup)
    (hreplicated : ∀ row ∈ rows, row.table ∈ replicatedTables)
    (hlook : ∀ key ≠ (table, id), lookup Row.key rows key = lookup Row.key s.rows key)
    (hdeleted : deleted → lookup Row.key rows (table, id) = none) :
    Captures (Model.SyncLog.capture table id ns deleted { s with rows }) where
  distinct := hdistinct
  replicated := hreplicated
  ordered := by
    refine List.pairwise_append.2 ⟨hs.ordered, List.pairwise_singleton _ _, fun a ha b hb ↦ ?_⟩
    rw [List.mem_singleton.1 hb]
    exact hs.below a ha
  below entry hentry := by
    rcases List.mem_append.1 hentry with hentry | hentry
    · exact Nat.lt_succ_of_lt (hs.below entry hentry)
    · rw [List.mem_singleton.1 hentry]
      exact Nat.lt_succ_self _
  named entry hentry := by
    rcases List.mem_append.1 hentry with hentry | hentry
    · exact hs.named entry hentry
    · rw [List.mem_singleton.1 hentry]
      exact hid
  last before entry after houtbox hafter hdel := by
    -- The last entry of the outbox is the new one; an older one is about another row.
    rcases List.eq_nil_or_concat after with rfl | ⟨after, final, rfl⟩
    · obtain ⟨-, heq⟩ := List.append_inj' houtbox rfl
      obtain rfl := List.singleton_inj.1 heq
      exact hdeleted hdel
    · have hsplit : s.outbox ++ [⟨s.nextSeq, table, id, ns, deleted⟩] =
          (before ++ entry :: after) ++ [final] := by
        rw [List.concat_eq_append] at houtbox
        rw [List.append_assoc, List.cons_append]
        exact houtbox
      obtain ⟨hold, heq⟩ := List.append_inj' hsplit rfl
      have hfinal := List.singleton_inj.1 heq
      have hne : entry.key ≠ (table, id) := by
        intro hkey
        exact hafter final (by simp) (hfinal ▸ hkey.symm)
      exact (hlook entry.key hne).trans
        (hs.last before entry after hold (fun k hk ↦ hafter k (by simp [hk])) hdel)

theorem captured_capture {s : SyncDb} {rows : List Row} {table id ns : String} {deleted : Bool}
    {key : String × String} :
    captured (Model.SyncLog.capture table id ns deleted { s with rows }) key ↔
      captured s key ∨ key = (table, id) := by
  simp [captured, Model.SyncLog.capture, or_and_right, exists_or, Captured.key, eq_comm]

variable (E) in
structure Settled (s : SyncDb) (log : List SyncOp) : Prop where
  captures : Captures s
  agrees : Agrees E s.rows log (captured s)

theorem ne_of_lww {table id : String} (htable : table ∈ lwwTables) {row : Row}
    (hledger : isLedger row.table) : row.key ≠ (table, id) := by
  intro heq
  have hrow : row.table = table := congrArg Prod.fst heq
  rw [hrow, not_ledger_of_lww table htable] at hledger
  cases hledger

theorem Settled.insert {s : SyncDb} (hs : Settled E s log)
    (htable : isReplicated row.table) (hnone : lookup Row.key s.rows row.key = none) :
    Settled E (capture row.table row.id row.ns false { s with rows := s.rows ++ [row] }) log := by
  have hfresh := lookup_eq_none.1 hnone
  have hlook : ∀ key ≠ (row.table, row.id),
      lookup Row.key (s.rows ++ [row]) key = lookup Row.key s.rows key := fun key hkey ↦
    lookup_concat_of_ne (Ne.symm hkey)
  constructor
  · refine hs.captures.capture row.named (nodup_concat hfresh hs.captures.distinct) ?_ hlook ?_
    · intro row' hrow'
      rcases List.mem_append.1 hrow' with hrow' | hrow'
      · exact hs.captures.replicated row' hrow'
      · rw [List.mem_singleton.1 hrow']
        exact isReplicated_iff.1 htable
    · exact fun hfalse ↦ by cases hfalse
  · refine (hs.agrees.write hlook ?_ fun row' hrow' _ ↦ List.mem_append_left _ hrow').mono
      fun key hdirty ↦ captured_capture.2 hdirty
    intro row' hrow' _ hne
    rcases List.mem_append.1 hrow' with hrow' | hrow'
    · exact hrow'
    · rw [List.mem_singleton.1 hrow'] at hne
      exact absurd rfl hne

theorem Settled.update {s : SyncDb} (hs : Settled E s log) (htable : row.table ∈ lwwTables) :
    Settled E (capture row.table row.id row.ns false
      { s with rows := Table.update Row.key s.rows row.key fun _ ↦ row }) log := by
  have hmem : ∀ row', row' ∈ Table.update Row.key s.rows row.key (fun _ ↦ row) →
      row' ∈ s.rows ∧ row'.key ≠ row.key ∨ row' = row := by
    intro row' hrow'
    obtain ⟨old, hold, heq⟩ := mem_update.1 hrow'
    split at heq
    · exact .inr heq.symm
    · rename_i hne
      exact .inl (heq ▸ ⟨hold, hne⟩)
  have hkeys : (Table.update Row.key s.rows row.key fun _ ↦ row).map Row.key =
      s.rows.map Row.key := by
    rw [Table.update, List.map_map]
    refine List.map_congr_left fun old _ ↦ ?_
    rw [Function.comp_apply]
    split
    · rename_i heq
      exact heq.symm
    · rfl
  have hlook : ∀ key ≠ (row.table, row.id),
      lookup Row.key (Table.update Row.key s.rows row.key fun _ ↦ row) key =
        lookup Row.key s.rows key := by
    intro key hkey
    rw [Table.update, lookup, lookup]
    induction s.rows with
    | nil => rfl
    | cons old rows ih =>
      by_cases hold : old.key = row.key
      · have hne : row.key ≠ key := Ne.symm hkey
        simp [hold, hne, ih]
      · simp [List.find?_cons, hold, ih]
  constructor
  · refine hs.captures.capture row.named (hkeys ▸ hs.captures.distinct) ?_ hlook ?_
    · intro row' hrow'
      rcases hmem row' hrow' with ⟨hrow', -⟩ | rfl
      · exact hs.captures.replicated row' hrow'
      · exact mem_replicated_of_lww htable
    · exact fun hfalse ↦ by cases hfalse
  · refine (hs.agrees.write hlook ?_ fun row' hrow' hledger ↦ ?_).mono
      fun key hdirty ↦ captured_capture.2 hdirty
    · intro row' hrow' _ hne
      rcases hmem row' hrow' with ⟨hrow', -⟩ | rfl
      · exact hrow'
      · exact absurd rfl hne
    · exact mem_update.2 ⟨row', hrow', if_neg (ne_of_lww htable hledger)⟩

theorem Settled.delete {s : SyncDb} (hs : Settled E s log) {table id ns : String}
    (htable : table ∈ lwwTables) (hid : id ≠ "") :
    Settled E (capture table id ns true
      { s with rows := s.rows.filter fun r ↦ r.key ≠ (table, id) }) log := by
  have hlook : ∀ key ≠ (table, id),
      lookup Row.key (s.rows.filter fun r ↦ r.key ≠ (table, id)) key =
        lookup Row.key s.rows key := by
    intro key hkey
    rw [lookup, lookup, List.find?_filter]
    congr 1
    funext r
    by_cases hr : r.key = key
    · simp [hr, hkey]
    · simp [hr]
  constructor
  · refine hs.captures.capture hid ?_ ?_ hlook ?_
    · exact hs.captures.distinct.sublist (List.filter_sublist.map _)
    · exact fun row' hrow' ↦ hs.captures.replicated row' (List.mem_of_mem_filter hrow')
    · intro _
      exact lookup_eq_none.2 fun r hr ↦ by simpa using (List.mem_filter.1 hr).2
  · refine (hs.agrees.write hlook ?_ fun row' hrow' hledger ↦ ?_).mono
      fun key hdirty ↦ captured_capture.2 hdirty
    · exact fun row' hrow' _ _ ↦ List.mem_of_mem_filter hrow'
    · exact List.mem_filter.2 ⟨hrow', by simpa using ne_of_lww htable hledger⟩

theorem Settled.write {s s' : SyncDb} (hs : Settled E s log) {w : Write}
    (hw : w.apply s = some s') :
    Settled E s' log ∧ s'.oplog = s.oplog ∧ s'.clock = s.clock := by
  cases w with
  | insert row =>
    rw [Write.apply] at hw
    split at hw
    · rename_i hok
      obtain rfl := Option.some.inj hw
      exact ⟨hs.insert hok.1 hok.2, rfl, rfl⟩
    · cases hw
  | update row =>
    rw [Write.apply] at hw
    split at hw
    · rename_i hok
      obtain rfl := Option.some.inj hw
      exact ⟨hs.update (by simpa using hok.1), rfl, rfl⟩
    · cases hw
  | delete table id =>
    rw [Write.apply] at hw
    split at hw
    · rename_i hok
      obtain ⟨old, hold, rfl⟩ := Option.map_eq_some_iff.1 hw
      obtain ⟨-, hkey⟩ := lookup_eq_some hold
      have hid : id ≠ "" := by
        obtain ⟨-, rfl⟩ := Prod.mk.inj hkey
        exact old.named
      exact ⟨hs.delete (by simpa using hok) hid, rfl, rfl⟩
    · cases hw

end Writing

end SlipScan.Sync.Content
