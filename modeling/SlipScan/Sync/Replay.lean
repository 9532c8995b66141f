import SlipScan.Sync.PlainEngine
import SlipScan.Sync.Sealing
import Mathlib.Data.List.Dedup

namespace SlipScan.Sync.Replay

open Model.SyncMapping Model.SyncLog Foundation.Transaction Foundation.Table
  Foundation.Registers Columns Rows Record Content Sealing PlainEngine
  Relation

variable {E : Engine} {reread : FiniteFloat → Option FiniteFloat} {s s' : SyncDb}
  {log : List SyncOp} {table : String} {object : JsonObject}

section Definitions

variable (E)

def parsedValue (op : SyncOp) : Option (JsonObject × Bool) :=
  op.value.bind (parseRowValue E)

/-- The registers of a table, each with its row, or nothing if that is deleted. -/
def replayRegisters (log : List SyncOp) (table : String) : List JsonObject :=
  (log.filterMap (register E)).dedup.filterMap fun target ↦ do
    let (t, _) ← parseLwwTarget target
    if t ≠ table then none
    else
      let (row, deleted) ← parsedValue E (← winner stampOf (register E) log (some target))
      if deleted then none else some row

def replayFacts (log : List SyncOp) (table : String) : List JsonObject :=
  (log.filter fun op ↦ op.kind = E.opSetAdd ∧ op.target = table).filterMap fun op ↦
    (parsedValue E op).map Prod.fst

/-- The rows of a table that the log leads to. -/
def replay (log : List SyncOp) (table : String) : List JsonObject :=
  if isLedger table then replayFacts E log table else replayRegisters E log table

end Definitions

def contents (s : SyncDb) (table : String) : List JsonObject :=
  (s.rows.filter fun row ↦ row.table = table).filterMap fun row ↦ (rowObject row).toOption

section Values

theorem parsedValue_live (hE : Sound E reread) {op : SyncOp}
    (hvalue : op.value = some (rowValue E object false)) :
    parsedValue E op = (rereadObject reread object).map (·, false) := by
  have hlist : ("v" ++ E.jsonText object).toList = 'v' :: (E.jsonText object).toList := by
    simp
  rw [parsedValue, hvalue, Option.bind_some, rowValue]
  simp only [Bool.false_eq_true, if_false, parseRowValue, hlist, String.ofList_toList, hE.json]

theorem parsedValue_dead (hE : Sound E reread) {op : SyncOp} {id : String}
    (hvalue : op.value = some (rowValue E (tombstone id) true)) :
    parsedValue E op = some (tombstone id, true) := by
  have hlist : ("x" ++ E.jsonText (tombstone id)).toList =
      'x' :: (E.jsonText (tombstone id)).toList := by
    simp
  rw [parsedValue, hvalue, Option.bind_some, rowValue]
  simp only [if_true, parseRowValue, hlist, String.ofList_toList, hE.json, rereadObject_tombstone,
    Option.map_some]

end Values

section Tables

variable {rows : List Row}

/-- The rows of a table, each as it is read back. -/
def Reads (reread : FiniteFloat → Option FiniteFloat) (rows : List Row) (table : String)
    (object : JsonObject) : Prop :=
  ∃ row ∈ rows, row.table = table ∧ ∃ written, rowObject row = .ok written ∧
    rereadObject reread written = some object

theorem mem_replayFacts (hE : Sound E reread) (hagrees : Agrees E rows log fun _ ↦ False)
    (hledger : isLedger table) :
    object ∈ replayFacts E log table ↔ Reads reread rows table object := by
  simp only [replayFacts, List.mem_filterMap, List.mem_filter, decide_eq_true_eq,
    Option.map_eq_some_iff]
  constructor
  · rintro ⟨op, ⟨hop, hkind, htarget⟩, ⟨_, deleted⟩, hparsed, rfl⟩
    rcases hagrees.origin op hop with ⟨habsurd, -⟩ | ⟨row, hrow, hstates⟩
    · exact absurd (hkind.symm.trans habsurd) hE.kinds
    · obtain ⟨written, hwritten, hvalue⟩ := hstates.value
      rw [parsedValue_live hE hvalue, Option.map_eq_some_iff] at hparsed
      obtain ⟨read, hread, heq⟩ := hparsed
      obtain ⟨rfl, -⟩ := Prod.mk.inj heq
      exact ⟨row, hrow, hstates.target.symm.trans htarget, written, hwritten, hread⟩
  · rintro ⟨row, hrow, rfl, written, hwritten, hread⟩
    obtain ⟨op, hop, hstates⟩ := hagrees.facts row hrow hledger id
    obtain ⟨written', hwritten', hvalue⟩ := hstates.value
    obtain rfl := Except.ok.inj (hwritten.symm.trans hwritten')
    refine ⟨op, ⟨hop, hstates.kind, hstates.target⟩, (object, false), ?_, rfl⟩
    rw [parsedValue_live hE hvalue, hread, Option.map_some]

theorem mem_replayRegisters (hE : Sound E reread) (hagrees : Agrees E rows log fun _ ↦ False)
    (hrows : (rows.map Row.key).Nodup) (htable : table ∈ lwwTables) :
    object ∈ replayRegisters E log table ↔ Reads reread rows table object := by
  simp only [replayRegisters, List.mem_filterMap, List.mem_dedup]
  constructor
  · rintro ⟨target, ⟨op, hop, hregister⟩, hrow⟩
    -- The register is that of some row, which the last write to it describes.
    obtain ⟨t, ht, id, hid, htarget⟩ : ∃ t ∈ lwwTables, ∃ id ≠ "", target = lwwTarget t id := by
      rw [register] at hregister
      split at hregister
      · rename_i hkind
        rcases hagrees.origin op hop with ⟨-, t, ht, id, hid, htarget⟩ | ⟨row, -, hstates⟩
        · exact ⟨t, ht, id, hid, (Option.some.inj hregister).symm.trans htarget⟩
        · exact absurd (hstates.kind.symm.trans hkind) hE.kinds
      · cases hregister
    subst htarget
    rw [parseLwwTarget_lwwTarget (mem_replicated_of_lww ht) hid] at hrow
    simp only [Option.bind_eq_bind, Option.bind_some, ne_eq, ite_not] at hrow
    split at hrow
    · rename_i heq
      subst heq
      have hdescribes := hagrees.edited t ht id hid not_false
      generalize hlast : winner stampOf (register E) log (some (lwwTarget t id)) = last at *
      generalize hlook : lookup Row.key rows (t, id) = found at *
      cases hdescribes with
      | untouched => cases hrow
      | @live op row written hwritten hvalue =>
        rw [Option.bind_some, parsedValue_live hE hvalue] at hrow
        obtain ⟨hmem, hkey⟩ := lookup_eq_some hlook
        cases hread : rereadObject reread written with
        | none => simp [hread] at hrow
        | some read =>
          simp only [hread, Option.map_some, Option.bind_some, Bool.false_eq_true, if_false,
            Option.some.injEq] at hrow
          exact ⟨row, hmem, congrArg Prod.fst hkey, written, hwritten, hrow ▸ hread⟩
      | dead hvalue =>
        rw [Option.bind_some, parsedValue_dead hE hvalue] at hrow
        simp at hrow
    · cases hrow
  · rintro ⟨row, hrow, rfl, written, hwritten, hread⟩
    have hlook : lookup Row.key rows (row.table, row.id) = some row :=
      lookup_of_mem (List.pairwise_map.1 hrows) hrow
    have hdescribes := hagrees.edited row.table htable row.id row.named not_false
    rw [hlook] at hdescribes
    generalize hlast : winner stampOf (register E) log (some (lwwTarget row.table row.id)) = last
      at hdescribes
    cases hdescribes with
    | @live op _ written' hwritten' hvalue =>
      obtain rfl := Except.ok.inj (hwritten.symm.trans hwritten')
      obtain ⟨hop, hregister⟩ := mem_of_winner hlast
      refine ⟨lwwTarget row.table row.id, ⟨op, hop, hregister⟩, ?_⟩
      rw [parseLwwTarget_lwwTarget (mem_replicated_of_lww htable) row.named]
      simp [hlast, parsedValue_live hE hvalue, hread]

theorem mem_replay (hE : Sound E reread) (hagrees : Agrees E rows log fun _ ↦ False)
    (hrows : (rows.map Row.key).Nodup) (htable : table ∈ replicatedTables) :
    object ∈ replay E log table ↔ Reads reread rows table object := by
  rw [replay]
  split
  · rename_i hledger
    exact mem_replayFacts hE hagrees hledger
  · rename_i hledger
    rcases List.mem_append.1 htable with hlww | habsurd
    · exact mem_replayRegisters hE hagrees hrows hlww
    · exact absurd (by simpa [isLedger] using habsurd) hledger

theorem mem_contents : object ∈ contents s table ↔
    ∃ row ∈ s.rows, row.table = table ∧ rowObject row = .ok object := by
  simp only [contents, List.mem_filterMap, List.mem_filter, decide_eq_true_eq, and_assoc]
  refine exists_congr fun row ↦ and_congr_right fun _ ↦ and_congr_right fun _ ↦ ?_
  cases rowObject row <;> simp [Except.toOption]

theorem exists_rowObject (hagrees : Agrees E rows log fun _ ↦ False)
    (hrows : (rows.map Row.key).Nodup) (htables : ∀ row ∈ rows, row.table ∈ replicatedTables)
    {row : Row} (hrow : row ∈ rows) : ∃ object, rowObject row = .ok object := by
  rcases List.mem_append.1 (htables row hrow) with hlww | hledger
  · have hlook : lookup Row.key rows (row.table, row.id) = some row :=
      lookup_of_mem (List.pairwise_map.1 hrows) hrow
    have hdescribes := hagrees.edited row.table hlww row.id row.named not_false
    rw [hlook] at hdescribes
    generalize winner stampOf (register E) log (some (lwwTarget row.table row.id)) = last
      at hdescribes
    cases hdescribes with
    | live hobject => exact ⟨_, hobject⟩
  · obtain ⟨op, -, hstates⟩ := hagrees.facts row hrow (by simpa [isLedger] using hledger) id
    obtain ⟨object, hobject, -⟩ := hstates.value
    exact ⟨object, hobject⟩

/-- The replay is exact when every real number in the rows is read back as it was written. -/
theorem replay_exact_iff (hE : Sound E reread) (hagrees : Agrees E s.rows log fun _ ↦ False)
    (hs : Captures s) : (∀ table ∈ replicatedTables, ∀ object,
      object ∈ replay E log table ↔ object ∈ contents s table) ↔ ExactReals reread s.rows := by
  constructor
  · intro hexact row hrow
    obtain ⟨object, hobject⟩ := exists_rowObject hagrees hs.distinct hs.replicated hrow
    have hmem := (hexact row.table (hs.replicated row hrow) object).2
      (mem_contents.2 ⟨row, hrow, rfl, hobject⟩)
    rw [mem_replay hE hagrees hs.distinct (hs.replicated row hrow)] at hmem
    -- The row that the object was read back from has the same identifier.
    obtain ⟨row', hrow', htable, written, hwritten, hread⟩ := hmem
    have hid := text_mem_of_reread hread (id_mem_rowObject hwritten)
    have hids := value_unique hid (id_mem_rowObject hobject)
    have hkey : row'.key = row.key := Prod.ext htable (Scalar.string.inj hids)
    obtain rfl := List.inj_on_of_nodup_map hs.distinct hrow' hrow hkey
    obtain rfl := Except.ok.inj (hwritten.symm.trans hobject)
    have hself := (rereadObject_rowObject hobject).1 hread
    exact hself row' (List.mem_singleton_self _)
  · intro hreals table htable object
    rw [mem_replay hE hagrees hs.distinct htable, mem_contents]
    refine exists_congr fun row ↦ and_congr_right fun hrow ↦ and_congr_right fun _ ↦ ?_
    have hself : ∀ written, rowObject row = .ok written →
        rereadObject reread written = some written := by
      intro written hwritten
      refine (rereadObject_rowObject hwritten).2 fun row' hrow' ↦ ?_
      exact hreals row' (List.mem_singleton.1 hrow' ▸ hrow)
    constructor
    · rintro ⟨written, hwritten, hread⟩
      exact Option.some.inj ((hself written hwritten).symm.trans hread) ▸ hwritten
    · intro hobject
      exact ⟨object, hobject, hself object hobject⟩

end Tables

section Runs

/-- What a run seals has later stamps than what was sealed before. -/
theorem loggedOps_run (hE : Sound E reread) (hs : Reachable E s)
    (hrun : ReflTransGen (Step E) s s') :
    ∃ log new, loggedOps E s = .ok log ∧ loggedOps E s' = .ok (log ++ new) ∧
      (log ++ new).Pairwise fun a b ↦ stampOf a < stampOf b := by
  obtain ⟨log, hlog⟩ := synced_of_reachable hE hs
  obtain ⟨new, hnew⟩ := hlog.run hE hrun
  exact ⟨log, new, hlog.recorded.loggedOps, hnew.recorded.loggedOps, hnew.recorded.increasing⟩

theorem seal_exact_iff (hE : Sound E reread) (hs : Reachable E s) {device : Device E}
    {now : Instant} {recordedAt : String} {report : SealReport}
    (hseal : «seal» E device now recordedAt s = .ok (report, s')) :
    s'.rows = s.rows ∧ ∃ log, loggedOps E s' = .ok log ∧
      (∀ row ∈ s'.rows, ∃ object, rowObject row = .ok object) ∧
      ((∀ table ∈ replicatedTables, ∀ object,
        object ∈ replay E log table ↔ object ∈ contents s' table) ↔ ExactReals reread s'.rows) := by
  obtain ⟨log, hlog⟩ := synced_of_reachable hE hs
  obtain ⟨new, hnew⟩ := sealAt_spec hE hlog device recordedAt report s' hseal
  have hcaptures := hnew.synced.settled.captures
  have hagrees : Agrees E s'.rows (log ++ new) fun _ ↦ False := by
    refine hnew.synced.settled.agrees.mono ?_
    rintro key ⟨entry, hentry, -⟩
    rw [hnew.drained] at hentry
    cases hentry
  exact ⟨hnew.rows, log ++ new, hnew.synced.recorded.loggedOps,
    fun row hrow ↦ exists_rowObject hagrees hcaptures.distinct hcaptures.replicated hrow,
    replay_exact_iff hE hagrees hcaptures⟩

end Runs

/-- The stamps of what the device seals increase along every run. After a seal the log leads to
exactly the rows of the replicated tables if and only if their real numbers are read back as they
were written. -/
theorem log_represents_data (E : Engine) (reread : FiniteFloat → Option FiniteFloat)
    (hE : Sound E reread) :
    (∀ s s', Reachable E s → ReflTransGen (Step E) s s' →
      ∃ log new, loggedOps E s = .ok log ∧ loggedOps E s' = .ok (log ++ new) ∧
        (log ++ new).Pairwise fun a b ↦ stampOf a < stampOf b) ∧
    ∀ s, Reachable E s → ∀ device now recordedAt report s',
      «seal» E device now recordedAt s = .ok (report, s') →
        ∃ log, loggedOps E s' = .ok log ∧
          (∀ row ∈ s'.rows, ∃ object, rowObject row = .ok object) ∧
          ((∀ table ∈ replicatedTables, ∀ object,
            object ∈ replay E log table ↔ object ∈ contents s' table) ↔
              ExactReals reread s'.rows) :=
  ⟨fun _ _ hs hrun ↦ loggedOps_run hE hs hrun,
    fun _ hs _ _ _ _ _ hseal ↦ (seal_exact_iff hE hs hseal).2⟩

section Confidence

def mapping (confidence : UInt64) : Row where
  table := "merchant_mappings"
  id := "mapping"
  ns := "book"
  cells := [("id", .text "mapping"), ("confidence", .real confidence)]
  named := by decide
  columns := by simp
  idCell := by simp

def mapped (confidence : UInt64) : SyncDb :=
  capture "merchant_mappings" "mapping" "book" false { rows := [mapping confidence] }

def plainDevice : Device plainEngine :=
  ⟨.ok (), .ok ()⟩

def january : Instant :=
  ⟨1767225600 * 10 ^ 9, by decide⟩

theorem reachable_mapped (confidence : UInt64) : Reachable plainEngine (mapped confidence) := by
  have hw : (Write.insert (mapping confidence)).apply {} = some (mapped confidence) := rfl
  exact .single (.write _ hw)

def confidence : UInt64 :=
  0x3FEF2F673CB6C9F8

theorem seal_mapped : ∃ report s',
    «seal» plainEngine plainDevice january "" (mapped confidence) = .ok (report, s') := by
  have hok : («seal» plainEngine plainDevice january "" (mapped confidence)).isOk := rfl
  cases hseal : «seal» plainEngine plainDevice january "" (mapped confidence) with
  | error e =>
    rw [hseal] at hok
    cases hok
  | ok r => exact ⟨r.1, r.2, rfl⟩

theorem not_exactReals_mapped : ¬ExactReals plainReread (mapped confidence).rows := by
  intro hreals
  have hself := hreals (mapping confidence) (List.mem_singleton_self _) "confidence" confidence
    (by decide) (by simp [mapping])
  exact absurd hself (by decide)

/-- The log of the rule leads to another confidence than the stored one. -/
theorem log_changes_confidence :
    Reachable plainEngine (mapped confidence) ∧ ∃ report s' log,
      «seal» plainEngine plainDevice january "" (mapped confidence) = .ok (report, s') ∧
        loggedOps plainEngine s' = .ok log ∧
        ¬∀ table ∈ replicatedTables, ∀ object,
          object ∈ replay plainEngine log table ↔ object ∈ contents s' table := by
  obtain ⟨report, s', hseal⟩ := seal_mapped
  obtain ⟨hrows, log, hlog, -, hexact⟩ :=
    seal_exact_iff plain_sound (reachable_mapped confidence) hseal
  refine ⟨reachable_mapped confidence, report, s', log, hseal, hlog, fun hsame ↦ ?_⟩
  have hreals := hexact.1 hsame
  rw [hrows] at hreals
  exact not_exactReals_mapped hreals

theorem log_represents_data_mapped :
    (∃ log new, loggedOps plainEngine {} = .ok log ∧
      loggedOps plainEngine (mapped confidence) = .ok (log ++ new) ∧
        (log ++ new).Pairwise fun a b ↦ stampOf a < stampOf b) ∧
    ∃ report s' log,
      «seal» plainEngine plainDevice january "" (mapped confidence) = .ok (report, s') ∧
        loggedOps plainEngine s' = .ok log ∧
        ((∀ table ∈ replicatedTables, ∀ object,
          object ∈ replay plainEngine log table ↔ object ∈ contents s' table) ↔
            ExactReals plainReread s'.rows) := by
  obtain ⟨hstamps, hexact⟩ := log_represents_data plainEngine plainReread plain_sound
  obtain ⟨report, s', hseal⟩ := seal_mapped
  obtain ⟨log, hlog, -, hiff⟩ := hexact _ (reachable_mapped confidence) _ _ _ _ _ hseal
  exact ⟨hstamps _ _ .refl (reachable_mapped confidence), report, s', log, hseal, hlog, hiff⟩

end Confidence

end SlipScan.Sync.Replay
