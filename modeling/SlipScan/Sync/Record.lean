import SlipScan.Foundation.Registers
import SlipScan.Sync.Columns
import SlipScan.Sync.Rows

namespace SlipScan.Sync.Record

open Model.SyncMapping Model.SyncLog Foundation.Transaction Foundation.Table Foundation.Registers
  Columns Rows Relation

/-- What is taken for granted of the engine, of the schemes and of the JSON library. Two operations
have different content addresses, a signature of the author verifies, a tick is later than the
stamp before it and its wall is the larger of the clock's and the system's, or one more. A row is
read back from its text up to the precision of its real numbers. -/
structure Sound (E : Engine) (reread : FiniteFloat → Option FiniteFloat) : Prop where
  kinds : E.opSetAdd ≠ E.opLwwSet
  opId : Function.Injective E.opId
  signature : ∀ key op envelope, op.hlc.author = E.publicKey key → E.signOp key op = .ok envelope →
    E.verifyOpBytes envelope = .ok op
  author : ∀ hlc nowMs, (E.tick hlc nowMs).author = hlc.author
  later : ∀ hlc nowMs, hlc.wall.toNat + 1 < 2 ^ 64 →
    stamp hlc.wall hlc.counter < stamp (E.tick hlc nowMs).wall (E.tick hlc nowMs).counter
  wall : ∀ hlc nowMs, (E.tick hlc nowMs).wall.toNat ≤ max hlc.wall.toNat nowMs.toNat + 1
  json : ∀ object, E.parseJson (E.jsonText object) = rereadObject reread object

variable {E : Engine} {reread : FiniteFloat → Option FiniteFloat} {oplog : List OpRow}
  {log : List SyncOp} {op : SyncOp} {top : ℕ ×ₗ ℕ}

section Log

variable (E) in
structure Sealed (row : OpRow) (op : SyncOp) : Prop where
  columns : ∃ envelope recordedAt, row = opRow E op envelope .local recordedAt ∧
    E.verifyOpBytes envelope = .ok op
  wall : op.hlc.wall.toNat < 2 ^ 63

variable (E) in
/-- The log holds the operations in the order of their stamps, none of them after `top`. -/
structure Recorded (oplog : List OpRow) (log : List SyncOp) (top : ℕ ×ₗ ℕ) : Prop where
  «sealed» : List.Forall₂ (Sealed E) oplog log
  increasing : log.Pairwise fun a b ↦ stampOf a < stampOf b
  below : ∀ op ∈ log, stampOf op ≤ top

theorem Recorded.mono {top' : ℕ ×ₗ ℕ} (hlog : Recorded E oplog log top) (htop : top ≤ top') :
    Recorded E oplog log top' :=
  ⟨hlog.sealed, hlog.increasing, fun op hop ↦ (hlog.below op hop).trans htop⟩

theorem Recorded.concat {row : OpRow} (hlog : Recorded E oplog log top) (hrow : Sealed E row op)
    (htop : top < stampOf op) : Recorded E (oplog ++ [row]) (log ++ [op]) (stampOf op) where
  «sealed» := List.rel_append hlog.sealed (.cons hrow .nil)
  increasing := by
    refine List.pairwise_append.2 ⟨hlog.increasing, List.pairwise_singleton _ _, ?_⟩
    intro a ha b hb
    rw [List.mem_singleton.1 hb]
    exact (hlog.below a ha).trans_lt htop
  below b hb := by
    rcases List.mem_append.1 hb with hb | hb
    · exact (hlog.below b hb).trans htop.le
    · exact (List.mem_singleton.1 hb) ▸ le_rfl

theorem exists_of_mem {α β : Type} {R : α → β → Prop} {l : List α} {l' : List β}
    (hall : List.Forall₂ R l l') {a : α} (ha : a ∈ l) : ∃ b ∈ l', R a b := by
  induction hall with
  | nil => cases ha
  | @cons a' b _ _ hab _ ih =>
    rcases List.mem_cons.1 ha with rfl | ha
    · exact ⟨b, List.mem_cons_self .., hab⟩
    · obtain ⟨b', hb', hab'⟩ := ih ha
      exact ⟨b', List.mem_cons_of_mem b hb', hab'⟩

theorem Recorded.fresh (hE : Sound E reread) (hlog : Recorded E oplog log top)
    (htop : top < stampOf op) : ∀ row ∈ oplog, row.opId ≠ encodeHex (E.opId op) := by
  intro row hrow heq
  obtain ⟨op', hop', hsealed⟩ := exists_of_mem hlog.sealed hrow
  obtain ⟨_, _, rfl, -⟩ := hsealed.columns
  obtain rfl := hE.opId (encodeHex_injective heq)
  exact absurd htop (not_lt.2 (hlog.below op' hop'))

theorem Recorded.ordered (hlog : Recorded E oplog log top) : oplog.Pairwise opOrder := by
  obtain ⟨hsealed, hincreasing, -⟩ := hlog
  induction hsealed with
  | nil => exact .nil
  | @cons row op rows log hrow hrest ih =>
    obtain ⟨hlater, hincreasing⟩ := List.pairwise_cons.1 hincreasing
    refine List.pairwise_cons.2 ⟨fun row' hrow' ↦ ?_, ih hincreasing⟩
    obtain ⟨op', hop', hsealed'⟩ := exists_of_mem hrest hrow'
    have hlt := stamp_lt.1 (hlater op' hop')
    have hwall := toInt_column hrow.wall
    have hwall' := toInt_column hsealed'.wall
    have hcounter := toInt_counterColumn op.hlc.counter
    have hcounter' := toInt_counterColumn op'.hlc.counter
    obtain ⟨_, _, rfl, -⟩ := hrow.columns
    obtain ⟨_, _, rfl, -⟩ := hsealed'.columns
    rcases hlt with hlt | ⟨heq, hlt⟩
    · refine .inl ?_
      rw [Int64.lt_iff_toInt_lt, opRow, opRow, hwall, hwall']
      omega
    · refine .inr ⟨congrArg UInt64.toInt64 heq, .inl ?_⟩
      rw [Int64.lt_iff_toInt_lt, opRow, opRow, hcounter, hcounter']
      omega

variable (E) in
def loggedOps (s : SyncDb) : Except SyncFault (List SyncOp) := do
  (← ops s none none).mapM (StoredOp.verify E)

theorem Recorded.loggedOps {s : SyncDb} (hlog : Recorded E s.oplog log top) :
    loggedOps E s = .ok log := by
  have hrows : ((s.oplog.filter fun row ↦ (none : Option String).all (row.ns = ·)).insertionSort
      opOrder) = s.oplog := by
    rw [List.filter_eq_self.2 (by simp), hlog.ordered.insertionSort_eq]
  have hread : ∃ stored, s.oplog.mapM mapOp = .ok stored ∧
      stored.mapM (StoredOp.verify E) = .ok log := by
    simp only [except_mapM_eq_ok]
    have hsealed := hlog.sealed
    generalize s.oplog = rows at hsealed
    clear hlog hrows
    induction hsealed with
    | nil => exact ⟨[], .nil, .nil⟩
    | cons hrow _ ih =>
      obtain ⟨stored, hmap, hverify⟩ := ih
      obtain ⟨_, _, rfl, henvelope⟩ := hrow.columns
      obtain ⟨first, hfirst, hfirst'⟩ := verify_opRow henvelope hrow.wall
      exact ⟨first :: stored, .cons hfirst hmap, .cons hfirst' hverify⟩
  obtain ⟨stored, hmap, hverify⟩ := hread
  rw [Record.loggedOps, ops, hrows, hmap]
  exact hverify

end Log

end SlipScan.Sync.Record
