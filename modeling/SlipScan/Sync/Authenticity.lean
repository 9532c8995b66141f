import SlipScan.Sync.Replay

namespace SlipScan.Sync.Authenticity

open Model.SyncMapping Model.SyncLog Foundation.Codec Foundation.Transaction Columns Rows Record
  Sealing PlainEngine Replay Relation

variable {E : Engine} {reread : FiniteFloat → Option FiniteFloat} {s : SyncDb}

theorem verifies_of_sealed {row : OpRow} {op : SyncOp} (hsealed : Sealed E row op) :
    ∃ stored, mapOp row = .ok stored ∧ stored.verify E = .ok op ∧ Authentic E row op := by
  obtain ⟨envelope, recordedAt, rfl, henvelope⟩ := hsealed.columns
  obtain ⟨stored, hread, hverify⟩ := verify_opRow
    henvelope hsealed.wall
  exact ⟨stored, hread, hverify, authentic_opRow hsealed.wall⟩

/-- A row that verifies has the columns of its payload when its stamp is read without loss. All
that this device seals is so. -/
theorem verified_authentic_iff (E : Engine) :
    (∀ row stored op, mapOp row = .ok stored → stored.verify E = .ok op →
      (Authentic E row op ↔ InRange row)) ∧
    ∀ reread, Sound E reread → ∀ s, Reachable E s → ∀ row ∈ s.oplog,
      ∃ stored op, mapOp row = .ok stored ∧ stored.verify E = .ok op ∧ Authentic E row op := by
  constructor
  · intro row stored op hread hverify
    exact authentic_iff_inRange hread hverify
  · intro reread hE s hs row hrow
    obtain ⟨log, hlog⟩ := synced_of_reachable hE hs
    obtain ⟨op, -, hsealed⟩ := exists_of_mem hlog.recorded.sealed hrow
    obtain ⟨stored, hread, hverify, hauthentic⟩ := verifies_of_sealed hsealed
    exact ⟨stored, op, hread, hverify, hauthentic⟩

section Counters

def plainOp : SyncOp where
  kind := plainEngine.opLwwSet
  ns := "book"
  target := lwwTarget "contacts" "contact"
  field := some lwwField
  value := some (.text "v")
  hlc := ⟨1767225600000, 1, plainEngine.publicKey ()⟩

def plainRow : OpRow :=
  opRow plainEngine plainOp (bytesOf (op.encode plainOp)) .local ""

def shiftedRow : OpRow :=
  { plainRow with hlcCounter := 2 ^ 32 + 1 }

theorem envelope_plainOp :
    plainEngine.verifyOpBytes (bytesOf (op.encode plainOp)) = .ok plainOp :=
  plain_sound.signature () plainOp _ rfl rfl

theorem verify_plainRow :
    ∃ stored, mapOp plainRow = .ok stored ∧ stored.verify plainEngine = .ok plainOp :=
  verify_opRow envelope_plainOp (by decide)

theorem verified_authentic_plain :
    (Authentic plainEngine plainRow plainOp ↔ InRange plainRow) ∧
    ∃ report s', «seal» plainEngine plainDevice january "" (mapped confidence) = .ok (report, s') ∧
      ∀ row ∈ s'.oplog, ∃ stored op, mapOp row = .ok stored ∧
        stored.verify plainEngine = .ok op ∧ Authentic plainEngine row op := by
  obtain ⟨hcolumns, hsealed⟩ := verified_authentic_iff plainEngine
  obtain ⟨stored, hread, hverify⟩ := verify_plainRow
  obtain ⟨report, s', hseal⟩ := seal_mapped
  have hreachable : Reachable plainEngine s' := by
    have hstep := Step.seal (E := plainEngine) (s := mapped confidence) plainDevice january ""
    rw [commit_of_ok hseal] at hstep
    exact (reachable_mapped confidence).tail hstep
  exact ⟨hcolumns _ _ _ hread hverify, report, s', hseal, hsealed _ plain_sound s' hreachable⟩

/-- The two rows are read alike. -/
theorem mapOp_shiftedRow : mapOp shiftedRow = mapOp plainRow := by
  have hcounter : (clamp shiftedRow.hlcCounter).toUInt32 = (clamp plainRow.hlcCounter).toUInt32 := by
    rfl
  rw [mapOp, mapOp, hcounter]
  rfl

/-- A row that verifies, with another counter than its payload. -/
theorem shifted_counter_verifies : ∃ stored, mapOp shiftedRow = .ok stored ∧
    stored.verify plainEngine = .ok plainOp ∧
      shiftedRow.hlcCounter.toInt ≠ plainOp.hlc.counter.toNat := by
  obtain ⟨stored, hread, hverify⟩ := verify_plainRow
  exact ⟨stored, mapOp_shiftedRow.trans hread, hverify, by decide⟩

end Counters

end SlipScan.Sync.Authenticity
