import SlipScan.Model.SyncLog
import Mathlib.Data.Prod.Lex

namespace SlipScan.Sync.Columns

open Model.SyncMapping Model.SyncLog Foundation.Transaction

section Integers

theorem toInt_eq (i : Int64) : i.toInt =
    if i.toUInt64.toNat < 2 ^ 63 then (i.toUInt64.toNat : ℤ) else i.toUInt64.toNat - 2 ^ 64 := by
  have hbits := BitVec.toInt_eq_toNat_cond i.toBitVec
  have hlt : 2 * i.toBitVec.toNat < 2 ^ 64 ↔ i.toUInt64.toNat < 2 ^ 63 := by
    rw [← Int64.toNat_toBitVec]
    omega
  rw [← Int64.toInt_toBitVec, hbits, Int64.toNat_toBitVec]
  simp only [← Int64.toNat_toBitVec] at hlt ⊢
  simp only [hlt]
  norm_cast

theorem neg_iff {i : Int64} : i < 0 ↔ i.toInt < 0 :=
  Int64.lt_iff_toInt_lt

theorem toInt_column {w : UInt64} (hw : w.toNat < 2 ^ 63) : w.toInt64.toInt = w.toNat := by
  rw [toInt_eq, UInt64.toUInt64_toInt64, if_pos hw]

theorem toInt_counterColumn (c : UInt32) : (counterColumn c).toInt = c.toNat := by
  have hlt := c.toNat_lt
  rw [counterColumn, toInt_column]
  · simp
  · simp only [UInt32.toNat_toUInt64]
    omega

theorem clamp_toNat (i : Int64) : (clamp i).toNat = i.toInt.toNat := by
  have htoInt := toInt_eq i
  have hlt := i.toUInt64.toNat_lt
  by_cases hneg : i < 0
  · have hnonpos := neg_iff.1 hneg
    rw [clamp, if_pos hneg, UInt64.toNat_zero]
    omega
  · have hnonneg := mt neg_iff.2 hneg
    rw [clamp, if_neg hneg]
    split at htoInt <;> omega

theorem clamp_eq_iff {i : Int64} {w : UInt64} : clamp i = w ↔ i.toInt.toNat = w.toNat := by
  rw [← UInt64.toNat_inj, clamp_toNat]

theorem clamp_column {w : UInt64} (hw : w.toNat < 2 ^ 63) : clamp w.toInt64 = w := by
  rw [clamp_eq_iff, toInt_column hw, Int.toNat_natCast]

theorem clampCounter_eq_iff {i : Int64} {c : UInt32} :
    (clamp i).toUInt32 = c ↔ i.toInt.toNat % 2 ^ 32 = c.toNat := by
  rw [← UInt32.toNat_inj, UInt64.toNat_toUInt32, clamp_toNat]

theorem clamp_counterColumn (c : UInt32) : (clamp (counterColumn c)).toUInt32 = c := by
  have hlt := c.toNat_lt
  rw [clampCounter_eq_iff, toInt_counterColumn, Int.toNat_natCast]
  omega

theorem kindOfColumn_eq_ok {i : Int64} {k : UInt8} :
    kindOfColumn i = .ok k ↔ i.toInt = k.toNat := by
  have hlt := k.toNat_lt
  have htoInt := toInt_eq i
  have hrange : 0 ≤ i ∧ i ≤ 255 ↔ 0 ≤ i.toInt ∧ i.toInt ≤ 255 := by
    rw [Int64.le_iff_toInt_le, Int64.le_iff_toInt_le]
    rfl
  rw [kindOfColumn]
  split
  · rename_i hin
    rw [hrange] at hin
    rw [Except.ok.injEq, ← UInt8.toNat_inj, UInt64.toNat_toUInt8]
    split at htoInt <;> omega
  · rename_i hout
    rw [hrange] at hout
    simp only [reduceCtorEq, false_iff]
    omega

theorem toInt_kindColumn (k : UInt8) : k.toUInt64.toInt64.toInt = k.toNat := by
  have hlt := k.toNat_lt
  rw [toInt_column]
  · simp
  · simp only [UInt8.toNat_toUInt64]
    omega

end Integers

section Hex

theorem hexDigit_inj : ∀ m n : Fin 16,
    hexDigit (UInt8.ofNat m) = hexDigit (UInt8.ofNat n) → m = n := by
  decide

theorem hexDigit_inj_of_lt {m n : UInt8} (hm : m.toNat < 16) (hn : n.toNat < 16)
    (heq : hexDigit m = hexDigit n) : m = n := by
  have hfin := hexDigit_inj ⟨m.toNat, hm⟩ ⟨n.toNat, hn⟩
  simp only [UInt8.ofNat_toNat, Fin.mk.injEq] at hfin
  exact UInt8.toNat_inj.1 (hfin heq)

theorem byte_inj {b c : UInt8} (hhigh : hexDigit (b / 16) = hexDigit (c / 16))
    (hlow : hexDigit (b % 16) = hexDigit (c % 16)) : b = c := by
  have hb := b.toNat_lt
  have hc := c.toNat_lt
  have hdiv := hexDigit_inj_of_lt (by rw [UInt8.toNat_div]; simp; omega)
    (by rw [UInt8.toNat_div]; simp; omega) hhigh
  have hmod := hexDigit_inj_of_lt (by rw [UInt8.toNat_mod]; simp; omega)
    (by rw [UInt8.toNat_mod]; simp; omega) hlow
  rw [← UInt8.toNat_inj, UInt8.toNat_div, UInt8.toNat_div] at hdiv
  rw [← UInt8.toNat_inj, UInt8.toNat_mod, UInt8.toNat_mod] at hmod
  have hsixteen : (16 : UInt8).toNat = 16 := rfl
  rw [hsixteen] at hdiv hmod
  exact UInt8.toNat_inj.1 (by omega)

theorem encodeHex_injective : Function.Injective encodeHex := by
  intro a b heq
  have hlist := String.ofList_injective heq
  induction a generalizing b with
  | nil =>
    cases b with
    | nil => rfl
    | cons c b => simp at hlist
  | cons c a ih =>
    cases b with
    | nil => simp at hlist
    | cons d b =>
      simp only [List.flatMap_cons, List.cons_append, List.nil_append, List.cons.injEq] at hlist
      obtain ⟨hhigh, hlow, hrest⟩ := hlist
      rw [byte_inj hhigh hlow, ih (congrArg String.ofList hrest) hrest]

end Hex

section Stamps

/-- Stamps are compared by their walls, and by their counters between equal walls. -/
def stamp (wall : UInt64) (counter : UInt32) : ℕ ×ₗ ℕ :=
  toLex (wall.toNat, counter.toNat)

theorem stamp_le {wall wall' : UInt64} {counter counter' : UInt32} :
    stamp wall counter ≤ stamp wall' counter' ↔
      wall.toNat < wall'.toNat ∨ wall = wall' ∧ counter.toNat ≤ counter'.toNat := by
  rw [stamp, stamp, Prod.Lex.toLex_le_toLex, UInt64.toNat_inj]

theorem stamp_lt {wall wall' : UInt64} {counter counter' : UInt32} :
    stamp wall counter < stamp wall' counter' ↔
      wall.toNat < wall'.toNat ∨ wall = wall' ∧ counter.toNat < counter'.toNat := by
  rw [stamp, stamp, Prod.Lex.toLex_lt_toLex, UInt64.toNat_inj]

def stampOf (op : SyncOp) : ℕ ×ₗ ℕ :=
  stamp op.hlc.wall op.hlc.counter

end Stamps

section Verification

variable {E : Engine} {row : OpRow} {stored : StoredOp} {op : SyncOp}

theorem checkTextColumn_eq_ok {opId field text text' : String} :
    checkTextColumn opId field text text' = .ok () ↔ text = text' := by
  rw [checkTextColumn, except_ite_error_eq_ok]
  simp

theorem checkNumberColumn_eq_ok {opId field : String} {n n' : UInt64} :
    checkNumberColumn opId field n n' = .ok () ↔ n = n' := by
  rw [checkNumberColumn, except_ite_error_eq_ok]
  simp

structure Agrees (E : Engine) (stored : StoredOp) (op : SyncOp) : Prop where
  opId : encodeHex (E.opId op) = stored.opId
  ns : stored.ns = op.ns
  target : stored.target = op.target
  author : stored.author = encodeHex op.hlc.author
  kind : stored.kind = op.kind
  wall : stored.hlcWall = op.hlc.wall
  counter : stored.hlcCounter = op.hlc.counter

theorem verify_eq_ok : stored.verify E = .ok op ↔
    E.verifyOpBytes stored.cose = .ok op ∧ Agrees E stored op := by
  rw [StoredOp.verify]
  cases hbytes : E.verifyOpBytes stored.cose with
  | error err => simp
  | ok signed =>
    by_cases hid : encodeHex (E.opId signed) = stored.opId
    · simp only [hid, ne_eq, not_true_eq_false, if_false, except_bind_eq_ok, except_pure_eq_ok,
        Except.ok.injEq, exists_eq_left', exists_unit, checkTextColumn_eq_ok,
        checkNumberColumn_eq_ok, UInt8.toUInt64_inj, UInt32.toUInt64_inj]
      constructor
      · rintro ⟨hns, htarget, hauthor, hkind, hwall, hcounter, rfl⟩
        exact ⟨rfl, hid, hns, htarget, hauthor, hkind, hwall, hcounter⟩
      · rintro ⟨rfl, hagrees⟩
        exact ⟨hagrees.ns, hagrees.target, hagrees.author, hagrees.kind, hagrees.wall,
          hagrees.counter, rfl⟩
    · simp only [ne_eq, hid, not_false_eq_true, if_true, except_bind_eq_ok, Except.ok.injEq,
        exists_eq_left']
      constructor
      · rintro ⟨_, hthrow, -⟩
        cases hthrow
      · rintro ⟨rfl, hagrees⟩
        exact absurd hagrees.opId hid

theorem mapOp_eq_ok : mapOp row = .ok stored ↔ ∃ kind origin,
    kindOfColumn row.kind = .ok kind ∧ OpOrigin.parse row.origin = .ok origin ∧
      stored = ⟨row.opId, row.ns, kind, row.target, row.author, clamp row.hlcWall,
        (clamp row.hlcCounter).toUInt32, row.cose, origin, row.recordedAt⟩ := by
  simp only [mapOp, except_bind_eq_ok, except_pure_eq_ok]
  constructor
  · rintro ⟨kind, hkind, origin, horigin, rfl⟩
    exact ⟨kind, origin, hkind, horigin, rfl⟩
  · rintro ⟨kind, origin, hkind, horigin, rfl⟩
    exact ⟨kind, hkind, origin, horigin, rfl⟩

/-- Every column of the row is what the payload says. -/
structure Authentic (E : Engine) (row : OpRow) (op : SyncOp) : Prop where
  opId : row.opId = encodeHex (E.opId op)
  ns : row.ns = op.ns
  kind : row.kind.toInt = op.kind.toNat
  target : row.target = op.target
  author : row.author = encodeHex op.hlc.author
  wall : row.hlcWall.toInt = op.hlc.wall.toNat
  counter : row.hlcCounter.toInt = op.hlc.counter.toNat

/-- The row is read without loss. -/
structure InRange (row : OpRow) : Prop where
  wall : 0 ≤ row.hlcWall.toInt
  counter : 0 ≤ row.hlcCounter.toInt ∧ row.hlcCounter.toInt < 2 ^ 32

theorem authentic_iff_inRange (hread : mapOp row = .ok stored) (hverify : stored.verify E = .ok op) :
    Authentic E row op ↔ InRange row := by
  obtain ⟨kind, origin, hkind, -, rfl⟩ := mapOp_eq_ok.1 hread
  obtain ⟨-, hagrees⟩ := verify_eq_ok.1 hverify
  have hwall := clamp_eq_iff.1 hagrees.wall
  have hcounter := clampCounter_eq_iff.1 hagrees.counter
  have hlt := op.hlc.counter.toNat_lt
  constructor
  · intro hauthentic
    have hw := hauthentic.wall
    have hc := hauthentic.counter
    exact ⟨by omega, by omega, by omega⟩
  · intro hrange
    have hw := hrange.wall
    obtain ⟨hc, hc'⟩ := hrange.counter
    have hk := kindOfColumn_eq_ok.1 hkind
    have hkop : kind = op.kind := hagrees.kind
    exact ⟨hagrees.opId.symm, hagrees.ns, hkop ▸ hk, hagrees.target, hagrees.author, by omega,
      by omega⟩

/-- The row of an operation reads back as that operation. -/
theorem verify_opRow {envelope : List UInt8} {origin : OpOrigin} {recordedAt : String}
    (henvelope : E.verifyOpBytes envelope = .ok op) (hwall : op.hlc.wall.toNat < 2 ^ 63) :
    ∃ stored, mapOp (opRow E op envelope origin recordedAt) = .ok stored ∧
      stored.verify E = .ok op := by
  have hkind : kindOfColumn op.kind.toUInt64.toInt64 = .ok op.kind :=
    kindOfColumn_eq_ok.2 (toInt_kindColumn op.kind)
  have horigin : OpOrigin.parse origin.asStr = .ok origin := by
    cases origin <;> rfl
  refine ⟨_, mapOp_eq_ok.2 ⟨op.kind, origin, hkind, horigin, rfl⟩, verify_eq_ok.2 ⟨henvelope, ?_⟩⟩
  exact ⟨rfl, rfl, rfl, rfl, rfl, clamp_column hwall, clamp_counterColumn op.hlc.counter⟩

theorem authentic_opRow {envelope : List UInt8} {origin : OpOrigin} {recordedAt : String}
    (hwall : op.hlc.wall.toNat < 2 ^ 63) :
    Authentic E (opRow E op envelope origin recordedAt) op :=
  ⟨rfl, rfl, toInt_kindColumn op.kind, rfl, rfl, toInt_column hwall,
    toInt_counterColumn op.hlc.counter⟩

end Verification

end SlipScan.Sync.Columns
