import SlipScan.Sync.PlainEngine
import Mathlib.Data.List.Dedup
import Mathlib.Order.Bounds.Basic

namespace SlipScan.Sync.VersionVector

open Model.SyncMapping Model.SyncLog Columns PlainEngine

structure Entry where
  op : SyncOp
  envelope : List UInt8
  origin : OpOrigin
  recordedAt : String

def logOf (E : Engine) (entries : List Entry) : SyncDb where
  oplog := entries.map fun e ↦ opRow E e.op e.envelope e.origin e.recordedAt

def stampsOf (entries : List Entry) (author : List UInt8) : Set (ℕ ×ₗ ℕ) :=
  {t | ∃ e ∈ entries, e.op.hlc.author = author ∧ t = stamp e.op.hlc.wall e.op.hlc.counter}

section Lines

variable {E : Engine} {entries : List Entry} {author : List UInt8} {line : VersionLine}

instance lawfulOrderMax_int64 : Std.LawfulOrderMax Int64 :=
  .of_max_le_iff
    (fun a b c ↦ by
      have hmax : max a b = if a ≤ b then b else a := rfl
      rw [hmax]
      simp only [Int64.le_iff_toInt_le]
      split <;> omega)
    (fun a b ↦ by
      have hmax : max a b = if a ≤ b then b else a := rfl
      rw [hmax]
      split <;> simp)

theorem rows_of_author : (logOf E entries).oplog.filter (fun row ↦ row.author = encodeHex author) =
    (entries.filter fun e ↦ e.op.hlc.author = author).map fun e ↦
      opRow E e.op e.envelope e.origin e.recordedAt := by
  rw [logOf, List.filter_map]
  refine congrArg _ (List.filter_congr fun e _ ↦ ?_)
  simp [opRow, encodeHex_injective.eq_iff]

theorem maxColumn_eq_some {column : OpRow → Int64} {m : Int64} :
    maxColumn column ((logOf E entries).oplog.filter fun row ↦ row.author = encodeHex author) =
      some m ↔
    (∃ e ∈ entries, e.op.hlc.author = author ∧
        column (opRow E e.op e.envelope e.origin e.recordedAt) = m) ∧
      ∀ e ∈ entries, e.op.hlc.author = author →
        column (opRow E e.op e.envelope e.origin e.recordedAt) ≤ m := by
  rw [maxColumn, rows_of_author, List.max?_eq_some_iff]
  simp only [List.map_map, List.mem_map, List.mem_filter, Function.comp_apply, decide_eq_true_eq,
    forall_exists_index, and_imp, and_assoc]
  refine and_congr_right fun _ ↦ ⟨fun hall e he hauthor ↦ hall _ e he hauthor rfl, ?_⟩
  rintro hall _ e he hauthor rfl
  exact hall e he hauthor

/-- A line has the greatest wall, as signed integers are compared, and the greatest counter. -/
theorem versionLine_eq_some
    (hline : versionLine (logOf E entries) (encodeHex author) = some line) :
    line.author = encodeHex author ∧
      (∃ e ∈ entries, e.op.hlc.author = author ∧ e.op.hlc.wall = line.wall) ∧
      (∀ e ∈ entries, e.op.hlc.author = author →
        e.op.hlc.wall.toInt64.toInt ≤ line.wall.toInt64.toInt) ∧
      (∃ e ∈ entries, e.op.hlc.author = author ∧ e.op.hlc.counter = line.counter) ∧
      ∀ e ∈ entries, e.op.hlc.author = author →
        e.op.hlc.counter.toNat ≤ line.counter.toNat := by
  simp only [versionLine, Option.bind_eq_bind, Option.bind_eq_some_iff, maxColumn_eq_some,
    Option.pure_def, Option.some.injEq] at hline
  obtain ⟨_, ⟨⟨e, he, hauthor, rfl⟩, hwalls⟩, _, ⟨⟨f, hf, hauthor', rfl⟩, hcounters⟩, rfl⟩ := hline
  have hcounter : (opRow E f.op f.envelope f.origin f.recordedAt).hlcCounter.toUInt64.toUInt32 =
      f.op.hlc.counter := by
    simp [opRow, counterColumn]
  refine ⟨rfl, ⟨e, he, hauthor, by simp [opRow]⟩, fun d hd hda ↦ ?_, ⟨f, hf, hauthor', hcounter.symm⟩,
    fun d hd hda ↦ ?_⟩
  · simpa [opRow, Int64.le_iff_toInt_le] using hwalls d hd hda
  · have hle := hcounters d hd hda
    rw [Int64.le_iff_toInt_le] at hle
    simp only [opRow, toInt_counterColumn, Int.ofNat_le] at hle
    rwa [hcounter]

/-- One operation of the author has both the greatest wall and the greatest counter, and the
author's walls are all below 2^63 or all from there on. -/
structure OneGreatest (entries : List Entry) (author : List UInt8) : Prop where
  both : ∃ e ∈ entries, e.op.hlc.author = author ∧ ∀ f ∈ entries, f.op.hlc.author = author →
    f.op.hlc.wall ≤ e.op.hlc.wall ∧ f.op.hlc.counter ≤ e.op.hlc.counter
  side : (∀ e ∈ entries, e.op.hlc.author = author → e.op.hlc.wall.toNat < 2 ^ 63) ∨
    ∀ e ∈ entries, e.op.hlc.author = author → 2 ^ 63 ≤ e.op.hlc.wall.toNat

/-- The line is exact when one operation is greatest in both columns. -/
theorem isGreatest_line_iff
    (hline : versionLine (logOf E entries) (encodeHex author) = some line) :
    IsGreatest (stampsOf entries author) (stamp line.wall line.counter) ↔
      OneGreatest entries author := by
  obtain ⟨-, ⟨e₁, he₁, ha₁, hw₁⟩, hwalls, ⟨e₂, he₂, ha₂, hc₂⟩, hcounters⟩ := versionLine_eq_some hline
  simp only [toInt_eq, UInt64.toUInt64_toInt64] at hwalls
  constructor
  · rintro ⟨⟨e, he, ha, hstamp⟩, hupper⟩
    have hle : ∀ f ∈ entries, f.op.hlc.author = author →
        f.op.hlc.wall.toNat ≤ line.wall.toNat := by
      intro f hf hfa
      rcases stamp_le.1 (hupper ⟨f, hf, hfa, rfl⟩) with hlt | ⟨heq, -⟩
      · exact hlt.le
      · exact heq ▸ le_rfl
    have hpair := congrArg ofLex hstamp
    simp only [stamp, ofLex_toLex, Prod.mk.injEq, UInt64.toNat_inj, UInt32.toNat_inj] at hpair
    obtain ⟨hwall, hcounter⟩ := hpair
    refine ⟨⟨e, he, ha, fun f hf hfa ↦ ⟨?_, ?_⟩⟩, ?_⟩
    · rw [UInt64.le_iff_toNat_le, ← hwall]
      exact hle f hf hfa
    · rw [UInt32.le_iff_toNat_le, ← hcounter]
      exact hcounters f hf hfa
    · by_cases hbig : line.wall.toNat < 2 ^ 63
      · exact .inl fun f hf hfa ↦ (hle f hf hfa).trans_lt hbig
      · refine .inr fun f hf hfa ↦ ?_
        have hsigned := hwalls f hf hfa
        have hlt := line.wall.toNat_lt
        rw [if_neg hbig] at hsigned
        split at hsigned <;> omega
  · intro hone
    obtain ⟨e, he, ha, hmax⟩ := hone.both
    simp only [UInt64.le_iff_toNat_le, UInt32.le_iff_toNat_le] at hmax
    have hwall : e.op.hlc.wall = line.wall := by
      have hle := (hmax e₁ he₁ ha₁).1
      have hsigned := hwalls e he ha
      rw [hw₁] at hle
      rw [← UInt64.toNat_inj]
      rcases hone.side with hsmall | hlarge
      · have hse := hsmall e he ha
        have hs₁ := hsmall e₁ he₁ ha₁
        rw [hw₁] at hs₁
        rw [if_pos hse, if_pos hs₁] at hsigned
        omega
      · have hse := hlarge e he ha
        have hs₁ := hlarge e₁ he₁ ha₁
        rw [hw₁] at hs₁
        rw [if_neg (not_lt.2 hse), if_neg (not_lt.2 hs₁)] at hsigned
        omega
    have hcounter : e.op.hlc.counter = line.counter := by
      have hle := (hmax e₂ he₂ ha₂).2
      rw [hc₂] at hle
      exact UInt32.toNat_inj.1 (le_antisymm (hcounters e he ha) hle)
    refine ⟨⟨e, he, ha, by rw [hwall, hcounter]⟩, ?_⟩
    rintro _ ⟨f, hf, hfa, rfl⟩
    obtain ⟨hfw, hfc⟩ := hmax f hf hfa
    rw [← hwall, ← hcounter, stamp_le, ← UInt64.toNat_inj]
    omega

theorem mem_versionVector : line ∈ versionVector (logOf E entries) ↔
    ∃ author, (stampsOf entries author).Nonempty ∧
      versionLine (logOf E entries) (encodeHex author) = some line := by
  simp only [versionVector, List.mem_filterMap, List.mem_insertionSort, List.mem_dedup, logOf,
    List.map_map, List.mem_map, Function.comp_apply]
  constructor
  · rintro ⟨_, ⟨e, he, rfl⟩, hline⟩
    exact ⟨e.op.hlc.author, ⟨_, e, he, rfl, rfl⟩, hline⟩
  · rintro ⟨author, ⟨_, e, he, rfl, -⟩, hline⟩
    exact ⟨_, ⟨e, he, rfl⟩, hline⟩

theorem exists_versionLine (hauthor : (stampsOf entries author).Nonempty) :
    ∃ line, versionLine (logOf E entries) (encodeHex author) = some line := by
  obtain ⟨_, e, he, ha, -⟩ := hauthor
  have hne : ∀ column : OpRow → Int64, ∃ m, maxColumn column
      ((logOf E entries).oplog.filter fun row ↦ row.author = encodeHex author) = some m := by
    intro column
    rw [maxColumn, ← Option.isSome_iff_exists, List.isSome_max?_iff, rows_of_author]
    simp only [ne_eq, List.map_eq_nil_iff, List.filter_eq_nil_iff, decide_eq_true_eq]
    exact fun hnil ↦ hnil e he ha
  obtain ⟨wall, hwall⟩ := hne OpRow.hlcWall
  obtain ⟨counter, hcounter⟩ := hne OpRow.hlcCounter
  exact ⟨_, by rw [versionLine, hwall]; simp only [Option.bind_eq_bind, Option.bind_some, hcounter]; rfl⟩

end Lines

/-- The version vector has a line for each author of the log. All its stamps are the greatest of
their authors when every author has one operation that is greatest in both columns. -/
theorem version_vector_exact_iff (E : Engine) (entries : List Entry) :
    (∀ author, (∃ line ∈ versionVector (logOf E entries), line.author = encodeHex author) ↔
        (stampsOf entries author).Nonempty) ∧
      ((∀ line ∈ versionVector (logOf E entries), ∀ author, line.author = encodeHex author →
          IsGreatest (stampsOf entries author) (stamp line.wall line.counter)) ↔
        ∀ author, (stampsOf entries author).Nonempty → OneGreatest entries author) := by
  have hauthor : ∀ {author line}, line ∈ versionVector (logOf E entries) →
      line.author = encodeHex author → (stampsOf entries author).Nonempty ∧
        versionLine (logOf E entries) (encodeHex author) = some line := by
    intro author line hmem hline
    obtain ⟨author', hstored, hline'⟩ := mem_versionVector.1 hmem
    have heq : author' = author :=
      encodeHex_injective ((versionLine_eq_some hline').1.symm.trans hline)
    exact heq ▸ ⟨hstored, hline'⟩
  have hreported : ∀ {author}, (stampsOf entries author).Nonempty →
      ∃ line ∈ versionVector (logOf E entries), line.author = encodeHex author ∧
        versionLine (logOf E entries) (encodeHex author) = some line := by
    intro author hstored
    obtain ⟨line, hline⟩ := exists_versionLine (E := E) hstored
    exact ⟨line, mem_versionVector.2 ⟨author, hstored, hline⟩, (versionLine_eq_some hline).1, hline⟩
  refine ⟨fun author ↦ ⟨?_, fun hstored ↦ ?_⟩, fun hexact author hstored ↦ ?_,
    fun hone line hmem author hline ↦ ?_⟩
  · rintro ⟨line, hmem, hline⟩
    exact (hauthor hmem hline).1
  · obtain ⟨line, hmem, hline, -⟩ := hreported hstored
    exact ⟨line, hmem, hline⟩
  · obtain ⟨line, hmem, hline, hline'⟩ := hreported hstored
    exact (isGreatest_line_iff hline').1 (hexact line hmem author hline)
  · obtain ⟨hstored, hline'⟩ := hauthor hmem hline
    exact (isGreatest_line_iff hline').2 (hone author hstored)

section Resets

def plainAuthor : List UInt8 :=
  plainEngine.publicKey ()

def stamped (wall : UInt64) (counter : UInt32) : Entry where
  op := {
    kind := plainEngine.opLwwSet
    ns := "book"
    target := lwwTarget "contacts" "contact"
    field := some lwwField
    value := some (.text "v")
    hlc := ⟨wall, counter, plainAuthor⟩ }
  envelope := []
  origin := .local
  recordedAt := ""

/-- The counter starts again when the clock moves on, and the version vector reports a stamp that
nobody issued. -/
theorem reset_reports_unissued_stamp :
    ⟨encodeHex plainAuthor, 2, 5⟩ ∈ versionVector (logOf plainEngine [stamped 1 5, stamped 2 0]) ∧
      stamp 2 5 ∉ stampsOf [stamped 1 5, stamped 2 0] plainAuthor := by
  have hline : versionLine (logOf plainEngine [stamped 1 5, stamped 2 0]) (encodeHex plainAuthor) =
      some ⟨encodeHex plainAuthor, 2, 5⟩ := rfl
  constructor
  · refine mem_versionVector.2 ⟨plainAuthor, ?_, hline⟩
    exact ⟨stamp 1 5, stamped 1 5, List.mem_cons_self .., rfl, rfl⟩
  · rintro ⟨e, he, -, hstamp⟩
    rcases List.mem_pair.1 he with rfl | rfl <;> cases hstamp

end Resets

end SlipScan.Sync.VersionVector
