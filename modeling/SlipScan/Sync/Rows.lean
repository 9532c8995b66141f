import SlipScan.Model.SyncLog
import Mathlib.Data.List.TakeDrop

namespace SlipScan.Sync.Rows

open Model.SyncMapping Model.SyncLog Foundation.Transaction

section Targets

variable {table id : String}

theorem no_slash : ∀ table ∈ replicatedTables, '/' ∉ table.toList := by
  decide

theorem nonempty_table : ∀ table ∈ replicatedTables, table.isEmpty = false := by
  decide

theorem span_append {p : Char → Bool} {c : Char} (before after : List Char)
    (hbefore : ∀ b ∈ before, p b) (hc : ¬p c) :
    (before ++ c :: after).span p = (before, c :: after) := by
  rw [List.span_eq_takeWhile_dropWhile, List.takeWhile_append_of_pos hbefore,
    List.dropWhile_append_of_pos hbefore]
  simp [hc]

theorem splitOnce_append {before after : String} (hbefore : '/' ∉ before.toList) :
    splitOnce (before ++ "/" ++ after) '/' = some (before, after) := by
  have hlist : (before ++ "/" ++ after).toList = before.toList ++ '/' :: after.toList := by
    simp
  have hspan := span_append (p := (· ≠ '/')) (c := '/') before.toList after.toList
    (fun b hb ↦ decide_eq_true fun heq ↦ hbefore (heq ▸ hb)) (by simp)
  rw [splitOnce, hlist, hspan]
  simp

/-- The address of a row reads back as that row. -/
theorem parseLwwTarget_lwwTarget (htable : table ∈ replicatedTables) (hid : id ≠ "") :
    parseLwwTarget (lwwTarget table id) = some (table, id) := by
  have hsplit : splitOnce (lwwTarget table id) '/' = some (table, id) :=
    splitOnce_append (no_slash table htable)
  have hempty : ¬(table.isEmpty ∨ id.isEmpty) := by
    rw [nonempty_table table htable]
    simpa using hid
  rw [parseLwwTarget, hsplit, Option.bind_eq_bind, Option.bind_some]
  exact if_neg hempty

theorem lwwTarget_inj {table' id' : String} (htable : table ∈ replicatedTables)
    (htable' : table' ∈ replicatedTables) (hid : id ≠ "") (hid' : id' ≠ "")
    (heq : lwwTarget table id = lwwTarget table' id') : (table, id) = (table', id') := by
  have hparse := parseLwwTarget_lwwTarget htable hid
  rw [heq, parseLwwTarget_lwwTarget htable' hid'] at hparse
  exact (Option.some.inj hparse).symm

theorem isReplicated_iff : isReplicated table ↔ table ∈ replicatedTables := by
  simp [isReplicated, isLedger, replicatedTables, or_comm]

theorem not_ledger_of_lww : ∀ table ∈ lwwTables, isLedger table = false := by
  decide

end Targets

section Objects

variable {object : JsonObject} {key : String} {value : Scalar} {e : String × Scalar}

theorem mem_insertEntry_iff {entries : List (String × Scalar)}
    (hs : entries.Pairwise fun a b ↦ a.1 < b.1) :
    e ∈ insertEntry key value entries ↔ e = (key, value) ∨ e ∈ entries ∧ e.1 ≠ key := by
  induction entries with
  | nil => simp [insertEntry]
  | cons kv entries ih =>
    obtain ⟨hlt, hs⟩ := List.pairwise_cons.1 hs
    rw [insertEntry]
    split_ifs with hbefore heq
    · have hne : ∀ e ∈ kv :: entries, e.1 ≠ key := by
        intro e he
        rcases List.mem_cons.1 he with rfl | he
        · exact hbefore.ne'
        · exact (hbefore.trans (hlt e he)).ne'
      rw [List.mem_cons]
      exact or_congr_right ⟨fun he ↦ ⟨he, hne e he⟩, And.left⟩
    · have hne : ∀ e ∈ entries, e.1 ≠ key := fun e he ↦ heq ▸ (hlt e he).ne'
      rw [List.mem_cons, List.mem_cons, or_and_right]
      constructor
      · exact Or.imp_right fun he ↦ .inr ⟨he, hne e he⟩
      · rintro (rfl | ⟨rfl, habsurd⟩ | ⟨he, -⟩)
        · exact .inl rfl
        · exact absurd heq.symm habsurd
        · exact .inr he
    · rw [List.mem_cons, List.mem_cons, ih hs]
      constructor
      · rintro (rfl | rfl | ⟨he, hne⟩)
        · exact .inr ⟨.inl rfl, Ne.symm heq⟩
        · exact .inl rfl
        · exact .inr ⟨.inr he, hne⟩
      · rintro (rfl | ⟨rfl | he, hne⟩)
        · exact .inr (.inl rfl)
        · exact .inl rfl
        · exact .inr (.inr ⟨he, hne⟩)

theorem mem_insert : e ∈ (object.insert key value).entries ↔
    e = (key, value) ∨ e ∈ object.entries ∧ e.1 ≠ key :=
  mem_insertEntry_iff object.sorted

theorem value_unique {value' : Scalar} (hv : (key, value) ∈ object.entries)
    (hv' : (key, value') ∈ object.entries) : value = value' := by
  have hnodup : (object.entries.map Prod.fst).Nodup :=
    List.Pairwise.map _ (fun _ _ hlt ↦ hlt.ne) object.sorted
  exact (Prod.mk.inj (List.inj_on_of_nodup_map hnodup hv hv' rfl)).2

theorem mem_object_of_cells {table : String} {cells : List (String × SqlValue)}
    (hcolumns : (cells.map Prod.fst).Nodup) {start : JsonObject}
    (hobject : cells.foldlM (fun object (column, value) ↦ do
      return object.insert column (← sqlToJson table column value)) start = .ok object) :
    e ∈ object.entries ↔ (∃ cell, (e.1, cell) ∈ cells ∧ sqlToJson table e.1 cell = .ok e.2) ∨
      e ∈ start.entries ∧ e.1 ∉ cells.map Prod.fst := by
  induction cells generalizing start with
  | nil =>
    obtain rfl := Except.ok.inj hobject
    simp
  | cons c cells ih =>
    obtain ⟨column, cell⟩ := c
    obtain ⟨hfresh, hcolumns⟩ := List.nodup_cons.1 hcolumns
    simp only [List.foldlM_cons, except_bind_eq_ok, except_pure_eq_ok] at hobject
    obtain ⟨_, ⟨value, hvalue, rfl⟩, hrest⟩ := hobject
    rw [ih hcolumns hrest, mem_insert]
    obtain ⟨key, v⟩ := e
    simp only [List.mem_cons, Prod.mk.injEq, List.map_cons, not_or]
    constructor
    · rintro (⟨cell', hcell, hv⟩ | ⟨⟨rfl, rfl⟩ | ⟨he, hne⟩, hnew⟩)
      · exact .inl ⟨cell', .inr hcell, hv⟩
      · exact .inl ⟨cell, .inl ⟨rfl, rfl⟩, hvalue⟩
      · exact .inr ⟨he, hne, hnew⟩
    · rintro (⟨cell', ⟨rfl, rfl⟩ | hcell, hv⟩ | ⟨he, hne, hnew⟩)
      · refine .inr ⟨.inl ⟨rfl, ?_⟩, hfresh⟩
        exact Except.ok.inj (hv.symm.trans hvalue)
      · exact .inl ⟨cell', hcell, hv⟩
      · exact .inr ⟨.inr ⟨he, hne⟩, hnew⟩

theorem mem_rowObject {row : Row} (hobject : rowObject row = .ok object) :
    e ∈ object.entries ↔
      ∃ cell, (e.1, cell) ∈ row.cells ∧ sqlToJson row.table e.1 cell = .ok e.2 := by
  have hmem := mem_object_of_cells (e := e) row.columns hobject
  simpa using hmem

theorem id_mem_rowObject {row : Row} (hobject : rowObject row = .ok object) :
    ("id", .string row.id) ∈ object.entries :=
  (mem_rowObject hobject).2 ⟨_, row.idCell, rfl⟩

end Objects

section Reread

variable (reread : FiniteFloat → Option FiniteFloat)

/-- A value as the JSON library reads it back, `reread` being what becomes of a number that it
wrote with a decimal point. -/
def rereadScalar : Scalar → Option Scalar
  | .float x => (reread x).map .float
  | value => some value

def rereadEntries (entries : List (String × Scalar)) : Option (List (String × Scalar)) :=
  entries.mapM fun (key, value) ↦ (rereadScalar reread value).map (key, ·)

variable {reread} {entries entries' : List (String × Scalar)} {object object' : JsonObject}

theorem rereadEntries_eq_some : rereadEntries reread entries = some entries' ↔
    List.Forall₂ (fun e e' ↦ e'.1 = e.1 ∧ rereadScalar reread e.2 = some e'.2) entries entries' := by
  induction entries generalizing entries' with
  | nil => simp [rereadEntries, eq_comm]
  | cons e entries ih =>
    rw [List.forall₂_cons_left_iff]
    simp only [rereadEntries, List.mapM_cons, Option.bind_eq_bind, Option.bind_eq_some_iff,
      Option.map_eq_some_iff, Option.pure_def, Option.some.injEq] at ih ⊢
    constructor
    · rintro ⟨_, ⟨value, hvalue, rfl⟩, rest, hrest, rfl⟩
      exact ⟨(e.1, value), rest, ⟨rfl, hvalue⟩, ih.1 hrest, rfl⟩
    · rintro ⟨⟨key, value⟩, rest, ⟨rfl, hvalue⟩, hrest, rfl⟩
      exact ⟨_, ⟨value, hvalue, rfl⟩, rest, ih.2 hrest, rfl⟩

theorem rereadEntries_sorted (hs : entries.Pairwise fun a b ↦ a.1 < b.1)
    (hentries : rereadEntries reread entries = some entries') :
    entries'.Pairwise fun a b ↦ a.1 < b.1 := by
  have hall := rereadEntries_eq_some.1 hentries
  have hkeys : entries'.map Prod.fst = entries.map Prod.fst := by
    clear hs hentries
    induction hall with
    | nil => rfl
    | cons he _ ih => rw [List.map_cons, List.map_cons, he.1, ih]
  have hsorted : (entries.map Prod.fst).Pairwise (· < ·) := List.pairwise_map.2 hs
  rw [← hkeys] at hsorted
  exact List.pairwise_map.1 hsorted

variable (reread) in
def rereadObject (object : JsonObject) : Option JsonObject :=
  match h : rereadEntries reread object.entries with
  | none => none
  | some entries => some ⟨entries, rereadEntries_sorted object.sorted h⟩

theorem rereadObject_eq_some : rereadObject reread object = some object' ↔
    rereadEntries reread object.entries = some object'.entries := by
  rw [rereadObject]
  split
  · rename_i hnone
    simp [hnone]
  · rename_i entries hentries
    constructor
    · intro heq
      obtain rfl := Option.some.inj heq
      exact hentries
    · intro heq
      obtain rfl := Option.some.inj (hentries.symm.trans heq)
      rfl

theorem rereadObject_self : rereadObject reread object = some object ↔
    ∀ key x, (key, .float x) ∈ object.entries → reread x = some x := by
  rw [rereadObject_eq_some, rereadEntries_eq_some, List.forall₂_same]
  constructor
  · intro hall key x hx
    obtain ⟨-, hreread⟩ := hall _ hx
    simpa [rereadScalar] using hreread
  · rintro hall ⟨key, value⟩ he
    refine ⟨rfl, ?_⟩
    cases value with
    | float x => simp [rereadScalar, hall key x he]
    | _ => rfl

theorem text_mem_of_reread {key text : String} (hobject : rereadObject reread object = some object')
    (htext : (key, .string text) ∈ object.entries) : (key, .string text) ∈ object'.entries := by
  have hall := rereadEntries_eq_some.1 (rereadObject_eq_some.1 hobject)
  generalize object.entries = l at hall htext
  generalize object'.entries = l' at hall
  induction hall with
  | nil => cases htext
  | @cons e e' _ _ he _ ih =>
    rcases List.mem_cons.1 htext with rfl | htext
    · obtain ⟨hkey, hvalue⟩ := he
      have heq : e' = (key, .string text) := Prod.ext hkey (Option.some.inj hvalue).symm
      exact heq ▸ List.mem_cons_self ..
    · exact List.mem_cons_of_mem _ (ih htext)

theorem rereadObject_tombstone (id : String) :
    rereadObject reread (tombstone id) = some (tombstone id) := by
  rw [rereadObject_self]
  intro key x hx
  rw [tombstone, mem_insert] at hx
  simp at hx

variable (reread) in
/-- The real numbers in the rows are read back as they were written. -/
def ExactReals (rows : List Row) : Prop :=
  ∀ row ∈ rows, ∀ column bits finite, (column, .real bits) ∈ row.cells →
    reread ⟨bits, finite⟩ = some ⟨bits, finite⟩

theorem sqlToJson_eq_float {table column : String} {cell : SqlValue} {x : FiniteFloat} :
    sqlToJson table column cell = .ok (.float x) ↔ cell = .real x.bits := by
  cases cell with
  | real bits =>
    rw [sqlToJson]
    split
    · simp only [Except.ok.injEq, Scalar.float.injEq, SqlValue.real.injEq]
      exact ⟨fun heq ↦ heq ▸ rfl, fun heq ↦ by cases x; cases heq; rfl⟩
    · rename_i hfinite
      simp only [reduceCtorEq, SqlValue.real.injEq, false_iff]
      rintro rfl
      exact hfinite x.finite
  | _ => simp [sqlToJson]

theorem rereadObject_rowObject {row : Row} (hobject : rowObject row = .ok object) :
    rereadObject reread object = some object ↔ ExactReals reread [row] := by
  rw [rereadObject_self]
  simp only [ExactReals, List.mem_singleton, forall_eq, mem_rowObject hobject, sqlToJson_eq_float,
    exists_eq_right]
  exact ⟨fun hall column bits finite hcell ↦ hall column ⟨bits, finite⟩ hcell,
    fun hall column x hcell ↦ hall column x.bits x.finite hcell⟩

end Reread

section Coalesce

def keepLast : List Captured → List Captured
  | [] => []
  | entry :: entries =>
    if (keepLast entries).any fun k ↦ k.key = entry.key then keepLast entries
    else entry :: keepLast entries

theorem coalesce_eq {entries : List Captured} (hs : entries.Pairwise fun a b ↦ a.seq ≤ b.seq) :
    coalesce entries = keepLast entries := by
  rw [coalesce, hs.insertionSort_eq, List.foldl_reverse]
  clear hs
  induction entries with
  | nil => rfl
  | cons entry entries ih =>
    rw [List.foldr_cons, keepLast, ← ih, List.any_reverse]
    split
    · rfl
    · rw [List.reverse_append, List.reverse_singleton, List.singleton_append]

theorem exists_mem_keepLast {entries : List Captured} {entry : Captured} (he : entry ∈ entries) :
    ∃ k ∈ keepLast entries, k.key = entry.key := by
  induction entries with
  | nil => cases he
  | cons first entries ih =>
    rw [keepLast]
    rcases List.mem_cons.1 he with rfl | he
    · split
      · rename_i hany
        simpa using hany
      · exact ⟨entry, List.mem_cons_self .., rfl⟩
    · obtain ⟨k, hk, hkey⟩ := ih he
      split
      · exact ⟨k, hk, hkey⟩
      · exact ⟨k, List.mem_cons_of_mem _ hk, hkey⟩

/-- What is left is the last entry of its row. -/
theorem last_of_mem_keepLast {entries : List Captured} {entry : Captured}
    (he : entry ∈ keepLast entries) : ∃ before after, entries = before ++ entry :: after ∧
      ∀ k ∈ after, k.key ≠ entry.key := by
  induction entries with
  | nil => cases he
  | cons first entries ih =>
    rw [keepLast] at he
    split at he
    · obtain ⟨before, after, rfl, hafter⟩ := ih he
      exact ⟨first :: before, after, rfl, hafter⟩
    · rename_i hany
      rcases List.mem_cons.1 he with rfl | he
      · refine ⟨[], entries, rfl, fun k hk heq ↦ hany ?_⟩
        obtain ⟨k', hk', hkey⟩ := exists_mem_keepLast hk
        simpa using ⟨k', hk', hkey.trans heq⟩
      · obtain ⟨before, after, rfl, hafter⟩ := ih he
        exact ⟨first :: before, after, rfl, hafter⟩

end Coalesce

end SlipScan.Sync.Rows
