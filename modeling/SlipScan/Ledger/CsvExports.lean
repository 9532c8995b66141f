import SlipScan.Model.Csv

namespace SlipScan.Ledger.CsvExports

open Model.Csv

section Reader

/-- Where a reader of comma separated text is: before a field, in a plain or in a quoted one, after a
quote in a quoted one, or after a carriage return. -/
inductive Mode
  | start | plain | quoted | closed | lineBreak
  deriving DecidableEq, Repr

structure Reader where
  mode : Mode := .start
  field : List Char := []
  record : List String := []
  records : List (List String) := []

def Reader.endField (r : Reader) : Reader :=
  { r with mode := .start, field := [], record := r.record ++ [String.ofList r.field] }

def Reader.endRecord (r : Reader) : Reader :=
  { mode := .start, field := [], record := [],
    records := r.records ++ [r.record ++ [String.ofList r.field]] }

def Reader.push (r : Reader) (mode : Mode) (c : Char) : Reader :=
  { r with mode, field := r.field ++ [c] }

def Reader.separate (r : Reader) (c : Char) : Option Reader :=
  match c with
  | ',' => some r.endField
  | '\n' => some r.endRecord
  | '\r' => some { r with mode := .lineBreak }
  | _ => none

/-- One character under the rules of RFC 4180, where a line feed alone is a line break too. -/
def Reader.read (r : Reader) (c : Char) : Option Reader :=
  match r.mode with
  | .start => if c = '"' then some { r with mode := .quoted }
    else (r.separate c).or (some (r.push .plain c))
  | .plain => if c = '"' then none else (r.separate c).or (some (r.push .plain c))
  | .quoted => if c = '"' then some { r with mode := .closed } else some (r.push .quoted c)
  | .closed => if c = '"' then some (r.push .quoted c) else r.separate c
  | .lineBreak => if c = '\n' then some r.endRecord else none

def Reader.finish (r : Reader) : Option (List (List String)) :=
  match r.mode with
  | .start => if r.record = [] then some r.records else some r.endRecord.records
  | .plain => some r.endRecord.records
  | .closed => some r.endRecord.records
  | _ => none

def readCsv (text : String) : Option (List (List String)) :=
  (text.toList.foldlM Reader.read {}).bind Reader.finish

end Reader

section RoundTrip

variable {r : Reader} {raw : String} {fields : List String} {rows : List (List String)}
  {record : List String} {records : List (List String)} {l : List Char} {c : Char}

def Ordinary (c : Char) : Prop :=
  c ∉ ['"', ',', '\n', '\r']

theorem read_ordinary (hc : Ordinary c) (hmode : r.mode = .start ∨ r.mode = .plain) :
    r.read c = some (r.push .plain c) := by
  simp only [Ordinary, List.mem_cons, List.not_mem_nil, or_false, not_or] at hc
  obtain ⟨hquote, hcomma, hfeed, hreturn⟩ := hc
  have hseparate : r.separate c = none := by
    rw [Reader.separate.eq_def]
    split
    · exact absurd rfl hcomma
    · exact absurd rfl hfeed
    · exact absurd rfl hreturn
    · rfl
  rcases hmode with hmode | hmode
  · rw [Reader.read, hmode]
    dsimp only
    rw [if_neg hquote, hseparate, Option.none_or]
  · rw [Reader.read, hmode]
    dsimp only
    rw [if_neg hquote, hseparate, Option.none_or]

theorem read_plain (hl : ∀ c ∈ l, Ordinary c) (hmode : r.mode = .plain) :
    l.foldlM Reader.read r = some { r with field := r.field ++ l } := by
  induction l generalizing r with
  | nil => rw [List.append_nil]; rfl
  | cons c l ih =>
    rw [List.forall_mem_cons] at hl
    rw [List.foldlM_cons, read_ordinary hl.1 (.inr hmode)]
    change l.foldlM Reader.read (r.push .plain c) = _
    rw [ih hl.2 rfl, Reader.push, List.append_assoc]
    obtain ⟨mode, field, record, records⟩ := r
    obtain rfl : mode = .plain := hmode
    rfl

def doubled (l : List Char) : List Char :=
  l.flatMap fun c ↦ if c = '"' then ['"', '"'] else [c]

theorem read_quoted (l : List Char) (hmode : r.mode = .quoted) :
    (doubled l).foldlM Reader.read r = some { r with field := r.field ++ l } := by
  obtain ⟨mode, field, record, records⟩ := r
  obtain rfl : mode = .quoted := hmode
  induction l generalizing field with
  | nil => rw [List.append_nil]; rfl
  | cons c l ih =>
    have hcons : doubled (c :: l) = (if c = '"' then ['"', '"'] else [c]) ++ doubled l := rfl
    have hpush : (if c = '"' then ['"', '"'] else [c]).foldlM Reader.read
        ⟨.quoted, field, record, records⟩ = some ⟨.quoted, field ++ [c], record, records⟩ := by
      by_cases hc : c = '"'
      · subst hc
        rfl
      · rw [if_neg hc]
        simp [Reader.read, Reader.push, hc]
    rw [hcons, List.foldlM_append, hpush]
    change (doubled l).foldlM Reader.read _ = _
    rw [ih, List.append_assoc]
    rfl

def Mode.Ends (mode : Mode) : Prop :=
  mode ∈ [.start, .plain, .closed]

instance : DecidablePred Mode.Ends :=
  fun mode ↦ inferInstanceAs (Decidable (mode ∈ _))

theorem read_comma (hmode : r.mode.Ends) : r.read ',' = some r.endField := by
  obtain ⟨mode, field, record, records⟩ := r
  simp only [Mode.Ends, List.mem_cons, List.not_mem_nil, or_false] at hmode
  rcases hmode with rfl | rfl | rfl <;> rfl

theorem read_lineFeed (hmode : r.mode.Ends) : r.read '\n' = some r.endRecord := by
  obtain ⟨mode, field, record, records⟩ := r
  simp only [Mode.Ends, List.mem_cons, List.not_mem_nil, or_false] at hmode
  rcases hmode with rfl | rfl | rfl <;> rfl

/-- A field is read as the text that it was written from. -/
theorem read_field (raw : String) (record : List String) (records : List (List String)) :
    ∃ mode : Mode, mode.Ends ∧ (field raw).foldlM Reader.read ⟨.start, [], record, records⟩ =
      some ⟨mode, raw.toList, record, records⟩ := by
  rw [field]
  by_cases hany : raw.toList.any (· ∈ ['"', ',', '\n', '\r'])
  · rw [if_pos hany, List.cons_append, List.foldlM_cons]
    have hopen : Reader.read ⟨.start, [], record, records⟩ '"' =
        some ⟨.quoted, [], record, records⟩ := rfl
    refine ⟨.closed, by decide, ?_⟩
    rw [hopen]
    change (doubled raw.toList ++ ['"']).foldlM Reader.read _ = _
    rw [List.foldlM_append, read_quoted _ rfl]
    rfl
  · rw [if_neg hany]
    have hordinary : ∀ c ∈ raw.toList, Ordinary c := by
      intro c hc hmem
      exact hany (List.any_eq_true.2 ⟨c, hc, decide_eq_true hmem⟩)
    cases hraw : raw.toList with
    | nil => exact ⟨.start, by decide, rfl⟩
    | cons c l =>
      rw [hraw, List.forall_mem_cons] at hordinary
      refine ⟨.plain, by decide, ?_⟩
      rw [List.foldlM_cons, read_ordinary hordinary.1 (.inl rfl)]
      change l.foldlM Reader.read _ = _
      rw [read_plain hordinary.2 rfl]
      rfl

/-- A row is read as one record. -/
theorem read_row (hfields : fields ≠ []) (record : List String) (records : List (List String)) :
    (row fields).foldlM Reader.read ⟨.start, [], record, records⟩ =
      some ⟨.start, [], [], records ++ [record ++ fields]⟩ := by
  induction fields generalizing record with
  | nil => exact absurd rfl hfields
  | cons raw fields ih =>
    obtain ⟨mode, hmode, hread⟩ := read_field raw record records
    cases fields with
    | nil =>
      have hrow : row [raw] = field raw ++ ['\n'] := by simp [row]
      rw [hrow, List.foldlM_append, hread]
      change [_].foldlM Reader.read _ = _
      rw [List.foldlM_cons, read_lineFeed hmode, Reader.endRecord]
      dsimp only
      rw [String.ofList_toList]
      rfl
    | cons next fields =>
      have hrow : row (raw :: next :: fields) = field raw ++ ',' :: row (next :: fields) := by
        simp [row, List.intercalate]
      rw [hrow, List.foldlM_append, hread]
      change (_ :: _).foldlM Reader.read _ = _
      rw [List.foldlM_cons, read_comma hmode, Reader.endField]
      dsimp only
      rw [String.ofList_toList]
      change (row (next :: fields)).foldlM Reader.read _ = _
      rw [ih (List.cons_ne_nil _ _), List.append_assoc]
      rfl

theorem read_rows (hrows : ∀ fields ∈ rows, fields ≠ []) (records : List (List String)) :
    (rows.flatMap row).foldlM Reader.read ⟨.start, [], [], records⟩ =
      some ⟨.start, [], [], records ++ rows⟩ := by
  induction rows generalizing records with
  | nil => rw [List.append_nil]; rfl
  | cons fields rows ih =>
    rw [List.forall_mem_cons] at hrows
    rw [List.flatMap_cons, List.foldlM_append, read_row hrows.1]
    change (rows.flatMap row).foldlM Reader.read _ = _
    rw [ih hrows.2, List.append_assoc]
    rfl

/-- Rows that have fields are read back as they were written. -/
theorem readCsv_text (hrows : ∀ fields ∈ rows, fields ≠ []) : readCsv (text rows) = some rows := by
  have hread := read_rows hrows []
  rw [List.nil_append] at hread
  rw [readCsv, text, String.toList_ofList, hread]
  rfl

end RoundTrip

section Exports

open Model.Reports Model.Statements

/-- Rows with fields are read back as they were written, and so is every export. -/
theorem readCsv_exports :
    (∀ rows : List (List String), (∀ fields ∈ rows, fields ≠ []) → readCsv (text rows) = some rows) ∧
    (∀ rows, readCsv (spendingCsv rows) = some (spendingRows rows)) ∧
    (∀ rows, readCsv (spendingByMonthCsv rows) = some (spendingByMonthRows rows)) ∧
    (∀ rows, readCsv (trialBalanceCsv rows) = some (trialBalanceRows rows)) ∧
    (∀ statement, readCsv (incomeStatementCsv statement) = some (incomeStatementRows statement)) ∧
    ∀ summary, readCsv (taxSummaryCsv summary) = some (taxSummaryRows summary) := by
  refine ⟨fun _ ↦ readCsv_text, fun rows ↦ ?_, fun rows ↦ ?_, fun rows ↦ ?_, fun statement ↦ ?_,
    fun summary ↦ ?_⟩
  · exact readCsv_text (by simp [spendingRows])
  · exact readCsv_text (by simp [spendingByMonthRows])
  · exact readCsv_text (by simp [trialBalanceRows])
  · exact readCsv_text (by simp [incomeStatementRows, or_imp, forall_and])
  · exact readCsv_text (by simp [taxSummaryRows, or_imp, forall_and])

/-- A row without fields is written as an empty line, which is read as one empty field. -/
theorem row_without_fields_differs : ¬∀ rows : List (List String), readCsv (text rows) = some rows :=
  fun hclaim ↦ absurd (hclaim [[]]) (by decide)

example : text [["a,b", "say \"hi\"", ""], ["one\r\ntwo"]] =
    "\"a,b\",\"say \"\"hi\"\"\",\n\"one\r\ntwo\"\n" := by decide

end Exports

end SlipScan.Ledger.CsvExports
