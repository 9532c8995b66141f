import SlipScan.Ledger.Dates
import SlipScan.Model.Ofx
import Mathlib.Data.List.Induction
import Mathlib.Data.List.ReduceOption

namespace SlipScan.Ingest.StatementDates

open Model.Domain Model.Database Model.Amounts Model.StatementImport Model.CsvStatement Model.Ofx
  Model.PlainHost Ledger.Dates Foundation.Transaction Foundation.Interleaving Foundation.Calendar
open Model.Assets (zeroPad)

section Days

variable {h : Host} {year : ℤ} {month day : ℕ}

/-- What is known of the dates of the core: a day that is written as a statement writes it is read if
the month has it. -/
structure CoreDates (h : Host) : Prop where
  parse : ∀ {year month day}, InRange year month day →
    h.parseDate (isoDate year month day) = Date.ofParts? year month day

theorem parseDate_isSome_iff (hcore : CoreDates h) (hrange : InRange year month day) :
    (h.parseDate (isoDate year month day)).isSome ↔ day ≤ daysInMonth year month := by
  obtain ⟨hyear, hmonth, hday⟩ := hrange
  have hyears : -9999 ≤ year ∧ year ≤ 9999 := by omega
  rw [hcore.parse ⟨hyear, hmonth, hday⟩, Date.ofParts?]
  simp [hyears, hmonth, hday.1]

structure DatedBy (names : ℤ → ℕ → ℕ → Prop) (lines : List FetchedLine) : Prop where
  inRange : ∀ {year month day}, names year month day → InRange year month day
  sound : ∀ line ∈ lines, ∃ year month day, names year month day ∧
    line.postedDate = isoDate year month day
  complete : ∀ {year month day}, names year month day →
    ∃ line ∈ lines, line.postedDate = isoDate year month day

end Days

section Csv

variable {raw : String} {format : DateFormat} {date : String} {mapping : CsvMapping}
  {record : List String} {line : FetchedLine} {reader : CsvReader} {text : String}
  {lines : List FetchedLine}

theorem parseStatementDate_eq_ok : parseStatementDate raw format = .ok date ↔
    ∃ year month day, dateParts (trimmed raw.toList) format = some (year, month, day) ∧
      InRange year month day ∧ isoDate year month day = date := by
  rw [parseStatementDate]
  cases dateParts (trimmed raw.toList) format with
  | none => simp [throw, throwThe, MonadExceptOf.throw]
  | some parts =>
    obtain ⟨year, month, day⟩ := parts
    by_cases hrange : InRange year month day
    · simp [hrange, pure, Except.pure]
    · simp [hrange, throw, throwThe, MonadExceptOf.throw]

theorem rowLine_of_amount {amount : ℤ}
    (hdate : parseStatementDate (field record mapping.dateCol) mapping.dateFormat = .ok date)
    (hamount : rowAmount mapping record date = .ok (some amount)) :
    ∃ line, rowLine mapping record = .ok (some line) ∧ line.postedDate = date := by
  rw [rowLine, hdate]
  simp only [hamount]
  exact ⟨_, rfl, rfl⟩

theorem rowLine_eq_some (hline : rowLine mapping record = .ok (some line)) :
    ∃ amount, parseStatementDate (field record mapping.dateCol) mapping.dateFormat =
        .ok line.postedDate ∧ rowAmount mapping record line.postedDate = .ok (some amount) := by
  rw [rowLine] at hline
  cases hdate : parseStatementDate (field record mapping.dateCol) mapping.dateFormat with
  | error e => simp [hdate] at hline
  | ok date =>
    simp only [hdate, except_bind_eq_ok] at hline
    obtain ⟨amount, hamount, hrest⟩ := hline
    cases amount with
    | none => simp at hrest
    | some amount =>
      obtain rfl := Option.some.inj (except_pure_eq_ok.1 hrest)
      exact ⟨amount, rfl, hamount⟩

def RowNames (reader : CsvReader) (mapping : CsvMapping) (text : String) (year : ℤ)
    (month day : ℕ) : Prop :=
  ∃ record, .ok record ∈ reader mapping.delimiter mapping.hasHeader (tableOf mapping text) ∧
    dateParts (trimmed (field record mapping.dateCol).toList) mapping.dateFormat =
      some (year, month, day) ∧ InRange year month day ∧
    ∃ amount, rowAmount mapping record (isoDate year month day) = .ok (some amount)

theorem parseAll_datedBy (hparse : parseAll reader mapping text = .ok lines) :
    DatedBy (RowNames reader mapping text) lines := by
  rw [parseAll] at hparse
  simp only [except_bind_eq_ok, except_pure_eq_ok, except_mapM_eq_ok] at hparse
  obtain ⟨rows, hrows, rfl⟩ := hparse
  refine ⟨?_, fun line hline ↦ ?_, ?_⟩
  · rintro year month day ⟨_, _, _, hrange, _⟩
    exact hrange
  · rw [List.reduceOption_mem_iff] at hline
    obtain ⟨record, hrecord, hrow⟩ := mem_of_forall₂_left hrows.flip hline
    cases record with
    | error e => cases hrow
    | ok record =>
      obtain ⟨amount, hdate, hamount⟩ := rowLine_eq_some hrow
      obtain ⟨year, month, day, hparts, hrange, hiso⟩ := parseStatementDate_eq_ok.1 hdate
      rw [← hiso] at hamount
      exact ⟨year, month, day, ⟨record, hrecord, hparts, hrange, amount, hamount⟩, hiso.symm⟩
  · rintro year month day ⟨record, hrecord, hparts, hrange, amount, hamount⟩
    obtain ⟨row, hmem, hrow⟩ := mem_of_forall₂_left hrows hrecord
    obtain ⟨line, hline, hposted⟩ := rowLine_of_amount
      (parseStatementDate_eq_ok.2 ⟨year, month, day, hparts, hrange, rfl⟩) hamount
    obtain rfl := Except.ok.inj (hline.symm.trans hrow)
    exact ⟨line, List.reduceOption_mem_iff.2 hmem, hposted⟩

end Csv

section Ofx

variable {raw : List Char} {date : String} {txn : PartialTxn} {line : FetchedLine}
  {s s' : ParseState} {token : Token} {tokens block : List Token} {current : Option (List Token)}
  {text : String} {statement : OfxStatement}

structure Stamp (digits : List Char) (year : ℤ) (month day : ℕ) : Prop where
  length : digits.length = 8
  all_digits : digits.all Char.isDigit
  year_eq : year = Nat.ofDigitChars 10 (digits.take 4) 0
  month_eq : month = Nat.ofDigitChars 10 ((digits.drop 4).take 2) 0
  day_eq : day = Nat.ofDigitChars 10 (digits.drop 6) 0

theorem parseOfxDate_eq_ok : parseOfxDate raw = .ok date ↔
    ∃ year month day, Stamp ((trimmed raw).take 8) year month day ∧ InRange year month day ∧
      isoDate year month day = date := by
  rw [parseOfxDate]
  dsimp only
  rw [except_guard_eq_ok, not_not]
  constructor
  · rintro ⟨⟨hlength, hdigits⟩, hdate⟩
    split at hdate
    · rename_i hrange
      exact ⟨_, _, _, ⟨hlength, hdigits, rfl, rfl, rfl⟩, hrange, except_pure_eq_ok.1 hdate⟩
    · cases hdate
  · rintro ⟨year, month, day, ⟨hlength, hdigits, rfl, rfl, rfl⟩, hrange, rfl⟩
    rw [if_pos hrange]
    exact ⟨⟨hlength, hdigits⟩, rfl⟩

def absorb (txn : PartialTxn) (token : Token) : PartialTxn :=
  if token.closing ∨ upperName token = "LEDGERBAL" then txn
  else txn.set (upperName token) token.value

def gather (block : List Token) : PartialTxn :=
  block.foldl absorb {}

def transactions : Option (List Token) → List Token → List (List Token)
  | _, [] => []
  | current, token :: tokens =>
    if upperName token = "STMTTRN" then
      if token.closing then current.toList ++ transactions none tokens
      else transactions (some []) tokens
    else transactions (current.map (· ++ [token])) tokens

theorem setField_frame {name : String} {value : List Char} (hset : setField s name value = .ok s') :
    s'.statement.lines = s.statement.lines ∧ s'.current = s.current := by
  rw [setField.eq_def] at hset
  dsimp only at hset
  split at hset
  · split at hset <;> obtain rfl := except_pure_eq_ok.1 hset <;> exact ⟨rfl, rfl⟩
  · split at hset
    · obtain ⟨balance, -, hrest⟩ := except_bind_eq_ok.1 hset
      obtain rfl := except_pure_eq_ok.1 hrest
      exact ⟨rfl, rfl⟩
    · obtain rfl := except_pure_eq_ok.1 hset
      exact ⟨rfl, rfl⟩
  · split at hset
    · obtain ⟨date, -, hrest⟩ := except_bind_eq_ok.1 hset
      obtain rfl := except_pure_eq_ok.1 hrest
      exact ⟨rfl, rfl⟩
    · obtain rfl := except_pure_eq_ok.1 hset
      exact ⟨rfl, rfl⟩
  · obtain rfl := except_pure_eq_ok.1 hset
    exact ⟨rfl, rfl⟩

theorem step_cases (hstep : step s token = .ok s') :
    (upperName token = "STMTTRN" ∧ token.closing = true ∧ ∃ txn line, s.current = some txn ∧
        txn.finish = .ok line ∧ s'.statement.lines = s.statement.lines ++ [line] ∧
        s'.current = none) ∨
      (upperName token = "STMTTRN" ∧ token.closing = false ∧ s.current = none ∧
        s'.statement.lines = s.statement.lines ∧ s'.current = some {}) ∨
      (upperName token ≠ "STMTTRN" ∧ s'.statement.lines = s.statement.lines ∧
        s'.current = s.current.map (absorb · token)) := by
  rw [step.eq_def] at hstep
  split at hstep
  · rename_i hname
    split at hstep
    · cases hstep
    · rename_i txn hclosing hcurrent
      obtain ⟨line, hline, hrest⟩ := except_bind_eq_ok.1 hstep
      obtain rfl := except_pure_eq_ok.1 hrest
      exact .inl ⟨hname, hclosing, txn, line, hcurrent, hline, rfl, rfl⟩
    · cases hstep
    · rename_i hclosing hcurrent
      obtain rfl := except_pure_eq_ok.1 hstep
      exact .inr (.inl ⟨hname, hclosing, hcurrent, rfl, rfl⟩)
  · rename_i hname
    obtain rfl := except_pure_eq_ok.1 hstep
    refine .inr (.inr ⟨by rw [hname]; decide, rfl, ?_⟩)
    have habsorb : (absorb · token) = id := by
      funext txn
      rw [absorb, if_pos (.inr hname)]
      rfl
    rw [habsorb, Option.map_id_fun, id]
  · rename_i hname hledger
    refine .inr (.inr ⟨hname, ?_⟩)
    cases hclosing : token.closing with
    | true =>
      rw [hclosing, if_pos rfl] at hstep
      obtain rfl := except_pure_eq_ok.1 hstep
      have habsorb : (absorb · token) = id := by
        funext txn
        rw [absorb, if_pos (.inl hclosing)]
        rfl
      rw [habsorb, Option.map_id_fun, id]
      exact ⟨rfl, rfl⟩
    | false =>
      rw [hclosing, if_neg Bool.false_ne_true] at hstep
      cases hcurrent : s.current with
      | none =>
        rw [hcurrent] at hstep
        obtain ⟨hlines, hsame⟩ := setField_frame hstep
        exact ⟨hlines, hsame.trans hcurrent⟩
      | some txn =>
        rw [hcurrent] at hstep
        obtain rfl := except_pure_eq_ok.1 hstep
        refine ⟨rfl, ?_⟩
        rw [Option.map_some, absorb, if_neg (not_or.2 ⟨by simp [hclosing], hledger⟩)]

/-- Each line is what a transaction comes to. -/
theorem foldlM_step (hfold : tokens.foldlM step s = .ok s')
    (hcurrent : s.current = current.map gather) :
    ∃ lines, s'.statement.lines = s.statement.lines ++ lines ∧
      List.Forall₂ (fun block line ↦ (gather block).finish = .ok line) (transactions current tokens)
        lines := by
  induction tokens generalizing s current with
  | nil =>
    obtain rfl := except_pure_eq_ok.1 hfold
    exact ⟨[], (List.append_nil _).symm, .nil⟩
  | cons token tokens ih =>
    rw [List.foldlM_cons, except_bind_eq_ok] at hfold
    obtain ⟨t, hstep, hfold⟩ := hfold
    rcases step_cases hstep with ⟨hname, hclosing, txn, line, htxn, hline, hlines, hnone⟩ |
      ⟨hname, hclosing, hnone, hlines, hsome⟩ | ⟨hname, hlines, hsame⟩
    · rw [htxn] at hcurrent
      obtain ⟨block, rfl, rfl⟩ := Option.map_eq_some_iff.1 hcurrent.symm
      have hnext : t.current = none.map gather := hnone
      obtain ⟨lines, happend, hall⟩ := ih hfold hnext
      refine ⟨line :: lines, ?_, ?_⟩
      · rw [happend, hlines, List.append_assoc, List.singleton_append]
      · rw [transactions, if_pos hname, if_pos hclosing]
        exact .cons hline hall
    · have hnext : t.current = (some []).map gather := hsome
      obtain ⟨lines, happend, hall⟩ := ih hfold hnext
      refine ⟨lines, by rw [happend, hlines], ?_⟩
      rwa [transactions, if_pos hname, if_neg (by simp [hclosing])]
    · have hgather : t.current = (current.map (· ++ [token])).map gather := by
        rw [hsame, hcurrent, Option.map_map, Option.map_map]
        refine congrArg (Option.map · current) (funext fun block ↦ ?_)
        simp [gather]
      obtain ⟨lines, happend, hall⟩ := ih hfold hgather
      refine ⟨lines, by rw [happend, hlines], ?_⟩
      rwa [transactions, if_neg hname]

def isPosted (token : Token) : Bool :=
  !token.closing && upperName token = "DTPOSTED"

def posted (block : List Token) : Option (List Char) :=
  (block.filter isPosted).getLast?.map Token.value

theorem set_dtposted (txn : PartialTxn) (name : String) (value : List Char) :
    (txn.set name value).dtposted = if name = "DTPOSTED" then some value else txn.dtposted := by
  rw [PartialTxn.set.eq_def]
  split
  · rfl
  · rfl
  · rfl
  · rfl
  · rfl
  · rename_i hname _ _ _ _
    rw [if_neg hname]

theorem absorb_dtposted (txn : PartialTxn) (token : Token) : (absorb txn token).dtposted =
    if isPosted token then some token.value else txn.dtposted := by
  rw [absorb, isPosted]
  cases hclosing : token.closing with
  | true => rfl
  | false =>
    by_cases hledger : upperName token = "LEDGERBAL"
    · rw [if_pos (.inr hledger), hledger]
      rfl
    · simp [hledger, set_dtposted]

theorem gather_dtposted (block : List Token) : (gather block).dtposted = posted block := by
  induction block using List.reverseRecOn with
  | nil => rfl
  | append_singleton block token ih =>
    rw [gather, List.foldl_append, ← gather, List.foldl_cons, List.foldl_nil, absorb_dtposted, ih,
      posted, posted, List.filter_append]
    by_cases hposted : isPosted token
    · rw [if_pos hposted, List.filter_cons_of_pos hposted, List.getLast?_append]
      rfl
    · rw [if_neg hposted, List.filter_cons_of_neg hposted, List.filter_nil, List.append_nil]

/-- A transaction is posted on a day. -/
def TransactionNames (text : String) (year : ℤ) (month day : ℕ) : Prop :=
  ∃ block ∈ transactions none (tokenize text.toList), ∃ raw ∈ posted block,
    Stamp ((trimmed raw).take 8) year month day ∧ InRange year month day

/-- What a transaction comes to, if it has a date, an amount and a description. -/
theorem finish_eq_ok : txn.finish = .ok line ↔
    ∃ dtposted trnamt description, txn.dtposted.filter (· ≠ []) = some dtposted ∧
      txn.trnamt.filter (· ≠ []) = some trnamt ∧
      (txn.name.filter (· ≠ [])).or (txn.memo.filter (· ≠ [])) = some description ∧
      parseOfxDate dtposted = .ok line.postedDate ∧
      parseOfxAmountMinor trnamt = .ok line.amountMinor ∧
      line = ⟨⟨line.postedDate, String.ofList (unescapeXml description), line.amountMinor,
        (txn.fitid.filter (· ≠ [])).map String.ofList, none⟩, none⟩ := by
  rw [PartialTxn.finish]
  cases txn.dtposted.filter (· ≠ []) with
  | none => simp [throw, throwThe, MonadExceptOf.throw]
  | some dtposted =>
    dsimp only
    rw [except_bind_eq_ok]
    simp only [within, except_mapError_eq_ok]
    cases txn.trnamt.filter (· ≠ []) with
    | none => simp [throw, throwThe, MonadExceptOf.throw]
    | some trnamt =>
      dsimp only
      simp only [except_bind_eq_ok, except_mapError_eq_ok]
      cases (txn.name.filter (· ≠ [])).or (txn.memo.filter (· ≠ [])) with
      | none => simp [throw, throwThe, MonadExceptOf.throw]
      | some description =>
        simp only [except_pure_eq_ok, Option.some.injEq]
        constructor
        · rintro ⟨date, hdate, amount, hamount, rfl⟩
          exact ⟨_, _, _, rfl, rfl, rfl, hdate, hamount, rfl⟩
        · rintro ⟨_, _, _, rfl, rfl, rfl, hdate, hamount, hline⟩
          exact ⟨_, hdate, _, hamount, hline.symm⟩

theorem finish_date (hline : txn.finish = .ok line) :
    ∃ raw ∈ txn.dtposted, parseOfxDate raw = .ok line.postedDate := by
  obtain ⟨raw, _, _, hraw, -, -, hdate, -⟩ := finish_eq_ok.1 hline
  exact ⟨raw, (Option.filter_eq_some_iff.1 hraw).1, hdate⟩

theorem stamped_dates (statement : OfxStatement) :
    statement.stamped.lines.map (·.postedDate) = statement.lines.map (·.postedDate) := by
  rw [OfxStatement.stamped]
  split
  · rfl
  · simp

theorem parseOfx_datedBy (hparse : parseOfx text = .ok statement) :
    DatedBy (TransactionNames text) statement.lines := by
  rw [parseOfx] at hparse
  dsimp only at hparse
  rw [except_guard_eq_ok, except_bind_eq_ok] at hparse
  obtain ⟨-, s, hfold, hrest⟩ := hparse
  rw [except_guard_eq_ok, except_pure_eq_ok] at hrest
  obtain ⟨-, rfl⟩ := hrest
  have hcurrent : ({} : ParseState).current = none.map gather := rfl
  obtain ⟨lines, hlines, hall⟩ := foldlM_step hfold hcurrent
  have hdates := stamped_dates s.statement
  rw [hlines, List.nil_append] at hdates
  refine ⟨fun ⟨_, _, _, _, _, hrange⟩ ↦ hrange, fun line hline ↦ ?_, ?_⟩
  · have hmem : line.postedDate ∈ lines.map (·.postedDate) :=
      hdates ▸ List.mem_map_of_mem hline
    obtain ⟨line', hline', hsame⟩ := List.mem_map.1 hmem
    obtain ⟨block, hblock, hfinish⟩ := mem_of_forall₂_left hall.flip hline'
    obtain ⟨raw, hraw, hdate⟩ := finish_date hfinish
    obtain ⟨year, month, day, hstamp, hrange, hiso⟩ := parseOfxDate_eq_ok.1 hdate
    rw [gather_dtposted] at hraw
    exact ⟨year, month, day, ⟨block, hblock, raw, hraw, hstamp, hrange⟩, hsame ▸ hiso.symm⟩
  · rintro year month day ⟨block, hblock, raw, hraw, hstamp, hrange⟩
    obtain ⟨line', hline', hfinish⟩ := mem_of_forall₂_left hall hblock
    obtain ⟨raw', hraw', hdate⟩ := finish_date hfinish
    rw [gather_dtposted] at hraw'
    obtain rfl := Option.some.inj (hraw.symm.trans hraw')
    have hiso : parseOfxDate raw = .ok (isoDate year month day) :=
      parseOfxDate_eq_ok.2 ⟨year, month, day, hstamp, hrange, rfl⟩
    have hmem : isoDate year month day ∈ s.statement.stamped.lines.map (·.postedDate) := by
      rw [hdates, Except.ok.inj (hiso.symm.trans hdate)]
      exact List.mem_map_of_mem hline'
    obtain ⟨line, hline, hposted⟩ := List.mem_map.1 hmem
    exact ⟨line, hline, hposted⟩

end Ofx

section Imports

variable {h : Host} {names : ℤ → ℕ → ℕ → Prop} {lines : List FetchedLine} {reader : CsvReader}

inductive StatementFile
  | csv (mapping : CsvMapping) (text : String)
  | ofx (text : String)

def StatementFile.parse (reader : CsvReader) : StatementFile → Except IngestError (List FetchedLine)
  | csv mapping text => parseAll reader mapping text
  | ofx text => (parseOfx text).map OfxStatement.lines

def StatementFile.Names (reader : CsvReader) : StatementFile → ℤ → ℕ → ℕ → Prop
  | csv mapping text => RowNames reader mapping text
  | ofx text => TransactionNames text

theorem StatementFile.datedBy {file : StatementFile} (hparse : file.parse reader = .ok lines) :
    DatedBy (file.Names reader) lines := by
  cases file with
  | csv mapping text => exact parseAll_datedBy hparse
  | ofx text =>
    obtain ⟨statement, hstatement, rfl⟩ := except_map_eq_ok.1 hparse
    exact parseOfx_datedBy hstatement

/-- The import of some lines keeps those before a line whose date the core refuses, and stops. -/
def StopsAtDate (h : Host) (bookId accountId : String) (source : TransactionSource) (s : Db)
    (lines : List StatementLine) : Prop :=
  ∃ before line after e, lines = before ++ line :: after ∧ parseDate h line.postedDate = .error e ∧
    (importStatementLines h bookId accountId source lines).run s =
      (.error e, ((importStatementLines h bookId accountId source before).run s).2)

/-- The core takes every date, no import stops at one, and what is refused for a date has stored
nothing. -/
structure Importable (h : Host) (lines : List StatementLine) : Prop where
  dates : ∀ line ∈ lines, (h.parseDate line.postedDate).isSome
  never_stops : ∀ bookId accountId source s, ¬StopsAtDate h bookId accountId source s lines
  rejected : ∀ bookId accountId source s, ∀ line ∈ lines, ∀ e, parseDate h line.postedDate = .error e →
    ((importStatementLines h bookId accountId source lines).run s).2 = s

theorem importable_of_dates {lines : List StatementLine}
    (hdates : ∀ line ∈ lines, (h.parseDate line.postedDate).isSome) : Importable h lines := by
  have hnone : ∀ line ∈ lines, ∀ e, parseDate h line.postedDate ≠ .error e := by
    intro line hline e herror
    obtain ⟨d, hd⟩ := Option.isSome_iff_exists.1 (hdates line hline)
    rw [parseDate, hd] at herror
    cases herror
  refine ⟨hdates, ?_, fun _ _ _ _ line hline e herror ↦ absurd herror (hnone line hline e)⟩
  rintro bookId accountId source s ⟨before, line, after, e, rfl, herror, -⟩
  exact hnone line (by simp) e herror

theorem importable_iff {file : StatementFile} (hcore : CoreDates h)
    (hparse : file.parse reader = .ok lines) :
    Importable h (lines.map FetchedLine.toStatementLine) ↔
      ∀ year month day, file.Names reader year month day → day ≤ daysInMonth year month := by
  have hdated := StatementFile.datedBy hparse
  constructor
  · intro himportable year month day hnames
    obtain ⟨line, hline, hposted⟩ := hdated.complete hnames
    have hdate := himportable.dates _ (List.mem_map_of_mem hline)
    rw [hposted] at hdate
    exact (parseDate_isSome_iff hcore (hdated.inRange hnames)).1 hdate
  · intro hdays
    refine importable_of_dates fun line hline ↦ ?_
    obtain ⟨fetched, hfetched, rfl⟩ := List.mem_map.1 hline
    obtain ⟨year, month, day, hnames, hposted⟩ := hdated.sound fetched hfetched
    rw [hposted]
    exact (parseDate_isSome_iff hcore (hdated.inRange hnames)).2 (hdays _ _ _ hnames)

theorem plainParse_fields {y m d : List Char} (hy : y.length = 4) (hm : m.length = 2)
    (hd : d.length = 2) : plainParse (String.ofList (y ++ '-' :: (m ++ '-' :: d))) =
      (digits y).bind fun year ↦ (digits m).bind fun month ↦ (digits d).bind fun day ↦
        Date.ofParts? year month day := by
  match y, hy, m, hm, d, hd with
  | [_, _, _, _], _, [_, _], _, [_, _], _ =>
    rw [plainParse, String.toList_ofList]
    rfl

theorem plainHost_parseDate : plainHost.parseDate = plainParse :=
  rfl

theorem coreDates_plainHost : CoreDates plainHost := by
  constructor
  intro year month day hrange
  obtain ⟨hyear, hmonth, hday⟩ := hrange
  have hy : (zeroPad 4 year.toNat).toList.length = 4 := length_zeroPad (by decide) (by omega)
  have hm : (zeroPad 2 month).toList.length = 2 := length_zeroPad (by decide) (by omega)
  have hd : (zeroPad 2 day).toList.length = 2 := length_zeroPad (by decide) (by omega)
  have hnonneg : ((year.toNat : ℕ) : ℤ) = year := Int.toNat_of_nonneg (by omega)
  have htext := congrArg String.ofList (toList_isoDate year month day)
  rw [String.ofList_toList] at htext
  have hparse := plainParse_fields hy hm hd
  rw [← htext, digits_eq_ofDigitChars (isDigit_zeroPad _ _),
    digits_eq_ofDigitChars (isDigit_zeroPad _ _), digits_eq_ofDigitChars (isDigit_zeroPad _ _),
    ofDigitChars_zeroPad, ofDigitChars_zeroPad, ofDigitChars_zeroPad] at hparse
  simp only [Option.bind_some, hnonneg] at hparse
  rw [plainHost_parseDate]
  exact hparse

def plainReader : CsvReader := fun delimiter hasHeader table ↦
  let records := (textLines table.toList).map fun line ↦
    .ok ((line.splitOn (Char.ofNat delimiter.toNat)).map fun field ↦ trim (String.ofList field))
  if hasHeader then records.tail else records

def leapFile : StatementFile :=
  .csv ⟨44, 0, true, 0, .slashDmy, 1, .signed 2, none, none, none, .auto⟩
    "Date,Description,Amount\n29/02/2028,Coffee,-30.00"

def leapLines : List FetchedLine :=
  [⟨⟨"2028-02-29", "Coffee", -3000, none, none⟩, none⟩]

theorem importable_leapDay : leapFile.parse plainReader = .ok leapLines ∧
    (Importable plainHost (leapLines.map FetchedLine.toStatementLine) ↔
      ∀ year month day, leapFile.Names plainReader year month day →
        day ≤ daysInMonth year month) := by
  have hparse : leapFile.parse plainReader = .ok leapLines := by decide +kernel
  exact ⟨hparse, importable_iff coreDates_plainHost hparse⟩

def februaryFile : StatementFile :=
  .ofx ("<OFX><STMTTRN><DTPOSTED>20260228<TRNAMT>-30.00<NAME>Coffee<FITID>1</STMTTRN>" ++
    "<STMTTRN><DTPOSTED>20260231<TRNAMT>-20.00<NAME>Tea<FITID>2</STMTTRN></OFX>")

def februaryLines : List FetchedLine :=
  [⟨⟨"2026-02-28", "Coffee", -3000, some "1", none⟩, none⟩,
    ⟨⟨"2026-02-31", "Tea", -2000, some "2", none⟩, none⟩]

/-- February is given 31 days, and the import has stored one line when it stops. -/
theorem not_importable_february : februaryFile.parse plainReader = .ok februaryLines ∧
    ¬Importable plainHost (februaryLines.map FetchedLine.toStatementLine) ∧
    StopsAtDate plainHost "book" "account" .import setup
      (februaryLines.map FetchedLine.toStatementLine) ∧
    ((importStatementLines plainHost "book" "account" .import
      (februaryLines.map FetchedLine.toStatementLine)).run setup).2.transactions.length = 1 := by
  have hstops : StopsAtDate plainHost "book" "account" .import setup
      (februaryLines.map FetchedLine.toStatementLine) :=
    ⟨[⟨"2026-02-28", "Coffee", -3000, some "1", none⟩], ⟨"2026-02-31", "Tea", -2000, some "2", none⟩,
      [], .validation ("invalid date " ++ toString (repr "2026-02-31")), rfl, rfl, rfl⟩
  refine ⟨by decide +kernel, fun himportable ↦ ?_, hstops, by decide +kernel⟩
  exact himportable.never_stops _ _ _ _ hstops

end Imports

end SlipScan.Ingest.StatementDates
