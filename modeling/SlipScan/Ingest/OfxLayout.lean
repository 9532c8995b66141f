import Mathlib.Data.Fintype.EquivFin
import SlipScan.Ingest.Numerals
import SlipScan.Model.Ofx

namespace SlipScan.Ingest.Ofx

open Model.Database Model.Amounts Model.StatementImport Model.CsvStatement Model.Ofx Numerals
  Foundation.Transaction

section Tokens

variable {body pre tag rest text : List Char} {fuel : ℕ}

theorem length_dropWhile_le (p : Char → Bool) (l : List Char) : (l.dropWhile p).length ≤ l.length :=
  (List.dropWhile_suffix p).length_le

theorem readTag_lt {token : Option Token} (hread : readTag body = some (token, rest)) :
    rest.length < body.length := by
  rw [readTag] at hread
  split at hread
  · cases hread
  · rename_i tag htag
    split at hread
    · cases hread
    · rename_i after hafter
      obtain ⟨-, rfl⟩ := Prod.mk.inj (Option.some.inj hread)
      have hbody := length_dropWhile_le (· ≠ '<') body
      have htagLength := length_dropWhile_le (· ≠ '>') tag
      have hrest := length_dropWhile_le (· ≠ '<') after
      rw [htag, List.length_cons] at hbody
      rw [hafter, List.length_cons] at htagLength
      omega

/-- Further rounds read nothing. -/
theorem tokenizeWith_eq {fuel' : ℕ} (hfuel : body.length < fuel) (hfuel' : body.length < fuel') :
    tokenizeWith fuel body = tokenizeWith fuel' body := by
  induction fuel generalizing fuel' body with
  | zero => exact absurd hfuel (Nat.not_lt_zero _)
  | succ fuel ih =>
    cases fuel' with
    | zero => exact absurd hfuel' (Nat.not_lt_zero _)
    | succ fuel' =>
      rw [tokenizeWith, tokenizeWith]
      cases hread : readTag body with
      | none => rfl
      | some read =>
        have hlt : read.2.length < body.length := readTag_lt hread
        exact congrArg (read.1.toList ++ ·) (ih (by omega) (by omega))

theorem tokenize_eq (body : List Char) : tokenize body = match readTag body with
    | none => []
    | some (token, rest) => token.toList ++ tokenize rest := by
  rw [tokenize, tokenizeWith]
  cases hread : readTag body with
  | none => rfl
  | some read =>
    have hlt : read.2.length < body.length := readTag_lt hread
    exact congrArg (read.1.toList ++ ·) (tokenizeWith_eq hlt (Nat.lt_succ_self _))

theorem tokenize_append (hpre : '<' ∉ pre) (rest : List Char) :
    tokenize (pre ++ rest) = tokenize rest := by
  have hread : readTag (pre ++ rest) = readTag rest := by
    rw [readTag, dropWhile_ne_append hpre, readTag]
  rw [tokenize_eq, hread, ← tokenize_eq]

theorem tokenize_of_notMem (hpre : '<' ∉ pre) : tokenize pre = [] := by
  have hnil := tokenize_append hpre []
  rw [List.append_nil] at hnil
  rw [hnil]
  rfl

theorem tokenize_dropWhile (text : List Char) : tokenize (text.dropWhile (· ≠ '<')) = tokenize text := by
  have hpre : '<' ∉ text.takeWhile (· ≠ '<') := fun hmem ↦ by
    simpa using List.mem_takeWhile_imp hmem
  have happend := tokenize_append hpre (text.dropWhile (· ≠ '<'))
  rw [List.takeWhile_append_dropWhile] at happend
  exact happend.symm

theorem tokenize_tag (htag : '>' ∉ tag) (rest : List Char) :
    tokenize ('<' :: (tag ++ '>' :: rest)) =
      (tokenOf (trimmed tag) (trimmed (rest.takeWhile (· ≠ '<')))).toList ++ tokenize rest := by
  have hdrop : (tag ++ '>' :: rest).dropWhile (· ≠ '>') = '>' :: rest :=
    dropWhile_ne_append htag _
  have htake : (tag ++ '>' :: rest).takeWhile (· ≠ '>') = tag :=
    (takeWhile_ne_append htag _).trans (List.append_nil tag)
  have hopen : ('<' :: (tag ++ '>' :: rest)).dropWhile (· ≠ '<') = '<' :: (tag ++ '>' :: rest) := rfl
  have hread : readTag ('<' :: (tag ++ '>' :: rest)) =
      some (tokenOf (trimmed tag) (trimmed (rest.takeWhile (· ≠ '<'))), rest.dropWhile (· ≠ '<')) := by
    simp only [readTag, hopen, hdrop, htake]
  rw [tokenize_eq, hread]
  exact congrArg _ (tokenize_dropWhile rest)

inductive Complete : List Char → Prop
  | text {pre : List Char} (hpre : '<' ∉ pre) : Complete pre
  | tag {pre tag rest : List Char} (hpre : '<' ∉ pre) (htag : '>' ∉ tag) (hrest : Complete rest) :
      Complete (pre ++ '<' :: (tag ++ '>' :: rest))

def Starts (text : List Char) : Prop :=
  ∃ blanks rest, text = blanks ++ rest ∧ (∀ c ∈ blanks, isWhitespace c) ∧
    (rest = [] ∨ rest.head? = some '<')

theorem takeWhile_of_head (hrest : rest = [] ∨ rest.head? = some '<') :
    rest.takeWhile (· ≠ '<') = [] := by
  rcases hrest with rfl | hhead
  · rfl
  · cases rest with
    | nil => cases hhead
    | cons c rest =>
      obtain rfl := Option.some.inj hhead
      rfl

theorem Starts.takeWhile (htext : Starts text) :
    ∀ c ∈ text.takeWhile (· ≠ '<'), isWhitespace c := by
  obtain ⟨blanks, rest, rfl, hblanks, hrest⟩ := htext
  have hmark : '<' ∉ blanks := fun hmem ↦ by cases hblanks _ hmem
  rwa [takeWhile_ne_append hmark, takeWhile_of_head hrest, List.append_nil]

/-- The text after a complete one only adds its tokens. -/
theorem Complete.tokenize_append (hbody : Complete body) (htext : Starts text) :
    tokenize (body ++ text) = tokenize body ++ tokenize text := by
  induction hbody with
  | text hpre => rw [Ofx.tokenize_append hpre, tokenize_of_notMem hpre, List.nil_append]
  | @tag pre tag rest hpre htag hrest ih =>
    have hvalue : trimmed ((rest ++ text).takeWhile (· ≠ '<')) =
        trimmed (rest.takeWhile (· ≠ '<')) := by
      rw [List.takeWhile_append]
      split
      · rename_i hlength
        rw [(List.takeWhile_prefix _).eq_of_length hlength, trimmed_append_blank htext.takeWhile]
      · rfl
    rw [List.append_assoc, List.cons_append, List.append_assoc, List.cons_append,
      Ofx.tokenize_append hpre, Ofx.tokenize_append hpre, tokenize_tag htag, tokenize_tag htag, hvalue,
      ih, List.append_assoc]

/-- A text that ends with a tag has all of its tags closed. -/
theorem complete_of_getLast (hlast : body.getLast? = some '>') : Complete body := by
  induction hlength : body.length using Nat.strong_induction_on generalizing body with
  | _ n ih =>
    by_cases hopen : '<' ∈ body
    · obtain ⟨pre, after, rfl, hpre⟩ := List.eq_append_cons_of_mem hopen
      rw [List.getLast?_append, List.getLast?_cons, Option.some_or, Option.some.injEq] at hlast
      have hclose : '>' ∈ after := by
        cases hafter : after.getLast? with
        | none =>
          rw [hafter] at hlast
          cases hlast
        | some c =>
          rw [hafter] at hlast
          obtain rfl : c = '>' := hlast
          exact List.mem_of_getLast? hafter
      obtain ⟨tag, rest, rfl, htag⟩ := List.eq_append_cons_of_mem hclose
      refine .tag hpre htag ?_
      cases hrest : rest.getLast? with
      | none =>
        rw [List.getLast?_eq_none_iff.1 hrest]
        exact .text nofun
      | some c =>
        rw [List.getLast?_append, List.getLast?_cons, hrest] at hlast
        obtain rfl : c = '>' := hlast
        refine ih rest.length ?_ hrest rfl
        rw [← hlength, List.length_append, List.length_cons, List.length_append, List.length_cons]
        omega
    · exact .text hopen

end Tokens

section Comments

variable {s s' : ParseState} {token : Token} {tokens : List Token} {text gap : List Char}

/-- A token that is skipped wherever it stands. -/
def Idle (token : Token) : Prop :=
  upperName token ∉ ["STMTTRN", "LEDGERBAL"] ∧ (token.closing = true ∨
    upperName token ∉ ["DTPOSTED", "TRNAMT", "NAME", "MEMO", "FITID", "BALAMT", "DTASOF"] ∧
      (upperName token = "CURDEF" → token.value = []))

instance : DecidablePred Idle :=
  fun _ ↦ inferInstanceAs (Decidable (_ ∧ _))

theorem set_of_notMem {name : String} (hname : name ∉ ["DTPOSTED", "TRNAMT", "NAME", "MEMO", "FITID"])
    (txn : PartialTxn) (value : List Char) : txn.set name value = txn := by
  simp only [List.mem_cons, List.not_mem_nil, or_false, not_or] at hname
  obtain ⟨hposted, hamount, hlabel, hmemo, hid⟩ := hname
  rw [PartialTxn.set.eq_def]
  split
  · exact absurd rfl hposted
  · exact absurd rfl hamount
  · exact absurd rfl hlabel
  · exact absurd rfl hmemo
  · exact absurd rfl hid
  · rfl

theorem setField_of_notMem {name : String} {value : List Char} (hname : name ∉ ["BALAMT", "DTASOF"])
    (hcurdef : name = "CURDEF" → value = []) (s : ParseState) : setField s name value = .ok s := by
  simp only [List.mem_cons, List.not_mem_nil, or_false, not_or] at hname
  rw [setField.eq_def]
  dsimp only
  split
  · rw [if_neg fun hset ↦ hset.2 (hcurdef rfl)]
    rfl
  · exact absurd rfl hname.1
  · exact absurd rfl hname.2
  · rfl

theorem step_of_idle (hidle : Idle token) (s : ParseState) : step s token = .ok s := by
  obtain ⟨hname, hfield⟩ := hidle
  simp only [List.mem_cons, List.not_mem_nil, or_false, not_or] at hname
  rw [step.eq_def]
  split
  · rename_i heq
    exact absurd heq hname.1
  · rename_i heq
    exact absurd heq hname.2
  · rcases hfield with hclosing | ⟨hnone, hvalue⟩
    · rw [if_pos hclosing]
      rfl
    · split
      · rfl
      · simp only [List.mem_cons, List.not_mem_nil, or_false, not_or] at hnone
        cases hcurrent : s.current with
        | some txn =>
          dsimp only
          rw [set_of_notMem (by simp [hnone]), ← hcurrent]
          rfl
        | none =>
          dsimp only
          rw [setField_of_notMem (by simp [hnone]) hvalue]

theorem foldlM_of_idle (hidle : ∀ token ∈ tokens, Idle token) (s : ParseState) :
    tokens.foldlM step s = .ok s := by
  induction tokens with
  | nil => rfl
  | cons token tokens ih =>
    rw [List.forall_mem_cons] at hidle
    rw [List.foldlM_cons, step_of_idle hidle.1]
    exact ih hidle.2

inductive FieldStep (s : ParseState) (name : String) (value : List Char) : ParseState → Prop
  | currency (code : String) :
      FieldStep s name value { s with statement := { s.statement with currency := some code } }
  | balance (minor : ℤ) : FieldStep s name value
      { s with statement := { s.statement with ledgerBalanceMinor := some minor } }
  | asOf (date : String) : FieldStep s name value
      { s with statement := { s.statement with ledgerBalanceDate := some date } }
  | skip (hcurdef : name = "CURDEF" → s.statement.currency = none → value = [])
      (hbalance : name = "BALAMT" → s.inLedgerbal → s.statement.ledgerBalanceMinor ≠ none)
      (hasOf : name = "DTASOF" → s.inLedgerbal → s.statement.ledgerBalanceDate ≠ none) :
      FieldStep s name value s

theorem setField_spec {name : String} {value : List Char} (hset : setField s name value = .ok s') :
    FieldStep s name value s' := by
  rw [setField.eq_def] at hset
  dsimp only at hset
  split at hset
  · split at hset
    · cases hset
      exact .currency _
    · rename_i hskip
      cases hset
      refine .skip (fun _ hnone ↦ ?_) nofun nofun
      exact of_not_not fun hne ↦ hskip ⟨Option.isNone_iff_eq_none.2 hnone, hne⟩
  · split at hset
    · obtain ⟨minor, -, hset⟩ := except_bind_eq_ok.1 hset
      cases hset
      exact .balance minor
    · rename_i hskip
      cases hset
      exact .skip nofun (fun _ hin hnone ↦ hskip ⟨hin, Option.isNone_iff_eq_none.2 hnone⟩) nofun
  · split at hset
    · obtain ⟨date, -, hset⟩ := except_bind_eq_ok.1 hset
      cases hset
      exact .asOf date
    · rename_i hskip
      cases hset
      exact .skip nofun nofun fun _ hin hnone ↦ hskip ⟨hin, Option.isNone_iff_eq_none.2 hnone⟩
  · rename_i hcurdef hbalance hasOf
    cases hset
    exact .skip (fun heq ↦ absurd heq hcurdef) (fun heq ↦ absurd heq hbalance)
      fun heq ↦ absurd heq hasOf

inductive Step (s : ParseState) (token : Token) : ParseState → Prop
  | opened (hname : upperName token = "STMTTRN") : Step s token { s with current := some {} }
  | closed (line : FetchedLine) (hname : upperName token = "STMTTRN") : Step s token
      { s with statement := { s.statement with lines := s.statement.lines ++ [line] }, current := none }
  | ledger (hname : upperName token = "LEDGERBAL") :
      Step s token { s with inLedgerbal := !token.closing }
  | skipped (hname : upperName token ∉ ["STMTTRN", "LEDGERBAL"]) (hclosing : token.closing = true) :
      Step s token s
  | inTxn (txn : PartialTxn) (hname : upperName token ∉ ["STMTTRN", "LEDGERBAL"])
      (hcurrent : s.current = some txn) :
      Step s token { s with current := some (txn.set (upperName token) token.value) }
  | outside {s' : ParseState} (hname : upperName token ∉ ["STMTTRN", "LEDGERBAL"])
      (hcurrent : s.current = none) (hfield : FieldStep s (upperName token) token.value s') :
      Step s token s'

theorem step_spec (hstep : step s token = .ok s') : Step s token s' := by
  rw [step.eq_def] at hstep
  split at hstep
  · rename_i hname
    split at hstep
    · cases hstep
    · obtain ⟨line, -, hstep⟩ := except_bind_eq_ok.1 hstep
      cases hstep
      exact .closed line hname
    · cases hstep
    · cases hstep
      exact .opened hname
  · rename_i hname
    cases hstep
    exact .ledger hname
  · rename_i htxn hledger
    have hname : upperName token ∉ ["STMTTRN", "LEDGERBAL"] := by
      simpa using ⟨htxn, hledger⟩
    split at hstep
    · rename_i hclosing
      cases hstep
      exact .skipped hname hclosing
    · split at hstep
      · rename_i txn hcurrent
        cases hstep
        exact .inTxn txn hname hcurrent
      · rename_i hcurrent
        exact .outside hname hcurrent (setField_spec hstep)

/-- Read backwards from the last state, every token leaves it as it is and has a property. -/
theorem foldlM_back {N : ParseState → Prop} {Q : Token → Prop}
    (hback : ∀ token ∈ tokens, ∀ s s', Step s token s' → N s' → N s ∧ Q token)
    (hread : tokens.foldlM step s = .ok s') (hs' : N s') : N s ∧ ∀ token ∈ tokens, Q token := by
  induction tokens generalizing s with
  | nil =>
    cases hread
    exact ⟨hs', nofun⟩
  | cons token tokens ih =>
    rw [List.forall_mem_cons] at hback
    rw [List.foldlM_cons, except_bind_eq_ok] at hread
    obtain ⟨s₁, hstep, hread⟩ := hread
    obtain ⟨hs₁, htokens⟩ := ih hback.2 hread
    obtain ⟨hs, htoken⟩ := hback.1 _ _ (step_spec hstep) hs₁
    exact ⟨hs, List.forall_mem_cons.2 ⟨htoken, htokens⟩⟩

theorem FieldStep.keeps {name : String} {value : List Char} (hfield : FieldStep s name value s') :
    s'.current = s.current ∧ s'.inLedgerbal = s.inLedgerbal := by
  cases hfield <;> exact ⟨rfl, rfl⟩

theorem Step.inLedgerbal_eq (hstep : Step s token s') : s'.inLedgerbal =
    if upperName token = "LEDGERBAL" then !token.closing else s.inLedgerbal := by
  cases hstep with
  | opened hname => rw [hname, if_neg (by decide)]
  | closed line hname => rw [hname, if_neg (by decide)]
  | ledger hname => rw [if_pos hname]
  | skipped hname hclosing => rw [if_neg fun heq ↦ hname (by simp [heq])]
  | inTxn txn hname hcurrent => rw [if_neg fun heq ↦ hname (by simp [heq])]
  | outside hname hcurrent hfield => rw [if_neg fun heq ↦ hname (by simp [heq]), hfield.keeps.2]

/-- A LEDGERBAL tag would make two runs agree on where they are. -/
theorem not_ledgerbal {s₁ s₁' : ParseState} (hread : tokens.foldlM step s = .ok s')
    (hread₁ : tokens.foldlM step s₁ = .ok s₁') (hne : s'.inLedgerbal ≠ s₁'.inLedgerbal) :
    s.inLedgerbal ≠ s₁.inLedgerbal ∧ ∀ token ∈ tokens, upperName token ≠ "LEDGERBAL" := by
  induction tokens generalizing s s₁ with
  | nil =>
    cases hread
    cases hread₁
    exact ⟨hne, nofun⟩
  | cons token tokens ih =>
    rw [List.foldlM_cons, except_bind_eq_ok] at hread hread₁
    obtain ⟨t, hstep, hread⟩ := hread
    obtain ⟨t₁, hstep₁, hread₁⟩ := hread₁
    obtain ⟨hdiffer, htokens⟩ := ih hread hread₁
    rw [(step_spec hstep).inLedgerbal_eq, (step_spec hstep₁).inLedgerbal_eq] at hdiffer
    by_cases hname : upperName token = "LEDGERBAL"
    · rw [if_pos hname, if_pos hname] at hdiffer
      exact absurd rfl hdiffer
    · rw [if_neg hname, if_neg hname] at hdiffer
      exact ⟨hdiffer, List.forall_mem_cons.2 ⟨hname, htokens⟩⟩

/-- Inside the balance and before any field of it, every field of the statement counts. -/
theorem Step.of_balance (hstep : Step s token s') (hname : upperName token ≠ "LEDGERBAL")
    (hs' : s' = { inLedgerbal := true }) : s = { inLedgerbal := true } ∧
      upperName token ≠ "STMTTRN" ∧ (token.closing = true ∨
        upperName token ∉ ["BALAMT", "DTASOF"] ∧ (upperName token = "CURDEF" → token.value = [])) := by
  cases hstep with
  | opened => cases congrArg ParseState.current hs'
  | closed line =>
    have hlines := congrArg (fun s ↦ s.statement.lines) hs'
    exact absurd hlines (by simp)
  | ledger hledger => exact absurd hledger hname
  | skipped htxn hclosing => exact ⟨hs', fun heq ↦ htxn (by simp [heq]), .inl hclosing⟩
  | inTxn => cases congrArg ParseState.current hs'
  | outside htxn _ hfield =>
    cases hfield with
    | currency => cases congrArg (fun s ↦ s.statement.currency) hs'
    | balance => cases congrArg (fun s ↦ s.statement.ledgerBalanceMinor) hs'
    | asOf => cases congrArg (fun s ↦ s.statement.ledgerBalanceDate) hs'
    | skip hcurdef hbalance hasOf =>
      subst hs'
      refine ⟨rfl, fun heq ↦ htxn (by simp [heq]), .inr ⟨?_, fun heq ↦ hcurdef heq rfl⟩⟩
      simp only [List.mem_cons, List.not_mem_nil, or_false, not_or]
      exact ⟨fun heq ↦ hbalance heq rfl rfl, fun heq ↦ hasOf heq rfl rfl⟩

def constantTxn (value : List Char) : PartialTxn :=
  ⟨some value, some value, some value, some value, some value⟩

theorem set_eq_constantTxn {txn : PartialTxn} {name : String} {value fresh : List Char}
    (hfresh : value ≠ fresh) (hset : txn.set name value = constantTxn fresh) :
    txn = constantTxn fresh ∧ name ∉ ["DTPOSTED", "TRNAMT", "NAME", "MEMO", "FITID"] := by
  rw [PartialTxn.set.eq_def, constantTxn] at hset
  split at hset
  · exact absurd (Option.some.inj (congrArg PartialTxn.dtposted hset)) hfresh
  · exact absurd (Option.some.inj (congrArg PartialTxn.trnamt hset)) hfresh
  · exact absurd (Option.some.inj (congrArg PartialTxn.name hset)) hfresh
  · exact absurd (Option.some.inj (congrArg PartialTxn.memo hset)) hfresh
  · exact absurd (Option.some.inj (congrArg PartialTxn.fitid hset)) hfresh
  · rename_i hposted hamount hlabel hmemo hid
    exact ⟨hset, by simpa using ⟨hposted, hamount, hlabel, hmemo, hid⟩⟩

theorem Step.of_constantTxn {fresh : List Char} (hstep : Step s token s')
    (hfresh : token.value ≠ fresh) (hs' : s'.current = some (constantTxn fresh)) :
    s.current = some (constantTxn fresh) ∧ (token.closing = true ∨
      upperName token ∉ ["DTPOSTED", "TRNAMT", "NAME", "MEMO", "FITID"]) := by
  cases hstep with
  | opened => cases hs'
  | closed line => cases hs'
  | ledger hledger => exact ⟨hs', .inr (by rw [hledger]; decide)⟩
  | skipped _ hclosing => exact ⟨hs', .inl hclosing⟩
  | inTxn txn _ hcurrent =>
    obtain ⟨htxn, hname⟩ := set_eq_constantTxn hfresh (Option.some.inj hs')
    exact ⟨by rw [hcurrent, htxn], .inr hname⟩
  | outside _ hcurrent hfield =>
    rw [hfield.keeps.1, hcurrent] at hs'
    cases hs'

/-- Tokens leave every state as it is exactly when all of them are idle. -/
theorem foldlM_iff_idle : (∀ s, tokens.foldlM step s = .ok s) ↔ ∀ token ∈ tokens, Idle token := by
  refine ⟨fun hskip ↦ ?_, foldlM_of_idle⟩
  obtain ⟨fresh, hfresh⟩ := Infinite.exists_notMem_finset (tokens.map Token.value).toFinset
  rw [List.mem_toFinset, List.mem_map] at hfresh
  have hvalues : ∀ token ∈ tokens, token.value ≠ fresh :=
    fun token htoken heq ↦ hfresh ⟨token, htoken, heq⟩
  obtain ⟨-, hledger⟩ := not_ledgerbal (hskip { inLedgerbal := true }) (hskip {}) nofun
  obtain ⟨-, houtside⟩ := foldlM_back (fun token htoken _ _ hstep ↦
    hstep.of_balance (hledger token htoken)) (hskip { inLedgerbal := true }) rfl
  obtain ⟨-, hinside⟩ := foldlM_back (fun token htoken _ _ hstep ↦
    hstep.of_constantTxn (hvalues token htoken)) (hskip { current := some (constantTxn fresh) }) rfl
  intro token htoken
  obtain ⟨htxn, hfield⟩ := houtside token htoken
  refine ⟨by simpa using ⟨htxn, hledger token htoken⟩, ?_⟩
  rcases hfield with hclosing | ⟨hbalance, hcurdef⟩
  · exact .inl hclosing
  · refine (hinside token htoken).imp_right fun hname ↦ ⟨?_, hcurdef⟩
    simp only [List.mem_cons, List.not_mem_nil, or_false, not_or] at hname hbalance ⊢
    exact ⟨hname.1, hname.2.1, hname.2.2.1, hname.2.2.2.1, hname.2.2.2.2, hbalance⟩

def commentText (text : List Char) : List Char :=
  "<!--".toList ++ (text ++ "-->".toList)

/-- What may stand between two elements: blanks, and comments of some kind. -/
inductive Gap (quiet : List Char → Prop) : List Char → Prop
  | nil : Gap quiet []
  | blank {c : Char} {gap : List Char} (hblank : isWhitespace c) (hgap : Gap quiet gap) :
      Gap quiet (c :: gap)
  | comment {text gap : List Char} (hquiet : quiet text) (hgap : Gap quiet gap) :
      Gap quiet (commentText text ++ gap)

/-- A comment in which nothing is read that counts. -/
def Quiet (text : List Char) : Prop :=
  ∀ token ∈ tokenize (commentText text), Idle token

instance : DecidablePred Quiet :=
  fun text ↦ inferInstanceAs (Decidable (∀ token ∈ tokenize (commentText text), Idle token))

theorem complete_comment (text : List Char) : Complete (commentText text) := by
  refine complete_of_getLast ?_
  rw [commentText, List.getLast?_append, List.getLast?_append]
  rfl

theorem Gap.spec (hgap : Gap Quiet gap) (htext : Starts text) :
    Starts (gap ++ text) ∧ ∃ tokens, tokenize (gap ++ text) = tokens ++ tokenize text ∧
      ∀ token ∈ tokens, Idle token := by
  induction hgap with
  | nil => exact ⟨htext, [], rfl, nofun⟩
  | @blank c gap hblank _ ih =>
    obtain ⟨⟨blanks, rest, hsplit, hblanks, hrest⟩, tokens, htokens, hidle⟩ := ih
    have hopen : '<' ∉ [c] := by
      rw [List.mem_singleton]
      rintro rfl
      cases hblank
    refine ⟨⟨c :: blanks, rest, ?_, ?_, hrest⟩, tokens, ?_, hidle⟩
    · rw [List.cons_append, hsplit, List.cons_append]
    · exact List.forall_mem_cons.2 ⟨hblank, hblanks⟩
    · rw [← htokens]
      exact tokenize_append hopen _
  | @comment comment gap hquiet _ ih =>
    obtain ⟨hstarts, tokens, htokens, hidle⟩ := ih
    refine ⟨⟨[], _, rfl, nofun, .inr rfl⟩, tokenize (commentText comment) ++ tokens, ?_, ?_⟩
    · rw [List.append_assoc, (complete_comment comment).tokenize_append hstarts, htokens,
        List.append_assoc]
    · exact List.forall_mem_append.2 ⟨hquiet, hidle⟩

end Comments

section Layout

/-- OFX 1 with its texts as they are, OFX 1 with escaped texts, and OFX 2. -/
inductive Dialect
  | sgml | escapedSgml | xml
  deriving DecidableEq, Repr

inductive Element
  | opening (name : String)
  | closing (name : String)
  | leaf (name : String) (text : List Char)

variable {dialect : Dialect} {element : Element} {elements : List Element} {name : String}
  {quiet : List Char → Prop} {text value : List Char} {token : Token} {s : ParseState}

def closingTag (name : String) : List Char :=
  '<' :: ('/' :: name.toList ++ ['>'])

def Element.written (dialect : Dialect) : Element → List Char
  | opening name => '<' :: (name.toList ++ ['>'])
  | closing name => closingTag name
  | leaf name text =>
    '<' :: (name.toList ++ '>' :: (text ++ if dialect = .xml then closingTag name else []))

inductive Laid (quiet : List Char → Prop) (dialect : Dialect) : List Element → List Char → Prop
  | nil {gap : List Char} (hgap : Gap quiet gap) : Laid quiet dialect [] gap
  | cons {gap text : List Char} {element : Element} {elements : List Element} (hgap : Gap quiet gap)
      (htext : Laid quiet dialect elements text) :
      Laid quiet dialect (element :: elements) (gap ++ (element.written dialect ++ text))

theorem Laid.plain (elements : List Element) :
    Laid quiet dialect elements (elements.flatMap (Element.written dialect)) := by
  induction elements with
  | nil => exact .nil .nil
  | cons element elements ih => exact .cons .nil ih

theorem Laid.commented (hquiet : quiet text) (elements : List Element) :
    Laid quiet dialect elements
      (commentText text ++ elements.flatMap (Element.written dialect)) := by
  cases elements with
  | nil => exact .nil (.comment hquiet .nil)
  | cons element elements =>
    have hgap : Gap quiet (commentText text) := by
      simpa using Gap.comment hquiet .nil
    exact .cons hgap (.plain elements)

def IsName (name : String) : Prop :=
  name.toList ≠ [] ∧ ∀ c ∈ name.toList, c.isUpper ∨ c.isDigit

instance (name : String) : Decidable (IsName name) :=
  decidable_of_iff (name.toList ≠ [] ∧ name.toList.all fun c ↦ c.isUpper || c.isDigit) <| by
    simp only [IsName, List.all_eq_true, Bool.or_eq_true]

/-- Names are names, a leaf is not one of the aggregates, and its text does not look like a tag. -/
def Element.WellFormed : Element → Prop
  | opening name => IsName name
  | closing name => IsName name
  | leaf name text => IsName name ∧ '<' ∉ text ∧ name ∉ ["STMTTRN", "LEDGERBAL"]

def Element.tokens (dialect : Dialect) : Element → List Token
  | opening name => [⟨name.toList, false, []⟩]
  | closing name => [⟨name.toList, true, []⟩]
  | leaf name text => ⟨name.toList, false, trimmed text⟩ ::
      if dialect = .xml then [⟨name.toList, true, []⟩] else []

theorem IsName.range (hname : IsName name) {c : Char} (hc : c ∈ name.toList) :
    (65 ≤ c.toNat ∧ c.toNat ≤ 90) ∨ (48 ≤ c.toNat ∧ c.toNat ≤ 57) := by
  refine (hname.2 c hc).imp of_decide_eq_true fun hdigit ↦ ?_
  rw [Char.isDigit, Bool.and_eq_true, decide_eq_true_eq, decide_eq_true_eq] at hdigit
  exact hdigit

theorem IsName.plain (hname : IsName name) {c : Char} (hc : c ∈ name.toList) :
    isWhitespace c = false ∧ c ∉ ['<', '>', '/', '?', '!'] := by
  have hrange := hname.range hc
  constructor
  · simp only [isWhitespace, Bool.or_eq_false_iff, Bool.and_eq_false_iff, decide_eq_false_iff_not]
    omega
  · intro hmem
    simp only [List.mem_cons, List.not_mem_nil, or_false] at hmem
    rcases hmem with rfl | rfl | rfl | rfl | rfl <;> revert hrange <;> decide

theorem IsName.notMem (hname : IsName name) {c : Char} (hc : c ∈ ['<', '>', '/', '?', '!']) :
    c ∉ name.toList :=
  fun hmem ↦ (hname.plain hmem).2 hc

theorem IsName.bare (hname : IsName name) : Bare name.toList :=
  .of_forall fun _ hc ↦ (hname.plain hc).1

theorem IsName.trimmed_eq (hname : IsName name) : trimmed name.toList = name.toList :=
  trimmed_eq_self.2 hname.bare

theorem IsName.tokenOf_opening (hname : IsName name) (value : List Char) :
    tokenOf (trimmed name.toList) value = some ⟨name.toList, false, value⟩ := by
  have hend : trimEnd '/' name.toList = name.toList := by
    have hnone : ∀ c ∈ ([] : List Char), decide (c = '/') = true := nofun
    have hkept : name.toList.reverse.dropWhile (· = '/') = name.toList.reverse := by
      refine dropWhile_append_of_head hnone fun c hc ↦ decide_eq_false ?_
      rintro rfl
      exact hname.notMem (by simp) (List.mem_reverse.1 (List.mem_of_mem_head? hc))
    rw [trimEnd, hkept, List.reverse_reverse]
  rw [hname.trimmed_eq, tokenOf.eq_def]
  split
  · rename_i hsplit
    exact absurd (hsplit ▸ List.mem_cons_self) (hname.notMem (c := '?') (by simp))
  · rename_i hsplit
    exact absurd (hsplit ▸ List.mem_cons_self) (hname.notMem (c := '!') (by simp))
  · rename_i hsplit
    exact absurd (hsplit ▸ List.mem_cons_self) (hname.notMem (c := '/') (by simp))
  · simp only [hend, hname.trimmed_eq, if_neg hname.1]

theorem IsName.tokenOf_closing (hname : IsName name) (value : List Char) :
    tokenOf (trimmed ('/' :: name.toList)) value = some ⟨name.toList, true, value⟩ := by
  have hbare : Bare ('/' :: name.toList) := by
    refine ⟨fun c hc ↦ ?_, fun c hc ↦ ?_⟩
    · obtain rfl := Option.some.inj hc
      rfl
    · rw [List.getLast?_cons_of_ne_nil hname.1] at hc
      exact hname.bare.last c hc
  rw [trimmed_eq_self.2 hbare, tokenOf]
  simp only [hname.trimmed_eq, if_neg hname.1]

theorem tokenize_openingTag {rest : List Char} (hname : IsName name) (htext : '<' ∉ text)
    (hrest : rest = [] ∨ rest.head? = some '<') :
    tokenize ('<' :: (name.toList ++ '>' :: (text ++ rest))) =
      ⟨name.toList, false, trimmed text⟩ :: tokenize rest := by
  rw [tokenize_tag (hname.notMem (by simp)), takeWhile_ne_append htext,
    takeWhile_of_head hrest, List.append_nil, hname.tokenOf_opening, tokenize_append htext]
  rfl

theorem tokenize_closingTag (hname : IsName name) :
    tokenize (closingTag name) = [⟨name.toList, true, []⟩] := by
  have htag : '>' ∉ '/' :: name.toList := by
    rw [List.mem_cons, not_or]
    exact ⟨by decide, hname.notMem (by simp)⟩
  have hclosing : tokenize (closingTag name) = (tokenOf (trimmed ('/' :: name.toList)) []).toList ++ [] :=
    tokenize_tag htag []
  rw [hclosing, hname.tokenOf_closing]
  rfl

theorem getLast?_closingTag (name : String) : (closingTag name).getLast? = some '>' := by
  rw [closingTag, List.getLast?_cons, List.getLast?_append]
  rfl

theorem Element.complete_written (helement : element.WellFormed) :
    Complete (element.written dialect) := by
  cases element with
  | opening name =>
    exact .tag List.not_mem_nil (helement.notMem (by simp)) (.text List.not_mem_nil)
  | closing name => exact complete_of_getLast (getLast?_closingTag name)
  | leaf name text =>
    obtain ⟨hname, htext, -⟩ := helement
    refine .tag List.not_mem_nil (hname.notMem (by simp)) ?_
    split
    · refine complete_of_getLast ?_
      rw [List.getLast?_append, getLast?_closingTag]
      rfl
    · rw [List.append_nil]
      exact .text htext

theorem Element.tokenize_written (helement : element.WellFormed) :
    tokenize (element.written dialect) = element.tokens dialect := by
  cases element with
  | opening name => exact tokenize_openingTag helement List.not_mem_nil (.inl rfl)
  | closing name => exact tokenize_closingTag helement
  | leaf name text =>
    obtain ⟨hname, htext, -⟩ := helement
    rw [Element.written, Element.tokens]
    split
    · rw [tokenize_openingTag hname htext (.inr rfl), tokenize_closingTag hname]
    · rw [tokenize_openingTag hname htext (.inl rfl)]
      rfl

theorem IsName.upperName_eq (hname : IsName name) (closing : Bool) (value : List Char) :
    upperName ⟨name.toList, closing, value⟩ = name := by
  have hmap : name.toList.map Char.toUpper = name.toList := by
    refine (List.map_congr_left fun c hc ↦ ?_).trans (List.map_id _)
    have hrange := hname.range hc
    refine dif_neg fun hlower ↦ ?_
    have hlow : 97 ≤ c.toNat := hlower.1
    omega
  rw [upperName, hmap, String.ofList_toList]

def readElement (s : ParseState) : Element → Except IngestError ParseState
  | .opening name => step s ⟨name.toList, false, []⟩
  | .closing name => step s ⟨name.toList, true, []⟩
  | .leaf name text => step s ⟨name.toList, false, trimmed text⟩

theorem foldlM_tokens (helement : element.WellFormed) (s : ParseState) :
    (element.tokens dialect).foldlM step s = readElement s element := by
  cases element with
  | opening name => exact bind_pure _
  | closing name => exact bind_pure _
  | leaf name text =>
    obtain ⟨hname, -, hleaf⟩ := helement
    rw [Element.tokens, List.foldlM_cons]
    split
    · have hidle : Idle ⟨name.toList, true, []⟩ := by
        refine ⟨?_, .inl rfl⟩
        rwa [hname.upperName_eq]
      have hclosing : (fun s ↦ [(⟨name.toList, true, []⟩ : Token)].foldlM step s) = pure :=
        funext fun s ↦ foldlM_of_idle (by simpa using hidle) s
      rw [hclosing, bind_pure]
      rfl
    · exact bind_pure _

theorem foldlM_flatMap_tokens (helements : ∀ element ∈ elements, element.WellFormed)
    (s : ParseState) : (elements.flatMap (Element.tokens dialect)).foldlM step s =
      elements.foldlM readElement s := by
  induction elements generalizing s with
  | nil => rfl
  | cons element elements ih =>
    rw [List.forall_mem_cons] at helements
    rw [List.flatMap_cons, List.foldlM_append, foldlM_tokens helements.1, List.foldlM_cons]
    exact congrArg _ (funext fun s' ↦ ih helements.2 s')

theorem head?_written (element : Element) : (element.written dialect).head? = some '<' := by
  cases element <;> rfl

/-- What stands between the elements does not count. -/
theorem Laid.spec (hlaid : Laid Quiet dialect elements text)
    (helements : ∀ element ∈ elements, element.WellFormed) : Starts text ∧
      (∀ token ∈ elements.flatMap (Element.tokens dialect), token ∈ tokenize text) ∧
      ∀ s, (tokenize text).foldlM step s =
        (elements.flatMap (Element.tokens dialect)).foldlM step s := by
  induction hlaid with
  | nil hgap =>
    have hstarts : Starts [] := ⟨[], [], rfl, nofun, .inl rfl⟩
    obtain ⟨hgap, tokens, htokens, hidle⟩ := hgap.spec hstarts
    rw [List.append_nil] at hgap htokens
    refine ⟨hgap, nofun, fun s ↦ ?_⟩
    rw [htokens, List.foldlM_append, foldlM_of_idle hidle]
    rfl
  | @cons gap text element elements hgap _ ih =>
    rw [List.forall_mem_cons] at helements
    obtain ⟨hstarts, hmem, hfold⟩ := ih helements.2
    have hwritten : Starts (element.written dialect ++ text) := by
      refine ⟨[], _, (List.nil_append _).symm, nofun, .inr ?_⟩
      rw [List.head?_append, head?_written]
      rfl
    have hcomplete : Complete (element.written dialect) := Element.complete_written helements.1
    obtain ⟨hgap, tokens, htokens, hidle⟩ := hgap.spec hwritten
    rw [hcomplete.tokenize_append hstarts, Element.tokenize_written helements.1] at htokens
    refine ⟨hgap, fun token htoken ↦ ?_, fun s ↦ ?_⟩
    · rw [htokens]
      rcases List.mem_append.1 htoken with hin | hin
      · exact List.mem_append_right _ (List.mem_append_left _ hin)
      · exact List.mem_append_right _ (List.mem_append_right _ (hmem token hin))
    · rw [htokens, List.foldlM_append, foldlM_of_idle hidle, List.flatMap_cons]
      change List.foldlM step s _ = _
      rw [List.foldlM_append, List.foldlM_append]
      exact congrArg _ (funext hfold)

def header : Dialect → List Char
  | .xml => ("<?xml version=\"1.0\" encoding=\"UTF-8\"?>\n<?OFX OFXHEADER=\"200\" " ++
      "VERSION=\"211\" SECURITY=\"NONE\" OLDFILEUID=\"NONE\" NEWFILEUID=\"NONE\"?>").toList
  | _ => ("OFXHEADER:100\r\nDATA:OFXSGML\r\nVERSION:102\r\nSECURITY:NONE\r\n" ++
      "ENCODING:USASCII\r\nCHARSET:1252\r\nCOMPRESSION:NONE\r\nOLDFILEUID:NONE\r\n" ++
      "NEWFILEUID:NONE\r\n").toList

theorem header_spec (dialect : Dialect) :
    Complete (header dialect) ∧ tokenize (header dialect) = [] := by
  have hplain : '<' ∉ header .sgml := by decide +kernel
  cases dialect with
  | sgml => exact ⟨.text hplain, tokenize_of_notMem hplain⟩
  | escapedSgml => exact ⟨.text hplain, tokenize_of_notMem hplain⟩
  | xml => exact ⟨complete_of_getLast (by decide +kernel), by decide +kernel⟩

/-- The header is skipped. -/
theorem parseOfx_eq (dialect : Dialect) (hstarts : Starts text)
    (hroot : ⟨"OFX".toList, false, []⟩ ∈ tokenize text) :
    parseOfx (String.ofList (header dialect ++ text)) = (do
      let s ← (tokenize text).foldlM step {}
      if s.current.isSome then throw (.parse "<STMTTRN> was never closed")
      return s.statement.stamped) := by
  obtain ⟨hheader, hnone⟩ := header_spec dialect
  have htokens : tokenize (header dialect ++ text) = tokenize text := by
    rw [hheader.tokenize_append hstarts, hnone, List.nil_append]
  have hofx : (tokenize text).any (fun token ↦ !token.closing && upperName token = "OFX") = true := by
    rw [List.any_eq_true]
    exact ⟨_, hroot, by decide⟩
  rw [parseOfx, String.toList_ofList, htokens]
  dsimp only
  rw [hofx, if_neg (by simp)]

/-- The parser reads the elements one after the other, whatever stands between them. -/
theorem parseOfx_laid (hlaid : Laid Quiet dialect elements text)
    (helements : ∀ element ∈ elements, element.WellFormed) (hroot : .opening "OFX" ∈ elements) :
    parseOfx (String.ofList (header dialect ++ text)) = (do
      let s ← elements.foldlM readElement {}
      if s.current.isSome then throw (.parse "<STMTTRN> was never closed")
      return s.statement.stamped) := by
  obtain ⟨hstarts, hmem, hfold⟩ := hlaid.spec helements
  have hofx := hmem _ (List.mem_flatMap.2 ⟨_, hroot, List.mem_singleton_self _⟩)
  rw [parseOfx_eq dialect hstarts hofx, hfold, foldlM_flatMap_tokens helements]

/-- A comment before the elements does what its tokens do. -/
theorem parseOfx_commented (comment : List Char)
    (helements : ∀ element ∈ elements, element.WellFormed) (hroot : .opening "OFX" ∈ elements) :
    parseOfx (String.ofList (header dialect ++
        (commentText comment ++ elements.flatMap (Element.written dialect)))) = (do
      let s ← (tokenize (commentText comment)).foldlM step {}
      let s ← elements.foldlM readElement s
      if s.current.isSome then throw (.parse "<STMTTRN> was never closed")
      return s.statement.stamped) := by
  obtain ⟨hstarts, hmem, hfold⟩ := (Laid.plain elements).spec helements
  have hofx := hmem _ (List.mem_flatMap.2 ⟨_, hroot, List.mem_singleton_self _⟩)
  have htokens := (complete_comment comment).tokenize_append hstarts
  have hcomment : Starts (commentText comment ++ elements.flatMap (Element.written dialect)) :=
    ⟨[], _, rfl, nofun, .inr rfl⟩
  rw [parseOfx_eq dialect hcomment (htokens ▸ List.mem_append_right _ hofx), htokens,
    List.foldlM_append, bind_assoc]
  simp only [hfold, foldlM_flatMap_tokens helements]

end Layout

end SlipScan.Ingest.Ofx
