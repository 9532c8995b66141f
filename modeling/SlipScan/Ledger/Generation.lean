import SlipScan.Arithmetic.Vat
import SlipScan.Ledger.Acceptance
import SlipScan.Model.Generate
import SlipScan.Model.PlainHost

namespace SlipScan.Ledger.Generation

open Model.Domain Model.Database Model.Ledger Model.Money Model.Generate Model.Region
  Model.PlainHost Model.Service Foundation.Transaction Foundation.Interleaving Foundation.Table
  Foundation.Rounding Foundation.Grouping Posting Lines Acceptance Amounts Arithmetic.Vat Process Function

section Reading

variable {s : Db} {bookId code : String} {book : Book} {txn : Transaction}

theorem run_coaByCode : (coaByCode bookId code).run s = (coaOrSeedFirst s bookId code, s) := by
  rw [coaByCode, run_query_bind, run_ofExcept]

def mappedCoa (s : Db) (bookId : String) (entityType : CoaMapEntity)
    (entityId fallbackCode : String) : Except Fault CoaAccount :=
  match (getCoaMap s bookId entityType entityId).bind fun e ↦ getCoa s e.coaId with
  | some coa => .ok coa
  | none => coaOrSeedFirst s bookId fallbackCode

theorem run_mappedOrFallbackCoa {entityType : CoaMapEntity} {entityId fallbackCode : String} :
    (mappedOrFallbackCoa bookId entityType entityId fallbackCode).run s =
      (mappedCoa s bookId entityType entityId fallbackCode, s) := by
  rw [mappedOrFallbackCoa, run_query_bind, mappedCoa]
  cases hentry : getCoaMap s bookId entityType entityId with
  | none => exact run_coaByCode
  | some entry =>
    rw [Option.bind_some]
    simp only []
    rw [run_query_bind]
    cases hcoa : getCoa s entry.coaId with
    | none => exact run_coaByCode
    | some coa => rfl

def counterOf (s : Db) (book : Book) (txn : Transaction) : Except Fault CoaAccount :=
  let fallback := counterFallback book.kind (txn.amountMinor < 0)
    (txn.categoryId.bind fun id ↦ (lookup Category.id s.categories id).map Category.kind)
  match txn.categoryId with
  | some categoryId => mappedCoa s book.id .category categoryId fallback
  | none => coaOrSeedFirst s book.id fallback

theorem run_counterAccount :
    (counterAccount book txn (txn.amountMinor < 0)).run s = (counterOf s book txn, s) := by
  rw [counterAccount, run_query_bind, counterOf]
  cases txn.categoryId with
  | none => exact run_coaByCode
  | some categoryId => exact run_mappedOrFallbackCoa

end Reading

section Split

variable {grossMinor rateBps : ℤ}

/-- The tax swallows the whole amount only for a single minor unit at 100 %. -/
theorem share_eq_self_iff (hrate : 0 < rateBps) (hrate' : rateBps ≤ 10000) (hgross : 0 < grossMinor) :
    share rateBps (10000 + rateBps) grossMinor = grossMinor ↔ grossMinor = 1 ∧ rateBps = 10000 := by
  have hx : (0 : ℚ) ≤ (grossMinor * rateBps : ℤ) / (10000 + rateBps : ℤ) := by positivity
  rw [share, roundHalfAway_of_nonneg hx, round_div (by omega), Int.ediv_eq_iff_of_pos (by omega),
    mul_add]
  have hmul : 0 < grossMinor * rateBps := mul_pos hgross hrate
  generalize grossMinor * rateBps = product at *
  constructor
  · omega
  · omega

theorem splitInclusive_parts (hrate : 0 ≤ rateBps) (hrate' : rateBps ≤ 10000)
    (hgross : 0 < grossMinor) (hword : grossMinor < 2 ^ 63) :
    (splitInclusive grossMinor rateBps).1 + (splitInclusive grossMinor rateBps).2 = grossMinor ∧
      0 ≤ (splitInclusive grossMinor rateBps).1 ∧ 0 ≤ (splitInclusive grossMinor rateBps).2 ∧
      ((splitInclusive grossMinor rateBps).1 = 0 ↔ grossMinor = 1 ∧ rateBps = 10000) := by
  rcases hrate.eq_or_lt with rfl | hpos
  · have hvat : vatFromInclusive grossMinor 0 = 0 := if_pos le_rfl
    rw [splitInclusive, hvat, sub_zero, asI64_of_mem (by omega) hword]
    exact ⟨add_zero _, hgross.le, le_rfl, by omega⟩
  · have hlaws := splitLaws hpos (by omega) (⟨by omega, hword⟩ : IsI64 grossMinor)
    obtain ⟨-, -, hsplit⟩ := splitInclusive_eq hpos (by omega) (⟨by omega, hword⟩ : IsI64 grossMinor)
    have hswallow := share_eq_self_iff hpos hrate' hgross
    have hsides := hlaws.nonneg hgross.le
    refine ⟨hlaws.sum, hsides.1.1, hsides.2.1, ?_⟩
    rw [hsplit, ← hswallow]
    omega

end Split

section Lines

variable {s : Db} {book : Book} {txn : Transaction} {bank counter control : CoaAccount}
  {isOutflow : Bool} {gross : ℤ} {rate : VatRate}

def rolesOf (kind : CoaKind) : VatRole × VatRole × String :=
  if kind = .expense then (.inputBase, .inputVat, coaCodeVatInput)
  else (.outputBase, .outputVat, coaCodeVatOutput)

def counterLine (currency : String) (isOutflow : Bool) (coa : CoaAccount) (amount : ℤ)
    (rate : Option VatRate) (role : Option VatRole) : NewJournalLine :=
  journalLine currency none coa (if isOutflow then amount else 0) (if isOutflow then 0 else amount)
    rate role

def counterLines (currency : String) (isOutflow : Bool) (counter control : CoaAccount) (gross : ℤ) :
    Option VatRate → List NewJournalLine
  | none => [counterLine currency isOutflow counter gross none none]
  | some rate =>
    counterLine currency isOutflow counter (splitInclusive gross rate.rateBps).1 (some rate)
        (some (rolesOf counter.kind).1) ::
      if (splitInclusive gross rate.rateBps).2 > 0 then
        [counterLine currency isOutflow control (splitInclusive gross rate.rateBps).2 (some rate)
          (some (rolesOf counter.kind).2.1)]
      else []

def bankLine (currency : String) (isOutflow : Bool) (bank : CoaAccount) (gross : ℤ) :
    NewJournalLine :=
  journalLine currency none bank (if isOutflow then 0 else gross) (if isOutflow then gross else 0)
    none none

def generatedLines (currency : String) (isOutflow : Bool) (bank counter control : CoaAccount)
    (gross : ℤ) (rate : Option VatRate) : List NewJournalLine :=
  if isOutflow then
    counterLines currency isOutflow counter control gross rate ++
      [bankLine currency isOutflow bank gross]
  else
    bankLine currency isOutflow bank gross ::
      counterLines currency isOutflow counter control gross rate

theorem run_taxedLines (hkind : counter.kind = .expense ∨ counter.kind = .income)
    (hcontrol : coaOrSeedFirst s book.id (rolesOf counter.kind).2.2 = .ok control) :
    (taxedLines (journalLine txn.currency none) book.id bank counter isOutflow gross rate).run s =
      (.ok (generatedLines txn.currency isOutflow bank counter control gross (some rate)), s) := by
  have hcheck : checkCounterKind rate counter = .ok () := if_pos hkind
  have hvat : (vatLines (journalLine txn.currency none) book.id (rolesOf counter.kind).2.2 isOutflow
      (splitInclusive gross rate.rateBps).2 rate (rolesOf counter.kind).2.1).run s =
      (.ok (if (splitInclusive gross rate.rateBps).2 > 0 then
        [counterLine txn.currency isOutflow control (splitInclusive gross rate.rateBps).2 (some rate)
          (some (rolesOf counter.kind).2.1)] else []), s) := by
    rw [vatLines]
    by_cases hpos : (splitInclusive gross rate.rateBps).2 > 0
    · rw [if_pos hpos, if_pos hpos, run_bind, run_coaByCode, hcontrol]
      cases isOutflow with
      | true => rfl
      | false => rfl
    · rw [if_neg hpos, if_neg hpos]
      rfl
  rw [taxedLines, hcheck]
  change (vatLines (journalLine txn.currency none) book.id (rolesOf counter.kind).2.2 isOutflow
      (splitInclusive gross rate.rateBps).2 rate (rolesOf counter.kind).2.1 >>= _).run s = _
  rw [run_bind, hvat]
  cases isOutflow with
  | true => rfl
  | false => rfl

theorem forall_generatedLines {P : NewJournalLine → Prop} {currency : String}
    {rate : Option VatRate} (hbank : P (bankLine currency isOutflow bank gross))
    (hcounter : ∀ line ∈ counterLines currency isOutflow counter control gross rate, P line) :
    ∀ line ∈ generatedLines currency isOutflow bank counter control gross rate, P line := by
  rw [generatedLines]
  split
  · exact List.forall_mem_append.2 ⟨hcounter, List.forall_mem_singleton.2 hbank⟩
  · exact List.forall_mem_cons.2 ⟨hbank, hcounter⟩

theorem generatedLines_perm {currency : String} {rate : Option VatRate} :
    (generatedLines currency isOutflow bank counter control gross rate).Perm
      (bankLine currency isOutflow bank gross ::
        counterLines currency isOutflow counter control gross rate) := by
  rw [generatedLines]
  split
  · exact List.perm_append_singleton _ _
  · exact List.Perm.refl _

theorem currency_generatedLines {currency : String} {rate : Option VatRate} :
    ∀ line ∈ generatedLines currency isOutflow bank counter control gross rate,
      line.currency = currency := by
  refine forall_generatedLines rfl fun line hline ↦ ?_
  cases rate with
  | none =>
    obtain rfl := List.mem_singleton.1 hline
    rfl
  | some rate =>
    rcases List.mem_cons.1 hline with rfl | hline
    · rfl
    · split at hline
      · obtain rfl := List.mem_singleton.1 hline
        rfl
      · cases hline

/-- The rates that a generated journal can have: none, or one from 0 to 100 %. -/
def RateInRange (rate : Option VatRate) : Prop :=
  ∀ r ∈ rate, 0 ≤ r.rateBps ∧ r.rateBps ≤ 10000

theorem sum_counterLines (currency : String) (isOutflow : Bool) (counter control : CoaAccount)
    {rate : Option VatRate} (hrate : RateInRange rate) (hgross : 0 < gross) (hword : gross < 2 ^ 63) :
    ((counterLines currency isOutflow counter control gross rate).map
        NewJournalLine.debitMinor).sum = (if isOutflow then gross else 0) ∧
      ((counterLines currency isOutflow counter control gross rate).map
        NewJournalLine.creditMinor).sum = if isOutflow then 0 else gross := by
  cases rate with
  | none => simp [counterLines, counterLine, journalLine]
  | some rate =>
    obtain ⟨hlow, hhigh⟩ := hrate rate rfl
    obtain ⟨hsum, -, hvat, -⟩ := splitInclusive_parts hlow hhigh hgross hword
    simp only [counterLines]
    generalize splitInclusive gross rate.rateBps = parts at *
    by_cases hpos : parts.2 > 0
    · cases isOutflow <;> simp [hpos, counterLine, journalLine, hsum]
    · have hzero : parts.2 = 0 := by omega
      rw [hzero, add_zero] at hsum
      cases isOutflow <;> simp [hpos, counterLine, journalLine, hsum]

/-- What a line against the bank can be: it has one positive side unless nothing is left of the
net. -/
theorem of_mem_counterLines {currency : String} {rate : Option VatRate}
    (hrate : RateInRange rate) (hgross : 0 < gross) (hword : gross < 2 ^ 63) {line : NewJournalLine}
    (hline : line ∈ counterLines currency isOutflow counter control gross rate) :
    (line.coaId = counter.id ∨ line.coaId = control.id) ∧
      line.vatRateId = rate.map VatRate.id ∧
      ∃ amount, line.debitMinor = (if isOutflow then amount else 0) ∧
        line.creditMinor = (if isOutflow then 0 else amount) ∧ amount ≤ gross ∧
        (¬(gross = 1 ∧ ∃ r ∈ rate, r.rateBps = 10000) → 0 < amount) := by
  cases rate with
  | none =>
    obtain rfl := List.mem_singleton.1 hline
    exact ⟨.inl rfl, rfl, gross, rfl, rfl, le_rfl, fun _ ↦ hgross⟩
  | some rate =>
    obtain ⟨hlow, hhigh⟩ := hrate rate rfl
    obtain ⟨hsum, hnet, hvat, hzero⟩ := splitInclusive_parts hlow hhigh hgross hword
    rcases List.mem_cons.1 hline with rfl | hline
    · refine ⟨.inl rfl, rfl, _, rfl, rfl, by omega, fun hnot ↦ ?_⟩
      have hne : (splitInclusive gross rate.rateBps).1 ≠ 0 := by
        intro heq
        exact hnot ⟨(hzero.1 heq).1, rate, rfl, (hzero.1 heq).2⟩
      omega
    · split at hline
      · next hpos =>
        obtain rfl := List.mem_singleton.1 hline
        exact ⟨.inr rfl, rfl, _, rfl, rfl, by omega, fun _ ↦ hpos⟩
      · cases hline

end Lines

section Generation

variable {h : Host} {s t : Db} {book : Book} {txn : Transaction} {rate : Option VatRate}
  {p : PostedJournal}

/-- A transaction of a business book, as it was imported, with its period open and without a
journal, and the chart of the book as it was seeded. -/
structure Ready (h : Host) (s : Db) (book : Book) (txn : Transaction) : Prop where
  found : lookup Transaction.id s.transactions txn.id = some txn
  bookFound : getBook s txn.bookId = some book
  business : book.kind = .business
  nonzero : txn.amountMinor ≠ 0
  limit : |txn.amountMinor| ≤ maxLineAmountMinor
  currency : normalizeCurrencyCode txn.currency = .ok txn.currency
  date : (h.parseDate txn.postedDate).isSome
  unlocked : ∀ lock, book.financialLockDate = some lock → lock < txn.postedDate
  unposted : ∀ j ∈ s.journals,
    ¬(j.bookId = book.id ∧ j.sourceType = .transaction ∧ j.sourceId = some txn.id)
  seeded : ∀ seed ∈ (profileOrGeneric book.region).businessCoa,
    (getCoaByCode s book.id seed.1).isSome
  plain : ∀ a ∈ s.coa, a.bookId = book.id → a.isArchived = false ∧ a.currency = none
  keyed : s.coa.Pairwise fun a b ↦ a.id ≠ b.id
  mapped : ∀ e ∈ s.coaMap, e.bookId = book.id → ∀ a, getCoa s e.coaId = some a → a.bookId = book.id
  counter : ∀ a, counterOf s book txn = .ok a → a.kind = .expense ∨ a.kind = .income
  newId : Injective h.newId
  fresh : ∀ n ≥ s.minted,
    (∀ j ∈ s.journals, j.id ≠ h.newId n) ∧ ∀ l ∈ s.journalLines, l.id ≠ h.newId n

def Chosen (s : Db) (book : Book) (rate : Option VatRate) : Prop :=
  ∀ r ∈ rate, ((listVatRates s book.id).find? fun x ↦ x.id = r.id) = some r ∧ r.isActive = true ∧
    0 ≤ r.rateBps ∧ r.rateBps ≤ 10000

/-- The journal balances, its bank line is the transaction, and its other lines add up to it. -/
structure Generated (s : Db) (book : Book) (txn : Transaction) (rate : Option VatRate)
    (p : PostedJournal) : Prop where
  currency : ∀ l ∈ p.lines, l.currency = txn.currency
  balanced : (p.lines.map JournalLine.debitMinor).sum = (p.lines.map JournalLine.creditMinor).sum
  split : ∃ bank, mappedCoa s book.id .account txn.accountId coaCodeBank = .ok bank ∧
    ∃ line others, (p.lines.map content).Perm (line :: others) ∧ line.coaId = bank.id ∧
      line.debitMinor - line.creditMinor = txn.amountMinor ∧
      (others.map fun l ↦ l.creditMinor - l.debitMinor).sum = txn.amountMinor ∧
      ∀ l ∈ others, l.vatRateId = rate.map VatRate.id

def Generates (h : Host) (s : Db) (book : Book) (txn : Transaction) (rate : Option VatRate) : Prop :=
  ∃ p t, (journalGenerateForTransaction h txn.id (rate.map VatRate.id)).run s = (.ok p, t) ∧
    Generated s book txn rate p

theorem codes_seeded (region : String) :
    ∀ code ∈ ["1000", "1400", "2100", "4200", "6900"],
      ∃ seed ∈ (profileOrGeneric region).businessCoa, seed.1 = code := by
  rcases profile_cases region with hregion | hregion
  · rw [hregion]
    decide
  · rw [hregion]
    decide

theorem Ready.byCode (hr : Ready h s book txn) {code : String}
    (hcode : code ∈ ["1000", "1400", "2100", "4200", "6900"]) :
    ∃ a ∈ s.coa, coaOrSeedFirst s book.id code = .ok a ∧ a.bookId = book.id := by
  obtain ⟨seed, hseed, rfl⟩ := codes_seeded book.region code hcode
  obtain ⟨a, ha⟩ := Option.isSome_iff_exists.1 (hr.seeded seed hseed)
  have hpred := List.find?_some ha
  simp only [decide_eq_true_eq] at hpred
  refine ⟨a, List.mem_of_find?_eq_some ha, ?_, hpred.1⟩
  rw [coaOrSeedFirst, ha]

theorem Ready.mappedCoa (hr : Ready h s book txn) {code : String}
    (hcode : code ∈ ["1000", "1400", "2100", "4200", "6900"]) (entityType : CoaMapEntity)
    (entityId : String) :
    ∃ a ∈ s.coa, mappedCoa s book.id entityType entityId code = .ok a ∧ a.bookId = book.id := by
  rw [Generation.mappedCoa]
  cases hentry : (getCoaMap s book.id entityType entityId).bind fun e ↦ getCoa s e.coaId with
  | none => exact hr.byCode hcode
  | some a =>
    obtain ⟨e, he, ha⟩ := Option.bind_eq_some_iff.1 hentry
    have hpred := List.find?_some he
    simp only [decide_eq_true_eq] at hpred
    exact ⟨a, (lookup_eq_some ha).1, rfl,
      hr.mapped e (List.mem_of_find?_eq_some he) hpred.1 a ha⟩

theorem Ready.counterOf (hr : Ready h s book txn) :
    ∃ a ∈ s.coa, counterOf s book txn = .ok a ∧ a.bookId = book.id := by
  have hcode : ∀ kind, counterFallback book.kind (txn.amountMinor < 0) kind ∈
      ["1000", "1400", "2100", "4200", "6900"] := by
    intro kind
    rw [hr.business]
    rcases kind with _ | _ | _ | _ <;> cases decide (txn.amountMinor < 0) <;> decide
  rw [Generation.counterOf]
  cases txn.categoryId with
  | none => exact hr.byCode (hcode _)
  | some categoryId => exact hr.mappedCoa (hcode _) _ _

def journalOf (book : Book) (txn : Transaction) (lines : List NewJournalLine) : NewJournal :=
  { bookId := book.id
    postedDate := txn.postedDate
    narrative := txn.merchant.or txn.description
    reference := txn.providerTxnId
    sourceType := .transaction
    sourceId := some txn.id
    lines }

theorem run_transactionLines {bank counter control : CoaAccount} {isOutflow : Bool} {gross : ℤ}
    (hchosen : Chosen s book rate) (hkind : counter.kind = .expense ∨ counter.kind = .income)
    (hcontrol : coaOrSeedFirst s book.id (rolesOf counter.kind).2.2 = .ok control) :
    (transactionLines book txn bank counter isOutflow gross (rate.map VatRate.id)).run s =
      (.ok (generatedLines txn.currency isOutflow bank counter control gross rate), s) := by
  cases rate with
  | none =>
    cases isOutflow with
    | true => rfl
    | false => rfl
  | some rate =>
    obtain ⟨hfind, hactive, -⟩ := hchosen rate rfl
    have hcheck : checkRateActive rate = .ok () := by simp [checkRateActive, hactive]
    rw [Option.map_some, transactionLines, run_query_bind, hfind, orNotFound,
      run_bind_of_ok (run_ofExcept _ s),
      run_bind_of_ok (t := s) (a := ()) (by rw [hcheck, run_ofExcept])]
    exact run_taxedLines hkind hcontrol

theorem run_generate (hr : Ready h s book txn) (hchosen : Chosen s book rate) :
    ∃ bank ∈ s.coa, mappedCoa s book.id .account txn.accountId coaCodeBank = .ok bank ∧
      bank.bookId = book.id ∧
    ∃ counter ∈ s.coa, counter.bookId = book.id ∧
    ∃ control ∈ s.coa, control.bookId = book.id ∧
      (journalGenerateForTransaction h txn.id (rate.map VatRate.id)).run s =
        commit (postJournalInTx h book (journalOf book txn
          (generatedLines txn.currency (txn.amountMinor < 0) bank counter control |txn.amountMinor|
            rate)) none) s := by
  obtain ⟨bank, hbank, hbankOk, hbankBook⟩ := hr.mappedCoa (by decide : coaCodeBank ∈ _)
    .account txn.accountId
  obtain ⟨counter, hcounter, hcounterOk, hcounterBook⟩ := hr.counterOf
  have hkind := hr.counter counter hcounterOk
  have hcode : (rolesOf counter.kind).2.2 ∈ ["1000", "1400", "2100", "4200", "6900"] := by
    rcases hkind with hkind | hkind
    · rw [hkind]
      decide
    · rw [hkind]
      decide
  obtain ⟨control, hcontrol, hcontrolOk, hcontrolBook⟩ := hr.byCode hcode
  refine ⟨bank, hbank, hbankOk, hbankBook, counter, hcounter, hcounterBook, control, hcontrol,
    hcontrolBook, ?_⟩
  have hlimit := hr.limit
  have hword : asI64 |txn.amountMinor| = |txn.amountMinor| := by
    rw [maxLineAmountMinor] at hlimit
    exact asI64_of_mem (by have := abs_nonneg txn.amountMinor; omega) (by omega)
  have hnonzero : require (|txn.amountMinor| ≠ 0)
      "cannot generate a journal for a zero-amount transaction" = .ok () :=
    if_pos (abs_ne_zero.2 hr.nonzero)
  have hbook : (bookGet txn.bookId).run s = (.ok book, s) := by
    rw [bookGet, run_query_bind, hr.bookFound, run_ofExcept, orNotFound]
  rw [journalGenerateForTransaction, run_query_bind, hr.found, orNotFound,
    run_bind_of_ok (run_ofExcept _ s), run_bind_of_ok hbook, hword]
  dsimp only
  rw [hnonzero, run_bind_of_ok (run_ofExcept _ s),
    run_bind_of_ok (run_mappedOrFallbackCoa.trans (congrArg (·, s) hbankOk)),
    run_bind_of_ok (run_counterAccount.trans (congrArg (·, s) hcounterOk)),
    run_bind_of_ok (run_transactionLines hchosen hkind hcontrolOk), run_atomically, journalOf]

theorem Ready.bounds (hr : Ready h s book txn) :
    0 < |txn.amountMinor| ∧ |txn.amountMinor| < 2 ^ 63 := by
  have hlimit := hr.limit
  rw [maxLineAmountMinor] at hlimit
  exact ⟨abs_pos.2 hr.nonzero, by omega⟩

theorem sum_generatedLines {currency : String} {isOutflow : Bool}
    {bank counter control : CoaAccount} {gross : ℤ} (hrate : RateInRange rate) (hgross : 0 < gross)
    (hword : gross < 2 ^ 63) :
    ((generatedLines currency isOutflow bank counter control gross rate).map
        NewJournalLine.debitMinor).sum =
      ((generatedLines currency isOutflow bank counter control gross rate).map
        NewJournalLine.creditMinor).sum := by
  obtain ⟨hdebit, hcredit⟩ := sum_counterLines currency isOutflow counter control hrate hgross hword
  rw [(generatedLines_perm.map _).sum_eq, (generatedLines_perm.map _).sum_eq, List.map_cons,
    List.map_cons, List.sum_cons, List.sum_cons, hdebit, hcredit]
  cases isOutflow <;> simp [bankLine, journalLine]

/-- The generated lines pass every check unless nothing is left of the net. -/
theorem posts_of_ready (hr : Ready h s book txn) (hchosen : Chosen s book rate)
    (hleft : ¬(|txn.amountMinor| = 1 ∧ ∃ r ∈ rate, r.rateBps = 10000)) (isOutflow : Bool)
    {bank counter control : CoaAccount} (hbank : bank ∈ s.coa ∧ bank.bookId = book.id)
    (hcounter : counter ∈ s.coa ∧ counter.bookId = book.id)
    (hcontrol : control ∈ s.coa ∧ control.bookId = book.id) :
    Posts h s book (journalOf book txn
      (generatedLines txn.currency isOutflow bank counter control |txn.amountMinor| rate)) none
      (generatedLines txn.currency isOutflow bank counter control |txn.amountMinor| rate) := by
  obtain ⟨hgross, hword⟩ := hr.bounds
  have hrate : RateInRange rate := fun r hr ↦ (hchosen r hr).2.2
  have haccount : ∀ a, a ∈ s.coa ∧ a.bookId = book.id → ∃ b, getCoa s a.id = some b ∧
      b.bookId = book.id ∧ b.isArchived = false ∧ ∀ c, b.currency = some c → c = txn.currency := by
    intro a ⟨hmem, hbook⟩
    obtain ⟨harchived, hcurrency⟩ := hr.plain a hmem hbook
    exact ⟨a, lookup_of_mem hr.keyed hmem, hbook, harchived, fun c hc ↦ by
      rw [hcurrency] at hc
      cases hc⟩
  refine ⟨⟨?_, hr.date, hr.unlocked, ?_, ?_, ?_, ?_, ?_⟩, ?_, ?_, by simp, by simp, ?_, ?_⟩
  · change 2 ≤ (generatedLines _ _ _ _ _ _ _).length
    rw [generatedLines_perm.length_eq]
    cases rate <;> simp [counterLines]
  · intro _ sourceId hsource id hid
    obtain rfl := Option.some.inj hsource
    obtain ⟨j, hj, -⟩ := List.mem_map.1 hid
    rw [List.mem_insertionSort, List.mem_filter, decide_eq_true_eq] at hj
    exact (hr.unposted j hj.1 hj.2).elim
  · apply normalized_self
    intro line hline
    rw [currency_generatedLines line hline]
    exact hr.currency
  · have hlimit := hr.limit
    apply forall_generatedLines
    · cases isOutflow with
      | true => simp [bankLine, journalLine, hlimit, hr.nonzero]
      | false => simp [bankLine, journalLine, hlimit, hr.nonzero]
    · intro line hline
      obtain ⟨-, -, amount, hdebit, hcredit, hle, hpos⟩ :=
        of_mem_counterLines hrate hgross hword hline
      have hpositive := hpos hleft
      rw [hdebit, hcredit]
      cases isOutflow with
      | true => exact ⟨.inr ⟨rfl, hpositive⟩, by simp; omega⟩
      | false => exact ⟨.inl ⟨rfl, hpositive⟩, by simp; omega⟩
  · exact balance_of_sum currency_generatedLines (sum_generatedLines hrate hgross hword)
  · intro line hline
    rw [currency_generatedLines line hline]
    revert line
    apply forall_generatedLines
    · exact haccount bank hbank
    · intro line hline
      rcases (of_mem_counterLines hrate hgross hword hline).1 with hid | hid
      · exact hid ▸ haccount counter hcounter
      · exact hid ▸ haccount control hcontrol
  · exact (hr.fresh _ le_rfl).1
  · obtain ⟨hmem, hid⟩ := lookup_eq_some hr.bookFound
    exact isSome_lookup.2 ⟨book, hmem, rfl⟩
  · apply forall_generatedLines
    · exact fun k hk ↦ nomatch hk
    · intro line hline k hk
      rw [(of_mem_counterLines hrate hgross hword hline).2.1, Option.mem_map] at hk
      obtain ⟨r, hmem, rfl⟩ := hk
      have hlisted := List.mem_of_find?_eq_some (hchosen r hmem).1
      rw [listVatRates, List.mem_insertionSort, List.mem_filter] at hlisted
      exact isSome_lookup.2 ⟨r, hlisted.1, rfl⟩
  · exact fun i _ l hl ↦ (hr.fresh _ (by omega)).2 l hl

theorem generated_of_content (hr : Ready h s book txn) (hchosen : Chosen s book rate)
    {bank counter control : CoaAccount}
    (hbank : mappedCoa s book.id .account txn.accountId coaCodeBank = .ok bank)
    (hlines : p.lines.map content = generatedLines txn.currency (txn.amountMinor < 0) bank counter
      control |txn.amountMinor| rate) : Generated s book txn rate p := by
  obtain ⟨hgross, hword⟩ := hr.bounds
  have hrate : RateInRange rate := fun r hr ↦ (hchosen r hr).2.2
  have hmap : ∀ f : NewJournalLine → ℤ,
      (p.lines.map fun l ↦ f (content l)) = (p.lines.map content).map f := by
    intro f
    rw [List.map_map]
    rfl
  obtain ⟨hdebit, hcredit⟩ := sum_counterLines txn.currency (txn.amountMinor < 0) counter control
    hrate hgross hword
  refine ⟨?_, ?_, bank, hbank, bankLine txn.currency (txn.amountMinor < 0) bank |txn.amountMinor|,
    counterLines txn.currency (txn.amountMinor < 0) counter control |txn.amountMinor| rate, ?_, rfl,
    ?_, ?_, ?_⟩
  · intro l hl
    have hmem : content l ∈ p.lines.map content := List.mem_map_of_mem hl
    rw [hlines] at hmem
    exact currency_generatedLines (content l) hmem
  · change (p.lines.map fun l ↦ (content l).debitMinor).sum =
      (p.lines.map fun l ↦ (content l).creditMinor).sum
    rw [hmap, hmap, hlines, sum_generatedLines hrate hgross hword]
  · rw [hlines]
    exact generatedLines_perm
  · rcases lt_or_ge txn.amountMinor 0 with hneg | hpos
    · simp [bankLine, journalLine, hneg, abs_of_neg hneg]
    · simp [bankLine, journalLine, hpos.not_gt, abs_of_nonneg hpos]
  · rw [sum_map_sub, hdebit, hcredit]
    rcases lt_or_ge txn.amountMinor 0 with hneg | hpos
    · simp [hneg, abs_of_neg hneg]
    · simp [hpos.not_gt, abs_of_nonneg hpos]
  · exact fun l hl ↦ (of_mem_counterLines hrate hgross hword hl).2.1

/-- A journal can be generated for a transaction unless it is of one minor unit at a rate of 100 %:
the tax rounds up to the whole amount, and the line of the net has no positive side. -/
theorem generates_iff (hr : Ready h s book txn) (hchosen : Chosen s book rate) :
    Generates h s book txn rate ↔ ¬(|txn.amountMinor| = 1 ∧ ∃ r ∈ rate, r.rateBps = 10000) := by
  obtain ⟨bank, hbank, hbankOk, hbankBook, counter, hcounter, hcounterBook, control, hcontrol,
    hcontrolBook, hrun⟩ := run_generate hr hchosen
  constructor
  · intro hgenerates hswallowed
    obtain ⟨p, t, hok, -⟩ := hgenerates
    obtain ⟨hone, r, hmem, hfull⟩ := hswallowed
    obtain rfl : rate = some r := hmem
    rw [hrun] at hok
    obtain ⟨lines, hposts, -⟩ := postJournalInTx_ensures p t (commit_ok hok)
    have hlines := normalized_eq (fun line hline ↦ ?_) hposts.accepted.normalized
    · have hnet : (splitInclusive |txn.amountMinor| r.rateBps).1 = 0 := by
        rw [hone, hfull]
        decide
      have hsides := (hposts.accepted.sides (counterLine txn.currency (txn.amountMinor < 0) counter
        (splitInclusive |txn.amountMinor| r.rateBps).1 (some r) (some (rolesOf counter.kind).1)) ?_).1
      · simp [counterLine, journalLine, hnet] at hsides
      · rw [hlines]
        exact generatedLines_perm.mem_iff.2 (List.mem_cons_of_mem _ (List.mem_cons_self ..))
    · rw [currency_generatedLines line hline]
      exact hr.currency
  · intro hleft
    have hposts := posts_of_ready hr hchosen hleft (txn.amountMinor < 0) ⟨hbank, hbankBook⟩
      ⟨hcounter, hcounterBook⟩ ⟨hcontrol, hcontrolBook⟩
    have hpost := postJournalInTx_succeeds hposts hr.newId
    refine ⟨_, _, hrun.trans (commit_of_ok hpost), ?_⟩
    exact generated_of_content hr hchosen hbankOk (map_content_storedLines _ _)

def centBook : Db :=
  runs setup [.coaSeed "book", .vatRateSetBps "book" "STD" 10000,
    .transactionCreate ⟨"book", "account", .manual, none, "2025-06-01", -1, "ZAR", none, none, none,
      none, 0⟩]

def cent : Transaction :=
  ⟨plainHost.newId 40, "book", "account", none, .manual, none, "2025-06-01", "2025-06-01", -1, "ZAR",
    none, none, none, .pending⟩

def fullRate : VatRate :=
  ⟨plainHost.newId 37, "book", "STD", "Standard rate (15%)", 10000, true⟩

def zeroRate : VatRate :=
  ⟨plainHost.newId 38, "book", "ZER", "Zero-rated (0%)", 0, true⟩

theorem centBook_rows :
    (lookup Transaction.id centBook.transactions cent.id = some cent ∧
      getBook centBook cent.bookId = some plainBook) ∧
    (centBook.journals = [] ∧ centBook.journalLines = [] ∧ centBook.coaMap = []) ∧
    (∀ seed ∈ (profileOrGeneric plainBook.region).businessCoa,
      (getCoaByCode centBook plainBook.id seed.1).isSome) ∧
    (∀ a ∈ centBook.coa, a.bookId = plainBook.id → a.isArchived = false ∧ a.currency = none) ∧
    (centBook.coa.Pairwise fun a b ↦ a.id ≠ b.id) ∧
    counterOf centBook plainBook cent =
      .ok ⟨plainHost.newId 36, "book", "6900", "General Expenses", .expense, none, false⟩ ∧
    (∀ r ∈ [fullRate, zeroRate],
      ((listVatRates centBook plainBook.id).find? fun x ↦ x.id = r.id) = some r) ∧
    ((journalGenerateForTransaction plainHost cent.id (some fullRate.id)).run centBook).1.isOk =
      false := by
  decide +kernel

theorem ready_cent : Ready plainHost centBook plainBook cent := by
  obtain ⟨⟨hfound, hbook⟩, ⟨hjournals, hlines, hmap⟩, hseeded, hplain, hkeyed, hcounter, -⟩ :=
    centBook_rows
  exact
    { found := hfound
      bookFound := hbook
      business := rfl
      nonzero := by decide
      limit := by decide
      currency := by decide +kernel
      date := by decide +kernel
      unlocked := by simp [plainBook]
      unposted := by simp [hjournals]
      seeded := hseeded
      plain := hplain
      keyed := hkeyed
      mapped := by simp [hmap]
      counter := by
        intro a ha
        obtain rfl := Except.ok.inj (ha.symm.trans hcounter)
        exact .inl rfl
      newId := plainHost_newId
      fresh := by simp [hjournals, hlines] }

theorem chosen_of_mem {r : VatRate} (hr : r ∈ [fullRate, zeroRate]) :
    Chosen centBook plainBook (some r) := by
  intro r' hr'
  obtain rfl := Option.some.inj hr'
  refine ⟨centBook_rows.2.2.2.2.2.2.1 r hr, ?_⟩
  revert r
  decide

/-- At 0 % the journal of the cent is posted. -/
theorem generates_cent : Generates plainHost centBook plainBook cent (some zeroRate) := by
  refine (generates_iff ready_cent (chosen_of_mem (by decide))).2 fun hswallowed ↦ ?_
  obtain ⟨-, r, hr, hfull⟩ := hswallowed
  obtain rfl := Option.some.inj hr
  revert hfull
  decide

/-- At 100 % the call for the cent is refused. -/
theorem generation_refuses_cent :
    ¬∀ (h : Host) (s : Db) (book : Book) (txn : Transaction) (rate : Option VatRate),
      Ready h s book txn → Chosen s book rate → Generates h s book txn rate := by
  intro hclaim
  obtain ⟨p, t, hrun, -⟩ := hclaim _ _ _ _ _ ready_cent (chosen_of_mem (r := fullRate) (by decide))
  obtain ⟨-, -, -, -, -, -, -, hrefused⟩ := centBook_rows
  change ((journalGenerateForTransaction plainHost cent.id (some fullRate.id)).run centBook) = _ at hrun
  rw [hrun] at hrefused
  cases hrefused

end Generation

end SlipScan.Ledger.Generation
