import SlipScan.Model.Ledger
import Mathlib.Algebra.BigOperators.Group.List.Basic

namespace SlipScan.Ledger.Posting

open Model.Domain Model.Database Model.Ledger Foundation.Transaction Foundation.Table
  Foundation.Chain Relation

variable (h : Host)

/-- What the checks of a posting establish, `lines` being the lines with normal currency codes. -/
structure Accepted (s : Db) (book : Book) (new : NewJournal) (lines : List NewJournalLine) :
    Prop where
  count : 2 ≤ new.lines.length
  date : (h.parseDate new.postedDate).isSome
  lock : ∀ lock, book.financialLockDate = some lock → lock < new.postedDate
  source : new.sourceType ≠ .manual → ∀ sourceId, new.sourceId = some sourceId →
    ∀ id ∈ findJournalsBySource s book.id new.sourceType sourceId, isNetReversed s id = .ok true
  normalized : List.Forall₂ (fun line line' ↦ normalizeLine line = .ok line') new.lines lines
  sides : ∀ line ∈ lines,
    (line.debitMinor = 0 ∧ 0 < line.creditMinor ∨ line.creditMinor = 0 ∧ 0 < line.debitMinor) ∧
      max line.debitMinor line.creditMinor ≤ maxLineAmountMinor
  balance : ∀ c, sideTotal NewJournalLine.debitMinor lines c =
    sideTotal NewJournalLine.creditMinor lines c
  accounts : ∀ line ∈ lines, ∃ a, getCoa s line.coaId = some a ∧ a.bookId = book.id ∧
    a.isArchived = false ∧ ∀ c, a.currency = some c → c = line.currency

section Checks

variable {h} {s : Db} {book : Book} {new : NewJournal} {lines : List NewJournalLine}
  {line : NewJournalLine}

theorem require_eq_ok {c : Prop} [Decidable c] {message : String} :
    require c message = .ok () ↔ c := by
  rw [require]
  split <;> simp [*]

theorem checkLineCount_eq_ok : checkLineCount lines = .ok () ↔ 2 ≤ lines.length := by
  rw [checkLineCount]
  split <;> simp <;> omega

theorem checkLock_eq_ok {date : String} : checkLock book date = .ok () ↔
    ∀ lock, book.financialLockDate = some lock → lock < date := by
  rw [checkLock]
  cases book.financialLockDate with
  | none => simp
  | some lock => simp only [except_ite_error_eq_ok, not_le, and_true, Option.some.injEq, forall_eq']

theorem checkSource_eq_ok : checkSource s book new = .ok () ↔
    (new.sourceType ≠ .manual → ∀ sourceId, new.sourceId = some sourceId →
      ∀ id ∈ findJournalsBySource s book.id new.sourceType sourceId,
        isNetReversed s id = .ok true) := by
  rw [checkSource]
  cases new.sourceId with
  | none => simp
  | some sourceId =>
    by_cases hm : new.sourceType = .manual
    · simp [hm]
    · simp only [ne_eq, hm, not_false_eq_true, if_true, except_forM_eq_ok, forall_const,
        Option.some.injEq, forall_eq']
      refine forall₂_congr fun id _ ↦ ?_
      cases hid : isNetReversed s id with
      | error e => simp [bind, Except.bind]
      | ok c => cases c <;> simp [bind, Except.bind]

theorem checkSides_eq_ok : checkSides line = .ok () ↔
    (line.debitMinor = 0 ∧ 0 < line.creditMinor ∨ line.creditMinor = 0 ∧ 0 < line.debitMinor) ∧
      max line.debitMinor line.creditMinor ≤ maxLineAmountMinor := by
  simp only [checkSides, except_ite_error_eq_ok, gt_iff_lt, not_not, not_lt, and_true]

theorem sideTotal_eq_zero {side : NewJournalLine → ℤ} {c : String}
    (hc : c ∉ lines.map NewJournalLine.currency) : sideTotal side lines c = 0 := by
  have hnil : lines.filter (fun l ↦ l.currency = c) = [] := by
    refine List.filter_eq_nil_iff.2 fun l hl hlc ↦ hc ?_
    simpa [← of_decide_eq_true hlc] using ⟨l, hl, rfl⟩
  rw [sideTotal, hnil]
  rfl

theorem checkBalance_eq_ok : checkBalance lines = .ok () ↔
    ∀ c, sideTotal NewJournalLine.debitMinor lines c =
      sideTotal NewJournalLine.creditMinor lines c := by
  simp only [checkBalance, except_forM_eq_ok, except_ite_error_eq_ok, not_not, and_true, ne_eq]
  constructor
  · intro hall c
    by_cases hc : c ∈ lines.map NewJournalLine.currency
    · exact hall c (by simpa [currencies, List.mem_insertionSort] using hc)
    · rw [sideTotal_eq_zero hc, sideTotal_eq_zero hc]
  · exact fun hall c _ ↦ hall c

theorem checkAccount_eq_ok : checkAccount s book line = .ok () ↔
    ∃ a, getCoa s line.coaId = some a ∧ a.bookId = book.id ∧ a.isArchived = false ∧
      ∀ c, a.currency = some c → c = line.currency := by
  rw [checkAccount]
  cases getCoa s line.coaId with
  | none => simp [orNotFound]
  | some a =>
    simp only [orNotFound, except_bind_eq_ok, Except.ok.injEq, exists_eq_left',
      except_ite_error_eq_ok, ne_eq, not_not, Option.some.injEq, Bool.not_eq_true]
    refine and_congr_right fun _ ↦ and_congr_right fun _ ↦ ?_
    rw [checkFixedCurrency]
    cases a.currency <;> simp

theorem parseDate_eq_ok {date : String} {d} :
    parseDate h date = .ok d ↔ h.parseDate date = some d := by
  rw [parseDate]
  cases h.parseDate date <;> simp

theorem validateJournal_eq_ok :
    validateJournal h s book new = .ok lines ↔ Accepted h s book new lines := by
  simp only [validateJournal, except_bind_eq_ok, exists_unit, except_pure_eq_ok,
    checkLineCount_eq_ok, checkLock_eq_ok, checkSource_eq_ok, except_mapM_eq_ok,
    except_forM_eq_ok, checkSides_eq_ok,
    checkBalance_eq_ok, checkAccount_eq_ok, parseDate_eq_ok]
  constructor
  · rintro ⟨h₁, d, h₂, h₃, h₄, l, h₅, h₆, h₇, h₈, rfl⟩
    exact ⟨h₁, by simp [h₂], h₃, h₄, h₅, h₆, h₇, h₈⟩
  · rintro ⟨h₁, h₂, h₃, h₄, h₅, h₆, h₇, h₈⟩
    obtain ⟨d, hd⟩ := Option.isSome_iff_exists.1 h₂
    exact ⟨h₁, d, hd, h₃, h₄, lines, h₅, h₆, h₇, h₈, rfl⟩

end Checks

section Storing

def storedLines (journal : Journal) : ℕ → ℕ → List NewJournalLine → List JournalLine
  | _, _, [] => []
  | n, order, line :: lines =>
    { id := h.newId n
      journalId := journal.id
      bookId := journal.bookId
      coaId := line.coaId
      debitMinor := line.debitMinor
      creditMinor := line.creditMinor
      currency := line.currency
      description := line.description
      lineOrder := order
      vatRateId := line.vatRateId
      vatRole := line.vatRole } :: storedLines journal (n + 1) (order + 1) lines

def postedJournal (s : Db) (book : Book) (new : NewJournal) (reversalOf : Option String)
    (lines : List NewJournalLine) : PostedJournal :=
  let journal : Journal :=
    { id := h.newId s.minted
      bookId := book.id
      postedDate := new.postedDate
      narrative := new.narrative
      reference := new.reference
      sourceType := new.sourceType
      sourceId := new.sourceId
      reversalOf
      createdAt := h.nowIso s.minted }
  ⟨journal, storedLines h journal (s.minted + 1) 0 lines⟩

def withPosted (s : Db) (p : PostedJournal) : Db :=
  { s with
    journals := s.journals ++ [p.journal]
    journalLines := s.journalLines ++ p.lines
    minted := s.minted + 1 + p.lines.length }

/-- The conditions under which a posting of `lines` goes through. -/
structure Posts (s : Db) (book : Book) (new : NewJournal) (reversalOf : Option String)
    (lines : List NewJournalLine) : Prop where
  accepted : Accepted h s book new lines
  fresh : ∀ j ∈ s.journals, j.id ≠ h.newId s.minted
  book_mem : references Book.id s.books book.id
  unreversed : ∀ k, reversalOf = some k → ∀ j ∈ s.journals, j.reversalOf ≠ some k
  original : ∀ k, reversalOf = some k → references Journal.id s.journals k
  rates : ∀ line ∈ lines, ∀ k ∈ line.vatRateId, references VatRate.id s.vatRates k
  lines_fresh : ∀ i < lines.length, ∀ l ∈ s.journalLines, l.id ≠ h.newId (s.minted + 1 + i)

variable {h} {s : Db} {book : Book} {new : NewJournal} {reversalOf : Option String}
  {lines : List NewJournalLine} {journal : Journal}

theorem ensures_constraint {c : Prop} [Decidable c] {m : String} {Q : Unit → Db → Prop} :
    Ensures (constraint c m) s Q ↔ (c → Q () s) := by
  rw [constraint]
  simp

theorem ensures_newId {Q : String → Db → Prop} :
    Ensures (newId h) s Q ↔ Q (h.newId s.minted) { s with minted := s.minted + 1 } := by
  simp [newId]

theorem ensures_nowIso {Q : String → Db → Prop} :
    Ensures (nowIso h) s Q ↔ Q (h.nowIso s.minted) s := by
  simp [nowIso]

@[simp]
theorem length_storedLines (n order : ℕ) :
    (storedLines h journal n order lines).length = lines.length := by
  induction lines generalizing n order with
  | nil => rfl
  | cons line lines ih => simp [storedLines, ih]

theorem storeLines_ensures (order : ℕ) :
    Ensures (storeLines h journal order lines) s fun stored s' ↦
      (∀ line ∈ lines, ∀ k ∈ line.vatRateId, references VatRate.id s.vatRates k) ∧
      (∀ i < lines.length, ∀ l ∈ s.journalLines, l.id ≠ h.newId (s.minted + i)) ∧
      stored = storedLines h journal s.minted order lines ∧
      s' = { s with
        journalLines := s.journalLines ++ stored
        minted := s.minted + stored.length } := by
  induction lines generalizing s order with
  | nil => simp [storeLines, storedLines]
  | cons line lines ih =>
    simp only [storeLines, insertLine, ensures_bind, ensures_newId, ensures_get,
      ensures_constraint, ensures_modify, ensures_pure]
    intro hfresh _ hrates _ _
    refine (ih (order + 1)).mono ?_
    rintro stored s' ⟨hrates', hfresh', rfl, rfl⟩
    refine ⟨?_, ?_, rfl, ?_⟩
    · exact List.forall_mem_cons.2 ⟨hrates, hrates'⟩
    · intro i hi l hl
      cases i with
      | zero => exact hfresh l hl
      | succ i =>
        have h := hfresh' i (by simpa using hi) l (List.mem_append_left _ hl)
        simpa only [Nat.add_right_comm, Nat.add_assoc] using h
    · simp only [List.length_cons, List.append_assoc, List.singleton_append,
        length_storedLines, Nat.add_assoc, Nat.add_comm 1]

theorem postJournalInTx_ensures :
    Ensures (postJournalInTx h book new reversalOf) s fun p s' ↦
      ∃ lines, Posts h s book new reversalOf lines ∧
        p = postedJournal h s book new reversalOf lines ∧ s' = withPosted s p := by
  simp only [postJournalInTx, insertJournal, ensures_bind, ensures_get, ensures_check,
    validateJournal_eq_ok, ensures_nowIso, ensures_newId, ensures_constraint, ensures_modify,
    ensures_pure]
  intro lines hacc hfresh hbook hunrev horig
  refine (storeLines_ensures 0).mono ?_
  rintro stored s' ⟨hrates, hlfresh, rfl, rfl⟩
  exact ⟨lines, ⟨hacc, hfresh, hbook, hunrev, horig, hrates, hlfresh⟩, rfl, rfl⟩

theorem checkNotReversed_eq_ok {id : String} :
    checkNotReversed s id = .ok () ↔ findReversal s id = none := by
  rw [checkNotReversed]
  cases findReversal s id <;> simp

theorem journalWithLines_eq_ok {id : String} {p : PostedJournal} :
    journalWithLines s id = .ok p ↔ getJournal s id = some p.journal ∧ linesForJournal s id = p.lines := by
  rw [journalWithLines]
  cases getJournal s id with
  | none => simp [orNotFound, bind, Except.bind]
  | some j =>
    obtain ⟨j', l'⟩ := p
    simp [orNotFound]

/-- What a successful reversal does: it posts the swapped lines, once for each journal. -/
theorem reverseJournalInTx_ensures {id : String} {date narrative : Option String} :
    Ensures (reverseJournalInTx h book id date narrative) s fun p s' ↦
      ∃ original lines, journalWithLines s id = .ok original ∧ findReversal s id = none ∧
        Posts h s book (reversalOfJournal book original date narrative) (some id) lines ∧
        p = postedJournal h s book (reversalOfJournal book original date narrative) (some id)
          lines ∧
        s' = withPosted s p := by
  simp only [reverseJournalInTx, ensures_bind, ensures_get, ensures_check]
  intro original horig _ hnone
  refine postJournalInTx_ensures.mono ?_
  rintro p s' ⟨lines, hposts, hp, hs'⟩
  exact ⟨original, lines, horig, checkNotReversed_eq_ok.1 hnone, hposts, hp, hs'⟩

end Storing

end SlipScan.Ledger.Posting
