import SlipScan.Foundation.Grouping
import SlipScan.Ledger.Posting

namespace SlipScan.Ledger.Lines

open Model.Domain Model.Database Model.Ledger Foundation.Transaction Foundation.Table
  Foundation.Grouping Posting

section Currency

theorem upper_letters : ∀ n : Fin 123, isAsciiAlphabetic (Char.ofNat n) →
    isAsciiAlphabetic (Char.ofNat n).toUpper ∧ isWhitespace (Char.ofNat n).toUpper = false ∧
      (Char.ofNat n).toUpper.toUpper = (Char.ofNat n).toUpper := by
  decide

theorem toUpper_letter {c : Char} (hc : isAsciiAlphabetic c) :
    isAsciiAlphabetic c.toUpper ∧ isWhitespace c.toUpper = false ∧
      c.toUpper.toUpper = c.toUpper := by
  have hlt : c.toNat < 123 := by
    simp only [isAsciiAlphabetic, Bool.or_eq_true, Bool.and_eq_true, decide_eq_true_eq,
      Char.le_def] at hc
    rcases hc with ⟨-, hle⟩ | ⟨-, hle⟩
    · exact Nat.lt_succ_of_le hle
    · exact Nat.lt_of_le_of_lt hle (by decide)
  have hletter := upper_letters ⟨c.toNat, hlt⟩
  simp only [Char.ofNat_toNat] at hletter
  exact hletter hc

theorem dropWhile_eq_self {p : Char → Bool} {l : List Char} (hl : ∀ c ∈ l, p c = false) :
    l.dropWhile p = l := by
  cases l with
  | nil => rfl
  | cons c l => simp [hl c (by simp)]

theorem normalizeCurrencyCode_idem {raw code : String}
    (hcode : normalizeCurrencyCode raw = .ok code) : normalizeCurrencyCode code = .ok code := by
  simp only [normalizeCurrencyCode] at hcode
  split at hcode
  · rename_i hletters
    obtain ⟨hlength, hall⟩ := hletters
    obtain rfl := Except.ok.inj hcode
    generalize (trim raw).toList = letters at hlength hall
    have hupper : ∀ c ∈ letters.map Char.toUpper, isAsciiAlphabetic c ∧ isWhitespace c = false ∧
        c.toUpper = c := by
      simp only [List.forall_mem_map]
      exact fun c hc ↦ toUpper_letter (List.all_eq_true.1 hall c hc)
    have htrim : trim (String.ofList (letters.map Char.toUpper)) =
        String.ofList (letters.map Char.toUpper) := by
      have hspace : ∀ c ∈ letters.map Char.toUpper, isWhitespace c = false := fun c hc ↦
        (hupper c hc).2.1
      rw [trim, String.toList_ofList, dropWhile_eq_self hspace,
        dropWhile_eq_self (by simpa using hspace), List.reverse_reverse]
    have hfix : (letters.map Char.toUpper).map Char.toUpper = letters.map Char.toUpper :=
      (List.map_congr_left fun c hc ↦ (hupper c hc).2.2).trans (List.map_id _)
    rw [normalizeCurrencyCode, htrim, String.toList_ofList, if_pos, hfix]
    exact ⟨by rwa [List.length_map], List.all_eq_true.2 fun c hc ↦ (hupper c hc).1⟩
  · cases hcode

theorem normalizeLine_eq_ok {line line' : NewJournalLine} : normalizeLine line = .ok line' ↔
    normalizeCurrencyCode line.currency = .ok line'.currency ∧
      line' = { line with currency := line'.currency } := by
  simp only [normalizeLine, except_bind_eq_ok, except_pure_eq_ok]
  constructor
  · rintro ⟨code, hcode, rfl⟩
    exact ⟨hcode, rfl⟩
  · rintro ⟨hcode, hline⟩
    exact ⟨_, hcode, hline.symm⟩

theorem normalized_eq {lines lines' : List NewJournalLine}
    (hnormal : ∀ line ∈ lines, normalizeCurrencyCode line.currency = .ok line.currency)
    (hlines : List.Forall₂ (fun line line' ↦ normalizeLine line = .ok line') lines lines') :
    lines' = lines := by
  induction hlines with
  | nil => rfl
  | @cons line line' lines lines' hline _ ih =>
    rw [List.forall_mem_cons] at hnormal
    obtain ⟨hcode, hline'⟩ := normalizeLine_eq_ok.1 hline
    rw [hnormal.1] at hcode
    rw [ih hnormal.2, hline', ← Except.ok.inj hcode]

theorem canonical_of_normalized {lines lines' : List NewJournalLine}
    (hlines : List.Forall₂ (fun line line' ↦ normalizeLine line = .ok line') lines lines') :
    ∀ line ∈ lines', normalizeCurrencyCode line.currency = .ok line.currency := by
  induction hlines with
  | nil => simp
  | cons hline _ ih =>
    exact List.forall_mem_cons.2 ⟨normalizeCurrencyCode_idem (normalizeLine_eq_ok.1 hline).1, ih⟩

end Currency

section Content

def content (l : JournalLine) : NewJournalLine :=
  { coaId := l.coaId
    debitMinor := l.debitMinor
    creditMinor := l.creditMinor
    currency := l.currency
    description := l.description
    vatRateId := l.vatRateId
    vatRole := l.vatRole }

variable {h : Host} {s : Db} {journal : Journal} {lines : List NewJournalLine}

theorem map_content_storedLines (n order : ℕ) :
    (storedLines h journal n order lines).map content = lines := by
  induction lines generalizing n order with
  | nil => rfl
  | cons line lines ih => simp only [storedLines, List.map_cons, ih, content]

/-- Totals over posted lines are totals over what they were posted from. -/
theorem groupSum_storedLines {κ : Type} [DecidableEq κ] (key : NewJournalLine → κ)
    (f : NewJournalLine → ℤ) (n order : ℕ) (k : κ) :
    groupSum (fun l ↦ key (content l)) (fun l ↦ f (content l))
      (storedLines h journal n order lines) k = groupSum key f lines k := by
  have hmap := groupSum_map key f content (storedLines h journal n order lines) k
  rw [map_content_storedLines] at hmap
  exact hmap.symm

theorem content_mem {n order : ℕ} {l : JournalLine}
    (hl : l ∈ storedLines h journal n order lines) : content l ∈ lines := by
  have hmem := List.mem_map_of_mem (f := content) hl
  rwa [map_content_storedLines] at hmem

theorem journalId_of_mem {n order : ℕ} {l : JournalLine}
    (hl : l ∈ storedLines h journal n order lines) :
    l.journalId = journal.id ∧ l.bookId = journal.bookId ∧ order ≤ l.lineOrder := by
  induction lines generalizing n order with
  | nil => simp [storedLines] at hl
  | cons line lines ih =>
    rcases List.mem_cons.1 hl with rfl | hl
    · exact ⟨rfl, rfl, le_rfl⟩
    · obtain ⟨hid, hbook, horder⟩ := ih hl
      exact ⟨hid, hbook, Nat.le_of_succ_le horder⟩

theorem sorted_storedLines (n order : ℕ) :
    (storedLines h journal n order lines).Pairwise fun a b ↦ a.lineOrder ≤ b.lineOrder := by
  induction lines generalizing n order with
  | nil => exact .nil
  | cons line lines ih =>
    exact .cons (fun l hl ↦ Nat.le_of_succ_le (journalId_of_mem hl).2.2) (ih _ _)

variable {book : Book} {new : NewJournal} {reversalOf : Option String}

theorem mem_linesForJournal {id : String} {l : JournalLine} :
    l ∈ linesForJournal s id ↔ l ∈ s.journalLines ∧ l.journalId = id := by
  simp [linesForJournal, List.mem_insertionSort]

theorem linesForJournal_withPosted_of_ne {id : String} (hid : id ≠ h.newId s.minted) :
    linesForJournal (withPosted s (postedJournal h s book new reversalOf lines)) id =
      linesForJournal s id := by
  have hnil : (postedJournal h s book new reversalOf lines).lines.filter
      (fun l ↦ l.journalId = id) = [] :=
    List.filter_eq_nil_iff.2 fun l hl ↦ by simpa [(journalId_of_mem hl).1] using hid.symm
  simp only [linesForJournal, withPosted, List.filter_append, hnil, List.append_nil]

theorem linesForJournal_withPosted_self (hfresh : ∀ l ∈ s.journalLines,
    l.journalId ≠ h.newId s.minted) :
    linesForJournal (withPosted s (postedJournal h s book new reversalOf lines))
      (h.newId s.minted) = (postedJournal h s book new reversalOf lines).lines := by
  have hnil : s.journalLines.filter (fun l ↦ l.journalId = h.newId s.minted) = [] :=
    List.filter_eq_nil_iff.2 (by simpa using hfresh)
  have hall : (postedJournal h s book new reversalOf lines).lines.filter
      (fun l ↦ l.journalId = h.newId s.minted) =
        (postedJournal h s book new reversalOf lines).lines :=
    List.filter_eq_self.2 fun l hl ↦ by simpa using (journalId_of_mem hl).1
  simp only [linesForJournal, withPosted, List.filter_append, hnil, hall, List.nil_append]
  exact (sorted_storedLines _ _).insertionSort_eq

end Content

end SlipScan.Ledger.Lines
