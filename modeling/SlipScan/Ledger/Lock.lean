import SlipScan.Ledger.Dates
import SlipScan.Ledger.Soundness

namespace SlipScan.Ledger.Lock

open Model.Domain Model.Database Model.Ledger Model.Period Model.Slip Model.Service Model.PlainHost
  Foundation.Transaction Foundation.Table Foundation.Grouping Foundation.Calendar Dates Posting Steps
  Runs Lines Consistency Soundness Relation

variable {h : Host} {parseSlip : String → Except Fault SlipPayload} {s s' : Db} {bookId D : String}
  {day : Date} {dated : String → Bool}

section Dates

def lockDateOf (s : Db) (bookId : String) : Option String :=
  (getBook s bookId).bind Book.financialLockDate

/-- The book is closed through `D`, or later. -/
def ClosedThrough (s : Db) (bookId D : String) : Prop :=
  ∃ lock, lockDateOf s bookId = some lock ∧ D ≤ lock

theorem lockDateOf_of_book {b : Book} (hb : getBook s bookId = some b) :
    lockDateOf s bookId = b.financialLockDate := by
  rw [lockDateOf, hb, Option.bind_some]

theorem lockDateOf_of_books (hbooks : ∀ id b, getBook s id = some b →
    ∃ kind, getBook s' id = some { b with kind }) {lock : String}
    (hlock : lockDateOf s bookId = some lock) : lockDateOf s' bookId = some lock := by
  obtain ⟨b, hb, hdate⟩ := Option.bind_eq_some_iff.1 hlock
  obtain ⟨kind, hb'⟩ := hbooks bookId b hb
  rw [lockDateOf_of_book hb']
  exact hdate

theorem getBook_withLock (id : String) (lockDate : Option String) :
    getBook (withLock s id lockDate) bookId = (getBook s bookId).map fun b ↦
      if b.id = id then { b with financialLockDate := lockDate } else b :=
  lookup_update (fun b : Book ↦ { b with financialLockDate := lockDate }) (fun _ ↦ rfl) id

theorem lockDateOf_withLock_of_ne {id : String} (hid : bookId ≠ id) (lockDate : Option String) :
    lockDateOf (withLock s id lockDate) bookId = lockDateOf s bookId := by
  rw [lockDateOf, lockDateOf, getBook_withLock]
  cases hb : getBook s bookId with
  | none => rfl
  | some b =>
    obtain ⟨-, rfl⟩ := lookup_eq_some hb
    simp [hid]

theorem lockDateOf_withLock_self {lock : String} (hlock : lockDateOf s bookId = some lock)
    (lockDate : Option String) : lockDateOf (withLock s bookId lockDate) bookId = lockDate := by
  obtain ⟨b, hb, -⟩ := Option.bind_eq_some_iff.1 hlock
  obtain ⟨-, rfl⟩ := lookup_eq_some hb
  rw [lockDateOf, getBook_withLock, hb]
  simp

end Dates

section Frozen

def linesDated (s : Db) (bookId : String) (dated : String → Bool) : List JournalLine :=
  s.journalLines.filter fun l ↦ l.bookId = bookId ∧
    ∃ j ∈ s.journals, j.id = l.journalId ∧ dated j.postedDate

def accountLinesDated (s : Db) (coaId : String) (dated : String → Bool) : List JournalLine :=
  s.journalLines.filter fun l ↦ l.coaId = coaId ∧
    ∃ j ∈ s.journals, j.id = l.journalId ∧ dated j.postedDate

def balanceDated (s : Db) (coaId currency : String) (dated : String → Bool) : ℤ :=
  groupSum JournalLine.currency (fun l ↦ l.debitMinor - l.creditMinor)
    (accountLinesDated s coaId dated) currency

def through (h : Host) (day : Date) (date : String) : Bool :=
  (h.parseDate date).any (·.number ≤ day.number)

/-- The posting dates that a report as of a date takes in, by the order of texts. -/
def textThrough (asOf : String) (date : String) : Bool :=
  date ≤ asOf

structure SameOver (bookId : String) (dated : String → Bool) (s s' : Db) : Prop where
  lines : linesDated s' bookId dated = linesDated s bookId dated
  balances : ∀ a ∈ s.coa, a.bookId = bookId → ∀ currency,
    balanceDated s' a.id currency dated = balanceDated s a.id currency dated

def linesOf (s : Db) (P : JournalLine → Journal → Bool) : List JournalLine :=
  s.journalLines.filter fun l ↦ s.journals.any fun j ↦ j.id = l.journalId && P l j

theorem linesDated_eq : linesDated s bookId dated =
    linesOf s fun l j ↦ l.bookId = bookId && dated j.postedDate := by
  refine List.filter_congr fun l _ ↦ Bool.eq_iff_iff.2 ?_
  by_cases hbook : l.bookId = bookId <;> simp [hbook]

theorem linesOf_posted (hs : Consistent s) {book : Book} {new : NewJournal}
    {reversalOf : Option String} {lines : List NewJournalLine}
    (hposts : Posts h s book new reversalOf lines) {P : JournalLine → Journal → Bool}
    (hP : ∀ l, l.bookId = book.id →
      P l (postedJournal h s book new reversalOf lines).journal = false) :
    linesOf (withPosted s (postedJournal h s book new reversalOf lines)) P = linesOf s P := by
  have hnew : (postedJournal h s book new reversalOf lines).lines.filter (fun l ↦
      (s.journals ++ [(postedJournal h s book new reversalOf lines).journal]).any fun j ↦
        j.id = l.journalId && P l j) = [] := by
    refine List.filter_eq_nil_iff.2 fun l hl ↦ ?_
    obtain ⟨hid, hbook, -⟩ := journalId_of_mem hl
    have hfresh : ∀ j ∈ s.journals, j.id ≠ l.journalId := fun j hj heq ↦
      hposts.fresh j hj (heq.trans hid)
    have hfalse := hP l hbook
    simp only [List.any_append, List.any_cons, hfalse, Bool.and_false, List.any_nil, Bool.or_false,
      List.any_eq_true, Bool.and_eq_true, decide_eq_true_eq, not_exists, not_and]
    exact fun j hj heq ↦ absurd heq (hfresh j hj)
  have hold : s.journalLines.filter (fun l ↦
      (s.journals ++ [(postedJournal h s book new reversalOf lines).journal]).any fun j ↦
        j.id = l.journalId && P l j) = linesOf s P := by
    refine List.filter_congr fun l hl ↦ ?_
    have hne : h.newId s.minted ≠ l.journalId := (hs.fresh hposts l hl).symm
    simp [postedJournal, hne]
  rw [linesOf, withPosted, List.filter_append]
  exact (congrArg₂ _ hold hnew).trans (List.append_nil _)

def Within (bookId D : String) (P : JournalLine → Journal → Bool) : Prop :=
  ∀ l j, P l j → l.bookId = bookId ∧ j.postedDate ≤ D

/-- The copies of the book that a transaction holds say that it is closed through `D`. -/
def HeldClosed (bookId D : String) (held : List Held) : Prop :=
  ∀ b, .book b ∈ held → b.id = bookId → ∃ lock, b.financialLockDate = some lock ∧ D ≤ lock

/-- A transaction that knows of the close posts nothing in the closed period. -/
theorem lines_step_held {c : Call} {held : List Held} (hs : Consistent s)
    (hheld : HeldClosed bookId D held) (hstep : LedgerStep h c held s s')
    {P : JournalLine → Journal → Bool} (hP : Within bookId D P) : linesOf s' P = linesOf s P := by
  rcases posted_or_other hstep with ⟨book, new, reversalOf, lines, hbook, hposts, -, rfl⟩ | hother
  · refine linesOf_posted hs hposts fun l hl ↦ Bool.eq_false_iff.2 fun htrue ↦ ?_
    obtain ⟨hid, hdate⟩ := hP l _ htrue
    obtain ⟨lock, hlock, hle⟩ := hheld book hbook (hl.symm.trans hid)
    have hlt := hposts.accepted.lock lock hlock
    exact absurd (hdate.trans hle) (not_le_of_gt hlt)
  · simp only [linesOf, hother.journals, hother.journalLines]

theorem heldClosed_of_current {held : List Held} (hclosed : ClosedThrough s bookId D)
    (hcurrent : Current held s) : HeldClosed bookId D held := by
  rintro b hb rfl
  obtain ⟨lock, hlock, hle⟩ := hclosed
  obtain ⟨kind, hget⟩ := hcurrent b hb
  exact ⟨lock, (lockDateOf_of_book hget).symm.trans hlock, hle⟩

theorem lines_step {c : Call} {held : List Held} (hs : Consistent s)
    (hclosed : ClosedThrough s bookId D) (hcurrent : Current held s)
    (hstep : LedgerStep h c held s s') {P : JournalLine → Journal → Bool}
    (hP : Within bookId D P) : linesOf s' P = linesOf s P :=
  lines_step_held hs (heldClosed_of_current hclosed hcurrent) hstep hP

/-- A text that is no date but a day in the plain form, on or after the given one. -/
def PlainFrom (h : Host) (day : Date) (text : String) : Prop :=
  ∀ d, h.parseDate text = some d → text = dayText d ∧ day.number ≤ d.number

theorem PlainFrom.dayText_le (hday : 0 ≤ day.year) {text : String} (hplain : PlainFrom h day text)
    (hdate : (h.parseDate text).isSome) : dayText day ≤ text := by
  obtain ⟨d, hd⟩ := Option.isSome_iff_exists.1 hdate
  obtain ⟨rfl, hle⟩ := hplain d hd
  exact (dayText_le_iff hday (hday.trans (Date.year_le_of_number_le hle))).2 hle

/-- Calls that leave the period closed: they do not reopen it, and if they set the lock date of
the book they set it to the day or a later one. -/
def LeavesClosed (h : Host) (bookId : String) (day : Date) : Call → Prop
  | .reopenPeriod id _ _ => id ≠ bookId
  | .bookSetLockDate id lockDate => id = bookId → ∃ text, lockDate = some text ∧ PlainFrom h day text
  | _ => True

theorem closed_change (hday : 0 ≤ day.year) (hclosed : ClosedThrough s bookId (dayText day))
    (hchange : Change h (LeavesClosed h bookId day) s s') :
    ClosedThrough s' bookId (dayText day) := by
  obtain ⟨lock, hlock, hle⟩ := hclosed
  cases hchange with
  | ledger _ _ hstep =>
    exact ⟨lock, lockDateOf_of_books (fun _ _ hb ↦ books_of_step hstep hb) hlock, hle⟩
  | other hother => exact ⟨lock, lockDateOf_of_books hother.books hlock, hle⟩
  | @lock c id lockDate hc hlocks =>
    by_cases hid : bookId = id
    · subst hid
      cases hlocks with
      | @close s₀ _ toDate b hseen hb hlater =>
        subst hseen
        have hlt := hlater lock ((lockDateOf_of_book hb).symm.trans hlock)
        exact ⟨toDate, lockDateOf_withLock_self hlock _, hle.trans hlt.le⟩
      | reopen => exact absurd rfl hc
      | set hdate =>
        obtain ⟨text, rfl, hplain⟩ := hc rfl
        exact ⟨text, lockDateOf_withLock_self hlock _, hplain.dayText_le hday (hdate text rfl)⟩
    · exact ⟨lock, (lockDateOf_withLock_of_ne hid _).trans hlock, hle⟩
  | rate => exact ⟨lock, hlock, hle⟩

theorem lines_change {D' : Call → Prop} (hs : Consistent s) (hclosed : ClosedThrough s bookId D)
    (hchange : Change h D' s s') {P : JournalLine → Journal → Bool} (hP : Within bookId D P) :
    linesOf s' P = linesOf s P := by
  cases hchange with
  | ledger _ hcurrent hstep => exact lines_step hs hclosed hcurrent hstep hP
  | other hother => simp only [linesOf, hother.journals, hother.journalLines]
  | lock => rfl
  | rate => rfl

/-- What a run leaves of a closed period. -/
structure Frozen (bookId D : String) (s s' : Db) : Prop where
  lines : ∀ P, Within bookId D P → linesOf s' P = linesOf s P
  accounts : ∀ id a, getCoa s id = some a → ∃ isArchived, getCoa s' id = some { a with isArchived }
  closed : ClosedThrough s' bookId D

theorem Frozen.trans {s'' : Db} (hs : Frozen bookId D s s') (hs' : Frozen bookId D s' s'') :
    Frozen bookId D s s'' where
  lines P hP := (hs'.lines P hP).trans (hs.lines P hP)
  accounts id a ha := by
    obtain ⟨_, ha'⟩ := hs.accounts id a ha
    obtain ⟨isArchived, ha''⟩ := hs'.accounts id _ ha'
    exact ⟨isArchived, ha''⟩
  closed := hs'.closed

theorem Frozen.linesDated (hs : Frozen bookId D s s') (hdated : ∀ date, dated date → date ≤ D) :
    linesDated s' bookId dated = linesDated s bookId dated := by
  rw [linesDated_eq, linesDated_eq]
  refine hs.lines _ fun l j hlj ↦ ?_
  simp only [Bool.and_eq_true, decide_eq_true_eq] at hlj
  exact ⟨hlj.1, hdated _ hlj.2⟩

theorem accounts_change {D' : Call → Prop} (hchange : Change h D' s s') {id : String}
    {a : CoaAccount} (ha : getCoa s id = some a) :
    ∃ isArchived, getCoa s' id = some { a with isArchived } := by
  cases hchange with
  | ledger _ _ hstep =>
    rcases posted_or_other hstep with ⟨_, _, _, _, -, -, -, rfl⟩ | hother
    · exact ⟨a.isArchived, ha⟩
    · exact hother.coa id a ha
  | other hother => exact hother.coa id a ha
  | lock => exact ⟨a.isArchived, ha⟩
  | rate => exact ⟨a.isArchived, ha⟩

theorem frozen_of_changes (hday : 0 ≤ day.year) (hs : Consistent s)
    (hclosed : ClosedThrough s bookId (dayText day))
    (hchanges : ReflTransGen (Change h (LeavesClosed h bookId day)) s s') :
    Frozen bookId (dayText day) s s' ∧ Consistent s' := by
  induction hchanges with
  | refl => exact ⟨⟨fun _ _ ↦ rfl, fun _ a ha ↦ ⟨a.isArchived, ha⟩, hclosed⟩, hs⟩
  | tail _ hchange ih =>
    obtain ⟨hfrozen, hcons⟩ := ih
    have hnext : Frozen bookId (dayText day) _ _ :=
      { lines := fun _ hP ↦ lines_change hcons hfrozen.closed hchange hP
        accounts := fun _ _ ha ↦ accounts_change hchange ha
        closed := closed_change hday hfrozen.closed hchange }
    exact ⟨hfrozen.trans hnext, hcons.change hchange⟩

theorem frozen_of_run (hday : 0 ≤ day.year) (hs : Consistent s)
    (hclosed : ClosedThrough s bookId (dayText day))
    (hrun : ReflTransGen (Step h parseSlip fun c _ ↦ LeavesClosed h bookId day c) s s') :
    Frozen bookId (dayText day) s s' ∧ Consistent s' := by
  induction hrun with
  | refl => exact frozen_of_changes (h := h) hday hs hclosed .refl
  | tail _ hstep ih =>
    obtain ⟨hfrozen, hcons⟩ := ih
    have hchanges := changes_of_step (D := LeavesClosed h bookId day) (fun _ _ hc ↦ hc) hstep
    obtain ⟨hnext, hcons'⟩ := frozen_of_changes hday hcons hfrozen.closed hchanges
    exact ⟨hfrozen.trans hnext, hcons'⟩

theorem accountLinesDated_eq (hsound : Sound s) (hs : Consistent s) {a : CoaAccount}
    (ha : getCoa s a.id = some a) :
    accountLinesDated s a.id dated =
      (linesDated s a.bookId dated).filter fun l ↦ l.coaId = a.id := by
  rw [accountLinesDated, linesDated, List.filter_filter]
  refine List.filter_congr fun l hl ↦ ?_
  by_cases hla : l.coaId = a.id
  · have hbook : l.bookId = a.bookId := by
      refine (mem_accounts_iff hsound hs hl).1 (List.mem_map.2 ⟨a, ?_, hla.symm⟩)
      exact List.mem_filter.2 ⟨(lookup_eq_some ha).1, by simp⟩
    simp [hla, hbook]
  · simp [hla]

theorem Frozen.sameOver (hfrozen : Frozen bookId D s s') (hsound : Sound s) (hs : Consistent s)
    (hsound' : Sound s') (hs' : Consistent s') (hdated : ∀ date, dated date → date ≤ D) :
    SameOver bookId dated s s' where
  lines := hfrozen.linesDated hdated
  balances a ha hbook currency := by
    have hget := getCoa_of_mem hsound ha
    obtain ⟨isArchived, hget'⟩ := hfrozen.accounts _ a hget
    have heq : accountLinesDated s a.id dated =
        (Lock.linesDated s a.bookId dated).filter fun l ↦ l.coaId = a.id :=
      accountLinesDated_eq hsound hs hget
    have heq' : accountLinesDated s' a.id dated =
        (Lock.linesDated s' a.bookId dated).filter fun l ↦ l.coaId = a.id :=
      accountLinesDated_eq (a := { a with isArchived }) hsound' hs' hget'
    have hlines := hfrozen.linesDated hdated
    rw [balanceDated, balanceDated, heq]
    refine (congrArg (fun l ↦ groupSum JournalLine.currency _ l currency) heq').trans ?_
    simp only [hbook, hlines]

theorem le_of_through (hreads : ReadsDays h) (hday : 0 ≤ day.year) {asOf : Date}
    (hle : asOf.number ≤ day.number) : ∀ date, through h asOf date → date ≤ dayText day := by
  intro date hdate
  obtain ⟨d, hd, hthrough⟩ := (Option.any_eq_true _ _).1 hdate
  exact le_dayText hreads hday hd ((of_decide_eq_true hthrough).trans hle)

end Frozen

section Moves

/-- Lock dates in the plain form, the later one after the earlier one in the calendar or set
where there was none. -/
def Advances (early late : Option String) : Prop :=
  ∃ text d, late = some text ∧ PlainDay text d ∧
    ∀ before, early = some before → ∃ d', PlainDay before d' ∧ d'.number < d.number

abbrev Forward (old new : Option String) : Prop :=
  Advances old new

abbrev Backward (old new : Option String) : Prop :=
  Advances new old

theorem Advances.lt {early late : Option String} (hadvances : Advances early late) :
    ∃ text, late = some text ∧ ∀ before, early = some before → before < text := by
  obtain ⟨text, d, hlate, ⟨-, rfl⟩, hearly⟩ := hadvances
  refine ⟨_, hlate, fun before hbefore ↦ ?_⟩
  obtain ⟨d', ⟨hd', rfl⟩, hlt⟩ := hearly before hbefore
  exact dayText_lt hd' hlt

inductive LockMove (bookId : String) (old : Option String) : Call → Option String → Prop
  | same {c : Call} : LockMove bookId old c old
  | close {toDate : String} (hlater : ∀ prev, old = some prev → prev < toDate) :
      LockMove bookId old (.closePeriod bookId toDate) (some toDate)
  | reopen {current reason : String} {toDate : Option String} (hlock : old = some current)
      (hearlier : ∀ d ∈ toDate, d < current) :
      LockMove bookId old (.reopenPeriod bookId toDate reason) toDate
  | set {lockDate : Option String} :
      LockMove bookId old (.bookSetLockDate bookId lockDate) lockDate

theorem lockMove_locks {c : Call} {old lockDate : Option String} {b : Book}
    (hb : getBook s bookId = some b) (hmove : LockMove bookId old c b.financialLockDate)
    (hlocks : Locks h Eq s c bookId lockDate) : LockMove bookId old c lockDate := by
  cases hlocks with
  | @close s₀ _ toDate b₀ hseen hb₀ hlater =>
    subst hseen
    obtain rfl := Option.some.inj (hb₀.symm.trans hb)
    generalize hlock : b₀.financialLockDate = lock at hmove hlater
    cases hmove with
    | same => exact .close hlater
    | close => exact absurd (hlater toDate rfl) (lt_irrefl toDate)
  | @reopen s₀ _ current reason toDate b₀ hseen hb₀ hlock hearlier =>
    subst hseen
    obtain rfl := Option.some.inj (hb₀.symm.trans hb)
    rw [hlock] at hmove
    generalize hnew : some current = lock at hmove
    cases hmove with
    | same => exact .reopen hnew.symm hearlier
    | reopen => exact absurd (hearlier current hnew.symm) (lt_irrefl current)
  | set => exact .set

theorem lockMove_change {c : Call} {old : Option String} {b : Book}
    (hb : getBook s bookId = some b) (hmove : LockMove bookId old c b.financialLockDate)
    (hchange : Change h (· = c) s s') :
    ∃ b', getBook s' bookId = some b' ∧ LockMove bookId old c b'.financialLockDate := by
  cases hchange with
  | ledger _ _ hstep =>
    obtain ⟨kind, hb'⟩ := books_of_step hstep hb
    exact ⟨_, hb', hmove⟩
  | other hother =>
    obtain ⟨kind, hb'⟩ := hother.books _ b hb
    exact ⟨_, hb', hmove⟩
  | @lock _ id lockDate hc hlocks =>
    subst hc
    have hget : getBook (withLock s id lockDate) bookId = _ := getBook_withLock id lockDate
    rw [hb, Option.map_some] at hget
    refine ⟨_, hget, ?_⟩
    obtain ⟨-, hid⟩ := lookup_eq_some hb
    rw [hid]
    by_cases hne : bookId = id
    · subst hne
      simpa using lockMove_locks hb hmove hlocks
    · simpa [hne] using hmove
  | rate => exact ⟨b, hb, hmove⟩

theorem lockMove_run {b : Book} (hb : getBook s bookId = some b) (c : Call) :
    ∃ b', getBook (c.run h parseSlip s) bookId = some b' ∧
      LockMove bookId b.financialLockDate c b'.financialLockDate := by
  have hchanges : ReflTransGen (Change h (· = c)) s (c.run h parseSlip s) := changes_of_run rfl
  generalize c.run h parseSlip s = t at hchanges
  induction hchanges with
  | refl => exact ⟨b, hb, .same⟩
  | tail _ hchange ih =>
    obtain ⟨b', hb', hmove⟩ := ih
    exact lockMove_change hb' hmove hchange

theorem LockMove.of_forward {old new : Option String} {c : Call} (hmove : LockMove bookId old c new)
    (hforward : Forward old new) :
    (∃ toDate, c = .closePeriod bookId toDate) ∨ ∃ lockDate, c = .bookSetLockDate bookId lockDate := by
  obtain ⟨d', hnew, hlt⟩ := hforward.lt
  cases hmove with
  | same => exact absurd (hlt d' hnew) (lt_irrefl d')
  | close => exact .inl ⟨_, rfl⟩
  | @reopen current _ _ hlock hearlier =>
    exact absurd (hlt current hlock) (hearlier d' hnew).asymm
  | set => exact .inr ⟨_, rfl⟩

theorem LockMove.of_backward {old new : Option String} {c : Call}
    (hmove : LockMove bookId old c new) (hbackward : Backward old new) :
    (∃ toDate reason, c = .reopenPeriod bookId toDate reason) ∨
      ∃ lockDate, c = .bookSetLockDate bookId lockDate := by
  obtain ⟨d, hold, hlt⟩ := hbackward.lt
  cases hmove with
  | same => exact absurd (hlt d hold) (lt_irrefl d)
  | @close toDate hlater => exact absurd (hlater d hold) (hlt toDate rfl).asymm
  | reopen => exact .inl ⟨_, _, rfl⟩
  | set => exact .inr ⟨_, rfl⟩

end Moves

/-- What was posted in a period that is closed through a day in the plain form stays, with every
balance in it, until the period is reopened or the lock date is set back, and nothing else moves a
lock date between such days. -/
theorem closed_period_frozen (h : Host) (hreads : ReadsDays h)
    (parseSlip : String → Except Fault SlipPayload) :
    (∀ s bookId D day, Reachable h parseSlip anyCall s → lockDateOf s bookId = some D →
      PlainDay D day →
        ∀ s', ReflTransGen (Step h parseSlip fun c _ ↦ LeavesClosed h bookId day c) s s' →
          ∀ asOf : Date, asOf.number ≤ day.number → SameOver bookId (through h asOf) s s' ∧
            ∀ text, PlainDay text asOf → SameOver bookId (textThrough text) s s') ∧
    (∀ s c bookId b, getBook s bookId = some b →
      ∃ b', getBook (Call.run h parseSlip c s) bookId = some b' ∧
        (Forward b.financialLockDate b'.financialLockDate →
          (∃ toDate, c = .closePeriod bookId toDate) ∨
            ∃ lockDate, c = .bookSetLockDate bookId lockDate) ∧
        (Backward b.financialLockDate b'.financialLockDate →
          (∃ toDate reason, c = .reopenPeriod bookId toDate reason) ∨
            ∃ lockDate, c = .bookSetLockDate bookId lockDate)) ∧
    ∀ s s' bookId b, Elsewhere h s s' → getBook s bookId = some b →
      ∃ b', getBook s' bookId = some b' ∧ b'.financialLockDate = b.financialLockDate := by
  refine ⟨fun s bookId D day hs hlock hD s' hrun asOf hle ↦ ?_, fun s c bookId b hb ↦ ?_,
    fun s s' bookId b he hb ↦ ?_⟩
  · obtain ⟨hday, rfl⟩ := hD
    have hcons := consistent_of_reachable hs
    have hsound := sound_of_reachable hs
    obtain ⟨hfrozen, hcons'⟩ := frozen_of_run hday hcons ⟨_, hlock, le_rfl⟩ hrun
    have hreach : Reachable h parseSlip anyCall s' :=
      hs.trans (hrun.lift id fun _ _ hstep ↦ hstep.mono fun _ _ _ ↦ trivial)
    have hsound' := sound_of_reachable hreach
    refine ⟨hfrozen.sameOver hsound hcons hsound' hcons' (le_of_through hreads hday hle),
      fun text htext ↦ hfrozen.sameOver hsound hcons hsound' hcons' fun date hdate ↦ ?_⟩
    obtain ⟨hasOf, rfl⟩ := htext
    exact (of_decide_eq_true hdate).trans ((dayText_le_iff hasOf hday).2 hle)
  · have hrun : ∃ b', getBook (c.run h parseSlip s) bookId = some b' ∧
        LockMove bookId b.financialLockDate c b'.financialLockDate := lockMove_run hb c
    obtain ⟨b', hb', hmove⟩ := hrun
    exact ⟨b', hb', hmove.of_forward, hmove.of_backward⟩
  · obtain ⟨kind, hb'⟩ := he.books bookId b hb
    exact ⟨_, hb', rfl⟩

def closedBooks : Db :=
  runs setup (bankAndIncome ++ [sale "2025-01-31" 100 100, .closePeriod "book" "2025-06-30"])

def lastOfJune : Date :=
  (Date.ofParts? 2025 6 30).get (by decide)

theorem plainDay_lastOfJune : PlainDay "2025-06-30" lastOfJune :=
  ⟨by decide, by decide +kernel⟩

def lateSale : List Call :=
  [.bookSetLockDate "book" none, sale "2025-01-31" 70 70]

theorem lock_date_moves_without_close :
    (¬∀ s bookId D day, Reachable plainHost noSlip anyCall s → lockDateOf s bookId = some D →
      PlainDay D day → ∀ s', ReflTransGen (Step plainHost noSlip fun c _ ↦
          ∀ id toDate reason, c ≠ .reopenPeriod id toDate reason) s s' →
        ∀ asOf : Date, asOf.number ≤ day.number →
          linesDated s' bookId (through plainHost asOf) =
            linesDated s bookId (through plainHost asOf)) ∧
    ¬∀ s, Reachable plainHost noSlip anyCall s → ∀ c bookId b b', getBook s bookId = some b →
      getBook (Call.run plainHost noSlip c s) bookId = some b' →
        Backward b.financialLockDate b'.financialLockDate →
          ∃ toDate reason, c = .reopenPeriod bookId toDate reason := by
  have hreach : Reachable plainHost noSlip anyCall closedBooks := reachable_runs reachable_setup _
  constructor
  · intro hclaim
    have hrun : ReflTransGen (Step plainHost noSlip fun c _ ↦
        ∀ id toDate reason, c ≠ .reopenPeriod id toDate reason) closedBooks
          (runs closedBooks lateSale) :=
      .tail (.single (.call _ (by simp))) (.call _ (by simp [sale]))
    have hlines := hclaim closedBooks "book" "2025-06-30" lastOfJune hreach (by decide +kernel)
      plainDay_lastOfJune _ hrun lastOfJune le_rfl
    exact absurd hlines (by decide +kernel)
  · intro hclaim
    obtain ⟨toDate, reason, hcall⟩ := hclaim closedBooks hreach (.bookSetLockDate "book" none) "book"
      { plainBook with financialLockDate := some "2025-06-30" } plainBook (by decide +kernel)
      (by decide +kernel) ⟨_, lastOfJune, rfl, plainDay_lastOfJune, by simp [plainBook]⟩
    cases hcall

theorem closed_period_frozen_of_sale :
    linesDated (runs closedBooks [sale "2025-01-31" 70 70, sale "2025-07-01" 50 50]) "book"
        (through plainHost lastOfJune) =
      linesDated closedBooks "book" (through plainHost lastOfJune) ∧
    balanceDated (runs closedBooks [sale "2025-01-31" 70 70, sale "2025-07-01" 50 50]) "x" "ZAR"
      (textThrough "2025-06-30") = 100 := by
  have hrun : ReflTransGen (Step plainHost noSlip fun c _ ↦
      LeavesClosed plainHost "book" lastOfJune c)
      closedBooks (runs closedBooks [sale "2025-01-31" 70 70, sale "2025-07-01" 50 50]) :=
    .tail (.single (.call _ (by simp [sale, LeavesClosed]))) (.call _ (by simp [sale, LeavesClosed]))
  obtain ⟨hsame, hreports⟩ := (closed_period_frozen plainHost readsDays_plainHost noSlip).1 closedBooks
    "book" "2025-06-30" lastOfJune (reachable_runs reachable_setup _) (by decide +kernel)
    plainDay_lastOfJune _ hrun lastOfJune le_rfl
  have hbalance := (hreports _ plainDay_lastOfJune).balances
    ⟨"x", "book", "1000", "Bank", .asset, none, false⟩ (by decide +kernel) rfl "ZAR"
  exact ⟨hsame.lines, hbalance.trans (by decide +kernel)⟩

end SlipScan.Ledger.Lock
