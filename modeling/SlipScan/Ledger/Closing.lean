import SlipScan.Foundation.Connections
import SlipScan.Ledger.Lock

namespace SlipScan.Ledger.Closing

open Model.Domain Model.Database Model.Ledger Model.Period Model.Slip Model.Service Model.PlainHost
  Foundation.Transaction Foundation.Interleaving Foundation.Table Foundation.Calendar Dates Posting
  Steps Calls Runs Consistency Lock Relation Process

variable {h : Host} {parseSlip : String → Except Fault SlipPayload} {ι : Type} {s s' : Db}
  {bookId D : String} {day : Date}

/-- Calls that do not move the lock date of the book before the day. -/
def StaysClosed (h : Host) (bookId : String) (day : Date) : Call → Prop
  | .reopenPeriod id _ _ => id ≠ bookId
  | .closePeriod id toDate => id = bookId → PlainFrom h day toDate
  | .bookSetLockDate id lockDate => id = bookId → ∃ text, lockDate = some text ∧ PlainFrom h day text
  | _ => True

/-- A transaction of one of the calls. The books it holds were read at any time before. -/
def CallStep (h : Host) (D : Call → Prop) (held : List Held) (s s' : Db) : Prop :=
  ∃ c, D c ∧ Effect h AnyChange c held s s'

theorem calling_supported {C : Call → Prop} {calls : ι → List Call}
    (hcalls : ∀ i, ∀ c ∈ calls i, C c) :
    (calling h parseSlip s calls).Supported AnyChange (CallStep h C) := by
  refine supported_calling fun i c hc t u hu ↦ ?_
  exact (program_since c u hu).mono (fun _ _ _ he ↦ ⟨c, hcalls i c hc, he⟩) fun _ _ _ ↦ trivial

theorem consistent_callStep {C : Call → Prop} {held : List Held} (hs : Consistent s)
    (hstep : CallStep h C held s s') : Consistent s' := by
  obtain ⟨c, -, he⟩ := hstep
  cases he with
  | ledger _ hsteps =>
    induction hsteps with
    | refl => exact hs
    | tail _ hstep ih => exact ih.step hstep
  | lock => exact hs.lock _ _
  | rate => exact hs.rate _ _

theorem closed_callStep (hday : 0 ≤ day.year) {held : List Held}
    (hclosed : ClosedThrough s bookId (dayText day))
    (hstep : CallStep h (StaysClosed h bookId day) held s s') :
    ClosedThrough s' bookId (dayText day) := by
  obtain ⟨c, hc, he⟩ := hstep
  obtain ⟨lock, hlock, hle⟩ := hclosed
  cases he with
  | ledger _ hsteps =>
    induction hsteps with
    | refl => exact ⟨lock, hlock, hle⟩
    | tail _ hstep ih =>
      obtain ⟨lock', hlock', hle'⟩ := ih
      exact ⟨lock', lockDateOf_of_books (fun _ _ hb ↦ books_of_step hstep hb) hlock', hle'⟩
  | @lock id lockDate hlocks =>
    by_cases hid : bookId = id
    · subst hid
      have hset := lockDateOf_withLock_self hlock lockDate
      cases hlocks with
      | close _ _ _ hdate => exact ⟨_, hset, (hc rfl).dayText_le hday hdate⟩
      | reopen => exact absurd rfl hc
      | set hdate =>
        obtain ⟨text, rfl, hplain⟩ := hc rfl
        exact ⟨text, hset, hplain.dayText_le hday (hdate text rfl)⟩
    · exact ⟨lock, (lockDateOf_withLock_of_ne hid _).trans hlock, hle⟩
  | rate => exact ⟨lock, hlock, hle⟩

theorem lines_callStep {C : Call → Prop} {held : List Held} (hs : Consistent s)
    (hheld : HeldClosed bookId D held) (hstep : CallStep h C held s s')
    {P : JournalLine → Journal → Bool} (hP : Within bookId D P) : linesOf s' P = linesOf s P := by
  obtain ⟨c, -, he⟩ := hstep
  cases he with
  | ledger _ hsteps =>
    have hall : Consistent s' ∧ linesOf s' P = linesOf s P := by
      induction hsteps with
      | refl => exact ⟨hs, rfl⟩
      | tail _ hstep ih =>
        exact ⟨ih.1.step hstep, (lines_step_held ih.1 hheld hstep hP).trans ih.2⟩
    exact hall.2
  | lock => rfl
  | rate => rfl

def SeenBook (bookId : String) (r : Held) (s : Db) : Prop :=
  ∀ b, r = .book b → b.id = bookId → getBook s bookId = some b

/-- A copy that was read from a closed book says that the book is closed. -/
theorem heldClosed_of_seen {held : List Held}
    (hseen : ∀ r ∈ held, ∃ t, ClosedThrough t bookId D ∧ SeenBook bookId r t) :
    HeldClosed bookId D held := by
  intro b hb hid
  obtain ⟨t, ⟨lock, hlock, hle⟩, hread⟩ := hseen _ hb
  exact ⟨lock, (lockDateOf_of_book (hread b rfl hid)).symm.trans hlock, hle⟩

/-- What stays from the commit of the close in the store `s` on. -/
structure AsClosed (bookId D : String) (s t : Db) : Prop where
  consistent : Consistent t
  closed : ClosedThrough t bookId D
  lines : ∀ P, Within bookId D P → linesOf t P = linesOf s P

theorem AsClosed.step (hday : 0 ≤ day.year) {t t' : Db} {held : List Held}
    (ht : AsClosed bookId (dayText day) s t)
    (hseen : ∀ r ∈ held, ∃ u, AsClosed bookId (dayText day) s u ∧ SeenBook bookId r u)
    (hstep : CallStep h (StaysClosed h bookId day) held t t') :
    AsClosed bookId (dayText day) s t' where
  consistent := consistent_callStep ht.consistent hstep
  closed := closed_callStep hday ht.closed hstep
  lines P hP := by
    have hheld : HeldClosed bookId (dayText day) held := heldClosed_of_seen fun r hr ↦ by
      obtain ⟨u, hu, hread⟩ := hseen r hr
      exact ⟨u, hu.closed, hread⟩
    exact (lines_callStep ht.consistent hheld hstep hP).trans (ht.lines P hP)

variable [DecidableEq ι]

theorem consistent_calling (hs : Reachable h parseSlip anyCall s) {C : Call → Prop}
    {calls : ι → List Call} (hcalls : ∀ i, ∀ c ∈ calls i, C c) (is : List ι) :
    Consistent ((calling h parseSlip s calls).play is).store := by
  have hsupported : (calling h parseSlip s calls).Supported AnyChange (CallStep h C) :=
    calling_supported hcalls
  have hbefore := hsupported.play (fun _ _ _ _ ↦ trivial) (turns_true _ is)
  have hstart : Consistent (calling h parseSlip s calls).store := consistent_of_reachable hs
  generalize ((calling h parseSlip s calls).play is).store = t at hbefore
  induction hbefore with
  | refl => exact hstart
  | tail _ hstep ih =>
    obtain ⟨_, -, hstep⟩ := hstep
    exact consistent_callStep ih hstep

/-- After the commit of a close nothing is posted in the closed period, as long as every
transaction holds copies of the book that were read since that commit. -/
theorem close_wins (h : Host) (hreads : ReadsDays h)
    (parseSlip : String → Except Fault SlipPayload) (hs : Reachable h parseSlip anyCall s)
    (calls : ι → List Call) (bookId D : String) (day : Date) (hD : PlainDay D day)
    (hcalls : ∀ i, ∀ c ∈ calls i, StaysClosed h bookId day c) (is js : List ι)
    (hclosed : lockDateOf ((calling h parseSlip s calls).play is).store bookId = some D)
    (hread : ((calling h parseSlip s calls).play is).ReadSince (SeenBook bookId) js)
    {asOf : Date} (hasOf : asOf.number ≤ day.number) :
    linesDated ((calling h parseSlip s calls).play (is ++ js)).store bookId (through h asOf) =
      linesDated ((calling h parseSlip s calls).play is).store bookId (through h asOf) := by
  obtain ⟨hday, rfl⟩ := hD
  have hcons : Consistent ((calling h parseSlip s calls).play is).store :=
    consistent_calling hs hcalls is
  have hsupported : ((calling h parseSlip s calls).play is).Supported AnyChange
      (CallStep h (StaysClosed h bookId day)) :=
    (calling_supported hcalls).play_supported (fun _ _ _ _ ↦ trivial) is
  have hafter := hsupported.invariant_of_readSince (fun _ _ _ _ ↦ trivial) hread
    (I := AsClosed bookId (dayText day) ((calling h parseSlip s calls).play is).store)
    ⟨hcons, ⟨_, hclosed, le_rfl⟩, fun _ _ ↦ rfl⟩ fun _ _ _ ht hseen hstep ↦ ht.step hday hseen hstep
  rw [Config.play_append, linesDated_eq, linesDated_eq]
  refine hafter.lines _ fun l j hlj ↦ ?_
  simp only [Bool.and_eq_true, decide_eq_true_eq] at hlj
  exact ⟨hlj.1, le_of_through hreads hday hasOf _ hlj.2⟩

def closing : Bool → List Call
  | true => [sale "2025-01-31" 70 70]
  | false => [.closePeriod "book" "2025-06-30"]

def bookReadFirst : List Bool :=
  true :: List.replicate 10 false

theorem staysClosed_closing :
    ∀ i, ∀ c ∈ closing i, StaysClosed plainHost "book" lastOfJune c := by
  have hdate : plainHost.parseDate "2025-06-30" = some lastOfJune := by decide +kernel
  intro i c hc
  cases i with
  | false =>
    obtain rfl := List.mem_singleton.1 hc
    intro _ d hd
    obtain rfl := Option.some.inj (hdate.symm.trans hd)
    exact ⟨plainDay_lastOfJune.2, le_rfl⟩
  | true =>
    obtain rfl := List.mem_singleton.1 hc
    trivial

theorem close_loses_to_stale_copy :
    ¬∀ s, Reachable plainHost noSlip anyCall s → ∀ (calls : Bool → List Call) (bookId D : String)
      (day : Date), PlainDay D day → (∀ i, ∀ c ∈ calls i, StaysClosed plainHost bookId day c) →
        ∀ is js : List Bool,
          lockDateOf ((calling plainHost noSlip s calls).play is).store bookId = some D →
            ∀ asOf : Date, asOf.number ≤ day.number →
              linesDated ((calling plainHost noSlip s calls).play (is ++ js)).store bookId
                  (through plainHost asOf) =
                linesDated ((calling plainHost noSlip s calls).play is).store bookId
                  (through plainHost asOf) := by
  intro hclaim
  have hreach : Reachable plainHost noSlip anyCall (runs setup bankAndIncome) :=
    reachable_runs reachable_setup _
  have hlines := hclaim _ hreach closing "book" "2025-06-30" lastOfJune plainDay_lastOfJune
    staysClosed_closing bookReadFirst [true] (by decide +kernel) lastOfJune le_rfl
  exact absurd hlines (by decide +kernel)

def readNow (s : Db) : Held → Bool
  | .book b => getBook s "book" = some b
  | _ => true

theorem seenBook_of_readNow {r : Held} (hread : readNow s r) : SeenBook "book" r s := by
  rintro b rfl -
  simpa [readNow] using hread

theorem close_wins_of_sale :
    linesDated ((calling plainHost noSlip (runs setup bankAndIncome) closing).play
        (List.replicate 10 false ++ List.replicate 2 true)).store "book" (through plainHost lastOfJune) =
      linesDated ((calling plainHost noSlip (runs setup bankAndIncome) closing).play
        (List.replicate 10 false)).store "book" (through plainHost lastOfJune) := by
  have hread : ((calling plainHost noSlip (runs setup bankAndIncome) closing).play
      (List.replicate 10 false)).ReadSince (SeenBook "book") (List.replicate 2 true) := by
    have hall : ∀ n < 2, ∀ r ∈ (((calling plainHost noSlip (runs setup bankAndIncome) closing).play
        (List.replicate 10 false)).play ((List.replicate 2 true).take n)).held true,
          readNow (((calling plainHost noSlip (runs setup bankAndIncome) closing).play
            (List.replicate 10 false)).play ((List.replicate 2 true).take n)).store r := by
      decide +kernel
    intro n hn r hr
    rw [List.getElem_replicate] at hr
    rw [List.length_replicate] at hn
    exact ⟨n, le_rfl, seenBook_of_readNow (hall n hn r hr)⟩
  exact close_wins plainHost readsDays_plainHost noSlip (reachable_runs reachable_setup _) closing
    "book" "2025-06-30" lastOfJune plainDay_lastOfJune staysClosed_closing _ _ (by decide +kernel)
    hread le_rfl

end SlipScan.Ledger.Closing
