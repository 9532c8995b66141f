import SlipScan.Ledger.Calls

namespace SlipScan.Schedules.Steps

open Model.Domain Model.Database Model.Ledger Model.Generate Model.Trade Model.Sales Model.Invoicing
  Model.Banking Model.Recurring Model.Scheduling Model.Service Model.Slip Foundation.Transaction
  Foundation.Interleaving Foundation.Table Ledger.Posting Ledger.Effects Ledger.Calls Writes.Frames
  Writes.Tables Process

variable {h : Host} {parseSlip : String → Except Fault SlipPayload} {s s' t : Db}

def overwrite (after r : RecurringSchedule) : RecurringSchedule :=
  { after with
    id := r.id
    bookId := r.bookId
    kind := r.kind
    frequency := r.frequency
    intervalCount := r.intervalCount
    startDate := r.startDate }

def writeBack (rows : List RecurringSchedule) (after : RecurringSchedule) :
    List RecurringSchedule :=
  update RecurringSchedule.id rows after.id (overwrite after)

theorem writeBack_ids (rows : List RecurringSchedule) (after : RecurringSchedule) :
    (writeBack rows after).map RecurringSchedule.id = rows.map RecurringSchedule.id :=
  map_update_of_eq (overwrite after) (fun _ ↦ rfl) _

theorem mem_writeBack {rows : List RecurringSchedule} {after r' : RecurringSchedule} :
    r' ∈ writeBack rows after ↔
      ∃ r ∈ rows, (if r.id = after.id then overwrite after r else r) = r' :=
  mem_update

def Grown (s s' : Db) : Prop :=
  s.invoices.map Invoice.id <+: s'.invoices.map Invoice.id ∧
    s.transactions.map Transaction.id <+: s'.transactions.map Transaction.id

instance : IsPreorder Db Grown where
  refl _ := ⟨List.prefix_refl _, List.prefix_refl _⟩
  trans _ _ _ hs ht := ⟨hs.1.trans ht.1, hs.2.trans ht.2⟩

def Added (before after : List String) (id : String) : Prop :=
  id ∉ before ∧ id ∈ after

/-- A generated occurrence has one record, which is stored, and a skipped one has none. -/
def Recorded (s : Db) (run : RecurringRun) : Prop :=
  match run.outcome with
  | .skipped => run.generatedTable = none ∧ run.generatedId = none
  | .generated => ∃ id, run.generatedId = some id ∧
    (run.generatedTable = some "invoices" ∧ id ∈ s.invoices.map Invoice.id ∨
      run.generatedTable = some "transactions" ∧ id ∈ s.transactions.map Transaction.id)

def Unrecorded (s : Db) (run : RecurringRun) : Prop :=
  ∀ id ∈ run.generatedId,
    (run.generatedTable = some "invoices" → id ∉ s.invoices.map Invoice.id) ∧
      (run.generatedTable = some "transactions" → id ∉ s.transactions.map Transaction.id)

theorem Recorded.mono {run : RecurringRun} (hrun : Recorded s run) (hgrown : Grown s s') :
    Recorded s' run := by
  rw [Recorded] at hrun ⊢
  split at hrun
  · exact hrun
  · obtain ⟨id, hid, hmem⟩ := hrun
    exact ⟨id, hid, hmem.imp (And.imp_right fun hi ↦ hgrown.1.subset hi)
      (And.imp_right fun ht ↦ hgrown.2.subset ht)⟩

structure SameSchedules (s s' : Db) : Prop where
  schedules : s'.recurringSchedules = s.recurringSchedules
  runs : s'.recurringRuns = s.recurringRuns
  grown : Grown s s'

/-- What the processing of an occurrence writes. -/
structure Processes (h : Host) (schedule : RecurringSchedule) (s s' : Db) (run : RecurringRun) :
    Prop where
  new : runExists s schedule.id schedule.occurrencesProcessed = false
  date : occurrenceDate h schedule.startDate schedule.frequency schedule.intervalCount
    schedule.occurrencesProcessed = .ok run.occurrenceDate
  scheduleId : run.scheduleId = schedule.id
  index : run.occurrenceIndex = schedule.occurrencesProcessed
  schedules : ∃ advanced, advance h schedule = .ok advanced ∧
    s'.recurringSchedules = writeBack s.recurringSchedules advanced
  runs : s'.recurringRuns = s.recurringRuns ++ [run]
  stored : ∃ r ∈ s.recurringSchedules, r.id = schedule.id
  grown : Grown s s'
  before : Unrecorded s run
  after : Recorded s' run

structure Creates (h : Host) (E : Db → Db → Prop) (s : Db) (new : NewRecurringSchedule)
    (r : RecurringSchedule) : Prop where
  status : r.status = .active
  count : r.occurrencesProcessed = 0
  startDate : ∃ s₀, E s₀ s ∧ r.startDate = new.startDate.getD (datePart (h.nowIso s₀.minted))
  frequency : r.frequency = new.frequency
  intervalCount : r.intervalCount = new.intervalCount.getD 1 ∧ 0 < r.intervalCount
  endDate : r.endDate = normalizeOptional new.endDate
  maxOccurrences : r.maxOccurrences = new.maxOccurrences
  positive : ∀ n ∈ new.maxOccurrences, 0 < n
  date : occurrenceDate h r.startDate r.frequency r.intervalCount 0 = .ok r.nextRunDate

/-- What one transaction of a call does to the schedules, when others may have changed the database
along `E` since the call read it. The transaction uses copies of rows that were read before, and
`K` is what is known about them. -/
inductive ScheduleStep (h : Host) (E : Db → Db → Prop) (K : RecurringSchedule → Db → Prop)
    (c : Call) (held : List Held) (s s' : Db) : Prop
  | keep (hs : SameSchedules s s')
  | create (new : NewRecurringSchedule) (r : RecurringSchedule)
      (hc : c = .recurringScheduleCreate new) (hr : Creates h E s new r)
      (hfresh : ∀ x ∈ s.recurringSchedules, x.id ≠ r.id)
      (hschedules : s'.recurringSchedules = s.recurringSchedules ++ [r])
      (hruns : s'.recurringRuns = s.recurringRuns) (hgrown : Grown s s')
  | edit (patch : RecurringSchedulePatch) (before after : RecurringSchedule)
      (hc : c = .recurringScheduleUpdate before.id patch) (hheld : held = [.schedule before])
      (hknown : K before s)
      (hafter : ∃ s₀ book, applyPatch h s₀ book before patch = .ok after)
      (hs : s' = { s with recurringSchedules := writeBack s.recurringSchedules after })
  | mark (before : RecurringSchedule) (toStatus : RecurringScheduleStatus)
      (hfrom : before.status ≠ .ended) (hto : toStatus ≠ .ended) (hheld : held = [.schedule before])
      (hknown : K before s)
      (hs : s' = { s with
        recurringSchedules := writeBack s.recurringSchedules { before with status := toStatus } })
  | process (schedule : RecurringSchedule) (run : RecurringRun) (hlive : schedule.status ≠ .ended)
      (hheld : ∃ book, held = [.schedule schedule, .book book]) (hknown : K schedule s)
      (hprocesses : Processes h schedule s s' run)
  | delete (id : String) (hc : c = .recurringScheduleDelete id)
      (hnone : ∀ r ∈ s.recurringRuns, r.scheduleId ≠ id)
      (hschedules : s'.recurringSchedules = s.recurringSchedules.filter fun r ↦ r.id ≠ id)
      (hruns : s'.recurringRuns = s.recurringRuns) (hgrown : Grown s s')

/-- The transaction writes the copy `r` back: in an edit, or in an occurrence that has no run. -/
def WritesBack (held : List Held) (s : Db) (r : RecurringSchedule) : Prop :=
  held = [.schedule r] ∨ (∃ book, held = [.schedule r, .book book]) ∧
    runExists s r.id r.occurrencesProcessed = false

/-- What is known about the schedules in `rest` is still known after an occurrence of the schedule
`id`. -/
def Unaffected (h : Host) (K : RecurringSchedule → Db → Prop) (id : String)
    (rest : List RecurringSchedule) : Prop :=
  ∀ b ∈ rest, ∀ schedule s s' run, schedule.id = id → Processes h schedule s s' run →
    K b s → K b s'

section Bodies

def agenda (s : Db) : List RecurringSchedule × List RecurringRun × List String × List String :=
  (s.recurringSchedules, s.recurringRuns, s.invoices.map Invoice.id,
    s.transactions.map Transaction.id)

theorem sameSchedules_of_keeps (hs : Keeps agenda s s') : SameSchedules s s' := by
  obtain ⟨hsame, -⟩ := hs
  simp only [agenda, Prod.mk.injEq] at hsame
  obtain ⟨hschedules, hruns, hinvoices, htransactions⟩ := hsame
  exact ⟨hschedules, hruns, hinvoices ▸ List.prefix_refl _, htransactions ▸ List.prefix_refl _⟩

theorem scheduleUpdate_ensures (after : RecurringSchedule) :
    Ensures (scheduleUpdate after) s fun _ s' ↦
      s' = { s with recurringSchedules := writeBack s.recurringSchedules after } := by
  simp only [scheduleUpdate, ensures_bind, ensures_get, ensures_ite, ensures_pure]
  refine ⟨fun _ ↦ ?_, fun hnone ↦ ?_⟩
  · simp only [scheduleConstraints, ensures_bind, ensures_get, ensures_constraint, ensures_modify]
    exact fun _ _ ↦ rfl
  · have hsame : writeBack s.recurringSchedules after = s.recurringSchedules := by
      refine (List.map_congr_left fun r hr ↦ ?_).trans (List.map_id _)
      rw [Option.not_isSome_iff_eq_none, lookup_eq_none] at hnone
      rw [if_neg (hnone r hr)]
      rfl
    rw [hsame]

theorem issueInvoiceInTx_records {book : Book} {resolved : ResolvedInvoice} :
    Ensures (issueInvoiceInTx h book resolved) s fun invoice s' ↦ SameSchedules s s' ∧
      Added (s.invoices.map Invoice.id) (s'.invoices.map Invoice.id) invoice.id := by
  have hnumber : Moves (Keeps agenda) (allocateNumber book.id resolved.series) :=
    allocateNumber_keeps fun _ _ ↦ rfl
  have hitems : ∀ invoice, Moves (Keeps agenda) (storeInvoiceItems h invoice 0 resolved.lines) :=
    fun invoice ↦ storeInvoiceItems_keeps invoice 0 _ (fun _ _ ↦ rfl) fun _ _ ↦ rfl
  have hrevenue : ∀ date text id, Moves (Keeps agenda) (postRevenueArJournal h book
      resolved.currency (resolved.lines.map fun l ↦ l.2.2) date text id .salesRevenue id) :=
    fun _ _ _ ↦ moves_keeps book fun _ ↦
      moves_postRevenueArJournal (fun _ _ ↦ rfl) (fun _ _ _ ↦ rfl) (by simp)
  simp only [issueInvoiceInTx, ensures_bind]
  refine (hnumber s).mono fun number t ht ↦ ?_
  obtain ⟨hschedules, hruns, hinvoices, htransactions⟩ : t.recurringSchedules =
      s.recurringSchedules ∧ t.recurringRuns = s.recurringRuns ∧
      t.invoices.map Invoice.id = s.invoices.map Invoice.id ∧
      t.transactions.map Transaction.id = s.transactions.map Transaction.id := by
    simpa only [agenda, Prod.mk.injEq] using ht.1
  simp only [ensures_newId, invoiceInsert, ensures_bind, ensures_get, ensures_constraint,
    ensures_modify]
  intro hfresh _ _
  refine (hitems _ _).mono fun _ u hu ↦ ?_
  have hresult : ∀ v, Keeps agenda u v → SameSchedules s v ∧
      Added (s.invoices.map Invoice.id) (v.invoices.map Invoice.id) (h.newId t.minted) := by
    intro v hv
    obtain ⟨hschedules', hruns', hinvoices', htransactions'⟩ : v.recurringSchedules =
        t.recurringSchedules ∧ v.recurringRuns = t.recurringRuns ∧
        v.invoices.map Invoice.id = t.invoices.map Invoice.id ++ [h.newId t.minted] ∧
        v.transactions.map Transaction.id = t.transactions.map Transaction.id := by
      have hsame := (trans_of (Keeps agenda) hu hv).1
      simpa only [agenda, Prod.mk.injEq, List.map_append, List.map_singleton] using hsame
    rw [hinvoices] at hinvoices'
    refine ⟨⟨hschedules'.trans hschedules, hruns'.trans hruns, ?_, ?_⟩, ?_, ?_⟩
    · exact ⟨_, hinvoices'.symm⟩
    · exact htransactions.symm.trans htransactions'.symm ▸ List.prefix_refl _
    · rw [← hinvoices]
      intro hmem
      obtain ⟨i, hi, hid⟩ := List.mem_map.1 hmem
      exact hfresh i hi hid
    · rw [hinvoices']
      simp
  simp only [ensures_ite, ensures_bind, ensures_pure]
  exact ⟨fun _ ↦ (hrevenue _ _ _ _).mono fun _ v hv ↦ hresult v hv, fun _ ↦ hresult u (refl_of _ u)⟩

theorem createTransactionInTx_records {new : NewTransaction} :
    Ensures (createTransactionInTx h new) s fun txn s' ↦ SameSchedules s s' ∧
      Added (s.transactions.map Transaction.id) (s'.transactions.map Transaction.id) txn.id := by
  simp only [createTransactionInTx, ensures_bind, ensures_get, ensures_check, ensures_newId,
    insertTransaction, ensures_constraint, ensures_modify, ensures_pure]
  intros
  rename_i hfresh _ _ _ _
  refine ⟨⟨rfl, rfl, List.prefix_refl _, ?_⟩, ?_, ?_⟩
  · simp
  · intro hmem
    obtain ⟨i, hi, hid⟩ := List.mem_map.1 hmem
    exact hfresh i hi hid
  · simp

/-- What is generated for an occurrence is new in its table. -/
theorem generate_records {book : Book} {schedule : RecurringSchedule} {occurrenceDate : String} :
    Ensures (generate h book schedule occurrenceDate) s fun generated s' ↦ SameSchedules s s' ∧
      (generated.1 = "invoices" ∧
          Added (s.invoices.map Invoice.id) (s'.invoices.map Invoice.id) generated.2 ∨
        generated.1 = "transactions" ∧
          Added (s.transactions.map Transaction.id) (s'.transactions.map Transaction.id)
            generated.2) := by
  rw [generate]
  split
  · simp only [generateInvoice, ensures_bind, ensures_check, ensures_get, ensures_pure]
    intro contactId _ _ _ dueDate _
    have hread : Moves Eq (resolveInvoice h book (invoiceOf schedule contactId occurrenceDate
        dueDate (itemList s schedule.id)) : Action ResolvedInvoice) := moves_resolveInvoice
    refine (hread s).mono fun resolved t ht ↦ ?_
    subst ht
    exact issueInvoiceInTx_records.mono fun invoice s' hs' ↦ ⟨hs'.1, .inl ⟨trivial, hs'.2⟩⟩
  · simp only [generateTransaction, ensures_bind, ensures_check, ensures_pure]
    intro accountId _ amountMinor _
    exact createTransactionInTx_records.mono fun txn s' hs' ↦ ⟨hs'.1, .inr ⟨trivial, hs'.2⟩⟩

theorem processInTx_ensures {book : Book} {schedule : RecurringSchedule} {date : String}
    {skip : Bool} (hdate : occurrenceDate h schedule.startDate schedule.frequency
      schedule.intervalCount schedule.occurrencesProcessed = .ok date) :
    Ensures (processInTx h book schedule date skip) s fun run s' ↦
      Processes h schedule s s' run := by
  have hgenerated : Ensures (generateUnless h skip book schedule date) s
      fun generated t ↦ SameSchedules s t ∧ ∀ run : RecurringRun,
        run.outcome = (if skip then .skipped else .generated) →
        run.generatedTable = generated.map Prod.fst → run.generatedId = generated.map Prod.snd →
        Unrecorded s run ∧ Recorded t run := by
    rw [generateUnless, ensures_ite]
    refine ⟨fun hskip ↦ ?_, fun hskip ↦ ?_⟩
    · rw [ensures_pure]
      refine ⟨⟨rfl, rfl, refl_of Grown s⟩, fun run houtcome htable hid ↦ ?_⟩
      rw [hskip, if_pos rfl] at houtcome
      rw [Unrecorded, Recorded, houtcome]
      exact ⟨by simp [hid], htable, hid⟩
    · rw [ensures_map]
      refine generate_records.mono fun generated t ht ↦ ⟨ht.1, fun run houtcome htable hid ↦ ?_⟩
      rw [if_neg hskip] at houtcome
      rw [Unrecorded, Recorded, houtcome]
      rcases ht.2 with ⟨hinvoice, hadded⟩ | ⟨htransaction, hadded⟩
      · rw [Option.map_some, hinvoice] at htable
        exact ⟨by simpa [hid, htable] using hadded.1, _, hid, .inl ⟨htable, hadded.2⟩⟩
      · rw [Option.map_some, htransaction] at htable
        exact ⟨by simpa [hid, htable] using hadded.1, _, hid, .inr ⟨htable, hadded.2⟩⟩
  simp only [processInTx, ensures_bind, ensures_get, ensures_check]
  intro _ hnew
  refine hgenerated.mono fun generated t ht ↦ ?_
  obtain ⟨hsame, hrecords⟩ := ht
  simp only [ensures_newId, runInsert, ensures_bind, ensures_get, ensures_constraint,
    ensures_modify]
  intro _ _ hrefs _ advanced hadvanced
  refine (scheduleUpdate_ensures advanced).mono fun _ u hu ↦ ?_
  subst hu
  rw [ensures_pure]
  have hstored := isSome_lookup.1 hrefs.1
  rw [hsame.schedules] at hstored
  exact {
    new := by simpa [checkNewRun] using hnew
    date := hdate
    scheduleId := rfl
    index := rfl
    schedules := ⟨advanced, hadvanced, by rw [hsame.schedules]⟩
    runs := by rw [hsame.runs]
    stored := hstored
    grown := hsame.grown
    before := (hrecords _ rfl rfl rfl).1
    after := (hrecords _ rfl rfl rfl).2 }

end Bodies

section Programs

variable {E : Db → Db → Prop} {K : RecurringSchedule → Db → Prop} {c : Call} {α : Type}

theorem since_elsewhere [IsPreorder Db E] (hc : ∀ t ∈ writtenBy c, Hides agenda t) :
    (c.program h parseSlip).Since E (ScheduleStep h E K c) s :=
  (program_keeps (fun _ _ ↦ rfl) c hc).mono fun _ _ _ hs ↦ .keep (sameSchedules_of_keeps hs)

theorem invoiceIssue_schedules {new : NewInvoice} :
    (invoiceIssue h new).Since E (ScheduleStep h E K c) s := by
  refine (Within.since ?_)
  exact within_bookGet_bind fun _ ↦ within_reading_bind reading_resolveInvoice fun _ ↦
    (within_atomically _ _).2 fun _ ↦ issueInvoiceInTx_records.mono fun _ _ hs ↦ .keep hs.1

theorem transactionCreate_schedules {new : NewTransaction} :
    (transactionCreate h new).Since E (ScheduleStep h E K c) s :=
  Within.since <| (within_atomically _ _).2 fun _ ↦
    createTransactionInTx_records.mono fun _ _ hs ↦ .keep hs.1

variable [IsPreorder Db E]

theorem since_schedule {R : List Held → Db → Db → Prop} {id : String}
    {f : RecurringSchedule → Service α} (hf : ∀ r t, E s t → r.id = id →
      r ∈ t.recurringSchedules → (f r).Since E R t) :
    (scheduleService id >>= f).Since E R s := by
  intro t ht
  simp only [scheduleService, Guarantees, meets_bind, meets_query, continues_ok, meets_ofExcept]
  intro u hu
  refine continues_true.2 fun r hr ↦ ?_
  obtain ⟨hmem, hid⟩ := lookup_eq_some (orNotFound_eq_ok.1 hr)
  exact (hf r u (trans_of E ht hu) hid hmem).guarantees

theorem since_bookGet_since {R : List Held → Db → Db → Prop} {id : String} {f : Book → Service α}
    (hf : ∀ book t, E s t → (f book).Since E R t) : (bookGet id >>= f).Since E R s := by
  intro t ht
  simp only [bookGet, Guarantees, meets_bind, meets_query, continues_ok, meets_ofExcept]
  exact fun u hu ↦ continues_true.2 fun book _ ↦ (hf book u (trans_of E ht hu)).guarantees

theorem recurringScheduleCreate_schedules {new : NewRecurringSchedule} :
    (recurringScheduleCreate h new).Since E
      (ScheduleStep h E K (.recurringScheduleCreate new)) s := by
  refine since_bookGet fun book _ hb ↦ .ofExcept_bind _ fun _ _ ↦ .ofExcept_bind _ fun _ hcheck ↦
    .query_bind _ fun t _ ↦ .ofExcept_bind _ fun _ _ ↦ .ofExcept_bind _ fun _ _ ↦
    .ofExcept_bind _ fun checked hchecked ↦ .ofExcept_bind _ fun currency _ ↦
    .ofExcept_bind _ fun nextRunDate hdate ↦ reading_orNotFound.bind_since fun fields ↦
    .atomically fun u hrt ↦ ?_
  have hpositive : 0 < new.intervalCount.getD 1 := by
    by_contra hneg
    simp [require, hneg] at hcheck
  have hitems : ∀ schedule now items, Moves (Keeps agenda) (storeItems h schedule now 0 items) :=
    fun _ _ _ ↦ storeItems_keeps _ _ _ _ (fun _ _ ↦ rfl) fun _ _ ↦ rfl
  simp only [ensures_bind, ensures_nowIso, ensures_newId, scheduleInsert, scheduleConstraints,
    ensures_get, ensures_constraint, ensures_modify, ensures_pure]
  intro hfresh _ _ _ _
  refine (hitems _ _ _ _).mono fun _ v hu ↦ ?_
  have hsame := sameSchedules_of_keeps hu
  refine .create new _ rfl ⟨rfl, rfl, ⟨t, hrt, rfl⟩, rfl, ⟨rfl, hpositive⟩, rfl, rfl, ?_, hdate⟩
    hfresh hsame.schedules hsame.runs hsame.grown
  · intro n hn
    by_contra hneg
    rw [Option.mem_def.1 hn] at hchecked
    simp [checkMaxOccurrences, require, hneg] at hchecked

variable (hK : ∀ r t u, K r t → E t u → K r u) (hread : ∀ t, ∀ r ∈ t.recurringSchedules, K r t)

include hK hread

theorem recurringScheduleUpdate_schedules {id : String} {patch : RecurringSchedulePatch} :
    (recurringScheduleUpdate h id patch).Since E
      (ScheduleStep h E K (.recurringScheduleUpdate id patch)) s := by
  refine since_schedule fun before t _ hid hbefore ↦ since_bookGet_since fun book u hu ↦
    .query_bind _ fun v hv ↦ .ofExcept_bind _ fun after hafter ↦
    (Since.atomically fun w hw ↦ ?_).bind_reading fun _ ↦ (reading_pure _).2 trivial
  have hknown : K before w := hK _ _ _ (hread _ _ hbefore) (trans_of E hu (trans_of E hv hw))
  exact (scheduleUpdate_ensures after).mono fun _ _ hs ↦
    .edit patch before after (by rw [hid]) rfl hknown ⟨v, book, hafter⟩ hs

theorem setStatus_schedules {id : String} {fromStatus toStatus : RecurringScheduleStatus}
    (hfrom : fromStatus ≠ .ended) (hto : toStatus ≠ .ended) :
    (setStatus id fromStatus toStatus).Since E (ScheduleStep h E K c) s := by
  refine since_schedule fun before t _ _ hbefore ↦ .ofExcept_bind _ fun _ hstatus ↦
    (Since.atomically fun u hu ↦ ?_).bind_reading fun _ ↦ (reading_pure _).2 trivial
  have heq : before.status = fromStatus := by simpa [checkStatus] using hstatus
  exact (scheduleUpdate_ensures _).mono fun _ _ hs ↦
    .mark before toStatus (heq ▸ hfrom) hto rfl (hK _ _ _ (hread _ _ hbefore) hu) hs

omit hK hread in
theorem recurringScheduleDelete_schedules {id : String} :
    (recurringScheduleDelete id).Since E (ScheduleStep h E K (.recurringScheduleDelete id)) s := by
  refine reading_orNotFound.bind_since fun before ↦ .ofExcept_bind _ fun _ _ ↦
    .atomically fun t _ ↦ ?_
  simp only [scheduleDelete, ensures_bind, ensures_get, ensures_constraint, ensures_modify]
  exact fun hnone ↦ .delete id rfl hnone rfl rfl (refl_of Grown t)

omit hread in
/-- What the processing of an occurrence does, when the copy it uses is known at the start. -/
theorem recurringProcessOccurrence_meets {schedule : RecurringSchedule} {skip : Bool}
    (hlive : schedule.status ≠ .ended) (hknown : K schedule s) :
    (recurringProcessOccurrence h schedule skip).Meets E (ScheduleStep h E K c) s fun r s' ↦
      E s s' ∨ ∃ t run, E s t ∧ r = .ok run ∧ Processes h schedule t s' run := by
  simp only [recurringProcessOccurrence, bookGet, meets_bind, meets_query, continues_ok,
    meets_ofExcept]
  intro t ht
  cases hbook : orNotFound "book" schedule.bookId (getBook t schedule.bookId) with
  | error e => exact .inl ht
  | ok book =>
    cases hdate : occurrenceDate h schedule.startDate schedule.frequency schedule.intervalCount
        schedule.occurrencesProcessed with
    | error e => exact .inl ht
    | ok date =>
      rw [continues_ok, continues_ok, meets_atomically]
      intro u hu
      have hsu := trans_of E ht hu
      have hprocesses : Ensures (processInTx h book schedule date skip) u fun run s' ↦
          Processes h schedule u s' run := processInTx_ensures hdate
      refine ⟨hprocesses.mono fun run s' hs ↦ .process schedule run hlive ⟨book, rfl⟩
        (hK _ _ _ hknown hsu) hs, ?_⟩
      cases hb : processInTx h book schedule date skip u with
      | error e => exact .inl (by rwa [commit_of_error hb])
      | ok r =>
        rw [commit_of_ok hb]
        exact .inr ⟨u, r.1, hsu, rfl, hprocesses _ _ hb⟩

theorem recurringScheduleSkipNext_schedules {id : String} :
    (recurringScheduleSkipNext h id).Since E (ScheduleStep h E K c) s := by
  refine since_schedule fun schedule t _ _ hschedule ↦ .ofExcept_bind _ fun _ hlive u hu ↦ ?_
  have hended : schedule.status ≠ .ended := by
    intro heq
    simp [require, heq] at hlive
  exact (recurringProcessOccurrence_meets hK hended (hK _ _ _ (hread _ _ hschedule) hu)).mono
    (fun _ _ _ hs ↦ hs) fun _ _ _ ↦ trivial

theorem runSchedule_meets {rounds : ℕ} {asOf : String} {schedule : RecurringSchedule}
    {rest : List RecurringSchedule} (hknown : K schedule s)
    (hunaffected : Unaffected h K schedule.id rest) (hrest : ∀ b ∈ rest, K b s) :
    (runSchedule h rounds asOf schedule).Meets E (ScheduleStep h E K c) s fun _ s' ↦
      ∀ b ∈ rest, K b s' := by
  induction rounds generalizing s schedule with
  | zero => exact (meets_fail _).2 hrest
  | succ rounds ih =>
    rw [runSchedule]
    split
    · exact (meets_pure _).2 hrest
    · next hdue =>
      have hlive : schedule.status ≠ .ended := by
        intro heq
        simp [heq] at hdue
      rw [meets_bind, meets_attempt]
      refine (recurringProcessOccurrence_meets hK hlive hknown).mono (fun _ _ _ hs ↦ hs)
        fun r t ht ↦ ?_
      have hrest' : ∀ b ∈ rest, K b t := by
        intro b hb
        rcases ht with ht | ⟨u, run, hu, -, hprocesses⟩
        · exact hK _ _ _ (hrest b hb) ht
        · exact hunaffected b hb _ _ _ _ rfl hprocesses (hK _ _ _ (hrest b hb) hu)
      cases r with
      | error e =>
        rw [continues_ok, meets_ite]
        exact ⟨fun _ ↦ (meets_fail _).2 hrest', fun _ ↦ (meets_pure _).2 hrest'⟩
      | ok run =>
        simp only [continues_ok, scheduleService, meets_bind, meets_query, meets_ofExcept]
        intro u hu
        have hrestu : ∀ b ∈ rest, K b u := fun b hb ↦ hK _ _ _ (hrest' b hb) hu
        cases hnext : scheduleGet u schedule.id with
        | error e => exact hrestu
        | ok next =>
          obtain ⟨hmem, hid⟩ := lookup_eq_some (orNotFound_eq_ok.1 hnext)
          refine (ih (hread _ _ hmem) (hid ▸ hunaffected) hrestu).mono (fun _ _ _ hs ↦ hs)
            fun r v hv ↦ ?_
          cases r with
          | error e => exact hv
          | ok runs => exact (meets_pure _).2 hv

theorem runSchedules_meets {rounds : ℕ} {asOf : String} {due : List RecurringSchedule}
    (hknown : ∀ b ∈ due, K b s)
    (hunaffected : due.Pairwise fun a b ↦ Unaffected h K a.id [b]) :
    (runSchedules h rounds asOf due).Guarantees E (ScheduleStep h E K c) s := by
  induction due generalizing s with
  | nil => exact (meets_pure _).2 trivial
  | cons schedule due ih =>
    rw [List.forall_mem_cons] at hknown
    rw [List.pairwise_cons] at hunaffected
    rw [runSchedules, Guarantees, meets_bind]
    refine (runSchedule_meets hK hread hknown.1 ?_ hknown.2).mono (fun _ _ _ hs ↦ hs)
      fun r t ht ↦ continues_true.2 fun runs _ ↦ ?_
    · exact fun b hb ↦ hunaffected.1 b hb b (List.mem_singleton_self b)
    · rw [meets_bind]
      exact (ih ht hunaffected.2).mono (fun _ _ _ hs ↦ hs) fun _ _ _ ↦
        continues_true.2 fun _ _ ↦ (meets_pure _).2 trivial

variable (hapart : ∀ t, E s t → ∀ bookId asOf,
  (scheduleListDue t bookId asOf).Pairwise fun a b ↦ Unaffected h K a.id [b])

include hapart

theorem recurringRunDue_schedules {rounds : ℕ} {bookId : String} {asOf : Option String} :
    (recurringRunDue h rounds bookId asOf).Since E (ScheduleStep h E K c) s := by
  intro t ht
  simp only [recurringRunDue, bookGet, Guarantees, meets_bind, meets_query, continues_ok,
    meets_ofExcept]
  intro u hu
  refine continues_true.2 fun book _ v hv ↦ continues_true.2 fun date _ w hw ↦ ?_
  have hsw := trans_of E ht (trans_of E hu (trans_of E hv hw))
  refine runSchedules_meets hK hread (fun b hb ↦ hread _ _ ?_) (hapart w hsw _ _)
  exact (List.mem_filter.1 ((List.mem_insertionSort _).1 hb)).1

theorem program_schedules (c : Call) :
    (c.program h parseSlip).Since E (ScheduleStep h E K c) s := by
  cases c with
  | invoiceIssue new => exact since_dropResult invoiceIssue_schedules
  | transactionCreate new => exact since_dropResult transactionCreate_schedules
  | recurringScheduleCreate new => exact since_dropResult recurringScheduleCreate_schedules
  | recurringScheduleUpdate id patch =>
    exact since_dropResult (recurringScheduleUpdate_schedules hK hread)
  | recurringSchedulePause id =>
    exact since_dropResult (setStatus_schedules hK hread nofun nofun)
  | recurringScheduleResume id =>
    exact since_dropResult (setStatus_schedules hK hread nofun nofun)
  | recurringScheduleDelete id => exact recurringScheduleDelete_schedules
  | recurringScheduleSkipNext id =>
    exact since_dropResult (recurringScheduleSkipNext_schedules hK hread)
  | recurringRunDue rounds bookId asOf =>
    exact since_dropResult (recurringRunDue_schedules hK hread hapart)
  | _ => exact since_elsewhere (by simp [writtenBy, Hides, agenda])

end Programs

end SlipScan.Schedules.Steps
