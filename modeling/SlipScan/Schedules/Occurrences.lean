import SlipScan.Model.PlainHost
import SlipScan.Schedules.Steps

namespace SlipScan.Schedules.Occurrences

open Model.Domain Model.Database Model.Ledger Model.Generate Model.Recurring Model.Scheduling
  Model.Service Model.Slip Model.PlainHost Foundation.Transaction Foundation.Interleaving Foundation.Table
  Ledger.Calls Writes.Frames Writes.Tables Steps Relation Process

variable {h : Host} {parseSlip : String → Except Fault SlipPayload} {s s' : Db}

def runsOf (s : Db) (scheduleId : String) : List RecurringRun :=
  s.recurringRuns.filter fun run ↦ run.scheduleId = scheduleId

/-- Two copies of a schedule have the same recurrence and have come equally far. -/
structure Agrees (r r' : RecurringSchedule) : Prop where
  id : r'.id = r.id
  startDate : r'.startDate = r.startDate
  frequency : r'.frequency = r.frequency
  intervalCount : r'.intervalCount = r.intervalCount
  occurrencesProcessed : r'.occurrencesProcessed = r.occurrencesProcessed
  nextRunDate : r'.nextRunDate = r.nextRunDate

theorem Agrees.refl (r : RecurringSchedule) : Agrees r r :=
  ⟨rfl, rfl, rfl, rfl, rfl, rfl⟩

def Current (r : RecurringSchedule) (s : Db) : Prop :=
  ∃ stored ∈ s.recurringSchedules, Agrees stored r

/-- The first `k` occurrences of a schedule have their runs, in order, and no other has. -/
structure InOrder (h : Host) (r : RecurringSchedule) (runs : List RecurringRun) (k : ℕ) : Prop where
  count : r.occurrencesProcessed = k
  indices : runs.map RecurringRun.occurrenceIndex = (List.range k).map Nat.cast
  dates : ∀ run ∈ runs, occurrenceDate h r.startDate r.frequency r.intervalCount
    run.occurrenceIndex = .ok run.occurrenceDate
  next : occurrenceDate h r.startDate r.frequency r.intervalCount r.occurrencesProcessed =
    .ok r.nextRunDate

def Apart (a b : RecurringRun) : Prop :=
  ∀ id, a.generatedId = some id → b.generatedId = some id → a.generatedTable ≠ b.generatedTable

/-- Every schedule has processed each of its occurrences once and in order. -/
structure Processed (h : Host) (s : Db) : Prop where
  nodup : (s.recurringSchedules.map RecurringSchedule.id).Nodup
  stored : ∀ run ∈ s.recurringRuns, ∃ r ∈ s.recurringSchedules, r.id = run.scheduleId
  inOrder : ∀ r ∈ s.recurringSchedules, ∃ k, InOrder h r (runsOf s r.id) k
  recorded : ∀ run ∈ s.recurringRuns, Recorded s run
  apart : s.recurringRuns.Pairwise Apart

section Step

theorem InOrder.of_agrees {r r' : RecurringSchedule} {runs : List RecurringRun} {k : ℕ}
    (hr : InOrder h r runs k) (hagrees : Agrees r r') : InOrder h r' runs k := by
  obtain ⟨-, hstart, hfrequency, hinterval, hcount, hdate⟩ := hagrees
  constructor
  · exact hcount.trans hr.count
  · exact hr.indices
  · rw [hstart, hfrequency, hinterval]
    exact hr.dates
  · rw [hstart, hfrequency, hinterval, hcount, hdate]
    exact hr.next

theorem InOrder.dated {r : RecurringSchedule} {runs : List RecurringRun} {k : ℕ}
    (hr : InOrder h r runs k) : ∀ j ≤ k, ∃ text,
      occurrenceDate h r.startDate r.frequency r.intervalCount j = .ok text := by
  intro j hj
  rcases hj.lt_or_eq with hlt | rfl
  · have hindex : (j : ℤ) ∈ runs.map RecurringRun.occurrenceIndex := by
      rw [hr.indices]
      exact List.mem_map_of_mem (List.mem_range.2 hlt)
    obtain ⟨run, hrun, heq⟩ := List.mem_map.1 hindex
    exact ⟨run.occurrenceDate, heq ▸ hr.dates run hrun⟩
  · exact ⟨r.nextRunDate, hr.count ▸ hr.next⟩

theorem InOrder.concat {r r' : RecurringSchedule} {runs : List RecurringRun} {k : ℕ}
    (hr : InOrder h r runs k) {run : RecurringRun} (hindex : run.occurrenceIndex = k)
    (hdate : occurrenceDate h r.startDate r.frequency r.intervalCount run.occurrenceIndex =
      .ok run.occurrenceDate)
    (hstart : r'.startDate = r.startDate) (hfrequency : r'.frequency = r.frequency)
    (hinterval : r'.intervalCount = r.intervalCount) (hcount : r'.occurrencesProcessed = k + 1)
    (hnext : occurrenceDate h r.startDate r.frequency r.intervalCount r'.occurrencesProcessed =
      .ok r'.nextRunDate) : InOrder h r' (runs ++ [run]) (k + 1) := by
  constructor
  · exact_mod_cast hcount
  · simp [hr.indices, hindex, List.range_succ]
  · rw [hstart, hfrequency, hinterval]
    intro x hx
    rcases List.mem_append.1 hx with hx | hx
    · exact hr.dates x hx
    · rw [List.mem_singleton.1 hx]
      exact hdate
  · rw [hstart, hfrequency, hinterval]
    exact hnext

theorem Processed.map_schedules (hs : Processed h s) (f : RecurringSchedule → RecurringSchedule)
    (hf : ∀ r ∈ s.recurringSchedules, Agrees r (f r))
    (hschedules : s'.recurringSchedules = s.recurringSchedules.map f)
    (hruns : s'.recurringRuns = s.recurringRuns) (hgrown : Grown s s') : Processed h s' := by
  have hids : s'.recurringSchedules.map RecurringSchedule.id =
      s.recurringSchedules.map RecurringSchedule.id := by
    rw [hschedules, List.map_map]
    exact List.map_congr_left fun r hr ↦ (hf r hr).id
  constructor
  · rw [hids]
    exact hs.nodup
  · intro run hrun
    rw [hruns] at hrun
    obtain ⟨r, hr, hid⟩ := hs.stored run hrun
    rw [hschedules]
    exact ⟨f r, List.mem_map_of_mem hr, (hf r hr).id.trans hid⟩
  · intro r' hr'
    rw [hschedules] at hr'
    obtain ⟨r, hr, rfl⟩ := List.mem_map.1 hr'
    obtain ⟨k, hk⟩ := hs.inOrder r hr
    refine ⟨k, ?_⟩
    rw [(hf r hr).id, runsOf, hruns]
    exact hk.of_agrees (hf r hr)
  · rw [hruns]
    exact fun run hrun ↦ (hs.recorded run hrun).mono hgrown
  · rw [hruns]
    exact hs.apart

theorem Processed.same (hs : Processed h s) (hsame : SameSchedules s s') : Processed h s' :=
  hs.map_schedules id (fun r _ ↦ .refl r) (by simpa using hsame.schedules) hsame.runs hsame.grown

theorem Processed.eq_of_id (hs : Processed h s) {r r' : RecurringSchedule}
    (hr : r ∈ s.recurringSchedules) (hr' : r' ∈ s.recurringSchedules) (hid : r.id = r'.id) :
    r = r' :=
  List.inj_on_of_nodup_map hs.nodup hr hr' hid

theorem Processed.date_eq (hs : Processed h s) {r : RecurringSchedule} {date : String}
    (hr : r ∈ s.recurringSchedules) (hdate : occurrenceDate h r.startDate r.frequency
      r.intervalCount r.occurrencesProcessed = .ok date) : date = r.nextRunDate := by
  obtain ⟨k, hk⟩ := hs.inOrder r hr
  rw [hk.next, Except.ok.injEq] at hdate
  exact hdate.symm

theorem Processed.writeBack (hs : Processed h s) {before after : RecurringSchedule}
    (hcurrent : Current before s) (hid : after.id = before.id)
    (hcount : after.occurrencesProcessed = before.occurrencesProcessed)
    (hdate : after.nextRunDate = before.nextRunDate) :
    Processed h { s with recurringSchedules := writeBack s.recurringSchedules after } := by
  obtain ⟨stored, hstored, hagrees⟩ := hcurrent
  refine hs.map_schedules _ (fun r hr ↦ ?_) rfl rfl (refl_of Grown s)
  split
  · next hrid =>
    have heq : r = stored := hs.eq_of_id hr hstored (hrid.trans (hid.trans hagrees.id))
    subst heq
    exact ⟨rfl, rfl, rfl, rfl, hcount.trans hagrees.occurrencesProcessed,
      hdate.trans hagrees.nextRunDate⟩
  · exact .refl r

theorem Processed.create {E : Db → Db → Prop} (hs : Processed h s) {new : NewRecurringSchedule}
    {r : RecurringSchedule}
    (hr : Creates h E s new r) (hfresh : ∀ x ∈ s.recurringSchedules, x.id ≠ r.id)
    (hschedules : s'.recurringSchedules = s.recurringSchedules ++ [r])
    (hruns : s'.recurringRuns = s.recurringRuns) (hgrown : Grown s s') : Processed h s' := by
  have hnone : runsOf s' r.id = [] := by
    rw [runsOf, hruns, List.filter_eq_nil_iff]
    intro run hrun hid
    obtain ⟨x, hx, hxid⟩ := hs.stored run hrun
    exact hfresh x hx (hxid.trans (of_decide_eq_true hid))
  constructor
  · rw [hschedules]
    exact nodup_concat hfresh hs.nodup
  · intro run hrun
    rw [hruns] at hrun
    obtain ⟨x, hx, hid⟩ := hs.stored run hrun
    exact ⟨x, hschedules ▸ List.mem_append_left _ hx, hid⟩
  · intro x hx
    rw [hschedules, List.mem_append, List.mem_singleton] at hx
    rcases hx with hx | rfl
    · rw [runsOf, hruns]
      exact hs.inOrder x hx
    · refine ⟨0, hnone ▸ ⟨hr.count, rfl, by simp, ?_⟩⟩
      rw [hr.count]
      exact hr.date
  · rw [hruns]
    exact fun run hrun ↦ (hs.recorded run hrun).mono hgrown
  · rw [hruns]
    exact hs.apart

theorem Processed.delete (hs : Processed h s) {id : String}
    (hnone : ∀ r ∈ s.recurringRuns, r.scheduleId ≠ id)
    (hschedules : s'.recurringSchedules = s.recurringSchedules.filter fun r ↦ r.id ≠ id)
    (hruns : s'.recurringRuns = s.recurringRuns) (hgrown : Grown s s') : Processed h s' := by
  constructor
  · rw [hschedules]
    exact hs.nodup.sublist (List.filter_sublist.map _)
  · intro run hrun
    rw [hruns] at hrun
    obtain ⟨r, hr, hid⟩ := hs.stored run hrun
    refine ⟨r, ?_, hid⟩
    rw [hschedules, List.mem_filter]
    exact ⟨hr, by simpa [hid] using hnone run hrun⟩
  · intro r hr
    rw [hschedules] at hr
    rw [runsOf, hruns]
    exact hs.inOrder r (List.mem_filter.1 hr).1
  · rw [hruns]
    exact fun run hrun ↦ (hs.recorded run hrun).mono hgrown
  · rw [hruns]
    exact hs.apart

theorem advance_eq_ok {r advanced : RecurringSchedule} (hr : advance h r = .ok advanced) :
    occurrenceDate h r.startDate r.frequency r.intervalCount (r.occurrencesProcessed + 1) =
        .ok advanced.nextRunDate ∧
      advanced.id = r.id ∧ advanced.occurrencesProcessed = r.occurrencesProcessed + 1 := by
  simp only [advance, except_bind_eq_ok, except_pure_eq_ok] at hr
  obtain ⟨date, hdate, rfl⟩ := hr
  exact ⟨hdate, rfl, rfl⟩

theorem Processed.process (hs : Processed h s) {schedule : RecurringSchedule} {run : RecurringRun}
    (hcurrent : Current schedule s) (hp : Processes h schedule s s' run) : Processed h s' := by
  obtain ⟨stored, hstored, hagrees⟩ := hcurrent
  obtain ⟨advanced, hadvanced, hschedules⟩ := hp.schedules
  obtain ⟨hnext, hid, hcount⟩ := advance_eq_ok hadvanced
  have hids : s'.recurringSchedules.map RecurringSchedule.id =
      s.recurringSchedules.map RecurringSchedule.id := by
    rw [hschedules]
    exact writeBack_ids _ _
  obtain ⟨k, hk⟩ := hs.inOrder stored hstored
  constructor
  · rw [hids]
    exact hs.nodup
  · intro x hx
    have hmem : x.scheduleId ∈ s.recurringSchedules.map RecurringSchedule.id := by
      rw [hp.runs, List.mem_append, List.mem_singleton] at hx
      rcases hx with hx | rfl
      · obtain ⟨r, hr, hrid⟩ := hs.stored x hx
        exact hrid ▸ List.mem_map_of_mem hr
      · rw [hp.scheduleId, hagrees.id]
        exact List.mem_map_of_mem hstored
    rw [← hids] at hmem
    exact List.mem_map.1 hmem
  · intro r' hr'
    rw [hschedules, mem_writeBack] at hr'
    obtain ⟨r, hr, rfl⟩ := hr'
    split
    · next hrid =>
      have heq : r = stored := hs.eq_of_id hr hstored (hrid.trans (hid.trans hagrees.id))
      subst heq
      have hruns : runsOf s' (overwrite advanced r).id = runsOf s r.id ++ [run] := by
        have hself : run.scheduleId = r.id := hp.scheduleId.trans hagrees.id
        change runsOf s' r.id = _
        rw [runsOf, hp.runs, List.filter_append, List.filter_singleton, decide_eq_true hself]
        rfl
      have hdate := hp.date
      rw [hagrees.startDate, hagrees.frequency, hagrees.intervalCount] at hdate hnext
      rw [hagrees.occurrencesProcessed, hk.count] at hcount hnext
      refine ⟨k + 1, hruns ▸ hk.concat ?_ (hp.index ▸ hdate) rfl rfl rfl hcount (hcount ▸ hnext)⟩
      rw [hp.index, hagrees.occurrencesProcessed, hk.count]
    · next hrid =>
      obtain ⟨k', hk'⟩ := hs.inOrder r hr
      have hne : run.scheduleId ≠ r.id := by
        rw [hp.scheduleId, ← hid]
        exact Ne.symm hrid
      refine ⟨k', ?_⟩
      rw [runsOf, hp.runs, List.filter_append, List.filter_singleton, decide_eq_false hne]
      simpa [runsOf] using hk'
  · intro x hx
    rw [hp.runs, List.mem_append, List.mem_singleton] at hx
    rcases hx with hx | rfl
    · exact (hs.recorded x hx).mono hp.grown
    · exact hp.after
  · rw [hp.runs, List.pairwise_append]
    refine ⟨hs.apart, List.pairwise_singleton _ _, fun a ha b hb id haid hbid htable ↦ ?_⟩
    rw [List.mem_singleton] at hb
    subst hb
    obtain ⟨hinvoice, htransaction⟩ := hp.before id hbid
    have hold := hs.recorded a ha
    rw [Recorded] at hold
    split at hold
    · rw [haid] at hold
      cases hold.2
    · obtain ⟨_, heq, hold⟩ := hold
      rw [haid, Option.some.injEq] at heq
      subst heq
      rcases hold with ⟨hatable, hmem⟩ | ⟨hatable, hmem⟩
      · exact hinvoice (htable ▸ hatable) hmem
      · exact htransaction (htable ▸ hatable) hmem

theorem applyPatch_eq_ok {db : Db} {book : Book} {before after : RecurringSchedule}
    {patch : RecurringSchedulePatch} (hafter : applyPatch h db book before patch = .ok after) :
    ∃ endDate maxOccurrences,
      patched patch.endDate (patchEndDate h before.startDate) before.endDate = .ok endDate ∧
      patched patch.maxOccurrences patchMaxOccurrences before.maxOccurrences = .ok maxOccurrences ∧
      Agrees before after ∧ after.status = before.status ∧ after.endDate = endDate ∧
      after.maxOccurrences = maxOccurrences := by
  simp only [applyPatch, except_bind_eq_ok, except_pure_eq_ok] at hafter
  obtain ⟨_, -, endDate, hend, maxOccurrences, hmax, _, -, _, -, _, -, _, -, _, -, _, -, _, -, _, -,
    _, -, _, -, rfl⟩ := hafter
  exact ⟨endDate, maxOccurrences, hend, hmax, ⟨rfl, rfl, rfl, rfl, rfl, rfl⟩, rfl, rfl, rfl⟩

variable {E : Db → Db → Prop} {K : RecurringSchedule → Db → Prop} {c : Call} {held : List Held}

theorem Processed.step (hs : Processed h s)
    (hcurrent : ∀ r, WritesBack held s r → K r s → Current r s)
    (hstep : ScheduleStep h E K c held s s') : Processed h s' := by
  cases hstep with
  | keep hsame => exact hs.same hsame
  | create new r _ hr hfresh hschedules hruns hgrown =>
    exact hs.create hr hfresh hschedules hruns hgrown
  | edit patch before after _ hheld hknown hafter hs' =>
    obtain ⟨_, _, hafter⟩ := hafter
    obtain ⟨_, _, -, -, hagrees, -⟩ := applyPatch_eq_ok hafter
    subst hs'
    exact hs.writeBack (hcurrent before (.inl hheld) hknown) hagrees.id hagrees.occurrencesProcessed
      hagrees.nextRunDate
  | mark before toStatus _ _ hheld hknown hs' =>
    subst hs'
    exact hs.writeBack (hcurrent before (.inl hheld) hknown) rfl rfl rfl
  | process schedule run _ hheld hknown hp =>
    exact hs.process (hcurrent schedule (.inr ⟨hheld, hp.new⟩) hknown) hp
  | delete id _ hnone hschedules hruns hgrown => exact hs.delete hnone hschedules hruns hgrown

theorem Processed.elsewhere (hs : Processed h s) (he : Elsewhere h s s') : Processed h s' := by
  obtain ⟨category, hcategory⟩ := he.recurringSchedules
  obtain ⟨added, hadded, -⟩ := he.transactions
  refine hs.map_schedules _ (fun r _ ↦ ?_) hcategory he.recurringRuns ⟨?_, added, hadded.symm⟩
  · exact ⟨rfl, rfl, rfl, rfl, rfl, rfl⟩
  · exact he.invoices ▸ List.prefix_refl _

end Step

section Run

def Stored (r : RecurringSchedule) (s : Db) : Prop :=
  r ∈ s.recurringSchedules

theorem mem_of_processes {schedule r : RecurringSchedule} {run : RecurringRun}
    (hp : Processes h schedule s s' run) (hne : r.id ≠ schedule.id) :
    r ∈ s'.recurringSchedules ↔ r ∈ s.recurringSchedules := by
  obtain ⟨advanced, hadvanced, hschedules⟩ := hp.schedules
  have hid := (advance_eq_ok hadvanced).2.1
  rw [hschedules, mem_writeBack]
  constructor
  · rintro ⟨x, hx, rfl⟩
    split at hne
    · next hxid => exact absurd (hxid.trans hid) hne
    · next hxid => rwa [if_neg hxid]
  · exact fun hr ↦ ⟨r, hr, if_neg (hid ▸ hne)⟩

theorem Processed.nodup_due (hs : Processed h s) (bookId asOf : String) :
    ((scheduleListDue s bookId asOf).map RecurringSchedule.id).Nodup :=
  ((List.perm_insertionSort _ _).map _).nodup_iff.2
    (hs.nodup.sublist (List.filter_sublist.map _))

theorem Processed.since (hs : Processed h s) (c : Call) :
    (c.program h parseSlip).Since Eq (ScheduleStep h Eq Stored c) s := by
  refine program_schedules (fun r t u hr htu ↦ htu ▸ hr) (fun _ _ hr ↦ hr) ?_ c
  rintro _ rfl bookId asOf
  have hdistinct := List.pairwise_map.1 (hs.nodup_due bookId asOf)
  refine hdistinct.imp fun {a b} hne x hx schedule t t' run hid hp hxt ↦ ?_
  rw [List.mem_singleton] at hx
  subst hx
  exact (mem_of_processes hp (hid ▸ Ne.symm hne)).2 hxt

theorem Processed.steps (hs : Processed h s) (c : Call) :
    ReflTransGen (fun t t' ↦ ∃ held, ScheduleStep h Eq Stored c held t t') s
      (c.run h parseSlip s) :=
  (run_of_meets (hs.since c).guarantees).2

theorem Processed.stored_step (hs : Processed h s) {c : Call} {held : List Held}
    (hstep : ScheduleStep h Eq Stored c held s s') : Processed h s' :=
  hs.step (fun r _ hr ↦ ⟨r, hr, .refl r⟩) hstep

theorem Processed.run (hs : Processed h s) (c : Call) : Processed h (c.run h parseSlip s) := by
  have hsteps : ReflTransGen (fun t t' ↦ ∃ held, ScheduleStep h Eq Stored c held t t') s
      (c.run h parseSlip s) := hs.steps c
  generalize c.run h parseSlip s = t at hsteps ⊢
  induction hsteps with
  | refl => exact hs
  | tail _ hstep ih =>
    obtain ⟨held, hstep⟩ := hstep
    exact ih.stored_step hstep

theorem processed_of_reachable (hs : Reachable h parseSlip anyCall s) : Processed h s := by
  induction hs with
  | refl => exact ⟨by simp, by simp, by simp, by simp, by simp⟩
  | tail _ hstep ih =>
    cases hstep with
    | call c _ => exact ih.run c
    | elsewhere he => exact ih.elsewhere he

end Run

section CatchUp

/-- What `runSchedule` attempts: the outcomes of the occurrences that it processes. -/
def scheduleAttempts (h : Host) :
    ℕ → String → RecurringSchedule → Service (List (Except Fault RecurringRun))
  | 0, _, _ => Process.fail .diverges
  | rounds + 1, asOf, schedule => do
    if schedule.status ≠ .active ∨ asOf < schedule.nextRunDate then return []
    else
      match ← (recurringProcessOccurrence h schedule false).attempt with
      | .ok run =>
        let next ← scheduleService schedule.id
        return .ok run :: (← scheduleAttempts h rounds asOf next)
      | .error e => if aborts e then Process.fail e else return [.error e]

def schedulesAttempts (h : Host) (rounds : ℕ) (asOf : String) :
    List RecurringSchedule → Service (List (Except Fault RecurringRun))
  | [] => return []
  | schedule :: due => do
    let attempts ← scheduleAttempts h rounds asOf schedule
    return attempts ++ (← schedulesAttempts h rounds asOf due)

def runDueAttempts (h : Host) (rounds : ℕ) (bookId : String) (asOf : Option String) :
    Service (List (Except Fault RecurringRun)) := do
  let book ← bookGet bookId
  let asOf ← Process.ofExcept (← Process.query fun db ↦ dueDateOr h db asOf)
  let due ← Process.query fun db ↦ scheduleListDue db book.id asOf
  schedulesAttempts h rounds asOf due

def processedRuns (attempts : List (Except Fault RecurringRun)) : List RecurringRun :=
  attempts.filterMap Except.toOption

theorem runSchedule_eq (rounds : ℕ) (asOf : String) (schedule : RecurringSchedule) :
    runSchedule h rounds asOf schedule =
      processedRuns <$> scheduleAttempts h rounds asOf schedule := by
  induction rounds generalizing schedule with
  | zero => rfl
  | succ rounds ih =>
    rw [runSchedule, scheduleAttempts]
    split
    · rfl
    · rw [map_bind]
      congr 1
      funext r
      cases r with
      | error e =>
        dsimp only
        split <;> rfl
      | ok run =>
        simp only [map_bind, ih, bind_map_left, map_pure]
        rfl

theorem runSchedules_eq (rounds : ℕ) (asOf : String) (due : List RecurringSchedule) :
    runSchedules h rounds asOf due = processedRuns <$> schedulesAttempts h rounds asOf due := by
  induction due with
  | nil => rfl
  | cons schedule due ih =>
    simp only [runSchedules, schedulesAttempts, runSchedule_eq, ih, map_bind, bind_map_left,
      map_pure, processedRuns, List.filterMap_append]

/-- The occurrences that a run reports are those attempts that did not fail. -/
theorem recurringRunDue_eq (rounds : ℕ) (bookId : String) (asOf : Option String) :
    recurringRunDue h rounds bookId asOf =
      processedRuns <$> runDueAttempts h rounds bookId asOf := by
  simp only [recurringRunDue, runDueAttempts, runSchedules_eq, map_bind]

def Due (asOf : String) (r : RecurringSchedule) : Prop :=
  r.status = .active ∧ r.nextRunDate ≤ asOf

/-- The schedules `ids` have been run, and are not due any more when none of them failed. -/
structure CaughtUp (h : Host) (asOf : String) (ids : List String) (s s' : Db)
    (result : Except Fault (List (Except Fault RecurringRun))) : Prop where
  processed : Processed h s'
  others : ∀ r : RecurringSchedule, r.id ∉ ids →
    (r ∈ s'.recurringSchedules ↔ r ∈ s.recurringSchedules)
  settled : ∀ attempts, result = .ok attempts → (∀ a ∈ attempts, ∃ run, a = .ok run) →
    ∀ r ∈ s'.recurringSchedules, r.id ∈ ids → ¬Due asOf r

theorem scheduleAttempts_caughtUp {rounds : ℕ} {asOf : String} {schedule : RecurringSchedule}
    (hs : Processed h s) (hschedule : schedule ∈ s.recurringSchedules) :
    (scheduleAttempts h rounds asOf schedule).Meets Eq (fun _ _ _ ↦ True) s fun result s' ↦
      CaughtUp h asOf [schedule.id] s s' result := by
  induction rounds generalizing s schedule with
  | zero => exact (meets_fail _).2 ⟨hs, fun _ _ ↦ Iff.rfl, nofun⟩
  | succ rounds ih =>
    rw [scheduleAttempts]
    split
    · next hdue =>
      refine (meets_pure _).2 ⟨hs, fun _ _ ↦ Iff.rfl, fun _ _ _ r hr hid ↦ ?_⟩
      rw [hs.eq_of_id hr hschedule (List.mem_singleton.1 hid)]
      rintro ⟨hactive, hle⟩
      exact hdue.elim (fun hne ↦ hne hactive) (not_lt.2 hle)
    · next hdue =>
      have hlive : schedule.status ≠ .ended := by
        intro heq
        simp [heq] at hdue
      rw [meets_bind, meets_attempt]
      refine (recurringProcessOccurrence_meets (E := Eq) (K := Stored)
        (c := .recurringRunDue 0 "" none) (fun r t u hr htu ↦ htu ▸ hr) hlive hschedule).mono
        (fun _ _ _ _ ↦ trivial) fun r t ht ↦ ?_
      have hbetween : Processed h t ∧ ∀ x : RecurringSchedule, x.id ≠ schedule.id →
          (x ∈ t.recurringSchedules ↔ x ∈ s.recurringSchedules) := by
        rcases ht with rfl | ⟨u, run, rfl, -, hp⟩
        · exact ⟨hs, fun _ _ ↦ Iff.rfl⟩
        · exact ⟨hs.process ⟨schedule, hschedule, .refl schedule⟩ hp,
            fun x hx ↦ mem_of_processes hp hx⟩
      obtain ⟨hprocessed, hothers⟩ := hbetween
      have hothers' : ∀ x : RecurringSchedule, x.id ∉ [schedule.id] →
          (x ∈ t.recurringSchedules ↔ x ∈ s.recurringSchedules) :=
        fun x hx ↦ hothers x (by simpa using hx)
      cases r with
      | error e =>
        rw [continues_ok, meets_ite]
        refine ⟨fun _ ↦ (meets_fail _).2 ⟨hprocessed, hothers', nofun⟩, fun _ ↦ (meets_pure _).2
          ⟨hprocessed, hothers', fun attempts hattempts hok ↦ ?_⟩⟩
        cases hattempts
        obtain ⟨run, hrun⟩ := hok _ (List.mem_singleton_self _)
        cases hrun
      | ok run =>
        simp only [continues_ok, scheduleService, meets_bind, meets_query, meets_ofExcept,
          forall_eq']
        cases hnext : scheduleGet t schedule.id with
        | error e => exact ⟨hprocessed, hothers', nofun⟩
        | ok next =>
          obtain ⟨hmem, hid⟩ := lookup_eq_some (orNotFound_eq_ok.1 hnext)
          refine (ih hprocessed hmem).mono (fun _ _ _ _ ↦ trivial) fun r u hu ↦ ?_
          rw [hid] at hu
          have hothersu : ∀ x : RecurringSchedule, x.id ∉ [schedule.id] →
              (x ∈ u.recurringSchedules ↔ x ∈ s.recurringSchedules) :=
            fun x hx ↦ (hu.others x hx).trans (hothers' x hx)
          cases r with
          | error e => exact ⟨hu.processed, hothersu, nofun⟩
          | ok attempts =>
            refine (meets_pure _).2 ⟨hu.processed, hothersu, fun _ hattempts hok ↦ ?_⟩
            cases hattempts
            exact hu.settled attempts rfl fun a ha ↦ hok a (List.mem_cons_of_mem _ ha)

theorem schedulesAttempts_caughtUp {rounds : ℕ} {asOf : String} {due : List RecurringSchedule}
    (hs : Processed h s) (hdue : ∀ r ∈ due, r ∈ s.recurringSchedules)
    (hnodup : (due.map RecurringSchedule.id).Nodup) :
    (schedulesAttempts h rounds asOf due).Meets Eq (fun _ _ _ ↦ True) s fun result s' ↦
      CaughtUp h asOf (due.map RecurringSchedule.id) s s' result := by
  induction due generalizing s with
  | nil => exact (meets_pure _).2 ⟨hs, fun _ _ ↦ Iff.rfl, fun _ _ _ _ _ hid ↦ by cases hid⟩
  | cons schedule due ih =>
    rw [List.map_cons, List.nodup_cons] at hnodup
    rw [List.forall_mem_cons] at hdue
    rw [schedulesAttempts, meets_bind]
    refine (scheduleAttempts_caughtUp hs hdue.1).mono (fun _ _ _ _ ↦ trivial) fun r t ht ↦ ?_
    have hothers : ∀ x : RecurringSchedule, x.id ∉ (schedule :: due).map RecurringSchedule.id →
        (x ∈ t.recurringSchedules ↔ x ∈ s.recurringSchedules) := by
      intro x hx
      exact ht.others x fun hid ↦ hx (by simp [List.mem_singleton.1 hid])
    cases r with
    | error e => exact ⟨ht.processed, hothers, nofun⟩
    | ok attempts =>
      have hrest : ∀ r ∈ due, r ∈ t.recurringSchedules := by
        intro r hr
        refine (ht.others r fun hid ↦ hnodup.1 ?_).2 (hdue.2 r hr)
        exact List.mem_singleton.1 hid ▸ List.mem_map_of_mem hr
      rw [continues_ok, meets_bind]
      refine (ih ht.processed hrest hnodup.2).mono (fun _ _ _ _ ↦ trivial) fun r u hu ↦ ?_
      have hothersu : ∀ x : RecurringSchedule, x.id ∉ (schedule :: due).map RecurringSchedule.id →
          (x ∈ u.recurringSchedules ↔ x ∈ s.recurringSchedules) := by
        intro x hx
        exact (hu.others x fun hid ↦ hx (List.mem_cons_of_mem _ hid)).trans (hothers x hx)
      cases r with
      | error e => exact ⟨hu.processed, hothersu, nofun⟩
      | ok rest =>
        refine (meets_pure _).2 ⟨hu.processed, hothersu, fun _ hattempts hok x hx hid ↦ ?_⟩
        cases hattempts
        rw [List.forall_mem_append] at hok
        by_cases hrestid : x.id ∈ due.map RecurringSchedule.id
        · exact hu.settled rest rfl hok.2 x hx hrestid
        · have hself : x.id ∈ [schedule.id] := by simpa [hrestid] using hid
          exact ht.settled attempts rfl hok.1 x ((hu.others x hrestid).1 hx) hself

theorem keeps_books {rounds : ℕ} {bookId : String} {asOf : Option String} :
    ((recurringRunDue h rounds bookId asOf).run s).2.books = s.books := by
  have hkeeps : (recurringRunDue h rounds bookId asOf).Since Eq
      (Moved h Eq (.recurringRunDue rounds bookId asOf) Db.books) s :=
    recurringRunDue_moved (fun _ _ ↦ rfl) (fun _ _ ↦ rfl) (fun _ _ ↦ rfl) (fun _ _ ↦ rfl)
      (fun _ _ _ ↦ rfl) (fun _ _ ↦ rfl) (fun _ _ ↦ rfl) fun _ _ ↦ rfl
  have hbooks : Keeps Db.books s ((recurringRunDue h rounds bookId asOf).run s).2 :=
    run_of_guarantees (hkeeps.mono fun _ _ _ ↦ And.right).guarantees
  exact hbooks.1

/-- Nothing is due after a run in which no occurrence failed. -/
theorem runDueAttempts_settles (hs : Processed h s) {rounds : ℕ} {bookId : String}
    {asOf : Option String} {attempts : List (Except Fault RecurringRun)}
    (hrun : (runDueAttempts h rounds bookId asOf).run s = (.ok attempts, s'))
    (hok : ∀ a ∈ attempts, ∃ run, a = .ok run) :
    ∃ book date, getBook s bookId = some book ∧ dueDateOr h s asOf = .ok date ∧
      scheduleListDue s' book.id date = [] := by
  have hmeets : (runDueAttempts h rounds bookId asOf).Meets Eq (fun _ _ _ ↦ True) s fun r t ↦
      ∀ attempts, r = .ok attempts → (∀ a ∈ attempts, ∃ run, a = .ok run) →
        ∃ book date, getBook s bookId = some book ∧ dueDateOr h s asOf = .ok date ∧
          scheduleListDue t book.id date = [] := by
    simp only [runDueAttempts, bookGet, meets_bind, meets_query, continues_ok, meets_ofExcept,
      forall_eq']
    cases hbook : orNotFound "book" bookId (getBook s bookId) with
    | error e => simp
    | ok book =>
      simp only [continues_ok]
      cases hdate : dueDateOr h s asOf with
      | error e => simp
      | ok date =>
        rw [continues_ok]
        have hdue : ∀ r ∈ scheduleListDue s book.id date, r ∈ s.recurringSchedules := fun r hr ↦
          (List.mem_filter.1 ((List.mem_insertionSort _).1 hr)).1
        refine (schedulesAttempts_caughtUp hs hdue (hs.nodup_due _ _)).mono
          (fun _ _ _ _ ↦ trivial) fun r t ht attempts hr hok ↦
          ⟨book, date, orNotFound_eq_ok.1 hbook, rfl, List.eq_nil_iff_forall_not_mem.2 fun x hx ↦ ?_⟩
        obtain ⟨hx, hcond⟩ := List.mem_filter.1 ((List.mem_insertionSort _).1 hx)
        have hcond' := of_decide_eq_true hcond
        by_cases hid : x.id ∈ (scheduleListDue s book.id date).map RecurringSchedule.id
        · exact ht.settled attempts hr hok x hx hid hcond'.2
        · refine hid (List.mem_map_of_mem ((List.mem_insertionSort _).2 (List.mem_filter.2 ?_)))
          exact ⟨(ht.others x hid).1 hx, hcond⟩
  have hpost := (run_of_meets hmeets).1
  rw [hrun] at hpost
  exact hpost attempts rfl hok

theorem recurringRunDue_nothing {rounds : ℕ} {bookId date : String} {asOf : Option String}
    {book : Book} (hbook : getBook s bookId = some book) (hdate : dueDateOr h s asOf = .ok date)
    (hdue : scheduleListDue s book.id date = []) :
    (recurringRunDue h rounds bookId asOf).run s = (.ok [], s) := by
  have hmeets : (recurringRunDue h rounds bookId asOf).Meets Eq (fun _ _ _ ↦ True) s fun r t ↦
      (r, t) = (.ok [], s) := by
    simp only [recurringRunDue, bookGet, meets_bind, meets_query, continues_ok, meets_ofExcept,
      forall_eq', hbook, orNotFound, hdate, hdue, runSchedules]
    exact (meets_pure _).2 rfl
  exact (run_of_meets hmeets).1

end CatchUp

/-- Every occurrence is processed once and in order, a failed one leaves the database as it was,
and a second run for the same date finds nothing to do when no occurrence failed in the first. -/
theorem occurrences_processed_once (h : Host) (parseSlip : String → Except Fault SlipPayload)
    (hs : Reachable h parseSlip anyCall s) :
    Processed h s ∧
      (∀ schedule skip e, ((recurringProcessOccurrence h schedule skip).run s).1 = .error e →
        ((recurringProcessOccurrence h schedule skip).run s).2 = s) ∧
      ∀ rounds bookId asOf attempts s',
        (runDueAttempts h rounds bookId asOf).run s = (.ok attempts, s') →
          (recurringRunDue h rounds bookId asOf).run s = (.ok (processedRuns attempts), s') ∧
          ((∀ a ∈ attempts, ∃ run, a = .ok run) → ∀ rounds' asOf',
            dueDateOr h s' asOf' = dueDateOr h s asOf →
              (recurringRunDue h rounds' bookId asOf').run s' = (.ok [], s')) := by
  have hprocessed := processed_of_reachable hs
  refine ⟨hprocessed, fun schedule skip e he ↦ ?_, fun rounds bookId asOf attempts s' hrun ↦ ?_⟩
  · refine Settled.run_error (Reading.bind_settled reading_orNotFound fun book ↦ ?_) he
    simp only [settled_ofExcept_bind, settled_atomically, implies_true]
  · have hfirst : (recurringRunDue h rounds bookId asOf).run s =
        (.ok (processedRuns attempts), s') := by
      rw [recurringRunDue_eq, run_map, hrun]
      rfl
    refine ⟨hfirst, fun hok rounds' asOf' hsame ↦ ?_⟩
    obtain ⟨book, date, hbook, hdate, hdue⟩ := runDueAttempts_settles hprocessed hrun hok
    have hbooks : ((recurringRunDue h rounds bookId asOf).run s).2.books = s.books := keeps_books
    rw [hfirst] at hbooks
    refine recurringRunDue_nothing ?_ (hsame.trans hdate) hdue
    rw [getBook, hbooks]
    exact hbook

def monthly (maxOccurrences : Option ℤ) (endDate : Option String) : NewRecurringSchedule :=
  { bookId := "book"
    kind := .transaction
    name := "Rent"
    frequency := .monthly
    intervalCount := none
    startDate := some "2025-01-31"
    endDate
    maxOccurrences
    contactId := none
    series := none
    dueDays := none
    items := []
    accountId := some "account"
    categoryId := none
    amountMinor := some 100
    merchant := none
    description := none
    currency := none
    notes := none }

def rented : Db :=
  runs setup [.recurringScheduleCreate (monthly none none)]

def runMarch : Except Fault (List (Except Fault RecurringRun)) × Db :=
  (runDueAttempts plainHost 5 "book" (some "2025-03-15")).run rented

theorem monthly_processed_once :
    (runsOf runMarch.2 "x").map RecurringRun.occurrenceDate = ["2025-01-31", "2025-02-28"] ∧
      (recurringRunDue plainHost 5 "book" (some "2025-03-15")).run runMarch.2 =
        (.ok [], runMarch.2) := by
  have hreach : Reachable plainHost noSlip anyCall rented := reachable_runs reachable_setup _
  have hok : runMarch.1.toOption.any fun attempts ↦ attempts.all Except.isOk := by decide +kernel
  refine ⟨by decide +kernel, ?_⟩
  have hrun : (runDueAttempts plainHost 5 "book" (some "2025-03-15")).run rented = runMarch := by
    rw [runMarch]
  generalize runMarch = result at hok hrun ⊢
  obtain ⟨_ | attempts, s'⟩ := result
  · cases hok
  · have hall : ∀ a ∈ attempts, ∃ run, a = .ok run := by
      intro a ha
      have haok : a.isOk := List.all_eq_true.1 hok a ha
      cases a with
      | error e => cases haok
      | ok run => exact ⟨run, rfl⟩
    exact ((occurrences_processed_once plainHost noSlip hreach).2.2 5 "book" (some "2025-03-15")
      attempts s' hrun).2 hall 5 (some "2025-03-15") (by simp only [dueDateOr])

end SlipScan.Schedules.Occurrences
