import SlipScan.Ledger.Calls
import SlipScan.Schedules.Dates
import SlipScan.Schedules.Progress

namespace SlipScan.Schedules.Bounds

open Model.Domain Model.Database Model.Ledger Model.Invoicing Model.Recurring Model.Scheduling Model.Service
  Model.Slip Model.PlainHost Foundation.Transaction Foundation.Interleaving Foundation.Table
  Ledger.Calls Steps Occurrences Progress Dates Relation Process

variable {h : Host} {parseSlip : String → Except Fault SlipPayload} {s s' : Db}

/-- The next occurrence of a schedule lies within its bounds. -/
def InBounds (r : RecurringSchedule) : Prop :=
  ¬pastCount r r.occurrencesProcessed ∧ ¬pastEnd r r.nextRunDate

def Bounded (s : Db) : Prop :=
  ∀ r ∈ s.recurringSchedules, r.status ≠ .ended → InBounds r

/-- The call does not put the next occurrence of a schedule past its bounds: the first one of a new
schedule, or the one that an edited schedule has come to. -/
def KeepsBounds (h : Host) : Call → Db → Prop
  | .recurringScheduleCreate new, s => ∀ date,
    occurrenceDate h (new.startDate.getD (datePart (h.nowIso s.minted))) new.frequency
      (new.intervalCount.getD 1) 0 = .ok date →
        ∀ e ∈ normalizeOptional new.endDate, date ≤ e
  | .recurringScheduleUpdate id patch, s => ∀ r ∈ s.recurringSchedules, r.id = id →
    r.status ≠ .ended → (∀ n, patch.maxOccurrences = some (some n) → r.occurrencesProcessed < n) ∧
      ∀ d, patch.endDate = some (some d) → r.nextRunDate ≤ d
  | _, _ => True

section Step

variable {c : Call} {held : List Held}

theorem bounded_writeBack (hs : Bounded s) {after : RecurringSchedule}
    (hafter : after.status ≠ .ended → InBounds after)
    (hschedules : s'.recurringSchedules = writeBack s.recurringSchedules after) : Bounded s' := by
  intro r hr hlive
  rw [hschedules, mem_writeBack] at hr
  obtain ⟨x, hx, rfl⟩ := hr
  split at hlive
  · next hid =>
    rw [if_pos hid]
    exact hafter hlive
  · next hid =>
    rw [if_neg hid]
    exact hs x hx hlive

theorem inBounds_patch {before after : RecurringSchedule} {patch : RecurringSchedulePatch} {db : Db}
    {book : Book} (hbefore : InBounds before)
    (hmax : ∀ n, patch.maxOccurrences = some (some n) → before.occurrencesProcessed < n)
    (hend : ∀ d, patch.endDate = some (some d) → before.nextRunDate ≤ d)
    (hafter : applyPatch h db book before patch = .ok after) : InBounds after := by
  obtain ⟨endDate, maxOccurrences, hendDate, hmaxOccurrences, hagrees, -, rfl, rfl⟩ :=
    applyPatch_eq_ok hafter
  refine ⟨?_, ?_⟩
  · rintro ⟨n, hn, hle⟩
    rw [hagrees.occurrencesProcessed] at hle
    rw [Option.mem_def] at hn
    cases hp : patch.maxOccurrences with
    | none =>
      simp only [hp, patched, Except.ok.injEq] at hmaxOccurrences
      exact hbefore.1 ⟨n, hmaxOccurrences ▸ hn, hle⟩
    | some new =>
      cases new with
      | none =>
        simp only [hp, patched, patchMaxOccurrences, Except.ok.injEq] at hmaxOccurrences
        rw [← hmaxOccurrences] at hn
        cases hn
      | some m =>
        simp only [hp, patched, patchMaxOccurrences, except_bind_eq_ok, exists_unit,
          except_pure_eq_ok] at hmaxOccurrences
        rw [← hmaxOccurrences.2, Option.some.injEq] at hn
        exact absurd (hmax m hp) (by omega)
  · rintro ⟨e, he, hlt⟩
    rw [hagrees.nextRunDate] at hlt
    rw [Option.mem_def] at he
    cases hp : patch.endDate with
    | none =>
      simp only [hp, patched, Except.ok.injEq] at hendDate
      exact hbefore.2 ⟨e, hendDate ▸ he, hlt⟩
    | some new =>
      cases new with
      | none =>
        simp only [hp, patched, patchEndDate, Except.ok.injEq] at hendDate
        rw [← hendDate] at he
        cases he
      | some d =>
        simp only [hp, patched, patchEndDate, except_bind_eq_ok, exists_unit,
          except_pure_eq_ok] at hendDate
        rw [← hendDate.2, Option.some.injEq] at he
        subst he
        exact absurd (hend d hp) (not_le.2 hlt)

theorem inBounds_advance {r advanced : RecurringSchedule} (hr : advance h r = .ok advanced)
    (hlive : advanced.status ≠ .ended) : InBounds advanced := by
  simp only [advance, except_bind_eq_ok, except_pure_eq_ok] at hr
  obtain ⟨date, -, rfl⟩ := hr
  simp only [ne_eq, ite_eq_left_iff] at hlive
  by_cases hpast : pastCount r (r.occurrencesProcessed + 1) ∨ pastEnd r date
  · exact absurd (fun hneg ↦ absurd hpast hneg) hlive
  · exact not_or.1 hpast

theorem bounded_step (hs : Bounded s) (hc : KeepsBounds h c s)
    (hstep : ScheduleStep h Eq Stored c held s s') : Bounded s' := by
  cases hstep with
  | keep hsame =>
    rw [Bounded, hsame.schedules]
    exact hs
  | create new r hcall hr _ hschedules _ _ =>
    subst hcall
    intro x hx hlive
    rw [hschedules, List.mem_append, List.mem_singleton] at hx
    rcases hx with hx | rfl
    · exact hs x hx hlive
    · obtain ⟨_, rfl, hstart⟩ := hr.startDate
      refine ⟨?_, ?_⟩
      · rintro ⟨n, hn, hle⟩
        rw [hr.maxOccurrences] at hn
        rw [hr.count] at hle
        exact absurd (hr.positive n hn) (by omega)
      · rintro ⟨e, he, hlt⟩
        have hdate := hr.date
        rw [hstart, hr.frequency, hr.intervalCount.1] at hdate
        rw [hr.endDate] at he
        exact absurd (hc _ hdate e he) (not_le.2 hlt)
  | edit patch before after hcall _ hknown hafter hs' =>
    subst hcall
    obtain ⟨_, _, hafter⟩ := hafter
    have hback : s'.recurringSchedules = writeBack s.recurringSchedules after := hs' ▸ rfl
    refine bounded_writeBack hs (fun hlive ↦ ?_) hback
    have hstatus : before.status ≠ .ended := by
      obtain ⟨_, _, -, -, -, hstatus, -⟩ := applyPatch_eq_ok hafter
      exact hstatus ▸ hlive
    obtain ⟨hmax, hend⟩ := hc before hknown rfl hstatus
    exact inBounds_patch (hs before hknown hstatus) hmax hend hafter
  | mark before toStatus hfrom _ _ hknown hs' =>
    have hback : s'.recurringSchedules = writeBack s.recurringSchedules
        { before with status := toStatus } := hs' ▸ rfl
    refine bounded_writeBack hs (fun _ ↦ ?_) hback
    exact hs before hknown hfrom
  | process schedule run _ _ _ hp =>
    obtain ⟨advanced, hadvanced, hschedules⟩ := hp.schedules
    exact bounded_writeBack hs (fun hlive ↦ inBounds_advance hadvanced hlive) hschedules
  | delete id _ _ hschedules _ _ =>
    intro r hr hlive
    rw [hschedules] at hr
    exact hs r (List.mem_filter.1 hr).1 hlive

theorem bounded_elsewhere (hs : Bounded s) (he : Elsewhere h s s') : Bounded s' := by
  obtain ⟨category, hcategory⟩ := he.recurringSchedules
  intro r hr hlive
  rw [hcategory] at hr
  obtain ⟨x, hx, rfl⟩ := List.mem_map.1 hr
  exact hs x hx hlive

theorem bounded_run (hprocessed : Processed h s) (hs : Bounded s) (hc : KeepsBounds h c s) :
    Bounded (c.run h parseSlip s) := by
  by_cases hdue : ∃ rounds bookId asOf, c = .recurringRunDue rounds bookId asOf
  · obtain ⟨rounds, bookId, asOf, rfl⟩ := hdue
    have hsteps : ReflTransGen (fun t t' ↦ ∃ held, ScheduleStep h Eq Stored
        (.recurringRunDue rounds bookId asOf) held t t') s
        (Call.run h parseSlip (.recurringRunDue rounds bookId asOf) s) := hprocessed.steps _
    generalize Call.run h parseSlip (.recurringRunDue rounds bookId asOf) s = t at hsteps ⊢
    induction hsteps with
    | refl => exact hs
    | tail _ hstep ih =>
      obtain ⟨_, hstep⟩ := hstep
      exact bounded_step (c := .recurringRunDue rounds bookId asOf) ih trivial hstep
  · have hsettled : (c.program h parseSlip).Settled :=
      program_settled fun rounds bookId asOf hceq ↦ hdue ⟨rounds, bookId, asOf, hceq⟩
    rcases hsettled.run_step (hprocessed.since c).guarantees with hsame | ⟨_, hstep⟩
    · rw [Call.run, hsame]
      exact hs
    · exact bounded_step hs hc hstep

end Step

theorem bounded_of_reachable (hs : Reachable h parseSlip (KeepsBounds h) s) :
    Processed h s ∧ Bounded s := by
  induction hs with
  | refl => exact ⟨⟨by simp, by simp, by simp, by simp, by simp⟩, by simp [Bounded]⟩
  | tail _ hstep ih =>
    cases hstep with
    | call c hc => exact ⟨ih.1.run c, bounded_run ih.1 ih.2 hc⟩
    | elsewhere he => exact ⟨ih.1.elsewhere he, bounded_elsewhere ih.2 he⟩

section Processing

/-- The schedules keep their bounds, and what has been processed since lies within them. -/
structure Honours (s t : Db) : Prop where
  bounds : ∀ r ∈ s.recurringSchedules, ∃ r' ∈ t.recurringSchedules, r'.id = r.id ∧
    r'.maxOccurrences = r.maxOccurrences ∧ r'.endDate = r.endDate
  runs : ∀ run ∈ t.recurringRuns, run ∉ s.recurringRuns → ∀ r ∈ s.recurringSchedules,
    r.id = run.scheduleId → ¬pastCount r run.occurrenceIndex ∧ ¬pastEnd r run.occurrenceDate

theorem Honours.refl (s : Db) : Honours s s :=
  ⟨fun r hr ↦ ⟨r, hr, rfl, rfl, rfl⟩, fun _ hrun hnew ↦ absurd hrun hnew⟩

theorem Honours.writeBack {t t' : Db} (hst : Honours s t) (ht : Processed h t)
    {before after : RecurringSchedule} (hbefore : before ∈ t.recurringSchedules)
    (hid : after.id = before.id) (hmax : after.maxOccurrences = before.maxOccurrences)
    (hend : after.endDate = before.endDate)
    (hschedules : t'.recurringSchedules = Steps.writeBack t.recurringSchedules after) :
    ∀ r ∈ s.recurringSchedules, ∃ r' ∈ t'.recurringSchedules, r'.id = r.id ∧
      r'.maxOccurrences = r.maxOccurrences ∧ r'.endDate = r.endDate := by
  intro r hr
  obtain ⟨x, hx, hxid, hxmax, hxend⟩ := hst.bounds r hr
  have hmem : (if x.id = after.id then overwrite after x else x) ∈ t'.recurringSchedules :=
    hschedules ▸ mem_writeBack.2 ⟨x, hx, rfl⟩
  refine ⟨_, hmem, ?_⟩
  split
  · next heq =>
    have hsame : x = before := ht.eq_of_id hx hbefore (heq.trans hid)
    subst hsame
    exact ⟨hxid, hmax.trans hxmax, hend.trans hxend⟩
  · exact ⟨hxid, hxmax, hxend⟩

theorem honours_step {t t' : Db} {c : Call} {held : List Held} (hc : RunsDue c)
    (ht : Processed h t) (hbounded : Bounded t) (hst : Honours s t)
    (hstep : ScheduleStep h Eq Stored c held t t') : Honours s t' := by
  cases hstep with
  | keep hsame =>
    constructor
    · rw [hsame.schedules]
      exact hst.bounds
    · rw [hsame.runs]
      exact hst.runs
  | create _ _ hcall => subst hcall; exact hc.elim
  | edit _ _ _ hcall => subst hcall; exact hc.elim
  | delete _ hcall => subst hcall; exact hc.elim
  | mark before toStatus _ _ _ hknown hs' =>
    have hback : t'.recurringSchedules = Steps.writeBack t.recurringSchedules
        { before with status := toStatus } := hs' ▸ rfl
    have hruns : t'.recurringRuns = t.recurringRuns := hs' ▸ rfl
    refine ⟨hst.writeBack ht hknown ?_ ?_ ?_ hback, hruns ▸ hst.runs⟩
    · rfl
    · rfl
    · rfl
  | process schedule run hlive _ hknown hp =>
    obtain ⟨advanced, hadvanced, hschedules⟩ := hp.schedules
    have hkept : advanced.maxOccurrences = schedule.maxOccurrences ∧
        advanced.endDate = schedule.endDate := by
      simp only [advance, except_bind_eq_ok, except_pure_eq_ok] at hadvanced
      obtain ⟨date, -, rfl⟩ := hadvanced
      exact ⟨rfl, rfl⟩
    refine ⟨hst.writeBack ht hknown (advance_eq_ok hadvanced).2.1 hkept.1 hkept.2 hschedules,
      fun x hx hnew r hr hid ↦ ?_⟩
    rw [hp.runs, List.mem_append, List.mem_singleton] at hx
    rcases hx with hx | rfl
    · exact hst.runs x hx hnew r hr hid
    · -- The copy is the stored row, whose next occurrence is the one processed.
      obtain ⟨r', hr', hrid, hmax, hend⟩ := hst.bounds r hr
      have hsame : r' = schedule := ht.eq_of_id hr' hknown (hrid.trans (hid.trans hp.scheduleId))
      subst hsame
      rw [hp.index, ht.date_eq hknown hp.date]
      simpa only [InBounds, pastCount, pastEnd, hmax, hend] using hbounded r' hknown hlive

theorem honours_run {c : Call} (hc : RunsDue c) (hs : Processed h s) (hbounded : Bounded s) :
    Honours s (c.run h parseSlip s) := by
  have hkeeps : ∀ t, KeepsBounds h c t := by
    intro t
    cases c <;> first | exact hc.elim | trivial
  have hsteps : ReflTransGen (fun t t' ↦ ∃ held, ScheduleStep h Eq Stored c held t t') s
      (c.run h parseSlip s) := hs.steps c
  have hall : Processed h (c.run h parseSlip s) ∧ Bounded (c.run h parseSlip s) ∧
      Honours s (c.run h parseSlip s) := by
    generalize c.run h parseSlip s = t at hsteps ⊢
    induction hsteps with
    | refl => exact ⟨hs, hbounded, .refl s⟩
    | tail _ hstep ih =>
      obtain ⟨_, hstep⟩ := hstep
      obtain ⟨hprocessed, hbounded, hhonours⟩ := ih
      exact ⟨hprocessed.stored_step hstep, bounded_step hbounded (hkeeps _) hstep,
        honours_step hc hprocessed hbounded hhonours hstep⟩
  exact hall.2.2

end Processing

section Agreement

abbrev dateAt (h : Host) (r : RecurringSchedule) (i : ℤ) : Except Fault String :=
  occurrenceDate h r.startDate r.frequency r.intervalCount i

/-- The runs of a schedule that is caught up from the occurrence `i` on. -/
inductive CatchesUp (h : Host) (asOf : String) (r : RecurringSchedule) : ℤ → List RecurringRun → Prop
  | stop (i : ℤ) (hstop : ∀ date, dateAt h r i = .ok date →
      pastCount r i ∨ pastEnd r date ∨ asOf < date) : CatchesUp h asOf r i []
  | next (i : ℤ) (run : RecurringRun) (rest : List RecurringRun) (hindex : run.occurrenceIndex = i)
      (hdate : dateAt h r i = .ok run.occurrenceDate) (hcount : ¬pastCount r i)
      (hend : ¬pastEnd r run.occurrenceDate) (hdue : run.occurrenceDate ≤ asOf)
      (hrest : CatchesUp h asOf r (i + 1) rest) : CatchesUp h asOf r i (run :: rest)

/-- A preview of at most `count` occurrences from the occurrence `i` on. -/
inductive Previews (h : Host) (r : RecurringSchedule) :
    ℕ → ℤ → List RecurringOccurrencePreview → Prop
  | full (i : ℤ) : Previews h r 0 i []
  | bound (count : ℕ) (i : ℤ)
      (hbound : pastCount r i ∨ ∃ date, dateAt h r i = .ok date ∧ pastEnd r date) :
      Previews h r (count + 1) i []
  | next (count : ℕ) (i : ℤ) (p : RecurringOccurrencePreview)
      (rest : List RecurringOccurrencePreview) (hindex : p.occurrenceIndex = i)
      (hdate : dateAt h r i = .ok p.occurrenceDate) (hcount : ¬pastCount r i)
      (hend : ¬pastEnd r p.occurrenceDate) (hrest : Previews h r count (i + 1) rest) :
      Previews h r (count + 1) i (p :: rest)

def previewed (p : RecurringOccurrencePreview) : ℤ × String :=
  (p.occurrenceIndex, p.occurrenceDate)

def processed (run : RecurringRun) : ℤ × String :=
  (run.occurrenceIndex, run.occurrenceDate)

variable {asOf text : String} {r : RecurringSchedule} {i : ℤ} {count : ℕ}
  {ps : List RecurringOccurrencePreview} {runs : List RecurringRun}

theorem Previews.later (hformat : FormatsInOrder h) (hn : 0 < r.intervalCount)
    (hsmall : 12 * r.intervalCount < 2 ^ 63) (hps : Previews h r count (i + 1) ps)
    (hi : Dated h r.startDate r.frequency r.intervalCount i text) :
    ∀ p ∈ ps, text < p.occurrenceDate := by
  generalize hj : i + 1 = j at hps
  induction hps generalizing i text with
  | full => simp
  | bound => simp
  | next count j p rest _ hdate _ _ _ ih =>
    subst hj
    obtain ⟨hnext, hlt⟩ := hi.succ hformat hn hsmall hdate
    intro q hq
    rcases List.mem_cons.1 hq with rfl | hq
    · exact hlt
    · exact hlt.trans (ih hnext rfl q hq)

/-- What is due of a preview is what is processed, as far as the preview goes. -/
theorem Previews.agrees (hformat : FormatsInOrder h) (hn : 0 < r.intervalCount)
    (hsmall : 12 * r.intervalCount < 2 ^ 63) (hps : Previews h r count i ps)
    (hruns : CatchesUp h asOf r i runs)
    (hi : ∀ text, dateAt h r i = .ok text →
      Dated h r.startDate r.frequency r.intervalCount i text) :
    (ps.filter fun p ↦ p.occurrenceDate ≤ asOf).map previewed =
      (runs.take count).map processed := by
  induction hps generalizing runs with
  | full => simp
  | bound count i hbound =>
    cases hruns with
    | stop => simp
    | next _ run rest _ hdate hcount hend =>
      rcases hbound with hpast | ⟨date, hdate', hpast⟩
      · exact absurd hpast hcount
      · rw [hdate, Except.ok.injEq] at hdate'
        exact absurd (hdate' ▸ hpast) hend
  | next count i p rest hindex hdate hcount hend hrest ih =>
    have hdated := hi _ hdate
    cases hruns with
    | stop _ hstop =>
      have hlater : asOf < p.occurrenceDate := by
        rcases hstop _ hdate with hpast | hpast | hlt
        · exact absurd hpast hcount
        · exact absurd hpast hend
        · exact hlt
      have hnone : (p :: rest).filter (fun p ↦ p.occurrenceDate ≤ asOf) = [] := by
        rw [List.filter_eq_nil_iff]
        intro q hq hle
        rcases List.mem_cons.1 hq with rfl | hq
        · exact absurd (of_decide_eq_true hle) (not_le.2 hlater)
        · have hlt := hrest.later hformat hn hsmall hdated q hq
          exact absurd (of_decide_eq_true hle) (not_le.2 (hlater.trans hlt))
      rw [hnone]
      simp
    | next _ run runs hindex' hdate' _ _ hdue hruns =>
      have heq : run.occurrenceDate = p.occurrenceDate := Except.ok.inj (hdate'.symm.trans hdate)
      have hsame : previewed p = processed run := by
        rw [previewed, processed, hindex, hindex', heq]
      have hkept : (p :: rest).filter (fun p ↦ p.occurrenceDate ≤ asOf) =
          p :: rest.filter fun p ↦ p.occurrenceDate ≤ asOf :=
        List.filter_cons_of_pos (decide_eq_true (heq ▸ hdue))
      rw [hkept, List.map_cons, List.take_succ_cons, List.map_cons, hsame]
      refine congrArg _ (ih hruns fun text htext ↦ ?_)
      exact (hdated.succ hformat hn hsmall htext).1

section Runs

variable {items : List RecurringScheduleItem} {schedule next : RecurringSchedule} {t : Db}
  {rounds : ℕ} {attempts : List (Except Fault RecurringRun)}

theorem previewFrom_previews (hps : (previewFrom h r items count i).run s = (.ok ps, t)) :
    Previews h r count i ps := by
  induction count generalizing i s ps with
  | zero =>
    cases hps
    exact .full i
  | succ count ih =>
    rw [previewFrom] at hps
    split at hps
    · next hpast =>
      cases hps
      exact .bound count i (.inl hpast)
    · next hcount =>
      obtain ⟨date, hdate, hps⟩ := run_ofExcept_bind_eq_ok.1 hps
      split at hps
      · next hpast =>
        cases hps
        exact .bound count i (.inr ⟨date, hdate, hpast⟩)
      · next hend =>
        obtain ⟨summary, u, -, hps⟩ := run_bind_eq_ok.1 hps
        obtain ⟨rest, v, hrest, hps⟩ := run_bind_eq_ok.1 hps
        cases hps
        exact .next count i _ rest rfl hdate hcount hend (ih hrest)

theorem orNotFound_of_run {α : Type} {f : Db → Except Fault α} {a : α}
    (hrun : (do ofExcept (← query f) : Service α).run s = (.ok a, t)) : f s = .ok a ∧ t = s := by
  rw [run_query_bind, run_ofExcept, Prod.mk.injEq] at hrun
  exact ⟨hrun.1, hrun.2.symm⟩

theorem processes_of_run {skip : Bool} {run : RecurringRun}
    (hrun : (recurringProcessOccurrence h schedule skip).run s = (.ok run, t)) :
    Processes h schedule s t run := by
  rw [recurringProcessOccurrence, run_bind_eq_ok] at hrun
  obtain ⟨book, u, hbook, hrun⟩ := hrun
  obtain ⟨-, rfl⟩ := orNotFound_of_run hbook
  obtain ⟨date, hdate, hrun⟩ := run_ofExcept_bind_eq_ok.1 hrun
  rw [run_atomically] at hrun
  exact processInTx_ensures hdate _ _ (commit_ok hrun)

structure Follows (r next : RecurringSchedule) : Prop where
  dates : ∀ h, dateAt h next = dateAt h r
  pastCount : pastCount next = pastCount r
  pastEnd : pastEnd next = pastEnd r
  count : next.occurrencesProcessed = r.occurrencesProcessed + 1
  live : next.status = .active ↔ InBounds next

theorem follows_of_processes {run : RecurringRun} (hs : Processed h s)
    (hschedule : schedule ∈ s.recurringSchedules) (hactive : schedule.status = .active)
    (hp : Processes h schedule s t run) (hnext : next ∈ t.recurringSchedules)
    (hid : next.id = schedule.id) : Follows schedule next := by
  obtain ⟨advanced, hadvanced, hschedules⟩ := hp.schedules
  simp only [advance, except_bind_eq_ok, except_pure_eq_ok] at hadvanced
  obtain ⟨date, -, rfl⟩ := hadvanced
  rw [hschedules, mem_writeBack] at hnext
  obtain ⟨r, hr, rfl⟩ := hnext
  by_cases hrid : r.id = schedule.id
  · have hsame : r = schedule := hs.eq_of_id hr hschedule hrid
    subst hsame
    rw [if_pos rfl]
    refine ⟨fun _ ↦ rfl, rfl, rfl, rfl, ?_⟩
    simp only [overwrite, hactive, ite_eq_right_iff, reduceCtorEq, imp_false, not_or]
    rfl
  · rw [if_neg hrid] at hid
    exact absurd hid hrid

theorem CatchesUp.of_follows (hruns : CatchesUp h asOf next i runs) (hnext : Follows r next) :
    CatchesUp h asOf r i runs := by
  induction hruns with
  | stop i hstop =>
    rw [hnext.dates, hnext.pastCount, hnext.pastEnd] at hstop
    exact .stop i hstop
  | next i run rest hindex hdate hcount hend hdue _ ih =>
    rw [hnext.dates] at hdate
    rw [hnext.pastCount] at hcount
    rw [hnext.pastEnd] at hend
    exact .next i run rest hindex hdate hcount hend hdue ih

/-- A schedule of which no occurrence fails is caught up. -/
theorem scheduleAttempts_catchesUp (hs : Processed h s)
    (hschedule : schedule ∈ s.recurringSchedules)
    (hlive : schedule.status = .active ↔ InBounds schedule)
    (hrun : (scheduleAttempts h rounds asOf schedule).run s = (.ok attempts, t))
    (hok : ∀ a ∈ attempts, ∃ run, a = .ok run) :
    CatchesUp h asOf schedule schedule.occurrencesProcessed (processedRuns attempts) := by
  induction rounds generalizing s schedule attempts with
  | zero => cases hrun
  | succ rounds ih =>
    rw [scheduleAttempts] at hrun
    split at hrun
    · next hidle =>
      cases hrun
      refine .stop _ fun date hdate ↦ ?_
      obtain rfl := hs.date_eq hschedule hdate
      rcases hidle with hidle | hlater
      · rw [ne_eq, hlive, InBounds, not_and_or, not_not, not_not] at hidle
        exact hidle.imp_right .inl
      · exact .inr (.inr hlater)
    · next hdue =>
      rw [not_or, not_not, not_lt] at hdue
      obtain ⟨hactive, hdue⟩ := hdue
      obtain ⟨result, u, hattempt, hrun⟩ := run_bind_eq_ok.1 hrun
      rw [run_attempt] at hattempt
      cases hattempt
      cases hprocess : (recurringProcessOccurrence h schedule false).run s with
      | mk result u =>
        rw [hprocess] at hrun
        cases result with
        | error e =>
          dsimp only at hrun
          split at hrun
          · cases hrun
          · cases hrun
            obtain ⟨run, hrun⟩ := hok _ (List.mem_singleton_self _)
            cases hrun
        | ok run =>
          have hp := processes_of_run hprocess
          dsimp only at hrun
          rw [run_bind_eq_ok] at hrun
          obtain ⟨next, v, hget, hrun⟩ := hrun
          obtain ⟨hget, rfl⟩ := orNotFound_of_run hget
          rw [run_bind_eq_ok] at hrun
          obtain ⟨rest, w, hrest, hrun⟩ := hrun
          cases hrun
          obtain ⟨hnext, hid⟩ := lookup_eq_some (orNotFound_eq_ok.1 hget)
          have hfollows := follows_of_processes hs hschedule hactive hp hnext hid
          have hagain := ih (hs.process ⟨schedule, hschedule, .refl schedule⟩ hp) hnext
            hfollows.live hrest fun a ha ↦ hok a (List.mem_cons_of_mem _ ha)
          rw [hfollows.count] at hagain
          have hbounds : InBounds schedule := hlive.1 hactive
          have hdate := hs.date_eq hschedule hp.date
          exact .next _ run _ hp.index hp.date hbounds.1 (hdate ▸ hbounds.2) (hdate ▸ hdue)
            (hagain.of_follows hfollows)

/-- What a preview shows as due by a date is what a run by that date processes, as far as the
preview goes, when none of the occurrences fails. -/
theorem preview_agrees (hformat : FormatsInOrder h) (hs : Reachable h parseSlip (KeepsBounds h) s)
    (hschedule : schedule ∈ s.recurringSchedules) (hactive : schedule.status = .active)
    (hn : 0 < schedule.intervalCount) (hsmall : 12 * schedule.intervalCount < 2 ^ 63)
    (hstart : ∀ start, h.parseDate schedule.startDate = some start → 0 ≤ start.year)
    {wanted : Option ℕ} {s' : Db}
    (hpreview : (recurringSchedulePreview h schedule.id wanted).run s = (.ok ps, s'))
    (hrun : (scheduleAttempts h rounds asOf schedule).run s = (.ok attempts, t))
    (hok : ∀ a ∈ attempts, ∃ run, a = .ok run) :
    (ps.filter fun p ↦ p.occurrenceDate ≤ asOf).map previewed =
      ((processedRuns attempts).take (max 1 (min (wanted.getD 1) 60))).map processed := by
  obtain ⟨hprocessed, hbounded⟩ := bounded_of_reachable hs
  have hbounds : InBounds schedule := hbounded schedule hschedule (by simp [hactive])
  have hruns := scheduleAttempts_catchesUp hprocessed hschedule (iff_of_true hactive hbounds)
    hrun hok
  rw [recurringSchedulePreview, run_bind_eq_ok] at hpreview
  obtain ⟨r, u, hget, hpreview⟩ := hpreview
  obtain ⟨hget, rfl⟩ := orNotFound_of_run hget
  obtain ⟨hmem, hid⟩ := lookup_eq_some (orNotFound_eq_ok.1 hget)
  obtain rfl : r = schedule := hprocessed.eq_of_id hmem hschedule hid
  have hpreviews : Previews h r (max 1 (min (wanted.getD 1) 60)) r.occurrencesProcessed ps := by
    dsimp only at hpreview
    split at hpreview
    · rw [run_bind_eq_ok] at hpreview
      obtain ⟨items, v, -, hpreview⟩ := hpreview
      exact previewFrom_previews hpreview
    · exact previewFrom_previews hpreview
  obtain ⟨k, hk⟩ := hprocessed.inOrder r hmem
  rw [hk.count] at hpreviews hruns
  exact hpreviews.agrees hformat hn hsmall hruns fun text htext ↦
    dated_of_start hn hsmall hstart hk.dated text htext

end Runs

end Agreement

end SlipScan.Schedules.Bounds
