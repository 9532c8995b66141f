import SlipScan.Schedules.Occurrences

namespace SlipScan.Schedules.Progress

open Model.Domain Model.Database Model.Recurring Model.Scheduling Model.Service Model.Slip
  Model.PlainHost Foundation.Transaction Foundation.Interleaving Foundation.Table Steps Occurrences
  Relation Process

variable {h : Host} {parseSlip : String → Except Fault SlipPayload} {ι : Type} [DecidableEq ι]
  {s s' : Db} {held : List Held}

def Persists (s s' : Db) : Prop :=
  ∀ r ∈ s.recurringSchedules, ∃ r' ∈ s'.recurringSchedules, r'.id = r.id ∧
    r'.startDate = r.startDate ∧ r'.frequency = r.frequency ∧ r'.intervalCount = r.intervalCount

instance : IsPreorder Db Persists where
  refl _ r hr := ⟨r, hr, rfl, rfl, rfl, rfl⟩
  trans s t u hst htu r hr := by
    obtain ⟨r', hr', hid, hstart, hfrequency, hinterval⟩ := hst r hr
    obtain ⟨r'', hr'', hid', hstart', hfrequency', hinterval'⟩ := htu r' hr'
    exact ⟨r'', hr'', hid'.trans hid, hstart'.trans hstart, hfrequency'.trans hfrequency,
      hinterval'.trans hinterval⟩

/-- The copy is one of a stored schedule, however old. -/
def Known (r : RecurringSchedule) (s : Db) : Prop :=
  ∃ stored ∈ s.recurringSchedules, r.id = stored.id ∧ r.startDate = stored.startDate ∧
    r.frequency = stored.frequency ∧ r.intervalCount = stored.intervalCount

theorem Known.persists {r : RecurringSchedule} (hr : Known r s) (hs : Persists s s') :
    Known r s' := by
  obtain ⟨stored, hstored, hid, hstart, hfrequency, hinterval⟩ := hr
  obtain ⟨stored', hstored', hid', hstart', hfrequency', hinterval'⟩ := hs stored hstored
  exact ⟨stored', hstored', hid.trans hid'.symm, hstart.trans hstart'.symm,
    hfrequency.trans hfrequency'.symm, hinterval.trans hinterval'.symm⟩

/-- A copy of a schedule has the counter and the next date of the stored row. -/
def upToDate (s : Db) (r : RecurringSchedule) : Bool :=
  s.recurringSchedules.any fun stored ↦ stored.id = r.id ∧
    stored.occurrencesProcessed = r.occurrencesProcessed ∧ stored.nextRunDate = r.nextRunDate

/-- No schedule has come further since the copy was read that the transaction writes back. An
occurrence that has its run is refused, and writes nothing. -/
def isFresh (s : Db) : List Held → Bool
  | [.schedule r] => upToDate s r
  | [.schedule r, .book _] => runExists s r.id r.occurrencesProcessed || upToDate s r
  | _ => true

abbrev Fresh (held : List Held) (s : Db) : Prop :=
  isFresh s held

theorem current_of_fresh (hs : Processed h s) (hfresh : Fresh held s) {r : RecurringSchedule}
    (hwrites : WritesBack held s r) (hknown : Known r s) : Current r s := by
  have hdate : upToDate s r := by
    rcases hwrites with rfl | ⟨⟨book, rfl⟩, hnew⟩
    · exact hfresh
    · rwa [Fresh, isFresh, hnew, Bool.false_or] at hfresh
  obtain ⟨stored, hstored, hid, hstart, hfrequency, hinterval⟩ := hknown
  obtain ⟨stored', hstored', hcond⟩ := List.any_eq_true.1 hdate
  obtain ⟨hid', hcount, hdate⟩ := of_decide_eq_true hcond
  have heq : stored' = stored := hs.eq_of_id hstored' hstored (hid'.trans hid)
  subst heq
  exact ⟨stored', hstored, hid, hstart, hfrequency, hinterval, hcount.symm, hdate.symm⟩

def NoDelete : Call → Prop
  | .recurringScheduleDelete _ => False
  | _ => True

def CallStep (h : Host) (held : List Held) (s s' : Db) : Prop :=
  ∃ c, NoDelete c ∧ ScheduleStep h Persists Known c held s s'

theorem persists_writeBack (after : RecurringSchedule)
    (hs : s'.recurringSchedules = writeBack s.recurringSchedules after) : Persists s s' := by
  intro r hr
  have hmem : (if r.id = after.id then overwrite after r else r) ∈ s'.recurringSchedules :=
    hs ▸ mem_writeBack.2 ⟨r, hr, rfl⟩
  refine ⟨_, hmem, ?_⟩
  split
  · exact ⟨rfl, rfl, rfl, rfl⟩
  · exact ⟨rfl, rfl, rfl, rfl⟩

theorem persists_processes {schedule : RecurringSchedule} {run : RecurringRun}
    (hp : Processes h schedule s s' run) : Persists s s' := by
  obtain ⟨advanced, -, hschedules⟩ := hp.schedules
  exact persists_writeBack advanced hschedules

theorem persists_callStep (hstep : CallStep h held s s') : Persists s s' := by
  obtain ⟨c, hc, hstep⟩ := hstep
  cases hstep with
  | keep hsame =>
    rw [Persists, hsame.schedules]
    exact refl_of Persists s
  | create _ r _ _ _ hschedules _ _ =>
    intro x hx
    exact ⟨x, hschedules ▸ List.mem_append_left _ hx, rfl, rfl, rfl, rfl⟩
  | edit _ _ after _ _ _ _ hs' => exact persists_writeBack after (hs' ▸ rfl)
  | mark before toStatus _ _ _ _ hs' =>
    exact persists_writeBack { before with status := toStatus } (hs' ▸ rfl)
  | process _ _ _ _ _ hp => exact persists_processes hp
  | delete id hid _ _ _ _ =>
    subst hid
    exact hc.elim

omit [DecidableEq ι] in
theorem calling_supported {calls : ι → List Call} (hcalls : ∀ i, ∀ c ∈ calls i, NoDelete c) :
    (calling h parseSlip s calls).Supported Persists (CallStep h) := by
  refine supported_calling fun i c hc t ↦ ?_
  have hsteps : (c.program h parseSlip).Since Persists (ScheduleStep h Persists Known c) t := by
    refine program_schedules (fun _ _ _ hr htu ↦ hr.persists htu)
      (fun _ r hr ↦ ⟨r, hr, rfl, rfl, rfl, rfl⟩) (fun _ _ _ _ ↦ ?_) c
    exact List.pairwise_of_forall fun _ _ _ _ _ _ _ _ _ hp hr ↦ hr.persists (persists_processes hp)
  exact fun u hu ↦ (hsteps u hu).mono (fun _ _ _ hs ↦ ⟨c, hcalls i c hc, hs⟩) fun _ _ _ ↦ trivial

/-- No schedule falls back. -/
def Forward (s s' : Db) : Prop :=
  ∀ r ∈ s.recurringSchedules, ∃ r' ∈ s'.recurringSchedules,
    r'.id = r.id ∧ r.occurrencesProcessed ≤ r'.occurrencesProcessed

instance : IsPreorder Db Forward where
  refl _ r hr := ⟨r, hr, rfl, le_rfl⟩
  trans s t u hst htu r hr := by
    obtain ⟨r', hr', hid, hle⟩ := hst r hr
    obtain ⟨r'', hr'', hid', hle'⟩ := htu r' hr'
    exact ⟨r'', hr'', hid'.trans hid, hle.trans hle'⟩

theorem forward_writeBack (hs : Processed h s) {r after : RecurringSchedule}
    (hcurrent : Current r s) (hid : after.id = r.id)
    (hle : r.occurrencesProcessed ≤ after.occurrencesProcessed)
    (hschedules : s'.recurringSchedules = writeBack s.recurringSchedules after) :
    Forward s s' := by
  obtain ⟨stored, hstored, hagrees⟩ := hcurrent
  intro x hx
  have hmem : (if x.id = after.id then overwrite after x else x) ∈ s'.recurringSchedules :=
    hschedules ▸ mem_writeBack.2 ⟨x, hx, rfl⟩
  refine ⟨_, hmem, ?_⟩
  split
  · next hxid =>
    have heq : x = stored := hs.eq_of_id hx hstored (hxid.trans (hid.trans hagrees.id))
    subst heq
    exact ⟨rfl, hagrees.occurrencesProcessed ▸ hle⟩
  · exact ⟨rfl, le_rfl⟩

theorem callStep_progress (hs : Processed h s) (hfresh : Fresh held s)
    (hstep : CallStep h held s s') : Processed h s' ∧ Forward s s' := by
  obtain ⟨c, hc, hstep⟩ := hstep
  refine ⟨hs.step (fun r hr hknown ↦ current_of_fresh hs hfresh hr hknown) hstep, ?_⟩
  cases hstep with
  | keep hsame =>
    rw [Forward, hsame.schedules]
    exact refl_of Forward s
  | create _ r _ _ _ hschedules _ _ =>
    intro x hx
    exact ⟨x, hschedules ▸ List.mem_append_left _ hx, rfl, le_rfl⟩
  | edit _ before after _ hheld hknown hafter hs' =>
    obtain ⟨_, _, hafter⟩ := hafter
    obtain ⟨_, _, -, -, hagrees, -⟩ := applyPatch_eq_ok hafter
    exact forward_writeBack hs (current_of_fresh hs hfresh (.inl hheld) hknown) hagrees.id
      hagrees.occurrencesProcessed.ge (hs' ▸ rfl)
  | mark before toStatus _ _ hheld hknown hs' =>
    have hback : s'.recurringSchedules = writeBack s.recurringSchedules
        { before with status := toStatus } := hs' ▸ rfl
    refine forward_writeBack hs (current_of_fresh hs hfresh (.inl hheld) hknown) ?_ ?_ hback
    · rfl
    · exact le_rfl
  | process schedule _ _ hheld hknown hp =>
    obtain ⟨advanced, hadvanced, hschedules⟩ := hp.schedules
    obtain ⟨-, hid, hcount⟩ := advance_eq_ok hadvanced
    have hcurrent := current_of_fresh hs hfresh (.inr ⟨hheld, hp.new⟩) hknown
    exact forward_writeBack hs hcurrent hid (by omega) hschedules
  | delete id hid _ _ _ _ =>
    subst hid
    exact hc.elim

theorem length_runsOf {r : RecurringSchedule} {k : ℕ} (hr : InOrder h r (runsOf s r.id) k) :
    r.occurrencesProcessed = (runsOf s r.id).length := by
  have hlength : (runsOf s r.id).length = k := by simpa using congrArg List.length hr.indices
  rw [hr.count, hlength]

theorem not_runExists {r : RecurringSchedule} {k : ℕ} (hr : InOrder h r (runsOf s r.id) k) :
    runExists s r.id r.occurrencesProcessed = false := by
  rw [runExists, List.any_eq_false]
  intro run hrun hcond
  obtain ⟨hid, hindex⟩ := of_decide_eq_true hcond
  have hmem : run.occurrenceIndex ∈ (List.range k).map (Nat.cast : ℕ → ℤ) := by
    rw [← hr.indices]
    exact List.mem_map_of_mem (List.mem_filter.2 ⟨hrun, decide_eq_true hid⟩)
  rw [hindex, hr.count] at hmem
  obtain ⟨a, ha, heq⟩ := List.mem_map.1 hmem
  rw [List.mem_range] at ha
  omega

/-- Progress is not lost in an interleaving whose transactions write back such copies of schedules
only that have the stored counter and next date. -/
theorem progress_never_lost (h : Host) (parseSlip : String → Except Fault SlipPayload)
    (hs : Reachable h parseSlip anyCall s) (calls : ι → List Call)
    (hcalls : ∀ i, ∀ c ∈ calls i, NoDelete c) (is js : List ι)
    (hturns : (calling h parseSlip s calls).Turns Fresh (is ++ js)) :
    let t := ((calling h parseSlip s calls).play is).store
    let t' := ((calling h parseSlip s calls).play (is ++ js)).store
    Forward t t' ∧ ∀ r ∈ t'.recurringSchedules,
      r.occurrencesProcessed = (runsOf t' r.id).length ∧
        occurrenceDate h r.startDate r.frequency r.intervalCount r.occurrencesProcessed =
          .ok r.nextRunDate ∧
        runExists t' r.id r.occurrencesProcessed = false := by
  intro t t'
  have hsupported : (calling h parseSlip s calls).Supported Persists (CallStep h) :=
    calling_supported hcalls
  have hsteps : ∀ {u u' : Db}, Processed h u →
      ReflTransGen (fun u u' ↦ ∃ held, Fresh held u ∧ CallStep h held u u') u u' →
      Processed h u' ∧ Forward u u' := by
    intro u u' hu hpath
    induction hpath with
    | refl => exact ⟨hu, refl_of Forward u⟩
    | tail _ hstep ih =>
      obtain ⟨_, hfresh, hstep⟩ := hstep
      obtain ⟨hprocessed, hforward⟩ := callStep_progress ih.1 hfresh hstep
      exact ⟨hprocessed, trans_of Forward ih.2 hforward⟩
  rw [turns_append] at hturns
  have hrely : ∀ held u u', CallStep h held u u' → Persists u u' := fun _ _ _ ↦ persists_callStep
  obtain ⟨hmid, -⟩ := hsteps (processed_of_reachable hs) (hsupported.play hrely hturns.1)
  have hend := hsteps hmid ((hsupported.play_supported hrely is).play hrely hturns.2)
  rw [← Config.play_append] at hend
  refine ⟨hend.2, fun r hr ↦ ?_⟩
  obtain ⟨k, hk⟩ := hend.1.inOrder r hr
  exact ⟨length_runsOf hk, hk.next, not_runExists hk⟩

def editAndRun : Bool → List Call
  | true => [.recurringScheduleUpdate "x" ⟨some "Flat", none, none, none, none, none, none, none,
      none, none, none, none, none⟩]
  | false => [.recurringRunDue 5 "book" (some "2025-03-15")]

def readFirst : List Bool :=
  List.replicate 3 true ++ List.replicate 20 false ++ [true]

def Edits : Call → Prop
  | .recurringScheduleUpdate .. | .recurringSchedulePause _ | .recurringScheduleResume _ => True
  | _ => False

def RunsDue : Call → Prop
  | .recurringRunDue .. | .recurringScheduleSkipNext _ => True
  | _ => False

theorem edit_loses_progress :
    ¬∀ s, Reachable plainHost noSlip anyCall s → ∀ calls : Bool → List Call,
      (∀ c ∈ calls true, Edits c) → (∀ c ∈ calls false, RunsDue c) → ∀ is : List Bool,
        let t := ((calling plainHost noSlip s calls).play is).store
        ∀ r ∈ t.recurringSchedules, r.occurrencesProcessed = (runsOf t r.id).length := by
  intro hclaim
  have hreach : Reachable plainHost noSlip anyCall rented := reachable_runs reachable_setup _
  have hcount := hclaim _ hreach editAndRun (by simp [editAndRun, Edits]) (by simp [editAndRun, RunsDue])
    readFirst
  exact absurd hcount (by decide +kernel)

theorem renamed_keeps_progress :
    let t := ((calling plainHost noSlip rented editAndRun).play
      (List.replicate 20 false ++ List.replicate 5 true)).store
    ∀ r ∈ t.recurringSchedules, r.occurrencesProcessed = (runsOf t r.id).length := by
  have hturns : (calling plainHost noSlip rented editAndRun).Turns Fresh
      (List.replicate 20 false ++ List.replicate 5 true) := by
    decide +kernel
  have hreach : Reachable plainHost noSlip anyCall rented := reachable_runs reachable_setup _
  have hprogress := progress_never_lost plainHost noSlip hreach editAndRun
    (by simp [editAndRun, NoDelete]) _ _ hturns
  exact fun r hr ↦ (hprogress.2 r hr).1

end SlipScan.Schedules.Progress
